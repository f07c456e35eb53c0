import Agenda.Directory
import Agenda.Proofs.Text

/-!
Reading what was written. The bytes of a text are read as that text, and a file that was written
is found where it was put; lines without line ends in them are its lines again.
-/

namespace Agenda

/-! ### Bytes -/

namespace Text

theorem toNat_ofNat_of_lt {n : Nat} (h : n < 256) : (UInt8.ofNat n).toNat = n :=
  UInt8.toNat_ofNat_of_lt' h

/-- A byte after the first one. -/
theorem decodeFrom_tail {low high n : Nat} (left bits : Nat) (hlow : low ≤ n) (hhigh : n ≤ high)
    (hn : n < 256) (rest : List UInt8) :
    decodeFrom (left + 1) low high bits (UInt8.ofNat n :: rest) =
      if left = 0 then (decodeFrom 0 0 0 0 rest).map (Char.ofNat (bits * 64 + n % 64) :: ·)
      else decodeFrom left 0x80 0xBF (bits * 64 + n % 64) rest := by
  simp [decodeFrom, toNat_ofNat_of_lt hn, hlow, hhigh]

/-- The first byte of several. -/
theorem decodeFrom_lead {owed low high bits n : Nat}
    (hlead : leadByte? n = some (owed, low, high, bits)) (h80 : 0x80 ≤ n) (hn : n < 256)
    (rest : List UInt8) :
    decodeFrom 0 0 0 0 (UInt8.ofNat n :: rest) = decodeFrom owed low high bits rest := by
  have hnot : ¬ n < 128 := by omega
  simp [decodeFrom, toNat_ofNat_of_lt hn, hnot, hlead]

/-- The first byte of three: the second one is in the range that it asks for, since no character is
a surrogate. -/
theorem leadByte?_three {v : Nat} (hlow : 0x800 ≤ v) (hhigh : v ≤ 0xFFFF)
    (hvalid : v < 0xD800 ∨ 0xDFFF < v) :
    ∃ low high, leadByte? (v / 4096 % 16 + 0xE0) = some (2, low, high, v / 4096 % 16) ∧
      low ≤ v / 64 % 64 + 128 ∧ v / 64 % 64 + 128 ≤ high := by
  unfold leadByte?
  rw [if_neg (by omega)]
  by_cases hE0 : v / 4096 % 16 + 0xE0 = 0xE0
  · refine ⟨0xA0, 0xBF, ?_, by omega, by omega⟩
    rw [if_pos hE0]
    simp
    omega
  · rw [if_neg hE0]
    by_cases hED : v / 4096 % 16 + 0xE0 = 0xED
    · refine ⟨0x80, 0x9F, ?_, by omega, by omega⟩
      rw [if_pos hED]
      simp
    · refine ⟨0x80, 0xBF, ?_, by omega, by omega⟩
      rw [if_neg hED, if_pos (by omega)]
      simp

/-- The first byte of four. -/
theorem leadByte?_four {v : Nat} (hlow : 0x10000 ≤ v) (hhigh : v < 0x110000) :
    ∃ low high, leadByte? (v / 262144 % 8 + 0xF0) = some (3, low, high, v / 262144 % 8) ∧
      low ≤ v / 4096 % 64 + 128 ∧ v / 4096 % 64 + 128 ≤ high := by
  unfold leadByte?
  rw [if_neg (by omega), if_neg (by omega), if_neg (by omega), if_neg (by omega)]
  by_cases hF0 : v / 262144 % 8 + 0xF0 = 0xF0
  · refine ⟨0x90, 0xBF, ?_, by omega, by omega⟩
    rw [if_pos hF0]
    simp
    omega
  · rw [if_neg hF0]
    by_cases hF3 : v / 262144 % 8 + 0xF0 ≤ 0xF3
    · refine ⟨0x80, 0xBF, ?_, by omega, by omega⟩
      rw [if_pos (by omega)]
      simp
    · refine ⟨0x80, 0x8F, ?_, by omega, by omega⟩
      rw [if_neg (by omega), if_pos (by omega)]
      simp

/-- The bytes of a character are read as that character. -/
theorem decodeFrom_utf8EncodeChar (c : Char) (rest : List UInt8) :
    decodeFrom 0 0 0 0 (String.utf8EncodeChar c ++ rest) =
      (decodeFrom 0 0 0 0 rest).map (c :: ·) := by
  have hvalid : c.toNat < 0xD800 ∨ 0xDFFF < c.toNat ∧ c.toNat < 0x110000 := c.valid
  have hchar : Char.ofNat c.toNat = c := Char.ofNat_toNat c
  unfold String.utf8EncodeChar
  simp only [show c.val.toNat = c.toNat from rfl]
  set v := c.toNat with hv
  by_cases h₁ : v ≤ 0x7F
  · have hlt : v < 128 := by omega
    rw [if_pos h₁, List.cons_append, List.nil_append, decodeFrom]
    simp [toNat_ofNat_of_lt (show v < 256 by omega), hlt, hchar]
  · by_cases h₂ : v ≤ 0x7FF
    · have hlead : leadByte? (v / 64 % 32 + 0xC0) = some (1, 0x80, 0xBF, v / 64 % 32) := by
        rw [leadByte?, if_pos (by omega)]
        simp
      have hbits : v / 64 % 32 * 64 + (v % 64 + 128) % 64 = v := by omega
      simp only [if_neg h₁, if_pos h₂, List.cons_append, List.nil_append]
      rw [decodeFrom_lead hlead (by omega) (by omega),
        decodeFrom_tail 0 _ (by omega) (by omega) (by omega), if_pos rfl, hbits, hchar]
    · by_cases h₃ : v ≤ 0xFFFF
      · obtain ⟨low, high, hlead, hlow, hhigh⟩ := leadByte?_three (v := v) (by omega) h₃ (by omega)
        have hbits : (v / 4096 % 16 * 64 + (v / 64 % 64 + 128) % 64) * 64 + (v % 64 + 128) % 64 =
            v := by omega
        simp only [if_neg h₁, if_neg h₂, if_pos h₃, List.cons_append, List.nil_append]
        rw [decodeFrom_lead hlead (by omega) (by omega),
          decodeFrom_tail 1 _ hlow hhigh (by omega), if_neg (by omega),
          decodeFrom_tail 0 _ (by omega) (by omega) (by omega), if_pos rfl, hbits, hchar]
      · obtain ⟨low, high, hlead, hlow, hhigh⟩ := leadByte?_four (v := v) (by omega) (by omega)
        have hbits : ((v / 262144 % 8 * 64 + (v / 4096 % 64 + 128) % 64) * 64 +
            (v / 64 % 64 + 128) % 64) * 64 + (v % 64 + 128) % 64 = v := by omega
        simp only [if_neg h₁, if_neg h₂, if_neg h₃, List.cons_append, List.nil_append]
        rw [decodeFrom_lead hlead (by omega) (by omega),
          decodeFrom_tail 2 _ hlow hhigh (by omega), if_neg (by omega),
          decodeFrom_tail 1 _ (by omega) (by omega) (by omega), if_neg (by omega),
          decodeFrom_tail 0 _ (by omega) (by omega) (by omega), if_pos rfl, hbits, hchar]

/-- The bytes of a text are read as that text. -/
theorem ofBytes?_toBytes (t : Text) : ofBytes? (toBytes t) = some t := by
  induction t with
  | nil => rfl
  | cons c t ih =>
      rw [ofBytes?, toBytes, List.flatMap_cons, decodeFrom_utf8EncodeChar]
      change (ofBytes? (toBytes t)).map (c :: ·) = _
      rw [ih]
      rfl

end Text

/-! ### Files -/

namespace Directory

variable {d d' : Directory} {p : Path} {lines : List Text}

theorem lookup_put (name : Text) (content : Bytes) (files : List (Text × Bytes)) :
    (put name content files).lookup name = some content := by
  induction files with
  | nil => simp [put]
  | cons file files ih =>
      obtain ⟨n, c⟩ := file
      by_cases hn : n = name
      · simp [put, hn]
      · have hbeq : (name == n) = false := by simpa using Ne.symm hn
        rw [put, if_neg hn, List.lookup_cons, hbeq]
        exact ih

theorem lookup_put_of_ne {name other : Text} (hne : other ≠ name) (content : Bytes)
    (files : List (Text × Bytes)) : (put name content files).lookup other = files.lookup other := by
  have hbeq : (other == name) = false := by simpa using hne
  induction files with
  | nil => rw [put, List.lookup_cons, hbeq]
  | cons file files ih =>
      obtain ⟨n, c⟩ := file
      rw [put]
      split
      · next hn => rw [List.lookup_cons, List.lookup_cons, hn, hbeq]
      · rw [List.lookup_cons, List.lookup_cons, ih]

/-- A file can be at the path: the name is one that files can have, and everything on the way is a
folder. The files in the directory do not matter. -/
structure Leads (d : Directory) (p : Path) : Prop where
  nameable : p.text.contains '\x00' = false
  short : (Text.toBytes p.text).length ≤ Path.maxBytes
  folders : (p.ancestors ++ [p]).find? (fun q => !d.isFolder q) = some p
  short_name : p.hasLongName = false

theorem Leads.locate_eq (h : d.Leads p) : d.locate p =
    match d.get? p.text with
    | some content => .file p.text content
    | none => .free p.text := by
  have hshort : ¬ Path.maxBytes < (Text.toBytes p.text).length := Nat.not_lt.2 h.short
  cases hget : d.get? p.text <;>
    simp only [locate, hget, h.nameable, hshort, h.folders, h.short_name, Bool.false_eq_true,
      if_false, if_true]

/-- If there is a file at the path or one can be made there, it has the name of the path. -/
theorem leads_of_locate {name : Text}
    (h : (∃ content, d.locate p = .file name content) ∨ d.locate p = .free name) :
    name = p.text ∧ d.Leads p := by
  unfold locate at h
  simp only at h
  split at h
  · simp at h
  · next hname =>
      split at h
      · simp at h
      · next hshort =>
          split at h
          · simp at h
          · next q hq =>
              split at h
              · simp at h
              · next hlong =>
                  -- The path itself decides: a part on the way that is no folder ends the search.
                  obtain ⟨rfl, rfl⟩ : q = p ∧ name = p.text := by
                    split at h
                    · split at h
                      · next heq => exact ⟨heq, by simpa [eq_comm] using h⟩
                      · simp at h
                    · split at h
                      · next heq => exact ⟨heq, by simpa [eq_comm] using h⟩
                      · simp at h
                  exact ⟨rfl, by simpa using hname, Nat.le_of_not_lt hshort, hq,
                    by simpa using hlong⟩

theorem linesAt_of_leads (h : d.Leads p) {content : Bytes} (hget : d.get? p.text = some content)
    {t : Text} (ht : Text.ofBytes? content = some t) :
    d.linesAt p = .ok (linesOf (evenLineEnds t)) := by
  unfold linesAt read
  rw [h.locate_eq, hget]
  simp only [ht]

/-- Writing to a path puts the content under its name, if a file can be there. -/
theorem eq_set_of_putLines (h : d.putLines p lines = .ok d') :
    d.Leads p ∧ d' = d.set p.text (Text.toBytes (Text.join ['\n'] lines)) := by
  obtain ⟨name, hlocate, rfl⟩ : ∃ name,
      ((∃ content, d.locate p = .file name content) ∨ d.locate p = .free name) ∧
        d' = d.set name (Text.toBytes (Text.join ['\n'] lines)) := by
    unfold putLines write at h
    split at h
    · next name content hl => exact ⟨name, .inl ⟨content, hl⟩, (Except.ok.inj h).symm⟩
    · next name hl => exact ⟨name, .inr hl, (Except.ok.inj h).symm⟩
    all_goals cases h
  obtain ⟨rfl, hleads⟩ := leads_of_locate hlocate
  exact ⟨hleads, rfl⟩

/-- A file that was written is read as the text that was written. -/
theorem linesAt_putLines (h : d.putLines p lines = .ok d') :
    d'.linesAt p = .ok (linesOf (evenLineEnds (Text.join ['\n'] lines))) := by
  obtain ⟨hleads, rfl⟩ := eq_set_of_putLines h
  -- The folders are the same as before.
  have hleads' : (d.set p.text (Text.toBytes (Text.join ['\n'] lines))).Leads p :=
    ⟨hleads.nameable, hleads.short, hleads.folders, hleads.short_name⟩
  exact linesAt_of_leads hleads' (lookup_put _ _ _) (Text.ofBytes?_toBytes _)

/-- Writing leaves the other files and the folders as they are. -/
theorem get?_of_putLines (h : d.putLines p lines = .ok d') :
    d'.folders = d.folders ∧ ∀ name, name ≠ p.text → d'.get? name = d.get? name := by
  obtain ⟨-, rfl⟩ := eq_set_of_putLines h
  exact ⟨rfl, fun name hne => lookup_put_of_ne hne _ _⟩

/-! ### Line ends -/

theorem evenLineEnds_of_not_mem {t : Text} (h : '\r' ∉ t) : evenLineEnds t = t := by
  induction t with
  | nil => rfl
  | cons c t ih =>
      have hc : c ≠ '\r' := fun hc => h (by simp [hc])
      have ht := ih fun hm => h (List.mem_cons_of_mem _ hm)
      rw [evenLineEnds]
      · rw [if_neg hc, ht]
      · intro cs heq
        exact absurd heq hc

theorem not_mem_evenLineEnds (t : Text) : '\r' ∉ evenLineEnds t := by
  fun_induction evenLineEnds t with
  | case1 => simp
  | case2 cs ih => simpa using ih
  | case3 c cs _ ih =>
      have hc : '\r' ≠ if c = '\r' then '\n' else c := by
        split
        · decide
        · next hc => exact Ne.symm hc
      rw [List.mem_cons, not_or]
      exact ⟨hc, ih⟩

/-- No line of a file has a line end in it. -/
theorem of_mem_linesAt (h : d.linesAt p = .ok lines) :
    ∀ line ∈ lines, '\n' ∉ line ∧ '\r' ∉ line := by
  unfold linesAt at h
  split at h
  · cases h
  · split at h
    · next t _ =>
        obtain rfl := Except.ok.inj h
        intro line hline
        unfold linesOf at hline
        split at hline
        · cases hline
        · exact ⟨Text.not_mem_of_mem_split hline,
            fun hm => not_mem_evenLineEnds t (Text.mem_of_mem_split hline hm)⟩
    · cases h

/-- Lines without line ends in them are the lines of the file that they were written to. -/
theorem linesAt_putLines_of_lines (h : d.putLines p lines = .ok d')
    (hlines : ∀ line ∈ lines, '\n' ∉ line ∧ '\r' ∉ line) (hne : ∃ line ∈ lines, line ≠ []) :
    d'.linesAt p = .ok lines := by
  obtain ⟨line, hline, hnonempty⟩ := hne
  have hcr : '\r' ∉ Text.join ['\n'] lines := by
    intro hm
    rcases Text.mem_join hm with hm | ⟨line, hline, hm⟩
    · simp at hm
    · exact (hlines line hline).2 hm
  have hsplit : Text.split '\n' (Text.join ['\n'] lines) = lines :=
    Text.split_join (List.ne_nil_of_mem hline) fun line hline => (hlines line hline).1
  have hjoin : Text.join ['\n'] lines ≠ [] := by
    intro hnil
    rw [← hsplit, hnil] at hline
    exact hnonempty (List.mem_singleton.1 hline)
  rw [linesAt_putLines h, evenLineEnds_of_not_mem hcr, linesOf, if_neg (by simpa using hjoin),
    hsplit]

end Directory

end Agenda
