import Agenda.Proofs.Except
import Agenda.Proofs.Number
import Agenda.Proofs.Token

/-!
Values are written in one of two forms: as a quoted string, or as a word that needs no quotes.
Either form is one token of a bullet and one value of a line, and reading it gives the value
back, with the same type.
-/

namespace Agenda.Scalar

inductive Form : Text → Prop
  | quoted (t : Text) : Form (enquote t)
  | plain {t : Text} (ne_nil : t ≠ []) (plain : ∀ c ∈ t, isUnquotable c = false) : Form t

theorem isBlank_of_not_unquotable {c : Char} (h : isUnquotable c = false) : isBlank c = false := by
  simp only [isUnquotable, Bool.or_eq_false_iff] at h
  exact h.1.1.1.1.1

namespace Form

theorem isWord {w : Text} (h : Form w) : IsWord w := by
  cases h with
  | quoted t => exact isWord_enquote t
  | plain hne h => exact isWord_plain hne h

theorem ne_nil {w : Text} (h : Form w) : w ≠ [] := h.isWord.ne_nil

/-- A written value is on one line and has no tab. -/
theorem mem {w : Text} (h : Form w) {c : Char} (hc : c ∈ w) : c ≠ '\n' ∧ c ≠ '\r' ∧ c ≠ '\t' := by
  cases h with
  | quoted t => exact mem_enquote hc
  | plain _ h =>
      have hb := isBlank_of_not_unquotable (h c hc)
      refine ⟨?_, ?_, ?_⟩
      all_goals
        rintro rfl
        exact absurd hb (by decide)

theorem trimmed {w : Text} (h : Form w) : Text.Trimmed w := by
  cases h with
  | quoted t =>
      obtain ⟨q, hq⟩ := head?_enquote t
      obtain ⟨q', hq'⟩ := getLast?_enquote t
      have hmark : ∀ r : Quote, isBlank r.mark = false := by
        intro r
        cases r <;> decide
      constructor
      · intro c hc
        rw [hq] at hc
        rw [← Option.some.inj hc]
        exact hmark q
      · intro c hc
        rw [hq'] at hc
        rw [← Option.some.inj hc]
        exact hmark q'
  | plain _ h =>
      exact ⟨fun c hc => isBlank_of_not_unquotable (h c (List.mem_of_mem_head? hc)),
        fun c hc => isBlank_of_not_unquotable (h c (List.mem_of_getLast? hc))⟩

/-- A written value is a quoted string or has no whitespace. -/
theorem isQuoted_or {w : Text} (h : Form w) :
    isQuotedString w = true ∨ ∀ c ∈ w, isBlank c = false := by
  cases h with
  | quoted t => exact .inl (isQuotedString_enquote t)
  | plain _ h => exact .inr fun c hc => isBlank_of_not_unquotable (h c hc)

end Form

theorem enquote_ne_blockMarker (t : Text) : enquote t ≠ blockMarker := by
  intro h
  have := isQuotedString_enquote t
  rw [h] at this
  exact absurd this (by decide)

/-! ### Writing -/

theorem isUnquotable_of_isNumberChar {c : Char} (h : isNumberChar c = true) :
    isUnquotable c = false := by
  simp only [isNumberChar, Bool.or_eq_true, Bool.and_eq_true, decide_eq_true_eq,
    List.contains_iff_mem] at h
  rcases h with h | h
  · have hd : c.isDigit = true := by
      simp only [Char.isDigit, ge_iff_le, Bool.and_eq_true, decide_eq_true_eq,
        UInt32.le_iff_toNat_le]
      exact h
    exact isUnquotable_of_isKeyChar (by simp [isKeyChar, Char.isAlphanum, hd])
  · have hall : ∀ d ∈ ['+', '-', '.', 'a', 'e', 'f', 'i', 'n'], isUnquotable d = false := by
      decide
    exact hall c h

theorem form_number (n : Number) : Form n.text :=
  .plain n.text_ne_nil fun _ hc => isUnquotable_of_isNumberChar (Number.mem_text hc)

theorem form_flag (b : Bool) : Form (if b then "true" else "false") := by
  refine .plain ?_ ?_ <;> cases b <;> decide

theorem mustQuote_eq_false {t : Text} (h : mustQuote t = .ok false) :
    t ≠ [] ∧ t ≠ blockMarker ∧ (∀ c ∈ t, isUnquotable c = false) ∧
      ∃ v, read t = .ok v ∧ v.isText = true := by
  unfold mustQuote at h
  split at h
  · cases h
  · next hc =>
      simp only [Bool.or_eq_true, not_or, List.isEmpty_iff, beq_iff_eq, List.any_eq_true,
        not_exists, not_and, Bool.not_eq_true] at hc
      obtain ⟨v, hread, htext⟩ := map_eq_ok.1 h
      exact ⟨hc.1.1.1.1, hc.1.1.1.2, hc.1.1.2, v, hread, by simpa using htext⟩

theorem write_shown {t w : Text}
    (h : (mustQuote t).map (fun q => if q then enquote t else t) = .ok w) :
    w = enquote t ∨ (w = t ∧ mustQuote t = .ok false) := by
  obtain ⟨quote, hm, rfl⟩ := map_eq_ok.1 h
  cases quote with
  | true => exact .inl rfl
  | false => exact .inr ⟨rfl, hm⟩

theorem write_number {n : Number} {w : Text} :
    write (.number n) = .ok w ↔ n.isWritable = true ∧ n.text = w := Value.spell_eq_ok

/-- A value is written in one of the two forms, and never as the marker of a block. -/
theorem form_of_write {v : Value} {w : Text} (h : write v = .ok w) :
    Form w ∧ w ≠ blockMarker := by
  have hshown : ∀ t : Text, (mustQuote t).map (fun q => if q then enquote t else t) = .ok w →
      Form w ∧ w ≠ blockMarker := by
    intro t ht
    rcases write_shown ht with rfl | ⟨rfl, hq⟩
    · exact ⟨.quoted t, enquote_ne_blockMarker t⟩
    · obtain ⟨hne, hmarker, hplain, -⟩ := mustQuote_eq_false hq
      exact ⟨.plain hne hplain, hmarker⟩
  cases v with
  | null => exact hshown "None" h
  | text t => exact hshown _ h
  | flag b =>
      obtain rfl := Except.ok.inj h
      exact ⟨form_flag b, by cases b <;> decide⟩
  | number n =>
      obtain ⟨-, rfl⟩ := write_number.1 h
      refine ⟨form_number n, fun hm => ?_⟩
      have hc := @Number.mem_text n '|' (by rw [hm]; simp [blockMarker])
      exact absurd hc (by decide)
  | names xs =>
      obtain rfl := Except.ok.inj h
      exact ⟨.quoted _, enquote_ne_blockMarker _⟩

/-! ### Reading -/

theorem dequote_of_not_quoted {t : Text} (h : isQuotedString t = false) : dequote t = t := by
  unfold dequote
  split
  · simp [h]
  · rfl

@[simp] theorem read_enquote (t : Text) : read (enquote t) = .ok (.text t) := by
  simp [read]

/-- What is read is a text without its quotes, a flag, or a number. -/
theorem read_cases {t : Text} {v : Value} (h : read t = .ok v) :
    v = .text (dequote t) ∨ (∃ b, v = .flag b) ∨
      ∃ n, Number.read? t = .ok (some n) ∧ v = .number n := by
  unfold read at h
  split at h
  · exact .inl (Except.ok.inj h).symm
  next hquoted =>
  split at h
  · exact .inr (.inl ⟨true, (Except.ok.inj h).symm⟩)
  split at h
  · exact .inr (.inl ⟨false, (Except.ok.inj h).symm⟩)
  obtain ⟨found, hn, rfl⟩ := map_eq_ok.1 h
  cases found with
  | none => exact .inl (by rw [dequote_of_not_quoted (by simpa using hquoted)])
  | some n => exact .inr (.inr ⟨n, hn, rfl⟩)

/-- A form that is read as a text stands for itself or is quoted. -/
theorem eq_text_of_read {t : Text} {v : Value} (h : read t = .ok v) (hv : v.isText = true) :
    v = .text (dequote t) := by
  rcases read_cases h with h | ⟨b, rfl⟩ | ⟨n, -, rfl⟩
  · exact h
  · cases hv
  · cases hv

theorem read_write_text {t w : Text} (h : write (.text t) = .ok w) : read w = .ok (.text t) := by
  rcases write_shown (t := t) h with rfl | ⟨rfl, hq⟩
  · exact read_enquote t
  · obtain ⟨-, -, hplain, v, hread, hv⟩ := mustQuote_eq_false hq
    rw [hread, eq_text_of_read hread hv, dequote_of_not_quoted (isQuotedString_plain hplain)]

theorem read_write_flag {b : Bool} {w : Text} (h : write (.flag b) = .ok w) :
    read w = .ok (.flag b) := by
  obtain rfl := Except.ok.inj h
  cases b <;> rfl

/-- A number is read back as a value as it is read back by itself. -/
theorem read_numberText (n : Number) :
    read n.text = (Number.read? n.text).map fun
      | some m => .number m
      | none => .text n.text := by
  have hplain : ∀ c ∈ n.text, isUnquotable c = false := fun _ hc =>
    isUnquotable_of_isNumberChar (Number.mem_text hc)
  have hletter : ∀ c, isNumberChar c = false → c ∉ n.text := by
    intro c hc hm
    rw [Number.mem_text hm] at hc
    cases hc
  have htrue : n.text ≠ "true".toList := fun he => hletter 't' (by decide) (by rw [he]; decide)
  have hfalse : n.text ≠ "false".toList := fun he => hletter 'l' (by decide) (by rw [he]; decide)
  rw [read, isQuotedString_plain hplain, if_neg (by decide), if_neg htrue]
  exact if_neg hfalse

theorem read_write_int {n : Int} {w : Text} (h : write (.number (.int n)) = .ok w) :
    read w = .ok (.number (.int n)) := by
  obtain ⟨hn, rfl⟩ := write_number.1 h
  rw [read_numberText, Number.text, Number.read?_ofInt (of_decide_eq_true hn)]
  rfl

/-- Decimal digits of every script can stand without quotes. -/
theorem isUnquotable_of_isDigit {c : Char} (h : Text.isDigit c = true) :
    isUnquotable c = false := by
  have hfar : ∀ z ∈ Text.zeros, ∀ k < 10, ∀ n ∈ [44, 34, 39, 96, 92, 0x85, 0xA0, 0x1680, 0x2028,
      0x2029, 0x202F, 0x205F, 0x3000], z + k ≠ n := by decide +kernel
  have hout : ∀ z ∈ Text.zeros, ∀ k < 10, ¬ (0x09 ≤ z + k ∧ z + k ≤ 0x0D) ∧
      ¬ (0x1C ≤ z + k ∧ z + k ≤ 0x20) ∧ ¬ (0x2000 ≤ z + k ∧ z + k ≤ 0x200A) := by
    decide +kernel
  obtain ⟨v, hv⟩ := Option.isSome_iff_exists.1 h
  obtain ⟨z, hz, -⟩ := Option.map_eq_some_iff.1 hv
  have hrange := List.find?_some hz
  simp only [Bool.and_eq_true, decide_eq_true_eq] at hrange
  have hmem := List.mem_of_find?_eq_some hz
  have hsum : z + (c.toNat - z) = c.toNat := by omega
  have hfar := hfar z hmem (c.toNat - z) (by omega)
  have hout := hout z hmem (c.toNat - z) (by omega)
  rw [hsum] at hfar hout
  have hne : ∀ d : Char, d.toNat ∈ [44, 34, 39, 96, 92, 0x85, 0xA0, 0x1680, 0x2028, 0x2029, 0x202F,
      0x205F, 0x3000] → c ≠ d := by
    rintro d hd rfl
    exact hfar _ hd rfl
  have hblank : isBlank c = false := by
    simp only [isBlank, Bool.or_eq_false_iff, Bool.and_eq_false_iff, decide_eq_false_iff_not,
      beq_eq_false_iff_ne]
    refine ⟨⟨⟨⟨⟨⟨⟨⟨⟨⟨?_, ?_⟩, ?_⟩, ?_⟩, ?_⟩, ?_⟩, ?_⟩, ?_⟩, ?_⟩, ?_⟩, ?_⟩
    case refine_1 => omega
    case refine_2 => omega
    case refine_6 => omega
    all_goals exact hfar _ (by decide)
  simp only [isUnquotable, Bool.or_eq_false_iff, decide_eq_false_iff_not]
  exact ⟨⟨⟨⟨⟨hblank, hne ',' (by decide)⟩, hne '"' (by decide)⟩, hne '\'' (by decide)⟩,
    hne '\x60' (by decide)⟩, hne '\\' (by decide)⟩

/-- An integer that is too large to be read is not written without quotes either. -/
theorem mustQuote_of_isOversize {t : Text} (h : Number.IsOversize t) :
    mustQuote t = .error .integer := by
  have hplain : ∀ c ∈ t, isUnquotable c = false := by
    intro c hc
    rcases h.mem c hc with rfl | rfl | hd
    · decide
    · decide
    · exact isUnquotable_of_isDigit hd
  have hnot : ∀ c, c ≠ '+' → c ≠ '-' → Text.isDigit c = false → c ∉ t := fun c hplus hminus hd =>
    h.not_mem hd hplus hminus
  have hnumber : Number.read? t = .error .integer := by
    rw [Number.read?_eq_error_iff, Text.dropFinalNewline_of_not_mem]
    · exact h
    · exact hnot _ (by decide) (by decide) (by decide)
  -- So it is none of the words that are read as something else than a number.
  have hhead : ∀ c, c ∉ t → t.head? ≠ some c := fun c hc h => hc (List.mem_of_mem_head? h)
  have heq : ∀ u : Text, ∀ c ∈ u, c ∉ t → t ≠ u := fun u c hc hnot h => hnot (h ▸ hc)
  have hread : read t = .error .integer := by
    rw [read, isQuotedString_plain hplain, if_neg (by decide),
      if_neg (heq _ 't' (by decide) (hnot _ (by decide) (by decide) (by decide))),
      if_neg (heq _ 'f' (by decide) (hnot _ (by decide) (by decide) (by decide))), hnumber]
    rfl
  have hany : t.any isUnquotable = false := by
    rw [List.any_eq_false]
    exact fun c hc => by simp [hplain c hc]
  have hmarker : t ≠ blockMarker :=
    heq _ '|' (by decide) (hnot _ (by decide) (by decide) (by decide))
  have hsign := hhead '#' (hnot _ (by decide) (by decide) (by decide))
  have hat := hhead '@' (hnot _ (by decide) (by decide) (by decide))
  rw [mustQuote, hread, if_neg]
  · rfl
  · simp [h.ne_nil, hmarker, hany, hsign, hat]

theorem exists_read {t : Text} {found : Option Number} (h : Number.read? t = .ok found) :
    ∃ v, read t = .ok v := by
  unfold read
  split
  · exact ⟨_, rfl⟩
  · split
    · exact ⟨_, rfl⟩
    · split
      · exact ⟨_, rfl⟩
      · rw [h]
        exact ⟨_, rfl⟩

theorem exists_mustQuote {t : Text} {v : Value} (h : read t = .ok v) :
    ∃ quote, mustQuote t = .ok quote := by
  unfold mustQuote
  split
  · exact ⟨_, rfl⟩
  · rw [h]
    exact ⟨_, rfl⟩

/-- A text can be written unless it is an integer that is too large to be read. -/
theorem exists_write_text {t : Text} :
    (∃ w, write (.text t) = .ok w) ↔ ¬ Number.IsOversize t := by
  have hwrite : (∃ w, write (.text t) = .ok w) ↔ ∃ quote, mustQuote t = .ok quote :=
    exists_map_eq_ok
  rw [hwrite]
  constructor
  · rintro ⟨quote, hquote⟩ hover
    rw [mustQuote_of_isOversize hover] at hquote
    cases hquote
  · intro hover
    by_cases hnl : '\n' ∈ t
    · have hany : t.any isUnquotable = true := List.any_eq_true.2 ⟨_, hnl, by decide⟩
      exact ⟨true, by simp [mustQuote, hany]⟩
    · cases hn : Number.read? t with
      | error e =>
          rw [Number.read?_eq_error_iff, Text.dropFinalNewline_of_not_mem hnl] at hn
          exact absurd hn hover
      | ok found =>
          obtain ⟨v, hv⟩ := exists_read hn
          exact exists_mustQuote hv

end Agenda.Scalar
