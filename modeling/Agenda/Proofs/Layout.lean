import Agenda.Proofs.Bullet
import Agenda.Proofs.Entry
import Agenda.Proofs.Forest

/-!
The lines of a task, read back. A bullet is read as its words, and below it every line of a key is
read as that key with its value or its block. What the values become on the way is said by
`Layout.reread`; the lines of a forest are read as entries that follow its outline.
-/

namespace Agenda

namespace Layout

/-! ### Blocks -/

def readLine (size : Nat) (line : Text) : Text := Text.stripEnd (Line.expandTabs size line)

/-- The text of a block as it is read back: tabs are spaces, and blanks at the ends of lines and
blank lines at the end are gone. -/
def blockReading (size : Nat) (t : Text) : Text :=
  Text.join ['\n'] (((Text.split '\n' t).map (readLine size)).reverse.dropWhile
    List.isEmpty).reverse

/-- A text that a block keeps as it is. -/
structure BlockSafe (t : Text) : Prop where
  no_tab : '\t' ∉ t
  lines_end : ∀ line ∈ Text.split '\n' t, Text.stripEnd line = line
  last_line : (Text.split '\n' t).getLast? ≠ some []

instance (t : Text) : Decidable (BlockSafe t) :=
  decidable_of_iff ('\t' ∉ t ∧ (∀ line ∈ Text.split '\n' t, Text.stripEnd line = line) ∧
    (Text.split '\n' t).getLast? ≠ some [])
    ⟨fun ⟨h₁, h₂, h₃⟩ => ⟨h₁, h₂, h₃⟩, fun ⟨h₁, h₂, h₃⟩ => ⟨h₁, h₂, h₃⟩⟩

theorem BlockSafe.blockReading_eq {t : Text} (h : BlockSafe t) (size : Nat) :
    blockReading size t = t := by
  have hmap : (Text.split '\n' t).map (readLine size) = Text.split '\n' t := by
    conv_rhs => rw [← List.map_id (Text.split '\n' t)]
    apply List.map_congr_left
    intro line hline
    have htab : '\t' ∉ line := fun hc => h.no_tab (Text.mem_of_mem_split hline hc)
    rw [readLine, Line.expandTabs_of_no_tab htab, id, h.lines_end line hline]
  have hlast : (Text.split '\n' t).reverse.dropWhile List.isEmpty =
      (Text.split '\n' t).reverse := by
    cases hr : (Text.split '\n' t).reverse with
    | nil => rfl
    | cons line lines =>
        have hline : line ≠ [] := by
          rintro rfl
          exact h.last_line (by rw [List.getLast?_eq_head?_reverse, hr]; rfl)
        exact List.dropWhile_cons_of_neg (by simpa using hline)
  rw [blockReading, hmap, hlast, List.reverse_reverse, Text.join_split]

theorem no_tab_expandTabs (size : Nat) (t : Text) : '\t' ∉ Line.expandTabs size t := by
  intro h
  obtain ⟨c, -, hc⟩ := List.mem_flatMap.mp h
  split at hc
  · exact Line.no_tab_spaces size hc
  · next hne => exact hne (List.mem_singleton.mp hc).symm

theorem not_mem_readLine {size : Nat} {line : Text} :
    '\t' ∉ readLine size line ∧ ('\n' ∉ line → '\n' ∉ readLine size line) := by
  constructor
  · exact fun h => no_tab_expandTabs size line (Text.mem_of_mem_dropEndWhile h)
  · intro hline h
    obtain ⟨c, hc, hm⟩ := List.mem_flatMap.mp (Text.mem_of_mem_dropEndWhile h)
    split at hm
    · simp [Text.spaces] at hm
    · rw [List.mem_singleton.mp hm] at hline
      exact hline hc

/-- A text that a block keeps is safe, unless it is empty. -/
theorem blockSafe_of_blockReading_eq {size : Nat} {t : Text} (h : blockReading size t = t)
    (hne : t ≠ []) : BlockSafe t := by
  set texts := (((Text.split '\n' t).map (readLine size)).reverse.dropWhile
    List.isEmpty).reverse with htexts
  have hjoin : Text.join ['\n'] texts = t := h
  have hread : ∀ text ∈ texts, ∃ line ∈ Text.split '\n' t, text = readLine size line := by
    intro text ht
    have hmem := (List.dropWhile_suffix _).subset (List.mem_reverse.mp ht)
    obtain ⟨line, hline, rfl⟩ := List.mem_map.mp (List.mem_reverse.mp hmem)
    exact ⟨line, hline, rfl⟩
  have hnonempty : texts ≠ [] := by
    intro hnil
    rw [hnil] at hjoin
    exact hne hjoin.symm
  have hsplit : Text.split '\n' t = texts := by
    rw [← hjoin]
    apply Text.split_join hnonempty
    intro text ht
    obtain ⟨line, hline, rfl⟩ := hread text ht
    exact not_mem_readLine.2 (Text.not_mem_of_mem_split hline)
  refine ⟨?_, ?_, ?_⟩
  · intro htab
    rw [← hjoin] at htab
    rcases Text.mem_join htab with hm | ⟨text, ht, hm⟩
    · simp at hm
    · obtain ⟨line, -, rfl⟩ := hread text ht
      exact not_mem_readLine.1 hm
  · intro text ht
    obtain ⟨line, -, rfl⟩ := hread text (hsplit ▸ ht)
    exact Text.stripEnd_of_getLast fun c hc => Text.getLast_dropEndWhile hc
  · intro hlast
    rw [hsplit, htexts, List.getLast?_reverse] at hlast
    have hnot := List.head?_dropWhile_not List.isEmpty
      ((Text.split '\n' t).map (readLine size)).reverse
    rw [hlast] at hnot
    cases hnot

/-! ### Fields on lines of their own -/

def blockValue? (longValue : Nat) : Value → Option Text
  | .text t => if isBlock longValue t then some t else none
  | _ => none

def writtenField (o : Layout) (multiline : Bool) (f : Text × Value) :
    Except Oversize (Text × Written) :=
  match (if multiline then blockValue? o.longValue f.2 else none) with
  | some t => .ok (f.1, .block (blockReading o.step t))
  | none => (Scalar.write f.2).map fun w => (f.1, .inline w)

theorem fieldLines_eq (o : Layout) (margin : Text) (f : Text × Value) :
    o.fieldLines margin f =
      let line (written : Text) := margin ++ Text.spaces o.step ++ (f.1 ++ ':' :: ' ' :: written)
      match blockValue? o.longValue f.2 with
      | some t =>
        .ok (line Scalar.blockMarker :: (blockTexts o.wrapWidth t).map fun text =>
          if text.isEmpty then [] else margin ++ Text.spaces o.step ++ Text.spaces o.step ++ text)
      | none => (Scalar.write f.2).map fun w => [line w] := by
  obtain ⟨key, v⟩ := f
  cases v with
  | text t =>
      by_cases hb : isBlock o.longValue t = true
      · simp [fieldLines, blockValue?, hb, Text.concat]
      · simp [fieldLines, blockValue?, hb, Text.concat]
  | names xs => simp [fieldLines, blockValue?, Text.concat, Scalar.write, Except.map]
  | _ => simp [fieldLines, blockValue?, Text.concat]

/-- A key and a value are measured as a margin and what was written. -/
theorem ofText_keyLine (size index column : Nat) {key value : Text} (hkey : IsKey key)
    (hne : value ≠ []) (htrim : value.Trimmed) (hmem : ∀ c ∈ value, c ≠ '\n' ∧ c ≠ '\t') :
    Line.ofText size index (Text.spaces column ++ (key ++ ':' :: ' ' :: value)) =
      ⟨index, Text.spaces column ++ (key ++ ':' :: ' ' :: value), column,
        key ++ ':' :: ' ' :: value⟩ := by
  obtain ⟨c, cs, rfl⟩ := List.exists_cons_of_ne_nil hkey.ne_nil
  have hblank := isBlank_of_isKeyChar (hkey.isKeyChar c (by simp))
  refine Line.ofText_margin size index column (by simp) ?_ ⟨?_, ?_⟩
  · intro hm
    rcases List.mem_append.mp hm with hm | hm
    · exact absurd (hkey.isKeyChar _ hm) (by decide)
    · simp only [List.mem_cons, Char.reduceEq, false_or] at hm
      exact (hmem _ hm).2 rfl
  · intro d hd
    obtain rfl : c = d := by simpa using hd
    exact hblank
  · intro d hd
    rw [List.getLast?_append_cons, List.getLast?_cons_cons,
      List.getLast?_cons_of_ne_nil hne] at hd
    exact htrim.2 d hd

/-- A line with a key and a value below a bullet. -/
theorem isKeyLine_ofText {size index margin column : Nat} {key value : Text} (hkey : IsKey key)
    (hdeeper : margin < column) (hne : value ≠ []) (htrim : value.Trimmed)
    (hmem : ∀ c ∈ value, c ≠ '\n' ∧ c ≠ '\t') :
    Entry.IsKeyLine margin column
      (Line.ofText size index (Text.spaces column ++ (key ++ ':' :: ' ' :: value))) key value := by
  have hl := ofText_keyLine size index column hkey hne htrim hmem
  obtain ⟨c, cs, rfl⟩ := List.exists_cons_of_ne_nil hkey.ne_nil
  have hne' : ∀ d, isKeyStart d = false → c ≠ d := by
    rintro d hd rfl
    rw [hkey.1] at hd
    cases hd
  set body : Text := c :: cs ++ ':' :: ' ' :: value with hbody
  have hhead : (Line.ofText size index (Text.spaces column ++ body)).text.head? = some c := by
    rw [hl, hbody]
    rfl
  refine ⟨by rw [hl], hdeeper, ?_, ?_, ?_, ?_, ?_⟩
  · exact Line.keyed?_field (by rw [hl]) hkey htrim.1 fun hm => (hmem _ hm).1 rfl
  · rw [hl]
    rfl
  · exact Line.bullet?_of_head hhead (hne' _ (by decide))
  · exact Line.heading?_of_head hhead (hne' _ (by decide)) (hne' _ (by decide))
  · exact Line.isRule_of_mem (c := ':') (by rw [hl, hbody]; simp) (by decide) (by decide)
      (by decide)

theorem isKeyLine_marker (size index : Nat) {margin column : Nat} {key : Text}
    (hkey : IsKey key) (hdeeper : margin < column) :
    Entry.IsKeyLine margin column (Line.ofText size index
      (Text.spaces column ++ (key ++ ':' :: ' ' :: Scalar.blockMarker))) key Scalar.blockMarker :=
  isKeyLine_ofText hkey hdeeper (by decide) ⟨by decide, by decide⟩ (by decide)

theorem isKeyLine_form (size index : Nat) {margin column : Nat} {key w : Text}
    (hkey : IsKey key) (hdeeper : margin < column) (hform : Scalar.Form w) :
    Entry.IsKeyLine margin column
      (Line.ofText size index (Text.spaces column ++ (key ++ ':' :: ' ' :: w))) key w :=
  isKeyLine_ofText hkey hdeeper hform.ne_nil hform.trimmed fun _ hc =>
    ⟨(hform.mem hc).1, (hform.mem hc).2.2⟩

def blockLines (size column : Nat) (t : Text) : List Text :=
  (Text.split '\n' t).map fun line =>
    if line.isEmpty then [] else Text.spaces (column + size) ++ line

/-- Every line of a block belongs to it, and is read back. -/
theorem readLine_of_blockLines {size : Nat} (hsize : 0 < size) (index column : Nat)
    (lines : List Text) :
    let measured := Line.ofTexts size index (lines.map fun line =>
      if line.isEmpty then [] else Text.spaces (column + size) ++ line)
    (∀ l ∈ measured, l.isBlank = true ∨ column < l.indent) ∧
      measured.map (Entry.blockLine (column + size)) = lines.map (readLine size) := by
  induction lines generalizing index with
  | nil => exact ⟨by simp [Line.ofTexts], rfl⟩
  | cons line lines ih =>
      obtain ⟨hin, hread⟩ := ih (index + 1)
      simp only [List.map_cons, Line.ofTexts, List.forall_mem_cons]
      rw [hread]
      cases line with
      | nil => exact ⟨⟨.inl rfl, hin⟩, rfl⟩
      | cons c cs =>
          obtain ⟨hpos, hline⟩ := Line.blockLine_ofText size index (column + size) (c :: cs)
          rw [List.isEmpty_cons, if_neg (by decide), hline]
          refine ⟨⟨hpos.imp_right fun h => ?_, hin⟩, rfl⟩
          omega

theorem blockText_blockLines {size : Nat} (hsize : 0 < size) (index column : Nat) (t : Text) :
    (∀ l ∈ Line.ofTexts size index (blockLines size column t),
      l.isBlank = true ∨ column < l.indent) ∧
      Entry.blockText size column (Line.ofTexts size index (blockLines size column t)) =
        blockReading size t := by
  obtain ⟨hin, hread⟩ := readLine_of_blockLines hsize index column (Text.split '\n' t)
  refine ⟨hin, ?_⟩
  rw [Entry.blockText, blockLines, hread, blockReading]

theorem spaces_add (m n : Nat) : Text.spaces (m + n) = Text.spaces m ++ Text.spaces n :=
  (List.replicate_append_replicate).symm

/-- Without a limit to their width, the lines of a field are its block below the marker, or one line
with its written value. -/
theorem fieldLines_eq_ok {o : Layout} (hwrap : o.wrapWidth = none) {margin : Nat}
    {f : Text × Value} {ls : List Text} :
    o.fieldLines (Text.spaces margin) f = .ok ls ↔
      (∃ t, blockValue? o.longValue f.2 = some t ∧
        ls = (Text.spaces (margin + o.step) ++ (f.1 ++ ':' :: ' ' :: Scalar.blockMarker)) ::
          blockLines o.step (margin + o.step) t) ∨
      (blockValue? o.longValue f.2 = none ∧ ∃ w, Scalar.write f.2 = .ok w ∧
        ls = [Text.spaces (margin + o.step) ++ (f.1 ++ ':' :: ' ' :: w)]) := by
  rw [fieldLines_eq, hwrap]
  simp only [← spaces_add]
  cases blockValue? o.longValue f.2 with
  | some t =>
      simp only [blockTexts, Except.ok.injEq, Option.some.injEq, exists_eq_left', reduceCtorEq,
        false_and, or_false, eq_comm (b := ls)]
      rfl
  | none =>
      simp only [map_eq_ok, reduceCtorEq, false_and, exists_false, false_or, true_and,
        eq_comm (b := ls)]

/-- The lines of a field below a bullet. -/
theorem fieldLines_of_ok {o : Layout} (hstep : 0 < o.step) (hwrap : o.wrapWidth = none)
    {margin : Nat} {f : Text × Value} (hkey : IsKey f.1) {ls : List Text}
    (hls : o.fieldLines (Text.spaces margin) f = .ok ls) :
    ∃ w, o.writtenField true f = .ok w ∧ ∀ index,
      Entry.FieldLines o.step margin (margin + o.step) (Line.ofTexts o.step index ls) w := by
  have hdeeper : margin < margin + o.step := by omega
  unfold writtenField
  rw [if_pos rfl]
  rcases (fieldLines_eq_ok hwrap).1 hls with ⟨t, ht, rfl⟩ | ⟨hnone, w, hw, rfl⟩
  · rw [ht]
    refine ⟨_, rfl, fun index => ?_⟩
    obtain ⟨hin, hread⟩ := blockText_blockLines hstep (index + 1) (margin + o.step) t
    rw [← hread]
    exact .block (isKeyLine_marker _ _ hkey hdeeper) hin
  · rw [hnone]
    obtain ⟨hform, hmarker⟩ := Scalar.form_of_write hw
    refine ⟨(f.1, .inline w), by rw [hw]; rfl, fun index => ?_⟩
    exact .inline (isKeyLine_form _ _ hkey hdeeper hform) hform hmarker

/-! ### The line of a bullet -/

def bulletParts (lead : List Shorthand) (title : Option Text) (fields : List (Text × Text)) :
    List Text :=
  lead.map Shorthand.word ++ title.toList.map enquote ++
    fields.map fun f => Text.concat [f.1, ": ", f.2]

/-- The parts are joined words, so that joining them joins the words. -/
theorem join_bulletParts (lead : List Shorthand) (title : Option Text)
    (fields : List (Text × Text)) :
    Text.join [' '] (bulletParts lead title fields) =
      Text.join [' '] (Bullet.words lead title fields) := by
  set groups := (lead.map Shorthand.word ++ title.toList.map enquote).map ([·]) ++
    fields.map fun f => [keyWord f.1, f.2] with hgroups
  have hparts : bulletParts lead title fields = groups.map (Text.join [' ']) := by
    have hfield : ∀ f : Text × Text,
        Text.concat [f.1, ": ".toList, f.2] = Text.join [' '] [keyWord f.1, f.2] := by
      intro f
      simp [Text.concat, Text.join, keyWord]
    simp only [bulletParts, hgroups, hfield, List.map_append, List.map_map]
    rfl
  have hwords : Bullet.words lead title fields = groups.flatten := by
    rw [hgroups, List.flatten_append, ← List.flatMap_def, List.flatMap_singleton',
      ← List.flatMap_def, List.append_assoc]
    rfl
  rw [hparts, hwords]
  apply Text.join_flatten
  intro g hg
  rcases List.mem_append.mp hg with hg | hg
  · obtain ⟨w, -, rfl⟩ := List.mem_map.mp hg
    simp
  · obtain ⟨f, -, rfl⟩ := List.mem_map.mp hg
    simp

/-- What stands on a bullet, if every word of it has the form of a written value. -/
theorem content_of_words {lead : List Shorthand} (title : Option Text)
    {fields : List (Text × Text)} (hlead : ∀ s ∈ lead, s.Legible)
    (hfields : ∀ f ∈ fields, IsKey f.1 ∧ Scalar.Form f.2) (hne : fields ≠ []) :
    let content := Text.join [' '] (Bullet.words lead title fields)
    content ≠ [] ∧ content.Trimmed ∧ ∀ c ∈ content, c ≠ '\n' ∧ c ≠ '\r' ∧ c ≠ '\t' := by
  intro content
  have hform : ∀ w ∈ Bullet.words lead title fields, Scalar.Form w := fun w hw =>
    Bullet.form_of_mem_words hlead hfields hw
  have hwords : Bullet.words lead title fields ≠ [] := by
    obtain ⟨f, fields, rfl⟩ := List.exists_cons_of_ne_nil hne
    simp [Bullet.words, Bullet.bodyWords, fieldWords]
  refine ⟨Text.join_ne_nil hwords fun w hw => (hform w hw).ne_nil,
    Text.trimmed_join fun w hw => ⟨(hform w hw).ne_nil, (hform w hw).trimmed⟩, ?_⟩
  intro c hc
  rcases Text.mem_join hc with hc | ⟨w, hw, hc⟩
  · rw [List.mem_singleton.mp hc]
    decide
  · exact (hform w hw).mem hc

/-- The line of a bullet is its margin and what stands on it, without blanks at the end. -/
theorem bulletLine_eq (n : Nat) (parts : List Text) :
    bulletLine (Text.spaces n) parts =
      Text.spaces n ++ '-' :: Text.stripEnd (' ' :: Text.join [' '] parts) := by
  have hdash : isBlank '-' = false := by decide
  have hstrip := Text.dropEndWhile_cons_of_neg hdash (' ' :: Text.join [' '] parts)
  have hconcat : Text.concat [Text.spaces n, "- ".toList, Text.join [' '] parts] =
      Text.spaces n ++ '-' :: ' ' :: Text.join [' '] parts := by simp [Text.concat]
  rw [bulletLine, hconcat, Text.stripEnd, Text.dropEndWhile_append _ (by simp [hstrip]), hstrip]
  rfl

/-- The line of a bullet is measured as a margin and the joined words. -/
theorem ofText_bulletLine (size index n : Nat) {lead : List Shorthand} (title : Option Text)
    {fields : List (Text × Text)} (hlead : ∀ s ∈ lead, s.Legible)
    (hfields : ∀ f ∈ fields, IsKey f.1 ∧ Scalar.Form f.2) (hne : fields ≠ []) :
    let content := Text.join [' '] (Bullet.words lead title fields)
    let l := Line.ofText size index (bulletLine (Text.spaces n) (bulletParts lead title fields))
    l.index = index ∧ l.indent = n ∧ l.bullet? = some content ∧ l.isBlank = false := by
  intro content l
  obtain ⟨hcontent, htrim, hmem⟩ := content_of_words title hlead hfields hne
  have hbody : Text.Trimmed ('-' :: ' ' :: content) := by
    constructor
    · intro c hc
      obtain rfl : '-' = c := by simpa using hc
      decide
    · intro c hc
      rw [List.getLast?_cons_cons, List.getLast?_cons_of_ne_nil hcontent] at hc
      exact htrim.2 c hc
  have htab : '\t' ∉ ('-' :: ' ' :: content : Text) := by
    simp only [List.mem_cons, Char.reduceEq, false_or]
    exact fun hm => (hmem _ hm).2.2 rfl
  have hl : l = ⟨index, Text.spaces n ++ '-' :: ' ' :: content, n, '-' :: ' ' :: content⟩ := by
    have hstrip : Text.stripEnd (' ' :: content) = ' ' :: content :=
      Text.stripEnd_of_getLast fun c hc => hbody.2 c (by rwa [List.getLast?_cons_cons])
    have hline : bulletLine (Text.spaces n) (bulletParts lead title fields) =
        Text.spaces n ++ '-' :: ' ' :: content := by rw [bulletLine_eq, join_bulletParts, hstrip]
    rw [← Line.ofText_margin size index n (by simp) htab hbody, ← hline]
  refine ⟨by rw [hl], by rw [hl], ?_, by rw [hl]; rfl⟩
  exact Line.bullet?_content (by rw [hl]) htrim.1 fun hm => (hmem _ hm).1 rfl

/-- The line of a bullet is read as its shorthand, its title and its fields. -/
theorem read_bulletLine (size index n : Nat) {lead : List Shorthand} (title : Option Text)
    {fields : List (Text × Text)} (hlead : ∀ s ∈ lead, s.Legible)
    (hfields : ∀ f ∈ fields, IsKey f.1 ∧ Scalar.Form f.2) (hne : fields ≠ []) :
    let l := Line.ofText size index (bulletLine (Text.spaces n) (bulletParts lead title fields))
    ∃ content, l.index = index ∧ l.indent = n ∧ l.bullet? = some content ∧ l.isBlank = false ∧
      Bullet.headFields content (tokens content) =
        Bullet.withTitle (lead.foldl Fields.addShorthand []) title ∧
      Bullet.written (tokens content) = fields.map fun f => (f.1, .inline f.2) := by
  obtain ⟨hindex, hindent, hbullet, hblank⟩ :=
    ofText_bulletLine size index n title hlead hfields hne
  obtain ⟨hhead, hwritten⟩ := Bullet.read_words _ hlead (fun f hf => (hfields f hf).1) hne
    (Bullet.map_text_tokens_words hlead hfields)
  exact ⟨_, hindex, hindent, hbullet, hblank, hhead, hwritten⟩

/-! ### Ids -/

/-- An id that is written so that it is read back: in quotes, or without any blank. -/
def IdKept (id : Text) : Prop :=
  (∃ c ∈ id, isUnsafeInId c = true) ∨ ∀ c ∈ id, isBlank c = false

/-- A kept id is written as a value that stands for it. -/
theorem form_writeId {id : Text} (h : IdKept id) :
    Scalar.Form (writeId id) ∧ dequote (writeId id) = id := by
  unfold writeId
  split
  · next hplain =>
      simp only [Bool.and_eq_true, Bool.not_eq_true', List.isEmpty_eq_false_iff,
        List.any_eq_false] at hplain
      have hunquotable : ∀ c ∈ id, Scalar.isUnquotable c = false := by
        intro c hc
        have hsafe := hplain.2 c hc
        have hblank : isBlank c = false := by
          rcases h with ⟨d, hd, hunsafe⟩ | h
          · exact absurd hunsafe (hplain.2 d hd)
          · exact h c hc
        simp only [isUnsafeInId, Bool.or_eq_true, decide_eq_true_eq, not_or] at hsafe
        simp [Scalar.isUnquotable, hblank, hsafe]
      exact ⟨.plain hplain.1 hunquotable,
        Scalar.dequote_of_not_quoted (isQuotedString_plain hunquotable)⟩
  · exact ⟨.quoted id, dequote_enquote id⟩

end Layout

end Agenda
