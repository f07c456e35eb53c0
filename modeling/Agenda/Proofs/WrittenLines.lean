import Agenda.Proofs.Headings

/-!
What the lines of written tasks cannot be. None of them is a heading, wherever the tasks stand, and
as long as every id is kept none of them has a line feed in it, nor a carriage return that is not
in the text of a block. So a document into which they are put has them as its lines.
-/

namespace Agenda

namespace Layout

variable {o : Layout} {t : Task} {id : Text} {depth : Nat} {ls : List Text}

def idBullet (o : Layout) (depth : Nat) (t : Task) (kvs : List (Text × Text)) (id : Text) : Text :=
  bulletLine (Text.spaces (depth * o.step))
    (bulletParts (lead (!isMultiline o.longValue t) t.fields) t.title?
      (kvs ++ [(Key.id, writeId id)]))

theorem of_mem_fieldsBelow (ht : t.Sound) {f : Text × Value} (hf : f ∈ o.fieldsBelow t) :
    IsKey f.1 ∧ f.1 ≠ Key.id := by
  unfold fieldsBelow at hf
  split at hf
  · obtain ⟨hm, -, hne, -⟩ := mem_otherFields.1 hf
    exact ⟨ht.isKey f hm, hne⟩
  · cases hf

/-- The lines of a task are the line of its bullet and those of the fields below it. -/
theorem taskLines_shape (ht : t.Sound) (hid : t.id? = some id)
    (hls : o.taskLines depth t = .ok ls) :
    ∃ (kvs : List (Text × Text)) (groups : List (List Text)),
      ls = o.idBullet depth t kvs id :: groups.flatten ∧
      (∀ kv ∈ kvs, IsKey kv.1 ∧ kv.1 ≠ Key.id ∧ Scalar.Form kv.2) ∧
      List.Forall₂ (fun f ls => o.fieldLines (Text.spaces (depth * o.step)) f = .ok ls)
        (o.fieldsBelow t) groups := by
  unfold idBullet fieldsBelow
  rcases taskLines_eq_ok.1 hls with ⟨hm, groups, hgroups, rfl⟩ | ⟨hm, parts, hparts, rfl⟩
  · rw [hm]
    refine ⟨[], groups, ?_, by simp, hgroups⟩
    have hparts := bulletParts_id (lead false t.fields) [] hid
    simp only [List.map_nil, List.append_nil, List.nil_append] at hparts
    rw [shorthand_eq_map_word, hparts]
    rfl
  · rw [hm]
    obtain ⟨kvs, rfl, hforms, -⟩ := inlineFields_words (o := o) hparts
    refine ⟨kvs, [], ?_, ?_, .nil⟩
    · simp only [shorthand_eq_map_word, bulletParts_id _ _ hid]
      rfl
    · intro kv hkv
      obtain ⟨⟨f, hf, hkey⟩, hform⟩ := hforms kv hkv
      obtain ⟨hm, -, hne, -⟩ := mem_otherFields.1 hf
      rw [← hkey]
      exact ⟨ht.isKey f hm, hne, hform⟩

/-- The shorthand of a task can be read. -/
theorem legible_lead (ht : t.Sound) :
    ∀ s ∈ lead (!isMultiline o.longValue t) t.fields, s.Legible := by
  apply legible_of_mem_lead
  intro hinline key xs hlist hget
  exact ht.isKeyChar_of_inline (by simpa using hinline) hlist hget

/-! ### Characters -/

theorem not_mem_spaces {c : Char} (hc : c ≠ ' ') (n : Nat) : c ∉ Text.spaces n := by
  simp [Text.spaces, hc]

/-- What is no character of a key occurs in the line of a key only if it does in the value. -/
theorem not_mem_keyLine {c : Char} (hchar : isKeyChar c = false) (hspace : c ≠ ' ')
    (hcolon : c ≠ ':')
    {key value : Text} (hkey : IsKey key) (hvalue : c ∉ value) (n : Nat) :
    c ∉ Text.spaces n ++ (key ++ ':' :: ' ' :: value) := by
  simp only [List.mem_append, List.mem_cons, hcolon, hspace, false_or, not_or]
  refine ⟨not_mem_spaces hspace n, fun hm => ?_, hvalue⟩
  rw [hkey.isKeyChar c hm] at hchar
  cases hchar

theorem of_mem_blockLines {size column : Nat} {x l : Text} (hl : l ∈ blockLines size column x) :
    '\n' ∉ l ∧ ('\r' ∈ l → '\r' ∈ x) := by
  obtain ⟨line, hline, rfl⟩ := List.mem_map.mp hl
  split
  · exact ⟨by simp, by simp⟩
  · simp only [List.mem_append, not_mem_spaces (by decide : '\n' ≠ ' '),
      not_mem_spaces (by decide : '\r' ≠ ' '), false_or]
    exact ⟨Text.not_mem_of_mem_split hline, Text.mem_of_mem_split hline⟩

/-- The lines of a field: no line feeds in them, and carriage returns only from a block. -/
theorem of_mem_fieldLines (hwrap : o.wrapWidth = none) {margin : Nat} {f : Text × Value}
    (hkey : IsKey f.1) (hls : o.fieldLines (Text.spaces margin) f = .ok ls) :
    ∀ l ∈ ls, '\n' ∉ l ∧ ('\r' ∈ l → ∃ x ∈ blockValue? o.longValue f.2, '\r' ∈ x) := by
  have hkeyline : ∀ value : Text, '\n' ∉ value → '\r' ∉ value → ∀ n,
      '\n' ∉ Text.spaces n ++ (f.1 ++ ':' :: ' ' :: value) ∧
        '\r' ∉ Text.spaces n ++ (f.1 ++ ':' :: ' ' :: value) := fun value hnl hcr n =>
    ⟨not_mem_keyLine (by decide) (by decide) (by decide) hkey hnl n,
      not_mem_keyLine (by decide) (by decide) (by decide) hkey hcr n⟩
  rcases (fieldLines_eq_ok hwrap).1 hls with ⟨x, hx, rfl⟩ | ⟨-, w, hw, rfl⟩
  · rw [List.forall_mem_cons]
    constructor
    · obtain ⟨hnl, hcr⟩ := hkeyline Scalar.blockMarker (by decide) (by decide) (margin + o.step)
      exact ⟨hnl, fun hm => absurd hm hcr⟩
    · intro l hl
      obtain ⟨hnl, hcr⟩ := of_mem_blockLines hl
      exact ⟨hnl, fun hm => ⟨x, hx, hcr hm⟩⟩
  · rw [List.forall_mem_singleton]
    have hform := (Scalar.form_of_write hw).1
    obtain ⟨hnl, hcr⟩ := hkeyline w (fun hm => (hform.mem hm).1 rfl)
      (fun hm => (hform.mem hm).2.1 rfl) (margin + o.step)
    exact ⟨hnl, fun hm => absurd hm hcr⟩

/-- The fields on a bullet and its id, as they are written. -/
theorem form_of_mem_idFields {kvs : List (Text × Text)}
    (hkvs : ∀ kv ∈ kvs, IsKey kv.1 ∧ kv.1 ≠ Key.id ∧ Scalar.Form kv.2) (hkept : IdKept id) :
    ∀ f ∈ kvs ++ [(Key.id, writeId id)], IsKey f.1 ∧ Scalar.Form f.2 := by
  intro f hf
  rcases List.mem_append.mp hf with hf | hf
  · exact ⟨(hkvs f hf).1, (hkvs f hf).2.2⟩
  · rw [List.mem_singleton.mp hf]
    exact ⟨isKey_id, (form_writeId hkept).1⟩

theorem of_mem_idBullet (o : Layout) (depth : Nat) (ht : t.Sound) (hkept : IdKept id)
    {kvs : List (Text × Text)}
    (hkvs : ∀ kv ∈ kvs, IsKey kv.1 ∧ kv.1 ≠ Key.id ∧ Scalar.Form kv.2) :
    ∀ c ∈ o.idBullet depth t kvs id, c ≠ '\n' ∧ c ≠ '\r' := by
  obtain ⟨-, -, hmem⟩ := content_of_words t.title? (legible_lead (o := o) ht)
    (form_of_mem_idFields hkvs hkept) (by simp)
  have hspace : ' ' ≠ '\n' ∧ ' ' ≠ '\r' := by decide
  rw [idBullet, bulletLine_eq, join_bulletParts]
  intro c hc
  rcases List.mem_append.mp hc with hc | hc
  · rw [List.eq_of_mem_replicate hc]
    exact hspace
  · rcases List.mem_cons.mp hc with rfl | hc
    · decide
    · rcases List.mem_cons.mp (Text.mem_of_mem_dropEndWhile hc) with rfl | hc
      · exact hspace
      · exact ⟨(hmem c hc).1, (hmem c hc).2.1⟩

/-- The lines of a task whose id is kept are lines, and carriage returns in them are from its
blocks. -/
theorem of_mem_taskLines (hwrap : o.wrapWidth = none) (ht : t.Sound) (hkept : KeepsId t)
    (hls : o.taskLines depth t = .ok ls) :
    ∀ l ∈ ls, '\n' ∉ l ∧ ('\r' ∈ l → ∃ x ∈ o.blocks t, '\r' ∈ x) := by
  obtain ⟨id, hne, hid⟩ := ht.has_id
  obtain ⟨kvs, groups, rfl, hkvs, hgroups⟩ := taskLines_shape ht hid hls
  intro l hl
  rcases List.mem_cons.mp hl with rfl | hl
  · have hmem := of_mem_idBullet o depth ht (hkept id hid) hkvs
    exact ⟨fun hm => (hmem _ hm).1 rfl, fun hm => absurd rfl (hmem _ hm).2⟩
  · obtain ⟨group, hgroup, hl⟩ := List.mem_flatten.1 hl
    obtain ⟨f, hf, hlines⟩ := exists_of_mem_forall₂ hgroups hgroup
    obtain ⟨hnl, hcr⟩ := of_mem_fieldLines hwrap (of_mem_fieldsBelow ht hf).1 hlines l hl
    refine ⟨hnl, fun hm => ?_⟩
    obtain ⟨x, hx, hm⟩ := hcr hm
    exact ⟨x, List.mem_filterMap.2 ⟨f, hf, hx⟩, hm⟩

/-- A line of a forest is a line of one of its tasks. -/
theorem exists_taskLines {f : Forest Task} (hls : o.forestLines depth f = .ok ls) {l : Text}
    (hl : l ∈ ls) : ∃ t ∈ f.toList, ∃ n lines, o.taskLines n t = .ok lines ∧ l ∈ lines := by
  obtain ⟨groups, rfl, hgroups⟩ := exists_outlineLines hls
  obtain ⟨lines, hlines, hl⟩ := List.mem_flatten.1 hl
  obtain ⟨p, hp, hp'⟩ := exists_of_mem_forall₂ hgroups hlines
  refine ⟨p.2, ?_, p.1, lines, hp', hl⟩
  rw [← Forest.map_snd_outline f depth]
  exact List.mem_map_of_mem hp

/-- No line of a forest is a heading. -/
theorem level?_of_mem_forestLines (hwrap : o.wrapWidth = none) (hstep : 2 ≤ o.step)
    {f : Forest Task} (hf : ∀ t ∈ f.toList, t.Sound) (hls : o.forestLines depth f = .ok ls) :
    ∀ l ∈ ls, Heading.level? l = none := by
  intro l hl
  obtain ⟨t, ht, n, lines, hlines, hl⟩ := exists_taskLines hls hl
  exact (heading_taskLines hwrap (hf t ht).isKey hlines).2 (clearAt_of_two_le hstep t) l hl

/-- Between the lines of a section, the lines of a forest are all that is not blank. -/
theorem exists_blank_after_forestLines (hwrap : o.wrapWidth = none) (hstep : 2 ≤ o.step)
    {f : Forest Task} (hf : ∀ t ∈ f.toList, t.Sound) (hls : o.forestLines depth f = .ok ls)
    {level : Nat} {after : List Text}
    (hafter : ∀ line ∈ after.takeWhile (!Section.closes level ·), line = []) (index : Nat) :
    ∃ blanks, Line.ofTexts o.step index ((ls ++ after).takeWhile (!Section.closes level ·)) =
        Line.ofTexts o.step index ls ++ blanks ∧ ∀ l ∈ blanks, l.isBlank = true := by
  have hopen : ∀ line ∈ ls, (!Section.closes level line) = true := by
    intro line hline
    have hnone := level?_of_mem_forestLines hwrap hstep hf hls line hline
    simp [Section.closes_of_level?_eq_none hnone]
  rw [List.takeWhile_append_of_pos hopen, Line.ofTexts_append]
  refine ⟨_, rfl, ?_⟩
  intro l hl
  obtain ⟨i, text, htext, rfl⟩ := Line.mem_ofTexts hl
  rw [hafter text htext]
  rfl

/-- No line of a forest has a line feed in it, if every id is kept. -/
theorem not_mem_of_mem_forestLines (hwrap : o.wrapWidth = none) {f : Forest Task}
    (hf : ∀ t ∈ f.toList, t.Sound) (hkept : ∀ t ∈ f.toList, KeepsId t)
    (hls : o.forestLines depth f = .ok ls) : ∀ l ∈ ls, '\n' ∉ l := by
  intro l hl
  obtain ⟨t, ht, n, lines, hlines, hl⟩ := exists_taskLines hls hl
  exact (of_mem_taskLines hwrap (hf t ht) (hkept t ht) hlines l hl).1

end Layout

end Agenda
