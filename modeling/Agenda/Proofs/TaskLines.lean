import Agenda.Proofs.Except
import Agenda.Proofs.Layout

/-!
Tasks as documents have them, and their lines. A task is well formed if its keys are keys, no two
of them alike, its values are of the kinds that its keys have, and it has an id. Its lines are
those of one entry, and the entry is read as the fields that `Layout.rereadFields` gives.
-/

namespace Agenda

/-! ### Well-formed tasks -/

/-- Fields that hold a text, however they are written. -/
def Key.texts : List Text := [Key.id, Key.title, Key.priority]

/-- The value is one that a field with this key can have in a document. -/
def Value.Fits (key : Text) : Value → Prop
  | .null => False
  | .text _ => Key.isList key = false
  | .flag _ => Key.isList key = false ∧ key ∉ Key.texts
  | .number n =>
    Key.isList key = false ∧ key ∉ Key.texts ∧ n.isWritable = true
  | .names xs =>
    Key.isList key = true ∧ xs.Nodup ∧ ∀ x ∈ xs, x ≠ [] ∧ x.getLast? ≠ some '\n'

theorem Value.text_of_fits {key : Text} {v : Value} (h : v.Fits key) (hkey : key ∈ Key.texts) :
    ∃ s, v = .text s := by
  have hlist : ∀ k ∈ Key.texts, Key.isList k = false := by decide
  cases v with
  | text s => exact ⟨s, rfl⟩
  | null => exact h.elim
  | flag b => exact absurd hkey h.2
  | number n => exact absurd hkey h.2.1
  | names xs => exact absurd h.1 (by simp [hlist key hkey])

/-- A field map that a document can have: keys of their own, and values that fit them. -/
structure Fields.WellFormed (fs : Fields) : Prop where
  nodup : fs.keys.Nodup
  isKey : ∀ f ∈ fs, IsKey f.1
  fits : ∀ f ∈ fs, f.2.Fits f.1

namespace Task

structure WellFormed (t : Task) : Prop extends t.fields.WellFormed where
  has_id : ∃ id, id ≠ [] ∧ (Key.id, .text id) ∈ t.fields

variable {t : Task}

theorem WellFormed.id?_eq {id : Text} (h : t.WellFormed) (hne : id ≠ [])
    (hm : (Key.id, .text id) ∈ t.fields) : t.id? = some id := by
  obtain ⟨c, cs, rfl⟩ := List.exists_cons_of_ne_nil hne
  rw [id?, Fields.get_of_mem h.nodup hm]
  rfl

theorem title_mem_texts : Key.title ∈ Key.texts := by decide

theorem WellFormed.title?_eq_some (h : t.WellFormed) {title : Text} :
    t.title? = some title ↔ (Key.title, .text title) ∈ t.fields := by
  constructor
  · intro ht
    by_cases hnull : t.fields.get Key.title = .null
    · simp [title?, hnull] at ht
    · have hm := Fields.mem_of_get rfl hnull
      obtain ⟨s, hs⟩ : ∃ s, t.fields.get Key.title = .text s :=
        Value.text_of_fits (h.fits _ hm) title_mem_texts
      rw [hs] at hm
      rw [title?, hs] at ht
      obtain rfl := Option.some.inj ht
      exact hm
  · intro hm
    rw [title?, Fields.get_of_mem h.nodup hm]
    rfl

theorem WellFormed.nodup_names (h : t.WellFormed) {key : Text} {xs : List Text}
    (hget : t.fields.get key = .names xs) : xs.Nodup :=
  (h.fits _ (Fields.mem_of_get hget (by simp))).2.1

/-- What the lines of a task take for granted: its keys are keys, no name of it ends with a line
feed, and it has an id. -/
structure Sound (t : Task) : Prop where
  isKey : ∀ f ∈ t.fields, IsKey f.1
  names : ∀ key xs, (key, .names xs) ∈ t.fields → ∀ x ∈ xs, x.getLast? ≠ some '\n'
  has_id : ∃ id, id ≠ [] ∧ t.id? = some id

theorem WellFormed.sound (h : t.WellFormed) : t.Sound where
  isKey := h.isKey
  names := fun _ _ hm x hx => ((h.fits _ hm).2.2 x hx).2
  has_id := by
    obtain ⟨id, hne, hm⟩ := h.has_id
    exact ⟨id, hne, h.id?_eq hne hm⟩

/-- The names of a task that is written on one line are proper ones. -/
theorem Sound.isKeyChar_of_inline (h : t.Sound) {longValue : Nat}
    (hinline : Layout.isMultiline longValue t = false) {key : Text} {xs : List Text}
    (hlist : Key.isList key = true) (hget : t.fields.get key = .names xs) :
    ∀ x ∈ xs, x ≠ [] ∧ ∀ c ∈ x, isKeyChar c = true := by
  have hm := Fields.mem_of_get hget (by simp)
  simp only [Layout.isMultiline, Bool.or_eq_false_iff, List.any_eq_false] at hinline
  have hlong := hinline.2 _ hm
  simp only [Layout.isLong, hlist, Bool.true_and, Bool.not_eq_true, Bool.not_eq_false',
    List.all_eq_true] at hlong
  intro x hx
  exact (isName_iff (h.names key xs hm x hx)).1 (hlong x hx)

end Task

/-! ### The lines of a task -/

namespace Layout

variable {o : Layout} {t : Task}

theorem bulletParts_id (lead : List Shorthand) (fields : List (Text × Text)) {id : Text}
    (hid : t.id? = some id) :
    lead.map Shorthand.word ++ titleField t ++
        fields.map (fun f => Text.concat [f.1, ": ", f.2]) ++ idField t =
      bulletParts lead t.title? (fields ++ [(Key.id, writeId id)]) := by
  have htitle : titleField t = t.title?.toList.map enquote := by
    unfold titleField
    cases t.title? <;> rfl
  have hfield : idField t = [Text.concat [Key.id, ": ".toList, writeId id]] := by
    rw [idField, hid]
    rfl
  rw [htitle, hfield, bulletParts, List.map_append, ← List.append_assoc]
  rfl

/-- Whether a task has no line of its own below its bullet, so that it is read back as one that is
written on one line. -/
def isRereadInline (o : Layout) (t : Task) : Bool :=
  !isMultiline o.longValue t || (otherFields false t.fields).isEmpty

structure Stands (o : Layout) (t : Task) (e : Entry) : Prop where
  head : Bullet.headFields e.content (tokens e.content) =
    Bullet.withTitle (leadFields (!isMultiline o.longValue t) t.fields) t.title?
  written : ∃ ws, List.Forall₂ (fun f w => o.writtenField (isMultiline o.longValue t) f = .ok w)
      (otherFields (!isMultiline o.longValue t) t.fields) ws ∧
    Bullet.written (tokens e.content) ++ e.fields =
      if isMultiline o.longValue t then (Key.id, .inline (writeId (t.id?.getD []))) :: ws
      else ws ++ [(Key.id, .inline (writeId (t.id?.getD [])))]
  inline : e.fields.isEmpty = o.isRereadInline t

theorem isKey_id : IsKey Key.id := by
  refine ⟨by decide, ?_⟩
  decide

/-- The bullet of a task is read as its words. -/
theorem stands_bullet (o : Layout) (index n : Nat) (fields : List (Text × Text)) {id : Text}
    (ht : t.WellFormed) (hid : t.id? = some id) (hkept : IdKept id)
    (hfields : ∀ f ∈ fields, IsKey f.1 ∧ Scalar.Form f.2) :
    let l := Line.ofText o.step index (bulletLine (Text.spaces n)
      (shorthand (!isMultiline o.longValue t) t.fields ++ titleField t ++
        fields.map (fun f => Text.concat [f.1, ": ", f.2]) ++ idField t))
    ∃ content, l.indent = n ∧ l.bullet? = some content ∧ l.isBlank = false ∧
      Bullet.headFields content (tokens content) =
        Bullet.withTitle (leadFields (!isMultiline o.longValue t) t.fields) t.title? ∧
      Bullet.written (tokens content) =
        fields.map (fun f => (f.1, .inline f.2)) ++ [(Key.id, .inline (writeId id))] := by
  have hlead : ∀ s ∈ lead (!isMultiline o.longValue t) t.fields, s.Legible := by
    apply legible_of_mem_lead
    intro hinline key xs hlist hget
    exact ht.sound.isKeyChar_of_inline (by simpa using hinline) hlist hget
  have hall : ∀ f ∈ fields ++ [(Key.id, writeId id)], IsKey f.1 ∧ Scalar.Form f.2 := by
    intro f hf
    rcases List.mem_append.mp hf with hf | hf
    · exact hfields f hf
    · rw [List.mem_singleton.mp hf]
      exact ⟨isKey_id, (form_writeId hkept).1⟩
  rw [shorthand_eq_map_word, bulletParts_id _ _ hid]
  obtain ⟨content, -, hindent, hbullet, hblank, hhead, hwritten⟩ :=
    read_bulletLine o.step index n t.title? hlead hall (by simp)
  refine ⟨content, hindent, hbullet, hblank, ?_, ?_⟩
  · rw [hhead, foldl_lead fun key xs hget => ht.nodup_names hget]
  · rw [hwritten, List.map_append]
    rfl

/-- The lines of fields below a bullet, one group for each of them. -/
theorem fieldLines_groups (hstep : 0 < o.step) (hwrap : o.wrapWidth = none) {margin : Nat}
    {fs : Fields} {groups : List (List Text)} (hkeys : ∀ f ∈ fs, IsKey f.1)
    (h : List.Forall₂ (fun f ls => o.fieldLines (Text.spaces margin) f = .ok ls) fs groups)
    (index : Nat) :
    ∃ ws measured, Line.ofTexts o.step index groups.flatten = measured.flatten ∧
      List.Forall₂ (Entry.FieldLines o.step margin (margin + o.step)) measured ws ∧
      List.Forall₂ (fun f w => o.writtenField true f = .ok w) fs ws := by
  induction h generalizing index with
  | nil => exact ⟨[], [], rfl, .nil, .nil⟩
  | @cons f ls fs groups hf _ ih =>
      obtain ⟨w, hw, hlines⟩ := fieldLines_of_ok hstep hwrap (hkeys f (by simp)) hf
      obtain ⟨ws, measured, hflat, hmeasured, hws⟩ :=
        ih (fun f hf => hkeys f (List.mem_cons_of_mem _ hf)) (index + ls.length)
      refine ⟨w :: ws, Line.ofTexts o.step index ls :: measured, ?_, .cons (hlines index) hmeasured,
        .cons hw hws⟩
      rw [List.flatten_cons, Line.ofTexts_append, hflat, List.flatten_cons]

/-- Fields on the line of their bullet, each as a key and a written value. -/
theorem inlineFields_words {fs : Fields} {parts : List Text}
    (h : List.Forall₂ (fun f part => inlineField f = .ok part) fs parts) :
    ∃ kvs : List (Text × Text), parts = kvs.map (fun f => Text.concat [f.1, ": ", f.2]) ∧
      (∀ kv ∈ kvs, (∃ f ∈ fs, f.1 = kv.1) ∧ Scalar.Form kv.2) ∧
      List.Forall₂ (fun f w => o.writtenField false f = .ok w) fs
        (kvs.map fun f => (f.1, .inline f.2)) := by
  induction h with
  | nil => exact ⟨[], rfl, by simp, .nil⟩
  | @cons f part fs parts hf _ ih =>
      obtain ⟨kvs, rfl, hforms, hws⟩ := ih
      obtain ⟨w, hw, rfl⟩ := map_eq_ok.1 hf
      refine ⟨(f.1, w) :: kvs, rfl, ?_, .cons (by simp [writtenField, hw, Except.map]) hws⟩
      intro kv hkv
      rcases List.mem_cons.mp hkv with rfl | hkv
      · exact ⟨⟨f, by simp, rfl⟩, (Scalar.form_of_write hw).1⟩
      · obtain ⟨⟨g, hg, hkey⟩, hform⟩ := hforms kv hkv
        exact ⟨⟨g, List.mem_cons_of_mem _ hg, hkey⟩, hform⟩

theorem mem_of_mem_otherFields {withNames : Bool} {fs : Fields} {f : Text × Value}
    (h : f ∈ otherFields withNames fs) : f ∈ fs := (List.mem_filter.mp h).1

/-- The line of a bullet, with the lines of the fields below it, is an entry that stands for a task
with several lines. -/
theorem entryLines_multiline (hstep : 0 < o.step) (hwrap : o.wrapWidth = none) (ht : t.WellFormed)
    {id : Text} (hid : t.id? = some id) (hkept : IdKept id)
    (hm : isMultiline o.longValue t = true) {margin : Nat} {groups : List (List Text)}
    (hgroups : List.Forall₂ (fun f ls => o.fieldLines (Text.spaces margin) f = .ok ls)
      (otherFields false t.fields) groups) (index : Nat) :
    ∃ e, Entry.EntryLines o.step margin (Line.ofTexts o.step index
      (bulletLine (Text.spaces margin) (shorthand false t.fields ++ titleField t ++ idField t) ::
        groups.flatten)) e ∧ o.Stands t e := by
  have hgetD : t.id?.getD [] = id := by rw [hid]; rfl
  have hkeys : ∀ f ∈ otherFields false t.fields, IsKey f.1 := fun f hf =>
    ht.isKey f (mem_of_mem_otherFields hf)
  obtain ⟨content, hindent, hbullet, hblank, hhead, hwritten⟩ :=
    stands_bullet o index margin [] ht hid hkept (by simp)
  simp only [hm, Bool.not_true, List.map_nil, List.append_nil, List.nil_append]
    at hindent hbullet hblank hhead hwritten
  obtain ⟨ws, measured, hflat, hmeasured, hws⟩ :=
    fieldLines_groups hstep hwrap hkeys hgroups (index + 1)
  refine ⟨⟨Line.ofText o.step index _, content, ws⟩,
    ⟨hindent, hbullet, hblank, measured, ?_, hmeasured⟩, ⟨?_, ⟨ws, ?_, ?_⟩, ?_⟩⟩
  · rw [Line.ofTexts, hflat]
  · rw [hm]
    exact hhead
  · rw [hm]
    exact hws
  · rw [hm, if_pos rfl, hwritten, hgetD]
    rfl
  · rw [isRereadInline, hm, Bool.not_true, Bool.false_or, Bool.eq_iff_iff,
      List.isEmpty_iff_length_eq_zero, List.isEmpty_iff_length_eq_zero, hws.length_eq]

/-- The line of a bullet that has all fields is an entry that stands for a task with one line. -/
theorem entryLines_inline (ht : t.WellFormed) {id : Text} (hid : t.id? = some id)
    (hkept : IdKept id) (hm : isMultiline o.longValue t = false) {margin : Nat}
    {parts : List Text}
    (hparts : List.Forall₂ (fun f part => inlineField f = .ok part) (otherFields true t.fields)
      parts) (index : Nat) :
    ∃ e, Entry.EntryLines o.step margin (Line.ofTexts o.step index
      [bulletLine (Text.spaces margin)
        (shorthand true t.fields ++ titleField t ++ parts ++ idField t)]) e ∧ o.Stands t e := by
  have hgetD : t.id?.getD [] = id := by rw [hid]; rfl
  obtain ⟨kvs, rfl, hforms, hws⟩ := inlineFields_words (o := o) hparts
  have hkvs : ∀ kv ∈ kvs, IsKey kv.1 ∧ Scalar.Form kv.2 := by
    intro kv hkv
    obtain ⟨⟨f, hf, hkey⟩, hform⟩ := hforms kv hkv
    exact ⟨hkey ▸ ht.isKey f (mem_of_mem_otherFields hf), hform⟩
  obtain ⟨content, hindent, hbullet, hblank, hhead, hwritten⟩ :=
    stands_bullet o index margin kvs ht hid hkept hkvs
  simp only [hm, Bool.not_false] at hindent hbullet hblank hhead hwritten
  refine ⟨⟨Line.ofText o.step index _, content, []⟩,
    ⟨hindent, hbullet, hblank, [], rfl, .nil⟩,
    ⟨?_, ⟨kvs.map fun f => (f.1, .inline f.2), ?_, ?_⟩, ?_⟩⟩
  · rw [hm]
    exact hhead
  · rw [hm]
    exact hws
  · rw [hm, if_neg (by decide), hwritten, hgetD, List.append_nil]
  · rw [isRereadInline, hm]
    rfl

/-- A task has the line of its bullet and the lines of its fields, or all fields in one line. -/
theorem taskLines_eq_ok {depth : Nat} {ls : List Text} :
    o.taskLines depth t = .ok ls ↔
      (isMultiline o.longValue t = true ∧ ∃ groups,
        List.Forall₂ (fun f ls => o.fieldLines (Text.spaces (depth * o.step)) f = .ok ls)
          (otherFields false t.fields) groups ∧
        ls = bulletLine (Text.spaces (depth * o.step))
          (shorthand false t.fields ++ titleField t ++ idField t) :: groups.flatten) ∨
      (isMultiline o.longValue t = false ∧ ∃ parts,
        List.Forall₂ (fun f part => inlineField f = .ok part) (otherFields true t.fields) parts ∧
        ls = [bulletLine (Text.spaces (depth * o.step))
          (shorthand true t.fields ++ titleField t ++ parts ++ idField t)]) := by
  unfold taskLines
  cases isMultiline o.longValue t with
  | true => simp only [if_true, map_eq_ok, mapM_eq_ok, true_and, Bool.true_eq_false, false_and,
      or_false, eq_comm (b := ls)]
  | false => simp only [Bool.false_eq_true, if_false, map_eq_ok, mapM_eq_ok, true_and, false_and,
      false_or, eq_comm (b := ls)]

/-- The lines of a task are those of an entry that stands for it. -/
theorem entryLines_taskLines (hstep : 0 < o.step) (hwrap : o.wrapWidth = none) (ht : t.WellFormed)
    {id : Text} (hid : t.id? = some id) (hkept : IdKept id) {depth : Nat} {ls : List Text}
    (hls : o.taskLines depth t = .ok ls) (index : Nat) :
    ∃ e, Entry.EntryLines o.step (depth * o.step) (Line.ofTexts o.step index ls) e ∧
      o.Stands t e := by
  rcases taskLines_eq_ok.1 hls with ⟨hm, groups, hgroups, rfl⟩ | ⟨hm, parts, hparts, rfl⟩
  · exact entryLines_multiline hstep hwrap ht hid hkept hm hgroups index
  · exact entryLines_inline ht hid hkept hm hparts index

end Layout

end Agenda
