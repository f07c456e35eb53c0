import Agenda.Proofs.TaskLines
import Mathlib.Data.List.Nodup

/-!
What a task is when it has been written and read again. Every field keeps its key. Texts, flags
and names on the bullet's line keep their values; a block, a list below the bullet and a number
are what their written form is read as. The result is the same task if and only if every value
survives.
-/

namespace Agenda

namespace Layout

variable {o : Layout} {t : Task} {multiline : Bool}

/-! ### Values -/

/-- A value as it is read back from a field that is not shown by shorthand. -/
def reread (o : Layout) (multiline : Bool) : Value → Value
  | .text s => .text (if multiline && isBlock o.longValue s then blockReading o.step s else s)
  | .names xs => .names (addNames [] (namesIn (Text.join [','] xs)))
  | .number n => ((Scalar.read n.text).toOption).getD .null
  | v => v

theorem writtenField_text (key s : Text) :
    o.writtenField multiline (key, .text s) =
      if multiline && isBlock o.longValue s then .ok (key, .block (blockReading o.step s))
      else (Scalar.write (.text s)).map fun w => (key, .inline w) := by
  cases multiline with
  | false => rfl
  | true =>
      by_cases hb : isBlock o.longValue s = true
      · simp [writtenField, blockValue?, hb]
      · simp [writtenField, blockValue?, hb]

theorem writtenField_of_not_text {key : Text} {v : Value} (h : v.isText = false) :
    o.writtenField multiline (key, v) = (Scalar.write v).map fun w => (key, .inline w) := by
  have hnone : blockValue? o.longValue v = none := by
    cases v with
    | text s => cases h
    | _ => rfl
  cases multiline <;> simp [writtenField, hnone]

theorem assigned_text {key : Text} (h : Key.isList key = false) (s : Text) :
    Fields.assigned key (.text s) = .text s := by
  unfold Fields.assigned
  rw [h, if_neg (by decide)]
  split <;> rfl

theorem assigned_of_not_text {key : Text} (h : Key.isList key = false) (hkey : key ∉ Key.texts)
    (v : Value) : Fields.assigned key v = v := by
  unfold Fields.assigned
  rw [h, if_neg (by decide), if_neg]
  intro hc
  apply hkey
  simp only [Bool.or_eq_true, decide_eq_true_eq] at hc
  simpa [Key.texts, or_assoc] using hc

theorem inline_of_writtenField {key : Text} {v : Value} (hv : v.isText = false) {u : Text}
    (hu : Scalar.write v = .ok u) {w : Text × Written}
    (hw : o.writtenField multiline (key, v) = .ok w) : w = (key, .inline u) := by
  rw [writtenField_of_not_text hv, hu] at hw
  exact (Except.ok.inj hw).symm

theorem readsAs_inline {key : Text} (hkey : key ≠ Key.id) {u : Text} {v : Value}
    (hread : Scalar.read u = .ok v) :
    Fields.ReadsAs (key, .inline u) (key, Fields.assigned key v) :=
  ⟨v, by simp [Fields.readWritten, hkey, hread], rfl⟩

theorem readsAs_writtenText {key s : Text} (hlist : Key.isList key = false) (hkey : key ≠ Key.id)
    {w : Text × Written} (hw : o.writtenField multiline (key, .text s) = .ok w) :
    Fields.ReadsAs w (key, o.reread multiline (.text s)) := by
  rw [writtenField_text] at hw
  split at hw
  · next hb =>
      obtain rfl := Except.ok.inj hw
      refine ⟨.text (blockReading o.step s), rfl, ?_⟩
      rw [assigned_text hlist, reread, if_pos hb]
  · next hb =>
      obtain ⟨u, hu, rfl⟩ := map_eq_ok.1 hw
      have hsame : o.reread multiline (.text s) = .text s := by rw [reread, if_neg hb]
      have hreads := readsAs_inline hkey (Scalar.read_write_text hu)
      rwa [assigned_text hlist, ← hsame] at hreads

theorem exists_read_number {key : Text} {n : Number} (hfits : (Value.number n).Fits key) :
    ∃ v, Scalar.read n.text = .ok v := by
  obtain ⟨found, hn⟩ := Number.exists_read?_text hfits.2.2
  rw [Scalar.read_numberText, hn]
  exact ⟨_, rfl⟩

/-- A field that is written is read as the value that it is read back as. -/
theorem readsAs_writtenField {key : Text} {v : Value} (hfits : v.Fits key) (hkey : key ≠ Key.id)
    {w : Text × Written} (hw : o.writtenField multiline (key, v) = .ok w) :
    Fields.ReadsAs w (key, o.reread multiline v) := by
  cases v with
  | null => exact hfits.elim
  | text s => exact readsAs_writtenText hfits hkey hw
  | flag b =>
      obtain rfl := inline_of_writtenField rfl rfl hw
      have hreads := readsAs_inline hkey (Scalar.read_write_flag (b := b) rfl)
      rwa [assigned_of_not_text hfits.1 hfits.2] at hreads
  | number n =>
      obtain rfl := inline_of_writtenField rfl (Scalar.write_number.2 ⟨hfits.2.2, rfl⟩) hw
      obtain ⟨v, hv⟩ := exists_read_number hfits
      have hreread : o.reread multiline (.number n) = v := by
        rw [reread, hv]
        rfl
      have hreads := readsAs_inline hkey hv
      rwa [assigned_of_not_text hfits.1 hfits.2.1, ← hreread] at hreads
  | names xs =>
      obtain rfl := inline_of_writtenField rfl rfl hw
      have hreads := readsAs_inline hkey (Scalar.read_enquote (Text.join [','] xs))
      rwa [Fields.assigned, hfits.1, if_pos rfl] at hreads

/-! ### Fields -/

def titleFields (t : Task) : Fields := t.title?.toList.map fun s => (Key.title, .text s)

def writtenFields (o : Layout) (t : Task) : Fields :=
  let multiline := isMultiline o.longValue t
  let others := otherFields (!multiline) t.fields
  let id := (Key.id, t.fields.get Key.id)
  leadFields (!multiline) t.fields ++ titleFields t ++
    if multiline then id :: others else others ++ [id]

def rereadFields (o : Layout) (t : Task) : Fields :=
  let multiline := isMultiline o.longValue t
  let others := (otherFields (!multiline) t.fields).map fun f => (f.1, o.reread multiline f.2)
  let id := (Key.id, t.fields.get Key.id)
  leadFields (!multiline) t.fields ++ titleFields t ++
    if multiline then id :: others else others ++ [id]

/-- The id is written before or after the other fields. -/
theorem writtenFields_perm : (o.writtenFields t).Perm
    (leadFields (!isMultiline o.longValue t) t.fields ++ titleFields t ++
      (Key.id, t.fields.get Key.id) :: otherFields (!isMultiline o.longValue t) t.fields) := by
  simp only [writtenFields]
  split
  · exact .refl _
  · exact List.Perm.append_left _ List.perm_append_comm

theorem mem_writtenFields {f : Text × Value} :
    f ∈ o.writtenFields t ↔
      f ∈ leadFields (!isMultiline o.longValue t) t.fields ∨ f ∈ titleFields t ∨
        f = (Key.id, t.fields.get Key.id) ∨
        f ∈ otherFields (!isMultiline o.longValue t) t.fields := by
  rw [writtenFields_perm.mem_iff, List.mem_append, List.mem_append, List.mem_cons, or_assoc]

theorem mem_titleFields (ht : t.WellFormed) {f : Text × Value} :
    f ∈ titleFields t ↔ f ∈ t.fields ∧ f.1 = Key.title := by
  obtain ⟨key, v⟩ := f
  simp only [titleFields, List.mem_map, Option.mem_toList, Prod.mk.injEq]
  constructor
  · rintro ⟨s, hs, rfl, rfl⟩
    exact ⟨ht.title?_eq_some.1 hs, rfl⟩
  · rintro ⟨hm, rfl⟩
    obtain ⟨s, rfl⟩ := Value.text_of_fits (ht.fits _ hm) Task.title_mem_texts
    exact ⟨s, ht.title?_eq_some.2 hm, rfl, rfl⟩

theorem get_id_mem (ht : t.WellFormed) : (Key.id, t.fields.get Key.id) ∈ t.fields := by
  obtain ⟨id, -, hm⟩ := ht.has_id
  rw [Fields.get_of_mem ht.nodup hm]
  exact hm

theorem isShorthand_ne {withNames : Bool} {key : Text} {v : Value}
    (h : isShorthand withNames key v = true) : key ≠ Key.title ∧ key ≠ Key.id := by
  have hall : ∀ k ∈ leadKeys, k ≠ Key.title ∧ k ≠ Key.id := by decide
  apply hall
  rcases isShorthand_cases h with ⟨rfl, -⟩ | ⟨rfl, -⟩ | ⟨rfl, -⟩ | ⟨-, hlist, -⟩
  · decide
  · decide
  · decide
  · rcases isList_cases hlist with rfl | rfl <;> decide

theorem withNames_of_isShorthand {withNames : Bool} {key : Text} {xs : List Text}
    (h : isShorthand withNames key (.names xs) = true) : withNames = true := by
  rcases isShorthand_cases h with ⟨-, _, hv⟩ | ⟨-, hv⟩ | ⟨-, _, -, hv⟩ | ⟨hwith, -⟩
  · cases hv
  · cases hv
  · cases hv
  · exact hwith

theorem mem_otherFields {withNames : Bool} {fs : Fields} {f : Text × Value} :
    f ∈ otherFields withNames fs ↔
      f ∈ fs ∧ f.1 ≠ Key.title ∧ f.1 ≠ Key.id ∧ isShorthand withNames f.1 f.2 = false := by
  simp [otherFields, List.mem_filter, and_assoc]

/-- What is written are fields of the task. -/
theorem mem_fields_of_mem_writtenFields (ht : t.WellFormed) {f : Text × Value}
    (h : f ∈ o.writtenFields t) : f ∈ t.fields := by
  rcases mem_writtenFields.1 h with h | h | rfl | h
  · exact ((mem_leadFields ht.nodup).1 h).1
  · exact ((mem_titleFields ht).1 h).1
  · exact get_id_mem ht
  · exact (mem_otherFields.1 h).1

/-- Every field is written, unless it is a list without names on the line of a bullet. -/
theorem mem_writtenFields_of_mem (ht : t.WellFormed) {f : Text × Value} (hm : f ∈ t.fields)
    (hne : isMultiline o.longValue t = true ∨ f.2 ≠ .names []) : f ∈ o.writtenFields t := by
  obtain ⟨key, v⟩ := f
  rw [mem_writtenFields]
  by_cases htitle : key = Key.title
  · exact .inr (.inl ((mem_titleFields ht).2 ⟨hm, htitle⟩))
  · by_cases hid : key = Key.id
    · subst hid
      rw [Fields.get_of_mem ht.nodup hm]
      exact .inr (.inr (.inl rfl))
    · by_cases hs : isShorthand (!isMultiline o.longValue t) key v = true
      · refine .inl ((mem_leadFields ht.nodup).2 ⟨hm, hs, ?_⟩)
        rcases hne with hmulti | hne
        · rintro rfl
          rw [hmulti] at hs
          cases withNames_of_isShorthand hs
        · exact hne
      · exact .inr (.inr (.inr (mem_otherFields.2 ⟨hm, htitle, hid, by simpa using hs⟩)))

theorem nodup_writtenFields (ht : t.WellFormed) : (o.writtenFields t).Nodup := by
  rw [writtenFields_perm.nodup_iff]
  have hlead : (leadFields (!isMultiline o.longValue t) t.fields).Nodup :=
    List.Nodup.of_map _ (nodup_keys_leadFields _ _)
  have htitle : (titleFields t).Nodup := by
    unfold titleFields
    cases t.title? <;> simp
  have hothers : (otherFields (!isMultiline o.longValue t) t.fields).Nodup :=
    (List.Nodup.of_map _ ht.nodup).filter _
  have hid : (Key.id, t.fields.get Key.id) ∉ otherFields (!isMultiline o.longValue t) t.fields :=
    fun h => (mem_otherFields.1 h).2.2.1 rfl
  refine List.nodup_append.2 ⟨List.nodup_append.2 ⟨hlead, htitle, ?_⟩,
    List.nodup_cons.2 ⟨hid, hothers⟩, ?_⟩
  · rintro f hf _ hg rfl
    exact (isShorthand_ne ((mem_leadFields ht.nodup).1 hf).2.1).1 ((mem_titleFields ht).1 hg).2
  · rintro f hf _ hg rfl
    rcases List.mem_append.mp hf with hf | hf
    · -- What shorthand shows is neither the id nor written by itself.
      have hs := ((mem_leadFields ht.nodup).1 hf).2.1
      rcases List.mem_cons.mp hg with rfl | hg
      · exact (isShorthand_ne hs).2 rfl
      · rw [(mem_otherFields.1 hg).2.2.2] at hs
        cases hs
    · have hkey := ((mem_titleFields ht).1 hf).2
      rcases List.mem_cons.mp hg with rfl | hg
      · exact absurd hkey (by decide : Key.id ≠ Key.title)
      · exact (mem_otherFields.1 hg).2.1 hkey

/-- The fields are written in some order, unless a list without names would stand on the line of a
bullet. -/
theorem perm_writtenFields (ht : t.WellFormed)
    (hne : isMultiline o.longValue t = true ∨ ∀ f ∈ t.fields, f.2 ≠ .names []) :
    t.fields.Perm (o.writtenFields t) := by
  rw [List.perm_ext_iff_of_nodup (List.Nodup.of_map _ ht.nodup) (nodup_writtenFields ht)]
  exact fun f => ⟨fun hf => mem_writtenFields_of_mem ht hf (hne.imp_right (· f hf)),
    mem_fields_of_mem_writtenFields ht⟩

/-- The fields are written with keys of their own. -/
theorem nodup_keys_writtenFields (ht : t.WellFormed) : (o.writtenFields t).keys.Nodup := by
  refine (nodup_writtenFields ht).map_on ?_
  intro f hf g hg hkey
  have hf := mem_fields_of_mem_writtenFields ht hf
  have hg := mem_fields_of_mem_writtenFields ht hg
  refine Prod.ext hkey ?_
  have hf' : t.fields.get f.1 = f.2 := Fields.get_of_mem ht.nodup hf
  have hg' : t.fields.get g.1 = g.2 := Fields.get_of_mem ht.nodup hg
  rw [← hf', ← hg', hkey]

/-- A field is read back under its key, and only the fields that neither shorthand nor title nor
id show can have another value. -/
theorem forall₂_rereadFields {R : Text × Value → Text × Value → Prop}
    (hsame : ∀ f ∈ leadFields (!isMultiline o.longValue t) t.fields ++ titleFields t ++
      [(Key.id, t.fields.get Key.id)], R f f)
    (hother : ∀ f ∈ otherFields (!isMultiline o.longValue t) t.fields,
      R f (f.1, o.reread (isMultiline o.longValue t) f.2)) :
    List.Forall₂ R (o.writtenFields t) (o.rereadFields t) := by
  have hhead : List.Forall₂ R
      (leadFields (!isMultiline o.longValue t) t.fields ++ titleFields t)
      (leadFields (!isMultiline o.longValue t) t.fields ++ titleFields t) :=
    List.forall₂_same.2 fun f hf => hsame f (List.mem_append_left _ hf)
  have hid := hsame (Key.id, t.fields.get Key.id) (by simp)
  have hothers : List.Forall₂ R (otherFields (!isMultiline o.longValue t) t.fields)
      ((otherFields (!isMultiline o.longValue t) t.fields).map fun f =>
        (f.1, o.reread (isMultiline o.longValue t) f.2)) :=
    List.forall₂_map_right_iff.2 (List.forall₂_same.2 hother)
  unfold writtenFields rereadFields
  refine List.rel_append hhead ?_
  split
  · exact .cons hid hothers
  · exact List.rel_append hothers (.cons hid .nil)

theorem keys_rereadFields : (o.rereadFields t).keys = (o.writtenFields t).keys := by
  have h : List.Forall₂ (fun f g : Text × Value => f.1 = g.1) (o.writtenFields t)
      (o.rereadFields t) := forall₂_rereadFields (fun _ _ => rfl) (fun _ _ => rfl)
  exact (Fields.keys_of_forall₂ h).symm

theorem forall₂_readsAs {fs : Fields} {ws : List (Text × Written)}
    (hfs : ∀ f ∈ fs, f.2.Fits f.1 ∧ f.1 ≠ Key.id)
    (h : List.Forall₂ (fun f w => o.writtenField multiline f = .ok w) fs ws) :
    List.Forall₂ Fields.ReadsAs ws (fs.map fun f => (f.1, o.reread multiline f.2)) := by
  induction h with
  | nil => exact .nil
  | @cons f w fs ws hw _ ih =>
      obtain ⟨hfits, hid⟩ := hfs f (by simp)
      exact .cons (readsAs_writtenField hfits hid hw)
        (ih fun f hf => hfs f (List.mem_cons_of_mem _ hf))

/-- The id of a task is read back from its written form. -/
theorem readsAs_id (ht : t.WellFormed) {id : Text} (hid : t.id? = some id) (hkept : IdKept id) :
    Fields.ReadsAs (Key.id, .inline (writeId id)) (Key.id, t.fields.get Key.id) := by
  have hget : t.fields.get Key.id = .text id := by
    obtain ⟨id', hne, hm⟩ := ht.has_id
    rw [ht.id?_eq hne hm] at hid
    obtain rfl := Option.some.inj hid
    exact Fields.get_of_mem ht.nodup hm
  refine ⟨.text id, ?_, ?_⟩
  · simp [Fields.readWritten, (form_writeId hkept).2]
  · rw [hget, assigned_text (rfl : Key.isList Key.id = false)]

/-- The head of an entry that stands for a task has what shorthand shows, and the title. -/
theorem Stands.headFields_eq {e : Entry} (h : o.Stands t e) (ht : t.WellFormed) :
    Bullet.headFields e.content (tokens e.content) =
      leadFields (!isMultiline o.longValue t) t.fields ++ titleFields t := by
  rw [h.head]
  unfold titleFields
  cases t.title? with
  | none => simp [Bullet.withTitle]
  | some s =>
      have hnot : Key.title ∉ (leadFields (!isMultiline o.longValue t) t.fields).keys := by
        intro hm
        obtain ⟨f, hf, hkey⟩ := List.mem_map.mp hm
        exact (isShorthand_ne ((mem_leadFields ht.nodup).1 hf).2.1).1 hkey
      rw [Bullet.withTitle, Fields.set_of_not_mem hnot]
      rfl

/-- An entry that stands for a task is read as the fields that are read back. -/
theorem Stands.task_eq {e : Entry} (h : o.Stands t e) (ht : t.WellFormed) {id : Text}
    (hid : t.id? = some id) (hkept : IdKept id) :
    e.task o.step = .ok
      { fields := o.rereadFields t
        indent := e.line.indent / o.step
        line := e.line.index + 1
        inline := e.fields.isEmpty } := by
  obtain ⟨ws, hws, hwritten⟩ := h.written
  have hreadsId := readsAs_id ht hid hkept
  have hreads : List.Forall₂ Fields.ReadsAs ws
      ((otherFields (!isMultiline o.longValue t) t.fields).map fun f =>
        (f.1, o.reread (isMultiline o.longValue t) f.2)) := by
    apply forall₂_readsAs _ hws
    intro f hf
    obtain ⟨hm, -, hid, -⟩ := mem_otherFields.1 hf
    exact ⟨ht.fits f hm, hid⟩
  have hall : Fields.assignAll (leadFields (!isMultiline o.longValue t) t.fields ++ titleFields t)
      (Bullet.written (tokens e.content) ++ e.fields) = .ok (o.rereadFields t) := by
    apply Fields.assignAll_of_nodup
    · rw [hwritten, hid]
      split
      · exact .cons hreadsId hreads
      · exact List.rel_append hreads (.cons hreadsId .nil)
    · have hnodup := nodup_keys_writtenFields (o := o) ht
      rwa [← keys_rereadFields] at hnodup
  simp only [Entry.task, h.headFields_eq ht, hall]
  rfl

/-! ### What survives -/

/-- The value of a field is the same after it was written and read. A block has to be safe, a text
on one line must not be too large an integer, the names of a list have to stay apart or to be
there at all, and a number has to be read as itself. -/
def Survives (o : Layout) (multiline : Bool) : Value → Prop
  | .text s =>
    if multiline && isBlock o.longValue s then BlockSafe s
    else ¬ Number.IsOversize s
  | .names xs => if multiline then ∀ x ∈ xs, IsListed x else xs ≠ []
  | .number n => ∃ m, Number.read? n.text = .ok (some m) ∧ n.same m = true
  | _ => True

theorem ne_nil_of_isBlock {longValue : Nat} {s : Text} (h : isBlock longValue s = true) :
    s ≠ [] := by
  rintro rfl
  simp [isBlock] at h

theorem survives_text_iff {key s : Text} :
    (∃ w, o.writtenField multiline (key, .text s) = .ok w) ∧
        (Value.text s).same (o.reread multiline (.text s)) = true ↔
      o.Survives multiline (.text s) := by
  rw [writtenField_text]
  by_cases hb : (multiline && isBlock o.longValue s) = true
  · have hne := ne_nil_of_isBlock (Bool.and_eq_true_iff.1 hb).2
    have hsafe : blockReading o.step s = s ↔ BlockSafe s :=
      ⟨fun h => blockSafe_of_blockReading_eq h hne, fun h => h.blockReading_eq o.step⟩
    simp only [hb, if_true, Survives, reread, Value.same, Value.number?, beq_iff_eq,
      Value.text.injEq]
    rw [eq_comm, hsafe]
    exact ⟨fun h => h.2, fun h => ⟨⟨_, rfl⟩, h⟩⟩
  · simp only [hb, Bool.false_eq_true, if_false, Survives, reread, Value.same, Value.number?,
      beq_self_eq_true, and_true]
    rw [exists_map_eq_ok, Scalar.exists_write_text]

theorem survives_number_iff {key : Text} {n : Number} (hfits : (Value.number n).Fits key) :
    (Value.number n).same (o.reread multiline (.number n)) = true ↔
      o.Survives multiline (.number n) := by
  obtain ⟨found, hn⟩ := Number.exists_read?_text hfits.2.2
  have hval := Scalar.read_numberText n
  rw [hn] at hval
  simp only [Survives, hn, reread, hval, Except.map, Except.ok.injEq]
  cases found with
  | none =>
      refine ⟨fun h => ?_, fun ⟨_, h, _⟩ => nomatch h⟩
      exact absurd h Bool.false_ne_true
  | some m =>
      simp only [Option.some.injEq, exists_eq_left']
      rfl

/-- A value is written and read back as the same if it survives, and only then. -/
theorem survives_iff {key : Text} {v : Value} (hfits : v.Fits key)
    (hlist : multiline = true ∨ Key.isList key = false) :
    (∃ w, o.writtenField multiline (key, v) = .ok w) ∧ v.same (o.reread multiline v) = true ↔
      o.Survives multiline v := by
  cases v with
  | null => exact hfits.elim
  | flag b =>
      refine ⟨fun _ => trivial, fun _ => ⟨⟨_, writtenField_of_not_text rfl⟩, ?_⟩⟩
      cases b <;> rfl
  | text s => exact survives_text_iff
  | number n =>
      have hwrite : ∃ w, o.writtenField multiline (key, .number n) = .ok w :=
        ⟨_, by rw [writtenField_of_not_text rfl, Scalar.write_number.2 ⟨hfits.2.2, rfl⟩]; rfl⟩
      rw [← survives_number_iff hfits]
      exact and_iff_right hwrite
  | names xs =>
      have hmulti : multiline = true := hlist.resolve_right (by simp [hfits.1])
      rw [writtenField_of_not_text rfl]
      simp only [Survives, hmulti, if_true, Scalar.write, Except.map, Except.ok.injEq,
        exists_eq', true_and, reread, Value.same, Value.number?, beq_iff_eq,
        Value.names.injEq]
      rw [eq_comm, addNames_namesIn_join hfits.2.1]

theorem exists_fieldLines_iff {margin : Text} {f : Text × Value} :
    (∃ ls, o.fieldLines margin f = .ok ls) ↔ ∃ w, o.writtenField true f = .ok w := by
  rw [fieldLines_eq, writtenField, if_pos rfl]
  cases blockValue? o.longValue f.2 with
  | some s => simp
  | none => exact exists_map_eq_ok.trans exists_map_eq_ok.symm

theorem exists_inlineField_iff {f : Text × Value} :
    (∃ part, inlineField f = .ok part) ↔ ∃ w, o.writtenField false f = .ok w :=
  exists_map_eq_ok.trans exists_map_eq_ok.symm

/-- A task can be written if each of the fields that are written by themselves can. -/
theorem exists_taskLines_iff {depth : Nat} :
    (∃ ls, o.taskLines depth t = .ok ls) ↔
      ∀ f ∈ otherFields (!isMultiline o.longValue t) t.fields,
        ∃ w, o.writtenField (isMultiline o.longValue t) f = .ok w := by
  unfold taskLines
  cases isMultiline o.longValue t with
  | true =>
      simp only [if_true]
      rw [exists_map_eq_ok, exists_mapM_eq_ok]
      exact forall₂_congr fun f _ => exists_fieldLines_iff
  | false =>
      simp only [Bool.false_eq_true, if_false]
      rw [exists_map_eq_ok, exists_mapM_eq_ok]
      exact forall₂_congr fun f _ => exists_inlineField_iff

/-- Every value that is written by itself survives, and no list on the bullet's line is empty. -/
def TaskSurvives (o : Layout) (t : Task) : Prop :=
  ∀ f ∈ t.fields, f.1 ≠ Key.id → f.1 ≠ Key.title → o.Survives (isMultiline o.longValue t) f.2

theorem Value.same_self {v : Value} (h : ∀ n, v = .number n → n.same n = true) :
    v.same v = true := by
  cases v with
  | number n => exact h n rfl
  | flag b => cases b <;> rfl
  | _ => simp [Value.same, Value.number?]

theorem notNumber_of_isShorthand {withNames : Bool} {key : Text} {v : Value}
    (h : isShorthand withNames key v = true) (n : Number) : v ≠ .number n := by
  rintro rfl
  rcases isShorthand_cases h with ⟨-, _, h⟩ | ⟨-, h⟩ | ⟨-, _, -, h⟩ | ⟨-, -, _, h⟩ <;> cases h

/-- What shorthand shows survives. -/
theorem survives_of_isShorthand {key : Text} {v : Value}
    (h : isShorthand (!multiline) key v = true) (hne : v ≠ .names []) :
    o.Survives multiline v := by
  rcases isShorthand_cases h with ⟨-, done, rfl⟩ | ⟨-, rfl⟩ | ⟨-, letter, hl, rfl⟩ |
    ⟨hwith, -, xs, rfl⟩
  · trivial
  · trivial
  · have hsafe : ∀ u ∈ priorities, BlockSafe u ∧ ¬ Number.IsOversize u := by decide
    obtain ⟨hblock, hread⟩ := hsafe letter hl
    simp only [Survives]
    split
    · exact hblock
    · exact hread
  · have hm : multiline = false := by simpa using hwith
    simp only [Survives, hm, Bool.false_eq_true, if_false]
    rintro rfl
    exact hne rfl

theorem lookup_rereadFields (ht : t.WellFormed) {f : Text × Value}
    (hf : f ∈ otherFields (!isMultiline o.longValue t) t.fields) :
    (o.rereadFields t).lookup f.1 = some (o.reread (isMultiline o.longValue t) f.2) := by
  have hnodup := nodup_keys_writtenFields (o := o) ht
  rw [← keys_rereadFields] at hnodup
  apply Fields.lookup_of_mem hnodup
  have hmap : (f.1, o.reread (isMultiline o.longValue t) f.2) ∈
      (otherFields (!isMultiline o.longValue t) t.fields).map fun f =>
        (f.1, o.reread (isMultiline o.longValue t) f.2) := List.mem_map.2 ⟨f, hf, rfl⟩
  simp only [rereadFields, List.mem_append]
  refine .inr ?_
  split
  · exact List.mem_cons_of_mem _ hmap
  · exact List.mem_append_left _ hmap

/-- A list without names on the line of a bullet is lost. -/
theorem not_mem_keys_rereadFields (ht : t.WellFormed)
    (hinline : isMultiline o.longValue t = false) {key : Text} (hm : (key, .names []) ∈ t.fields) :
    key ∉ (o.rereadFields t).keys := by
  rw [keys_rereadFields]
  intro hkey
  obtain ⟨⟨k, v⟩, hg, rfl⟩ := List.mem_map.mp hkey
  have hv : v = .names [] := by
    have hg' := Fields.get_of_mem ht.nodup (mem_fields_of_mem_writtenFields ht hg)
    rw [Fields.get_of_mem ht.nodup hm] at hg'
    exact hg'.symm
  subst hv
  have hlist := (ht.fits _ hm).1
  have hshown : isShorthand (!isMultiline o.longValue t) k (.names []) = true := by
    rw [isShorthand_list hlist, hinline]
    rfl
  rcases mem_writtenFields.1 hg with h | h | h | h
  · exact ((mem_leadFields ht.nodup).1 h).2.2 rfl
  · exact (isShorthand_ne hshown).1 ((mem_titleFields ht).1 h).2
  · exact (isShorthand_ne hshown).2 (Prod.mk.inj h).1
  · rw [(mem_otherFields.1 h).2.2.2] at hshown
    cases hshown

theorem isList_of_other (ht : t.WellFormed) {f : Text × Value}
    (hf : f ∈ otherFields (!isMultiline o.longValue t) t.fields) :
    isMultiline o.longValue t = true ∨ Key.isList f.1 = false := by
  obtain ⟨hm, -, -, hs⟩ := mem_otherFields.1 hf
  cases hmulti : isMultiline o.longValue t with
  | true => exact .inl rfl
  | false =>
      refine .inr ?_
      cases hlist : Key.isList f.1 with
      | false => rfl
      | true =>
          have hfits := ht.fits f hm
          rw [isShorthand_list hlist, hmulti] at hs
          cases hv : f.2 with
          | names xs =>
              rw [hv] at hs
              cases hs
          | null =>
              rw [hv] at hfits
              exact hfits.elim
          | text s =>
              rw [hv] at hfits
              rw [← hlist]
              exact hfits
          | _ =>
              rw [hv] at hfits
              rw [← hlist]
              exact hfits.1

/-- A list without names is lost on the line of a bullet, so a task of which all survives has none
there. -/
theorem TaskSurvives.ne_names_nil (h : o.TaskSurvives t) (ht : t.WellFormed) :
    isMultiline o.longValue t = true ∨ ∀ f ∈ t.fields, f.2 ≠ .names [] := by
  cases hm : isMultiline o.longValue t with
  | true => exact .inl rfl
  | false =>
      refine .inr fun f hf hnil => ?_
      have hfits := ht.fits f hf
      rw [hnil] at hfits
      have hne : f.1 ≠ Key.id ∧ f.1 ≠ Key.title := by
        rcases isList_cases hfits.1 with hkey | hkey <;> rw [hkey] <;> decide
      have hsurvives := h f hf hne.1 hne.2
      rw [hnil, hm] at hsurvives
      exact hsurvives rfl

/-- No number is shown by shorthand, as the title or as the id. -/
theorem not_number_of_shown (ht : t.WellFormed) {f : Text × Value}
    (hf : f ∈ leadFields (!isMultiline o.longValue t) t.fields ++ titleFields t ++
      [(Key.id, t.fields.get Key.id)]) (n : Number) : f.2 ≠ .number n := by
  have htext : f ∈ t.fields → f.1 ∈ Key.texts → f.2 ≠ .number n := by
    intro hm hkey hn
    obtain ⟨s, hs⟩ := Value.text_of_fits (ht.fits f hm) hkey
    rw [hs] at hn
    cases hn
  rcases List.mem_append.mp hf with hf | hf
  · rcases List.mem_append.mp hf with hf | hf
    · exact notNumber_of_isShorthand ((mem_leadFields ht.nodup).1 hf).2.1 n
    · obtain ⟨hm, hkey⟩ := (mem_titleFields ht).1 hf
      exact htext hm (hkey ▸ Task.title_mem_texts)
  · obtain rfl := List.mem_singleton.mp hf
    exact htext (get_id_mem ht) (List.mem_cons_self : Key.id ∈ Key.texts)

/-- If a task is read back as the same task, each of its values survives. -/
theorem taskSurvives_of_same (ht : t.WellFormed)
    (hwrites : ∀ f ∈ otherFields (!isMultiline o.longValue t) t.fields,
      ∃ w, o.writtenField (isMultiline o.longValue t) f = .ok w)
    (hsame : t.fields.same (o.rereadFields t) = true) : o.TaskSurvives t := by
  intro f hf hid htitle
  obtain ⟨w, hlookup, hw⟩ := Fields.exists_lookup_of_same hsame (v := f.2) hf
  by_cases hs : isShorthand (!isMultiline o.longValue t) f.1 f.2 = true
  · refine survives_of_isShorthand hs fun hnil => ?_
    rw [hnil] at hs
    have hinline : isMultiline o.longValue t = false := by
      simpa using withNames_of_isShorthand hs
    have hm : (f.1, .names []) ∈ t.fields := hnil ▸ hf
    have hkey : f.1 ∈ (o.rereadFields t).keys :=
      List.mem_map.2 ⟨(f.1, w), Fields.mem_of_lookup hlookup, rfl⟩
    exact not_mem_keys_rereadFields ht hinline hm hkey
  · have hother : f ∈ otherFields (!isMultiline o.longValue t) t.fields :=
      mem_otherFields.2 ⟨hf, htitle, hid, by simpa using hs⟩
    rw [lookup_rereadFields ht hother] at hlookup
    obtain rfl := Option.some.inj hlookup
    exact (survives_iff (ht.fits f hf) (isList_of_other ht hother)).1 ⟨hwrites f hother, hw⟩

/-- A task is written and read back as the same task if all of it survives, and only then. -/
theorem taskSurvives_iff (ht : t.WellFormed) (depth : Nat) :
    ((∃ ls, o.taskLines depth t = .ok ls) ∧ t.fields.same (o.rereadFields t) = true) ↔
      o.TaskSurvives t := by
  rw [exists_taskLines_iff]
  refine ⟨fun h => taskSurvives_of_same ht h.1 h.2, fun hall => ?_⟩
  have hother : ∀ f ∈ otherFields (!isMultiline o.longValue t) t.fields,
      (∃ w, o.writtenField (isMultiline o.longValue t) f = .ok w) ∧
        f.2.same (o.reread (isMultiline o.longValue t) f.2) = true := by
    intro f hf
    obtain ⟨hm, htitle, hid, -⟩ := mem_otherFields.1 hf
    exact (survives_iff (ht.fits f hm) (isList_of_other ht hf)).2 (hall f hm hid htitle)
  refine ⟨fun f hf => (hother f hf).1, ?_⟩
  have hperm := perm_writtenFields ht (hall.ne_names_nil ht)
  apply Fields.same_of_perm hperm _ ht.nodup
  apply forall₂_rereadFields
  · intro f hf
    exact ⟨rfl, Value.same_self fun n hn => absurd hn (not_number_of_shown ht hf n)⟩
  · intro f hf
    exact ⟨rfl, (hother f hf).2⟩

end Layout

end Agenda
