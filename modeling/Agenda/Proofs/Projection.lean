import Agenda.Document
import Agenda.Lint
import Agenda.Proofs.Changes

/-!
Rows with named columns against rows with all fields. Both begin with the id and the parent of the
task. In a named column both show the same, unless the task has a field of its own under the name of
the parent: a row with all fields shows that field, and every other row shows the parent.
-/

namespace Agenda

/-! ### Parts of field maps -/

namespace Fields

variable {fs gs : Fields} {key : Text}

def restrict (keys : List Text) (fs : Fields) : Fields := fs.filter (keys.contains ·.1)

theorem lookup_restrict (keys : List Text) (fs : Fields) (key : Text) :
    (fs.restrict keys).lookup key = if key ∈ keys then fs.lookup key else none := by
  induction fs with
  | nil => simp [restrict]
  | cons f fs ih =>
      obtain ⟨k, v⟩ := f
      rw [restrict] at ih ⊢
      by_cases hk : k ∈ keys
      · rw [List.filter_cons_of_pos (by simpa using hk), lookup_cons, lookup_cons, ih]
        split
        · next heq => rw [if_pos (heq ▸ hk)]
        · rfl
      · rw [List.filter_cons_of_neg (by simpa using hk), lookup_cons, ih]
        split
        · next hkey =>
            have hne : key ≠ k := fun heq => hk (heq ▸ hkey)
            rw [if_neg hne]
        · rfl

theorem nodup_keys_restrict (h : fs.keys.Nodup) (keys : List Text) :
    (fs.restrict keys).keys.Nodup :=
  h.sublist (List.filter_sublist.map _)

/-- Setting fields one after the other puts them over those that were there. -/
theorem lookup_foldl_set (hgs : gs.keys.Nodup) (fs : Fields) (key : Text) :
    (gs.foldl (fun fs (key, v) => fs.set key v) fs).lookup key =
      (gs.lookup key).or (fs.lookup key) := by
  induction gs generalizing fs with
  | nil => rfl
  | cons g gs ih =>
      obtain ⟨k, v⟩ := g
      obtain ⟨hk, hgs⟩ := List.nodup_cons.mp hgs
      rw [List.foldl_cons, ih hgs, lookup_set, lookup_cons]
      split
      · next heq => rw [heq, lookup_eq_none_iff.2 hk]; rfl
      · rfl

theorem nodup_keys_foldl_set (gs : Fields) (h : fs.keys.Nodup) :
    (gs.foldl (fun fs (key, v) => fs.set key v) fs).keys.Nodup := by
  induction gs generalizing fs with
  | nil => exact h
  | cons g gs ih => exact ih (nodup_keys_set h g.1 g.2)

end Fields

/-! ### Rows -/

namespace Query

variable {t : Task} {columns : List Text}

def shownParent (t : Task) : Value := (t.parent.map Value.text).getD .null

/-- Whether a field of the task's own, under the name of the parent, has another value. -/
def HidesParent (t : Task) : Prop := ∃ v, t.fields.lookup Key.parent = some v ∧ v ≠ shownParent t

theorem lookup_rowHead (t : Task) (key : Text) :
    (rowHead t).lookup key =
      if key = Key.id then some ((t.id?.map Value.text).getD .null)
      else if key = Key.parent then some (shownParent t) else none := by
  rw [rowHead, Fields.lookup_cons, Fields.lookup_cons]
  rfl

theorem nodup_keys_rowHead (t : Task) : (rowHead t).keys.Nodup := by
  change [Key.id, Key.parent].Nodup
  decide

/-- Adds a column to a row, unless it is there or the task has no such field. -/
def addColumn (t : Task) (fs : Fields) (column : Text) : Fields :=
  if !fs.has column && t.fields.has column then fs.set column (t.fields.get column) else fs

theorem row_all (t : Task) : row [['*']] t =
    (t.fields.erase Key.id).foldl (fun fs (key, v) => fs.set key v) (rowHead t) := if_pos rfl

theorem row_named (h : ['*'] ∉ columns) (t : Task) :
    row columns t = columns.foldl (addColumn t) (rowHead t) := by
  have hne : columns ≠ [['*']] := by
    rintro rfl
    exact h (List.mem_singleton_self _)
  rw [row, if_neg hne]
  rfl

theorem lookup_addColumn (t : Task) (fs : Fields) (column key : Text) :
    (addColumn t fs column).lookup key =
      (fs.lookup key).or (if key = column then t.fields.lookup key else none) := by
  rw [addColumn, Fields.has_eq_isSome_lookup, Fields.has_eq_isSome_lookup]
  by_cases hkey : key = column
  · subst hkey
    rw [if_pos rfl]
    cases hrow : fs.lookup key with
    | some v => simp [hrow]
    | none =>
        cases htask : t.fields.lookup key with
        | none => simp [hrow]
        | some v => simp [Fields.lookup_set, Fields.get, htask]
  · rw [if_neg hkey, Option.or_none]
    split
    · rw [Fields.lookup_set, if_neg hkey]
    · rfl

theorem lookup_foldl_addColumn (t : Task) (fs : Fields) (columns : List Text) (key : Text) :
    (columns.foldl (addColumn t) fs).lookup key =
      (fs.lookup key).or (if key ∈ columns then t.fields.lookup key else none) := by
  induction columns generalizing fs with
  | nil => simp
  | cons column columns ih =>
      rw [List.foldl_cons, ih, lookup_addColumn, Option.or_assoc]
      by_cases hkey : key = column
      · rw [if_pos hkey, if_pos (List.mem_cons.2 (.inl hkey))]
        congr 1
        split <;> simp
      · simp [hkey]

theorem nodup_keys_foldl_addColumn (t : Task) {fs : Fields} (h : fs.keys.Nodup)
    (columns : List Text) : (columns.foldl (addColumn t) fs).keys.Nodup := by
  induction columns generalizing fs with
  | nil => exact h
  | cons column columns ih =>
      refine ih ?_
      rw [addColumn]
      split
      · exact Fields.nodup_keys_set h _ _
      · exact h

/-- A row with all fields shows those of the task over its parent, but never an id of theirs. -/
theorem lookup_row_all (hkeys : t.fields.keys.Nodup) (key : Text) :
    (row [['*']] t).lookup key =
      (if key = Key.id then none else t.fields.lookup key).or ((rowHead t).lookup key) := by
  have herase : (t.fields.erase Key.id).keys.Nodup := by
    rw [Fields.keys_erase]
    exact hkeys.filter _
  rw [row_all, Fields.lookup_foldl_set herase, Fields.lookup_erase]

/-- A row with named columns shows the fields of the task under its id and parent. -/
theorem lookup_row_named (h : ['*'] ∉ columns) (t : Task) (key : Text) :
    (row columns t).lookup key =
      ((rowHead t).lookup key).or (if key ∈ columns then t.fields.lookup key else none) := by
  rw [row_named h, lookup_foldl_addColumn]

theorem lookup_parent_row_all (hkeys : t.fields.keys.Nodup) :
    (row [['*']] t).lookup Key.parent = some (shownParent t) ↔ ¬ HidesParent t := by
  rw [lookup_row_all hkeys, lookup_rowHead, if_neg (by decide), if_neg (by decide), if_pos rfl,
    HidesParent]
  cases t.fields.lookup Key.parent <;> simp

/-- A row with named columns shows the parent of the task, and in every other column the same as the
row with all fields. So it is that row, restricted to the id, the parent and the named columns, if
and only if no field of the task's own hides the parent there. -/
theorem row_agrees_iff (hkeys : t.fields.keys.Nodup) (hcolumns : ['*'] ∉ columns) :
    let shown := (row [['*']] t).restrict (Key.id :: Key.parent :: columns)
    (row columns t).lookup Key.parent = some (shownParent t) ∧
      (∀ key, key ≠ Key.parent → (row columns t).lookup key = shown.lookup key) ∧
      ((row columns t).Perm shown ↔ ¬ HidesParent t) ∧
      ((row [['*']] t).lookup Key.parent = some (shownParent t) ↔ ¬ HidesParent t) := by
  intro shown
  have hparent : (row columns t).lookup Key.parent = some (shownParent t) := by
    rw [lookup_row_named hcolumns, lookup_rowHead, if_neg (by decide), if_pos rfl, Option.some_or]
  have hshown : shown.lookup Key.parent = (row [['*']] t).lookup Key.parent := by
    rw [Fields.lookup_restrict, if_pos (by simp)]
  have hothers : ∀ key, key ≠ Key.parent → (row columns t).lookup key = shown.lookup key := by
    intro key hne
    rw [Fields.lookup_restrict, lookup_row_named hcolumns, lookup_row_all hkeys, lookup_rowHead]
    by_cases hid : key = Key.id
    · simp [hid]
    · simp [hid, hne]
  refine ⟨hparent, hothers, ?_, lookup_parent_row_all hkeys⟩
  have hrow : (row columns t).keys.Nodup := by
    rw [row_named hcolumns]
    exact nodup_keys_foldl_addColumn t (nodup_keys_rowHead t) columns
  have hall : (row [['*']] t).keys.Nodup := by
    rw [row_all]
    exact Fields.nodup_keys_foldl_set _ (nodup_keys_rowHead t)
  rw [Fields.perm_iff_lookup_eq hrow (Fields.nodup_keys_restrict hall _),
    ← lookup_parent_row_all hkeys, ← hshown]
  constructor
  · exact fun h => (h Key.parent).symm.trans hparent
  · intro h key
    by_cases hkey : key = Key.parent
    · rw [hkey, hparent, h]
    · exact hothers key hkey

/-- A field that a bullet sets under the name of the parent, without an issue. -/
theorem row_agrees_iff_own_parent :
    let lines : List Text := ["- \"a\" id: x parent: y"]
    let t : Task :=
      { fields := [(Key.title, .text "a"), (Key.id, .text "x"), (Key.parent, .text "y")]
        line := 1 }
    let named : Fields := [(Key.id, .text "x"), (Key.parent, .null), (Key.title, .text "a")]
    let all : Fields := [(Key.id, .text "x"), (Key.parent, .text "y"), (Key.title, .text "a")]
    (Lint.run 2 none lines = [] ∧ Document.readTasks 2 8 none lines = .ok (.cons t .nil .nil)) ∧
      (t.fields.keys.Nodup ∧ ['*'] ∉ [Key.title]) ∧
      row [Key.title] t = named ∧ row [['*']] t = all ∧
      ¬ (row [Key.title] t).Perm ((row [['*']] t).restrict [Key.id, Key.parent, Key.title]) ∧
      (row [['*']] t).lookup Key.parent ≠ some (shownParent t) := by
  intro lines t named all
  have hkeys : t.fields.keys.Nodup := by decide
  have hcolumns : ['*'] ∉ [Key.title] := by decide
  have hhides : HidesParent t := ⟨.text "y", by decide, by decide⟩
  obtain ⟨-, -, hperm, hparent⟩ := row_agrees_iff hkeys hcolumns
  exact ⟨⟨by decide, by decide⟩, ⟨hkeys, hcolumns⟩, by decide, by decide,
    fun h => hperm.1 h hhides, fun h => hparent.1 h hhides⟩

end Query

end Agenda
