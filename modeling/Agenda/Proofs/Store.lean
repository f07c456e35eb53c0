import Agenda.Proofs.Changes
import Agenda.Proofs.Rebuild
import Agenda.Proofs.UniqueIds

/-!
A forest of tasks under queries. In the forest of a document whose ids are distinct every task is
known by its id and names its owner by it. A selection regroups the tasks by these names, a deletion
and an update give them anew, and a new task takes an id that is free; so this stays true from query
to query, and a query that fails changes nothing.
-/

namespace Agenda

namespace Task

structure Consistent (f : Forest Task) : Prop where
  distinct : Distinct f.toList
  linked : Linked none f

theorem ne_nil_of_id? {t : Task} {id : Text} (h : t.id? = some id) : id ≠ [] := by
  unfold id? at h
  split at h
  · cases h
  · cases h
  · next v hnull hnil =>
      obtain rfl := Option.some.inj h
      cases hv : t.fields.get Key.id with
      | null => exact absurd hv hnull
      | text s => exact fun hs => hnil (by rw [hv]; exact congrArg _ hs)
      | flag b => cases b <;> decide
      | number n => exact n.text_ne_nil
      | names xs => simp [Value.shown]

theorem Distinct.of_map_id?_eq {ts us : List Task} (h : Distinct ts)
    (heq : us.map id? = ts.map id?) : Distinct us where
  has_id := fun u hu => by
    obtain ⟨t, ht, hid⟩ := List.mem_map.1 (heq ▸ List.mem_map_of_mem hu)
    obtain ⟨id, hne, hsome⟩ := h.has_id t ht
    exact ⟨id, hne, hid ▸ hsome⟩
  nodup := by
    rw [ids_congr heq]
    exact h.nodup

theorem map_id?_link (owner : Option Text) (f : Forest Task) :
    (link owner f).toList.map id? = f.toList.map id? := by
  rw [← Forest.toList_map, map_link (fun _ _ => rfl), Forest.toList_map]

/-- Linking makes a forest consistent if its ids are distinct. -/
theorem Distinct.consistent_link {f : Forest Task} (h : Distinct f.toList) :
    Consistent (link none f) :=
  ⟨h.of_map_id?_eq (map_id?_link none f), linked_link none f⟩

end Task

namespace Query

/-! ### One query -/

theorem filterTasks_eq_ok {filter : Option Filter} {ts us : List Task}
    (h : filterTasks filter ts = .ok us) : us = ts.filter (isMeant filter) := by
  induction ts generalizing us with
  | nil => exact (Except.ok.inj h).symm
  | cons t ts ih =>
      rw [filterTasks] at h
      split at h
      · cases h
      · next hmatch =>
          obtain ⟨rest, hrest, rfl⟩ := map_eq_ok.1 h
          rw [List.filter_cons_of_pos (isMeant_of_isMatch hmatch), ih hrest]
      · next hmatch =>
          rw [List.filter_cons_of_neg (Bool.eq_false_iff.1 (isMeant_of_isMatch hmatch))]
          exact ih h

/-- The tasks that a selection is about are tasks of the forest, each of them once. -/
theorem Selection.subperm_tasks {s : Selection} {f : Forest Task} {ts : List Task}
    (h : s.tasks f = .ok ts) : ts.Subperm f.toList := by
  obtain ⟨us, hus, rfl⟩ := map_eq_ok.1 h
  obtain rfl := filterTasks_eq_ok hus
  have hsorted : (sortBy s.order (f.toList.filter (isMeant s.filter))).Subperm f.toList :=
    (List.mergeSort_perm _ _).subperm.trans List.filter_sublist.subperm
  simp only
  split
  · exact (List.take_sublist _ _).subperm.trans hsorted
  · exact hsorted

theorem id?_updated {changes : Fields} (hc : AreChanges false changes) (filter : Option Filter)
    (t : Task) : (updated changes filter t).id? = t.id? := by
  rw [updated]
  split
  · exact id?_applyChanges hc t
  · rfl

theorem map_id?_changeFrom {changes : Fields} (hc : AreChanges false changes)
    {filter : Option Filter} {f g : Forest Task} {count : Nat}
    (h : changeFrom changes filter f = .ok (g, count)) :
    g.toList.map Task.id? = f.toList.map Task.id? := by
  obtain ⟨rfl, -⟩ := changeFrom_eq_ok h
  rw [Forest.toList_map, List.map_map]
  exact List.map_congr_left fun t _ => id?_updated hc filter t

theorem removeFrom_sublist {filter : Option Filter} {f g : Forest Task}
    (h : removeFrom filter f = .ok g) : g.toList.Sublist f.toList := by
  obtain rfl := removeFrom_eq_ok h
  exact Forest.toList_prune_sublist _ f

theorem consistent_addTask {changes : Fields} {idLength : Nat} (hlength : 0 < idLength)
    {f g : Forest Task} {u : Task} (hf : Task.Consistent f)
    (h : addTask changes idLength f = .ok (g, u)) : Task.Consistent g := by
  obtain ⟨rfl, id, hnot, hnew⟩ := addTask_eq_ok h
  have hid := Task.id?_withId hlength hnew
  have hparent : u.parent = none := by
    rcases Task.withId_eq_ok hnew with ⟨-, rfl⟩ | ⟨-, -, -, rfl⟩ <;> rfl
  -- The parents of the others are given anew, which changes nothing about their ids.
  have hlinked := hf.distinct.consistent_link
  have hids : Task.ids [u] = [id] := List.filterMap_cons_some hid
  refine ⟨⟨?_, ?_⟩, hlinked.linked.append ⟨hparent, trivial, trivial⟩⟩
  · intro t ht
    rw [Forest.toList_append] at ht
    rcases List.mem_append.1 ht with ht | ht
    · exact hlinked.distinct.has_id t ht
    · rw [List.mem_singleton.1 ht]
      exact ⟨id, Task.ne_nil_of_id? hid, hid⟩
  · have htoList : (Forest.cons u .nil .nil).toList = [u] := rfl
    rw [Forest.toList_append, htoList, Task.ids_append, hids]
    exact hlinked.distinct.nodup.append (List.nodup_singleton id)
      (List.disjoint_singleton.2 hnot)

/-- A query leaves a consistent forest. -/
theorem consistent_step {q : Query} {idLength : Nat} (hlength : 0 < idLength)
    {f g : Forest Task} {effect : Effect} (hf : Task.Consistent f)
    (h : step idLength q f = .ok (g, effect)) : Task.Consistent g := by
  cases q with
  | select s =>
      obtain ⟨ts, hts, heq⟩ := map_eq_ok.1 h
      obtain ⟨rfl, -⟩ := Prod.mk.inj heq
      -- No parent of the old forest matters: the distinct ids alone give each task one place.
      have hsub := Selection.subperm_tasks (mapError_eq_ok.1 hts)
      exact ⟨distinct_rebuild (hf.distinct.subperm hsub), linked_rebuild ts⟩
  | update file assignments filter =>
      obtain ⟨changes, changed, _, hchanges, hchanged, rfl, -⟩ := step_update_eq_ok h
      exact (hf.distinct.of_map_id?_eq
        (map_id?_changeFrom (areChanges_readChanges hchanges) hchanged)).consistent_link
  | delete file filter =>
      obtain ⟨left, hleft, rfl, -⟩ := step_delete_eq_ok h
      exact (hf.distinct.subperm (removeFrom_sublist hleft).subperm).consistent_link
  | insert file assignments =>
      obtain ⟨changes, new, -, hadded, -⟩ := step_insert_eq_ok h
      exact consistent_addTask hlength hf hadded

/-! ### A run of queries -/

/-- The forest after a query. One that fails leaves the forest as it was. -/
def after (idLength : Nat) (f : Forest Task) (q : Query) : Forest Task :=
  match step idLength q f with
  | .ok (g, _) => g
  | .error _ => f

def run (idLength : Nat) (f : Forest Task) (qs : List Query) : List (Forest Task) :=
  qs.scanl (after idLength) f

theorem consistent_after {idLength : Nat} (hlength : 0 < idLength) {f : Forest Task}
    (hf : Task.Consistent f) (q : Query) : Task.Consistent (after idLength f q) := by
  unfold after
  split
  · next g effect hstep => exact consistent_step hlength hf hstep
  · exact hf

theorem consistent_run {idLength : Nat} (hlength : 0 < idLength) {f : Forest Task}
    (hf : Task.Consistent f) (qs : List Query) : ∀ g ∈ run idLength f qs, Task.Consistent g := by
  induction qs generalizing f with
  | nil =>
      intro g hg
      rw [run, List.scanl_nil, List.mem_singleton] at hg
      rw [hg]
      exact hf
  | cons q qs ih =>
      intro g hg
      rw [run, List.scanl_cons, List.mem_cons] at hg
      rcases hg with rfl | hg
      · exact hf
      · exact ih (consistent_after hlength hf q) g hg

end Query

/-- The tasks of a document are consistent if the ids that are written in it are distinct. -/
theorem Document.consistent_tasksIn {size idLength : Nat} (hlength : 0 < idLength)
    {ls : List Line} {f : Forest Task}
    (hids : ((Entry.ofLines size ls).filterMap Entry.id?).Nodup)
    (h : tasksIn size idLength ls = .ok f) : Task.Consistent f := by
  refine ⟨⟨fun t ht => ?_, (nodup_ids_tasksIn hlength h).2 hids⟩, ?_⟩
  · have hwell := wellFormed_tasksIn hlength h t ht
    obtain ⟨id, hne, hmem⟩ := hwell.has_id
    exact ⟨id, hne, hwell.id?_eq hne hmem⟩
  · obtain ⟨found, us, -, -, rfl⟩ := exists_of_tasksIn h
    exact Task.linked_link none _

/-- Whatever queries are made of the tasks of a document whose written ids are distinct, and
whichever of them fail: after each of them every task has an id, no two tasks have the same, and
every task has the id of its owner as parent. -/
theorem Document.consistent_run_readTasks (size : Nat) {readLength idLength : Nat}
    (hread : 0 < readLength) (hlength : 0 < idLength) (heading : Option Text) (lines : List Text)
    (hids : ((Entry.ofLines size ((Section.region heading lines).lines size lines)).filterMap
      Entry.id?).Nodup) {f : Forest Task}
    (h : readTasks size readLength heading lines = .ok f) (qs : List Query) :
    ∀ g ∈ Query.run idLength f qs, Task.Consistent g :=
  Query.consistent_run hlength (consistent_tasksIn hread hids h) qs

/-- Three tasks under an insertion that is refused, because its id is taken, a selection that leaves
out the owner of a task, and a deletion. -/
theorem Document.consistent_run_readTasks_nested :
    let lines : List Text := ["- \"a\" id: x", "  - \"b\" id: y", "- \"c\" id: z"]
    let b : Task := { fields := [(Key.title, .text "b"), (Key.id, .text "y")], parent := some "x",
                      indent := 1, line := 2 }
    let f : Forest Task :=
      .cons { fields := [(Key.title, .text "a"), (Key.id, .text "x")], line := 1 }
        (.cons b .nil .nil)
        (.cons { fields := [(Key.title, .text "c"), (Key.id, .text "z")], line := 3 } .nil .nil)
    let refused : Query := .insert "f" [⟨Key.id, { text := "y" }⟩]
    let qs : List Query := [refused,
      .select { columns := ["*"], file := "f",
                filter := some (.single ⟨Key.title, .compare .greater { text := "a" }⟩) },
      .delete "f" (some (.single ⟨Key.id, .compare .equal { text := "z" }⟩))]
    (readTasks 2 8 none lines = .ok f ∧
        ((Entry.ofLines 2 ((Section.region none lines).lines 2 lines)).filterMap
          Entry.id?).Nodup) ∧
      Query.step 8 refused f = .error (.refused [.idExists "y"]) ∧
      ∀ g ∈ Query.run 8 f qs, Task.Consistent g := by
  intro lines b f refused qs
  have hread : readTasks 2 8 none lines = .ok f := by decide
  have hids : ((Entry.ofLines 2 ((Section.region none lines).lines 2 lines)).filterMap
      Entry.id?).Nodup := by decide
  exact ⟨⟨hread, hids⟩, by decide,
    consistent_run_readTasks 2 (by decide) (by decide) none lines hids hread qs⟩

end Agenda
