import Agenda.Proofs.UniqueIds

/-!
Computed ids: texts of as many hexadecimal digits as the settings say, none of which is written in
the document or computed twice. That is all that is said of them; which digits they are, only the
digest knows.
-/

namespace Agenda

/-! ### The ids that tasks get -/

namespace Task

/-- What a task gets as its id: its own if it has one, and otherwise so many hexadecimal digits
that are not taken. -/
structure GetsId (length : Nat) (taken : List Text) (own got : Option Text) : Prop where
  keeps : ∀ id, own = some id → got = some id
  computes : own = none → ∃ id, got = some id ∧ Digest.IsHex length id ∧ id ∉ taken

/-- The ids that two tasks got, each beside the id it had, differ if one of them is computed. -/
def IdsDiffer (p q : Option Text × Option Text) : Prop := p.1 = none ∨ q.1 = none → p.2 ≠ q.2

variable {length : Nat} {taken : List Text} {t u : Task} {ts us : List Task} {id : Text}

theorem GetsId.anti {more : List Text} {own got : Option Text} (h : GetsId length more own got)
    (hmore : ∀ id ∈ taken, id ∈ more) : GetsId length taken own got where
  keeps := h.keeps
  computes := fun hown => by
    obtain ⟨id, hgot, hhex, hfree⟩ := h.computes hown
    exact ⟨id, hgot, hhex, fun hid => hfree (hmore id hid)⟩

theorem getsId_withId (hpos : 0 < length) (hlength : length ≤ 40)
    (h : t.withId taken length = .ok (u, id)) : GetsId length taken t.id? u.id? := by
  have hgot := id?_withId hpos h
  rcases withId_eq_ok h with ⟨hown, rfl⟩ | ⟨hown, hfree, ⟨n, hhash⟩, -⟩
  · exact ⟨fun _ hid => hid, fun hnone => by simp [hown] at hnone⟩
  · exact ⟨fun _ hid => by simp [hown] at hid,
      fun _ => ⟨_, hgot, Identity.isHex_hash hlength hhash, hfree⟩⟩

/-- Each task keeps its id or gets one that was not taken before the first task. -/
theorem getsId_assignIds (hpos : 0 < length) (hlength : length ≤ 40)
    (h : assignIds length taken ts = .ok us) :
    List.Forall₂ (GetsId length taken) (ts.map id?) (us.map id?) := by
  induction ts generalizing taken us with
  | nil =>
      obtain rfl := Except.ok.inj h
      exact .nil
  | cons t ts ih =>
      obtain ⟨u, id, us', hu, hus, rfl⟩ := assignIds_cons h
      exact .cons (getsId_withId hpos hlength hu)
        ((ih hus).imp fun _ _ hgets => hgets.anti fun _ hid => Lint.mem_addName.2 (.inl hid))

/-- The id that a task gets and that of a later one differ if one of them is computed: an id that
the later task had is taken before the first one is computed, and the first one is taken before that
of the later task is. -/
theorem idsDiffer_withId (hpos : 0 < length) {own got : Option Text}
    (h : t.withId taken length = .ok (u, id)) (hgets : GetsId length (addName taken id) own got)
    (hown : ∀ id', own = some id' → id' ∈ taken) : IdsDiffer (t.id?, u.id?) (own, got) := by
  intro hcomputed
  rw [id?_withId hpos h]
  rintro rfl
  cases own with
  | none =>
      obtain ⟨id', hid', -, hfree⟩ := hgets.computes rfl
      obtain rfl := Option.some.inj hid'
      exact hfree (Lint.mem_addName.2 (.inr rfl))
  | some own =>
      obtain rfl := Option.some.inj (hgets.keeps own rfl)
      have hnone : t.id? = none := hcomputed.resolve_right nofun
      rcases withId_eq_ok h with ⟨hid, -⟩ | ⟨-, hfree, -, -⟩
      · simp [hnone] at hid
      · exact hfree (hown id rfl)

/-- Computed ids differ from all others if the ids of the tasks are taken from the start. -/
theorem idsDiffer_assignIds (hpos : 0 < length) (hlength : length ≤ 40)
    (h : assignIds length taken ts = .ok us) (htaken : ∀ id ∈ ids ts, id ∈ taken) :
    ((ts.map id?).zip (us.map id?)).Pairwise IdsDiffer := by
  induction ts generalizing taken us with
  | nil => exact .nil
  | cons t ts ih =>
      obtain ⟨u, id, us', hu, hus, rfl⟩ := assignIds_cons h
      have hbehind : ∀ id' ∈ ids ts, id' ∈ taken := fun id' hid' =>
        htaken id' (((List.sublist_cons_self t ts).filterMap id?).subset hid')
      refine .cons ?_ (ih hus fun id' hid' => Lint.mem_addName.2 (.inl (hbehind id' hid')))
      rintro ⟨own, got⟩ hmem
      refine idsDiffer_withId hpos hu
        ((List.forall₂_iff_zip.1 (getsId_assignIds hpos hlength hus)).2 hmem) ?_
      rintro id' rfl
      obtain ⟨s, hs, hsid⟩ := List.mem_map.1 (List.of_mem_zip hmem).1
      exact hbehind id' (List.mem_filterMap.2 ⟨s, hs, hsid⟩)

end Task

namespace Document

/-- Ids are assigned so that none is lost and none is computed twice. In a document that can be read
the tasks stand where its entries do, in the same order. A task whose entry has an id has that id;
every other task has so many hexadecimal digits, which differ from each id in the document and from
each other computed one. So the ids are distinct if and only if those that are written are. -/
theorem ids_readTasks (size : Nat) {idLength : Nat} (heading : Option Text) (lines : List Text)
    {f : Forest Task} (hpos : 0 < idLength) (hlength : idLength ≤ 40)
    (hf : readTasks size idLength heading lines = .ok f) :
    let es := Entry.ofLines size ((Section.region heading lines).lines size lines)
    let written := es.filterMap Entry.id?
    f.toList.map Task.line = es.map (·.line.index + 1) ∧
      List.Forall₂ (Task.GetsId idLength written) (es.map Entry.id?) (f.toList.map Task.id?) ∧
      ((es.map Entry.id?).zip (f.toList.map Task.id?)).Pairwise Task.IdsDiffer ∧
      ((Task.ids f.toList).Nodup ↔ written.Nodup) := by
  intro es written
  obtain ⟨ts, us, hids, hts, hus⟩ := exists_ids_of_tasksIn hf
  have hwritten : Task.ids ts = written := by
    rw [Task.ids_eq_filterMap, hts, List.filterMap_map]
    rfl
  rw [← hts, ← hus, ← hwritten]
  refine ⟨?_, Task.getsId_assignIds hpos hlength hids,
    Task.idsDiffer_assignIds hpos hlength hids fun _ hid => hid, ?_⟩
  · exact map_tasksIn (k := Task.line) (g := (·.index + 1)) (fun _ _ => rfl)
      (fun _ _ hplace => hplace.line) hf
  · rw [hwritten]
    exact nodup_ids_tasksIn hpos hf

/-- Two tasks with one title, for which ids are computed, and after them a task that has the id
which the first of them would get. -/
theorem ids_readTasks_recurring :
    let lines : List Text := ["- \"Task\"", "- \"Task\"", "  - \"Other\" id: 16ec"]
    let written (title id : Text) : Fields := [(Key.title, .text title), (Key.id, .text id)]
    let first : Task := { fields := written "Task" "0e3b", line := 1 }
    let second : Task := { fields := written "Task" "92c1", line := 2 }
    let child : Task :=
      { fields := written "Other" "16ec", parent := some "92c1", indent := 1, line := 3 }
    let f : Forest Task := .cons first .nil (.cons second (.cons child .nil .nil) .nil)
    readTasks 2 4 none lines = .ok f ∧
      List.Forall₂ (Task.GetsId 4 ["16ec"]) [none, none, some "16ec"]
        [some "0e3b", some "92c1", some "16ec"] ∧
      (Task.ids f.toList).Nodup := by
  intro lines written first second child f
  have hf : readTasks 2 4 none lines = .ok f := by decide +kernel
  obtain ⟨-, hgets, -, hnodup⟩ := ids_readTasks 2 none lines (by decide) (by decide) hf
  have hids : (Entry.ofLines 2 ((Section.region none lines).lines 2 lines)).map Entry.id? =
      [none, none, some ("16ec" : Text)] := by decide
  have hwritten : (Entry.ofLines 2 ((Section.region none lines).lines 2 lines)).filterMap
      Entry.id? = ["16ec"] := by decide
  rw [hids, hwritten] at hgets
  rw [hwritten] at hnodup
  exact ⟨hf, hgets, hnodup.2 (List.nodup_singleton _)⟩

end Document

end Agenda
