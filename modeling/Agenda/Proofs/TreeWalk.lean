import Agenda.Query.Change
import Agenda.Proofs.Except
import Agenda.Proofs.Growth

/-!
Going through a forest to change it. Nothing is changed in place: the trees that wait for their turn
are on a stack, and at its turn the root of a tree is copied, changed if it is meant, and put below
the copy of its owner, and its children come before the trees that wait. A task that is taken out
has no copy, and nothing below it gets a turn. The first task that the filter has no answer for ends
the walk. Updates, deletions and insertions are such walks.
-/

namespace Agenda

namespace Forest

variable {α : Type}

theorem Rel.eq {f g : Forest α} (h : Rel (· = ·) f g) : f = g := by
  induction h with
  | nil => rfl
  | cons root _ _ ihc ihr => rw [root, ihc, ihr]

/-- A forest grows again out of its elements, each in the column that is its depth. -/
theorem map_grow_outline (f : Forest α) : (grow (·.1) (f.outline 0)).map (·.2) = f := by
  have hsame : List.Forall₂ (fun p q : Nat × α => q.1 = p.1 * 1 ∧ p.2 = q.2)
      (f.outline 0) (f.outline 0) :=
    List.forall₂_same.2 fun p _ => ⟨(Nat.mul_one _).symm, rfl⟩
  rw [grow_eq_ofColumns]
  exact (Rel.map (rel_ofColumns Nat.one_pos hsame)).eq.symm

end Forest

namespace Query

structure Waiting where
  depth : Nat
  /-- The id of the copy that its root is put below. -/
  owner : Option Text
  root : Task
  children : Forest Task

/-- The trees of a forest, to be put below the copy with the id `owner`. -/
def waiting (depth : Nat) (owner : Option Text) : Forest Task → List Waiting
  | .nil => []
  | .cons t children rest => ⟨depth, owner, t, children⟩ :: waiting depth owner rest

structure TreeWalk where
  /-- The stack, its top first. -/
  pending : List Waiting
  /-- The copies so far, with their depths. -/
  copies : Growth (Nat × Task) := {}
  /-- How many of the tasks that had their turn are meant. -/
  count : Nat := 0

/-- The forest that the copies make up. -/
def TreeWalk.forest (w : TreeWalk) : Forest Task := w.copies.toForest.map (·.2)

def TreeWalk.start (f : Forest Task) : TreeWalk := { pending := waiting 0 none f }

section Walk

variable (filter : Option Filter) (change : Task → Option Task)

def TreeWalk.step (w : TreeWalk) : Except EvalError TreeWalk :=
  match w.pending with
  | [] => .ok w
  | tree :: pending =>
    (isMatch filter tree.root).map fun hit =>
      match if hit then change tree.root else some tree.root with
      | none => { w with pending, count := w.count + hit.toNat }
      | some copy =>
        { pending := waiting (tree.depth + 1) copy.id? tree.children ++ pending
          copies := w.copies.push (·.1) (tree.depth, { copy with parent := tree.owner })
          count := w.count + hit.toNat }

def TreeWalk.run : Nat → TreeWalk → Except EvalError TreeWalk
  | 0, w => .ok w
  | n + 1, w => (w.step filter change).bind (run n)

/-- The forest of the copies and how many tasks are meant, by the structure of the forest. -/
def copyFrom (owner : Option Text) : Forest Task → Except EvalError (Forest Task × Nat)
  | .nil => .ok (.nil, 0)
  | .cons t children rest =>
    match isMatch filter t with
    | .error e => .error e
    | .ok hit =>
      match if hit then change t else some t with
      | none => (copyFrom owner rest).map fun after => (after.1, hit.toNat + after.2)
      | some copy =>
        (copyFrom copy.id? children).bind fun inside =>
          (copyFrom owner rest).map fun after =>
            (.cons { copy with parent := owner } inside.1 after.1,
              hit.toNat + inside.2 + after.2)

variable {filter : Option Filter} {change : Task → Option Task}

/-! ### One turn -/

variable {owner : Option Text} {t : Task} {children : Forest Task} {pending : List Waiting}
  {copies : Growth (Nat × Task)} {depth count : Nat} {hit : Bool}

theorem TreeWalk.step_of_error {e : EvalError} (h : isMatch filter t = .error e) :
    step filter change ⟨⟨depth, owner, t, children⟩ :: pending, copies, count⟩ = .error e := by
  simp only [step, h, Except.map]

theorem TreeWalk.step_of_none (h : isMatch filter t = .ok hit)
    (hcopy : (if hit then change t else some t) = none) :
    step filter change ⟨⟨depth, owner, t, children⟩ :: pending, copies, count⟩ =
      .ok ⟨pending, copies, count + hit.toNat⟩ := by
  simp only [step, h, Except.map, hcopy]

theorem TreeWalk.step_of_some {copy : Task} (h : isMatch filter t = .ok hit)
    (hcopy : (if hit then change t else some t) = some copy) :
    step filter change ⟨⟨depth, owner, t, children⟩ :: pending, copies, count⟩ =
      .ok ⟨waiting (depth + 1) copy.id? children ++ pending,
        copies.push (·.1) (depth, { copy with parent := owner }), count + hit.toNat⟩ := by
  simp only [step, h, Except.map, hcopy]

theorem copyFrom_of_none {rest : Forest Task} (h : isMatch filter t = .ok hit)
    (hcopy : (if hit then change t else some t) = none) :
    copyFrom filter change owner (.cons t children rest) =
      (copyFrom filter change owner rest).map fun after => (after.1, hit.toNat + after.2) := by
  rw [copyFrom, h]
  simp only [hcopy]

theorem copyFrom_of_some {copy : Task} {rest : Forest Task} (h : isMatch filter t = .ok hit)
    (hcopy : (if hit then change t else some t) = some copy) :
    copyFrom filter change owner (.cons t children rest) =
      (copyFrom filter change copy.id? children).bind fun inside =>
        (copyFrom filter change owner rest).map fun after =>
          (.cons { copy with parent := owner } inside.1 after.1,
            hit.toNat + inside.2 + after.2) := by
  rw [copyFrom, h]
  simp only [hcopy]

/-! ### All turns -/

theorem TreeWalk.run_nil (n : Nat) :
    run filter change n ⟨[], copies, count⟩ = .ok ⟨[], copies, count⟩ := by
  induction n with
  | zero => rfl
  | succ n ih => exact ih

/-- The trees on top of the stack have their turns before the others do, no more turns than there
are tasks in them. -/
theorem TreeWalk.exists_run_waiting (f : Forest Task) (depth : Nat) (owner : Option Text)
    (pending : List Waiting) (copies : Growth (Nat × Task)) (count : Nat) {k n : Nat}
    (hn : f.size + k ≤ n) :
    ∃ j, k ≤ j ∧ run filter change n ⟨waiting depth owner f ++ pending, copies, count⟩ =
      (copyFrom filter change owner f).bind fun copied =>
        run filter change j
          ⟨pending, (copied.1.outline depth).foldl (Growth.push (·.1)) copies,
            count + copied.2⟩ := by
  induction f generalizing depth owner pending copies count k n with
  | nil => exact ⟨n, Nat.le_of_add_left_le hn, rfl⟩
  | cons t children rest ihc ihr =>
      rw [Forest.size] at hn
      obtain ⟨m, rfl⟩ : ∃ m, n = m + 1 := ⟨n - 1, by omega⟩
      rw [run, waiting, List.cons_append]
      cases hmatch : isMatch filter t with
      | error e =>
          refine ⟨k, Nat.le_refl k, ?_⟩
          rw [step_of_error hmatch, copyFrom, hmatch]
          rfl
      | ok hit =>
          cases hcopy : if hit then change t else some t with
          | none =>
              -- What is below the task has no turn, so as many turns are left over.
              have hturns : rest.size + k ≤ m := by omega
              obtain ⟨j, hj, hrest⟩ := ihr depth owner pending copies (count + hit.toNat) hturns
              refine ⟨j, hj, ?_⟩
              rw [step_of_none hmatch hcopy, Except.bind, hrest, copyFrom_of_none hmatch hcopy]
              cases copyFrom filter change owner rest with
              | error e => rfl
              | ok after => simp only [Except.map, Except.bind, Nat.add_assoc]
          | some copy =>
              have hturns : children.size + (rest.size + k) ≤ m := by omega
              obtain ⟨i, hi, hchildren⟩ := ihc (depth + 1) copy.id?
                (waiting depth owner rest ++ pending)
                (copies.push (·.1) (depth, { copy with parent := owner })) (count + hit.toNat)
                hturns
              rw [step_of_some hmatch hcopy, Except.bind, hchildren, copyFrom_of_some hmatch hcopy]
              cases copyFrom filter change copy.id? children with
              | error e => exact ⟨k, Nat.le_refl k, rfl⟩
              | ok inside =>
                  obtain ⟨j, hj, hrest⟩ := ihr depth owner pending
                    ((inside.1.outline (depth + 1)).foldl (Growth.push (·.1))
                      (copies.push (·.1) (depth, { copy with parent := owner })))
                    (count + hit.toNat + inside.2) hi
                  refine ⟨j, hj, ?_⟩
                  rw [Except.bind, hrest, Except.bind]
                  cases copyFrom filter change owner rest with
                  | error e => rfl
                  | ok after =>
                      simp only [Except.map, Except.bind, Forest.outline, List.foldl_cons,
                        List.foldl_append, Nat.add_assoc]

/-- The walk comes to an end within as many turns as there are tasks, and makes up the forest of the
copies, or it stops at the first task that the filter has no answer for. -/
theorem TreeWalk.run_start (f : Forest Task) :
    run filter change f.size (start f) =
      (copyFrom filter change none f).map fun copied =>
        ⟨[], (copied.1.outline 0).foldl (Growth.push (·.1)) {}, copied.2⟩ := by
  obtain ⟨j, -, hrun⟩ := exists_run_waiting f 0 none [] {} 0 (Nat.le_refl (f.size + 0))
  rw [List.append_nil] at hrun
  refine hrun.trans ?_
  cases copyFrom filter change none f with
  | error e => rfl
  | ok copied => simp only [Except.bind, run_nil, Nat.zero_add, Except.map]

/-- Whatever is asked of the forest and the count in the end. -/
theorem TreeWalk.map_run_start {β : Type} (ask : Forest Task → Nat → β) (f : Forest Task) :
    ((run filter change f.size (start f)).map fun w => ask w.forest w.count) =
      (copyFrom filter change none f).map fun copied => ask copied.1 copied.2 := by
  rw [run_start]
  cases copyFrom filter change none f with
  | error e => rfl
  | ok copied =>
      exact congrArg (fun g => Except.ok (ask g copied.2)) (Forest.map_grow_outline copied.1)

end Walk

/-! ### Updates, deletions and insertions -/

variable {filter : Option Filter}

theorem copyFrom_update (changes : Fields) (owner : Option Text) (f : Forest Task) :
    copyFrom filter (fun t => some { t with fields := applyChanges changes t.fields }) owner f =
      (changeFrom changes filter f).map fun changed => (Task.link owner changed.1, changed.2) := by
  induction f generalizing owner with
  | nil => rfl
  | cons t children rest ihc ihr =>
      cases hmatch : isMatch filter t with
      | error e => simp only [copyFrom, changeFrom, hmatch, Except.map]
      | ok hit =>
          have hcopy : (if hit then some { t with fields := applyChanges changes t.fields }
              else some t) =
              some (if hit then { t with fields := applyChanges changes t.fields } else t) := by
            cases hit <;> rfl
          rw [copyFrom_of_some hmatch hcopy, changeFrom, hmatch, ihc, ihr]
          cases changeFrom changes filter children with
          | error e => rfl
          | ok inside =>
              cases changeFrom changes filter rest with
              | error e => rfl
              | ok after => cases hit <;> rfl

theorem exists_copyFrom_delete (filter : Option Filter) (owner : Option Text) (f : Forest Task) :
    ∃ n, copyFrom filter (fun _ => none) owner f =
      (removeFrom filter f).map fun left => (Task.link owner left, n) := by
  induction f generalizing owner with
  | nil => exact ⟨0, rfl⟩
  | cons t children rest ihc ihr =>
      cases hmatch : isMatch filter t with
      | error e => exact ⟨0, by simp only [copyFrom, removeFrom, hmatch, Except.map]⟩
      | ok hit =>
          obtain ⟨inside, hc⟩ := ihc t.id?
          obtain ⟨after, hr⟩ := ihr owner
          cases hit with
          | true =>
              refine ⟨1 + after, ?_⟩
              rw [copyFrom_of_none hmatch rfl, removeFrom, hmatch, hr]
              cases removeFrom filter rest <;> rfl
          | false =>
              refine ⟨0 + inside + after, ?_⟩
              rw [copyFrom_of_some hmatch rfl, removeFrom, hmatch, hc, hr]
              cases removeFrom filter children with
              | error e => rfl
              | ok left => cases removeFrom filter rest <;> rfl

/-- Without a filter and a change the forest is copied as it is. -/
theorem copyFrom_all (owner : Option Text) (f : Forest Task) :
    copyFrom none some owner f = .ok (Task.link owner f, f.size) := by
  induction f generalizing owner with
  | nil => rfl
  | cons t children rest ihc ihr =>
      have hmatch : isMatch none t = .ok true := rfl
      rw [copyFrom_of_some hmatch rfl, ihc, ihr]
      rfl

theorem size_link (owner : Option Text) (f : Forest Task) : (Task.link owner f).size = f.size := by
  induction f generalizing owner with
  | nil => rfl
  | cons t children rest ihc ihr => rw [Task.link, Forest.size, Forest.size, ihc, ihr]

/-- An update is a walk that copies every task and counts those that it changes. -/
theorem changeMatching_eq_run (changes : Fields) (filter : Option Filter) (f : Forest Task) :
    changeMatching changes filter f =
      (TreeWalk.run filter (fun t => some { t with fields := applyChanges changes t.fields }) f.size
        (.start f)).map fun w => (w.forest, w.count) := by
  rw [TreeWalk.map_run_start Prod.mk, copyFrom_update, changeMatching]
  cases changeFrom changes filter f <;> rfl

/-- A deletion is a walk in which the tasks that are meant have no copy. -/
theorem removeMatching_eq_run (filter : Option Filter) (f : Forest Task) :
    removeMatching filter f =
      (TreeWalk.run filter (fun _ => none) f.size (.start f)).map fun w =>
        (w.forest, f.size - w.forest.size) := by
  obtain ⟨n, hcopied⟩ := exists_copyFrom_delete filter none f
  rw [TreeWalk.map_run_start fun g _ => (g, f.size - g.size), hcopied, removeMatching]
  cases removeFrom filter f with
  | error e => rfl
  | ok left => simp only [Except.map, size_link]

/-- An insertion puts the new task after copies of all the others. -/
theorem map_run_all (f : Forest Task) :
    (TreeWalk.run none some f.size (.start f)).map (·.forest) = .ok (Task.link none f) := by
  rw [TreeWalk.map_run_start fun g _ => g, copyFrom_all]
  rfl

end Query

end Agenda
