import Agenda.Query.Step
import Agenda.Session
import Agenda.Proofs.Directory
import Agenda.Proofs.TaskLines
import Agenda.Proofs.Uses

/-!
Requests on files, taken apart. A request that ends well went through each of its parts in turn,
and of these parts only the last one, a write, changes the directory.
-/

namespace Agenda.Session

variable {α β : Type} {s : Settings} {p : Path} {d d' : Directory}

/-- The request ends well with this result, and it leaves this directory. -/
def Ends (x : Session α) (d : Directory) (a : α) (d' : Directory) : Prop :=
  x.run.run d = (.ok a, d')

/-! ### The parts of a request -/

@[simp] theorem ends_pure {a b : α} : Ends (pure a) d b d' ↔ a = b ∧ d = d' := by
  constructor
  · intro h
    obtain ⟨ha, hd⟩ := Prod.mk.inj h
    exact ⟨Except.ok.inj ha, hd⟩
  · rintro ⟨rfl, rfl⟩
    rfl

@[simp] theorem ends_throw {e : Fault} {a : α} : ¬ Ends (throw e) d a d' := by
  intro h
  cases (Prod.mk.inj h).1

@[simp] theorem ends_get {a : Directory} : Ends get d a d' ↔ d = a ∧ d = d' := ends_pure

@[simp] theorem ends_set {new : Directory} {u : Unit} : Ends (set new) d u d' ↔ new = d' := by
  constructor
  · exact fun h => (Prod.mk.inj h).2
  · rintro rfl
    rfl

theorem run_bind (x : Session α) (f : α → Session β) (d : Directory) :
    (x >>= f).run.run d = match x.run.run d with
      | (.ok a, d₁) => (f a).run.run d₁
      | (.error e, d₁) => (.error e, d₁) := by
  rw [ExceptT.run_bind, StateT.run_bind]
  rcases x.run.run d with ⟨r, d₁⟩
  cases r <;> rfl

/-- A request that ends well went through both of its parts. -/
@[simp] theorem ends_bind {x : Session α} {f : α → Session β} {b : β} :
    Ends (x >>= f) d b d' ↔ ∃ a d₁, Ends x d a d₁ ∧ Ends (f a) d₁ b d' := by
  unfold Ends
  rw [run_bind]
  rcases x.run.run d with ⟨r, d₁⟩
  cases r with
  | ok a =>
      refine ⟨fun h => ⟨a, d₁, rfl, h⟩, ?_⟩
      rintro ⟨a', d₁', h, h'⟩
      obtain ⟨ha, rfl⟩ := Prod.mk.inj h
      obtain rfl := Except.ok.inj ha
      exact h'
  | error e =>
      refine ⟨fun h => ?_, ?_⟩
      · cases (Prod.mk.inj h).1
      · rintro ⟨a', d₁', h, -⟩
        cases (Prod.mk.inj h).1

@[simp] theorem ends_ofExcept {ε : Type} {fault : ε → Fault} {r : Except ε α} {a : α} :
    Ends (ofExcept fault r) d a d' ↔ r = .ok a ∧ d = d' := by
  cases r with
  | ok b => simp [ofExcept]
  | error e => simp [ofExcept]

@[simp] theorem ends_refuse {fault : Option Fault} {u : Unit} :
    Ends (refuse fault) d u d' ↔ fault = none ∧ d = d' := by
  cases fault with
  | none => simp [refuse]
  | some e => simp [refuse]

@[simp] theorem ends_linesAt {lines : List Text} :
    Ends (linesAt p) d lines d' ↔ d.linesAt p = .ok lines ∧ d = d' := by
  simp [linesAt, and_comm]

@[simp] theorem ends_hasPath {found : Bool} :
    Ends (hasPath p) d found d' ↔ d.hasPath p = .ok found ∧ d = d' := by
  simp [hasPath, and_comm]

@[simp] theorem ends_putLines {lines : List Text} {u : Unit} :
    Ends (putLines p lines) d u d' ↔ d.putLines p lines = .ok d' := by
  simp [putLines]

/-! ### Documents -/

structure Holds (s : Settings) (d : Directory) (p : Path) (doc : Document) : Prop where
  lines : d.linesAt p = .ok doc.lines
  accepts : Lint.Accepts (Lint.run s.indentSize (some s.heading) doc.lines)
  read : Document.ofLines s doc.lines = .ok doc

theorem holds_of_load {doc : Document} (h : Ends (load s true p) d doc d') :
    Holds s d p doc ∧ d = d' := by
  simp only [load, ends_bind, ends_linesAt, ends_refuse] at h
  obtain ⟨lines, _, ⟨hlines, rfl⟩, _, _, ⟨-, rfl⟩, h⟩ := h
  split at h
  · simp at h
  · next hnone =>
      obtain ⟨hread, rfl⟩ := ends_ofExcept.1 h
      obtain ⟨tasks, -, rfl⟩ := map_eq_ok.1 hread
      refine ⟨⟨hlines, ?_, hread⟩, rfl⟩
      intro i hi
      by_contra herror
      exact hnone (by simpa using ⟨i, hi, by simpa using herror⟩)

/-- Where a change starts from: the document at the path, or an empty one if there is nothing. -/
def StartsFrom (s : Settings) (d : Directory) (p : Path) (doc : Document) : Prop :=
  Holds s d p doc ∨ (d.hasPath p = .ok false ∧ doc = {})

theorem startsFrom_of_loadOrStart {doc : Document} (h : Ends (loadOrStart s p) d doc d') :
    StartsFrom s d p doc ∧ d = d' := by
  simp only [loadOrStart, ends_bind, ends_hasPath] at h
  obtain ⟨found, _, ⟨hfound, rfl⟩, h⟩ := h
  cases found with
  | true =>
      obtain ⟨hholds, rfl⟩ := holds_of_load (by simpa using h)
      exact ⟨.inl hholds, rfl⟩
  | false =>
      obtain ⟨rfl, rfl⟩ := ends_pure.1 (by simpa using h)
      exact ⟨.inr ⟨hfound, rfl⟩, rfl⟩

theorem putLines_of_save {tasks : Forest Task} {lines : List Text} {u : Unit}
    (h : Ends (save s p tasks lines) d u d') :
    ∃ new, Document.replaceTasks s tasks lines = .ok new ∧ d.putLines p new = .ok d' := by
  simp only [save, ends_bind, ends_refuse, ends_ofExcept, ends_putLines] at h
  obtain ⟨_, _, ⟨-, rfl⟩, new, _, ⟨hnew, rfl⟩, hput⟩ := h
  exact ⟨new, hnew, hput⟩

/-- A change is written if and only if it is one of some task. -/
theorem of_saveIf {tasks : Forest Task} {lines : List Text} {count : Nat} {result r : Result}
    (h : Ends (if count ≠ 0 then (do save s p tasks lines; return result) else return result)
      d r d') :
    r = result ∧ (count = 0 → d' = d) ∧ (count ≠ 0 → ∃ new,
      Document.replaceTasks s tasks lines = .ok new ∧ d.putLines p new = .ok d') := by
  split at h
  · next hne =>
      simp only [ends_bind, ends_pure] at h
      obtain ⟨_, _, hsave, rfl, rfl⟩ := h
      exact ⟨rfl, fun hzero => absurd hzero hne, fun _ => putLines_of_save hsave⟩
  · next hzero =>
      obtain ⟨rfl, rfl⟩ := ends_pure.1 h
      exact ⟨rfl, fun _ => rfl, fun hne => absurd hne hzero⟩

/-- A change that is made: the tasks of a document, the tasks that the query leaves of them, and
the lines with these, which are written last. -/
theorem putLines_of_execute {q : Query} (hq : ∀ selection, q ≠ .select selection) {r : Result}
    (h : Ends (execute s q) d r d') (hcount : r.count ≠ 0) :
    ∃ doc tasks effect lines, StartsFrom s d (Path.ofText q.file) doc ∧
      Query.step s.idLength q doc.tasks = .ok (tasks, effect) ∧
      Document.replaceTasks s tasks doc.lines = .ok lines ∧
      d.putLines (Path.ofText q.file) lines = .ok d' := by
  cases q with
  | select selection => exact absurd rfl (hq selection)
  | update file assignments filter =>
      simp only [execute, update, ends_bind, ends_ofExcept] at h
      obtain ⟨changes, _, ⟨hchanges, rfl⟩, doc, _, hload, ⟨tasks, count⟩, _, ⟨htasks, rfl⟩, h⟩ := h
      obtain ⟨hholds, rfl⟩ := holds_of_load hload
      obtain ⟨rfl, -, hsave⟩ := of_saveIf h
      obtain ⟨lines, hlines, hput⟩ := hsave hcount
      refine ⟨doc, tasks, .updated changes count, lines, .inl hholds, ?_, hlines, hput⟩
      simp only [Query.step, hchanges, htasks, Except.bind, Except.mapError, Except.map]
  | delete file filter =>
      simp only [execute, delete, ends_bind, ends_ofExcept] at h
      obtain ⟨doc, _, hload, ⟨tasks, count⟩, _, ⟨htasks, rfl⟩, h⟩ := h
      obtain ⟨hholds, rfl⟩ := holds_of_load hload
      obtain ⟨rfl, -, hsave⟩ := of_saveIf h
      obtain ⟨lines, hlines, hput⟩ := hsave hcount
      refine ⟨doc, tasks, .deleted count, lines, .inl hholds, ?_, hlines, hput⟩
      simp only [Query.step, htasks, Except.mapError, Except.map]
  | insert file assignments =>
      simp only [execute, insert, ends_bind, ends_ofExcept] at h
      obtain ⟨changes, _, ⟨hchanges, rfl⟩, doc, _, hload, ⟨tasks, task⟩, _, ⟨htasks, rfl⟩, _, _,
        hsave, hend⟩ := h
      obtain ⟨-, rfl⟩ := ends_pure.1 hend
      obtain ⟨hstarts, rfl⟩ := startsFrom_of_loadOrStart hload
      obtain ⟨lines, hlines, hput⟩ := putLines_of_save hsave
      refine ⟨doc, tasks, .inserted changes task.id?, lines, hstarts, ?_, hlines, hput⟩
      simp only [Query.step, hchanges, htasks, Except.bind, Except.map]

end Agenda.Session
