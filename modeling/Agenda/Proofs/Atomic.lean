import Agenda.Proofs.Session

/-!
Queries on files are done as a whole or not at all. Everything before the last step only reads the
directory, and the last step is one write, which either fails or puts one file. So a query that
fails leaves the directory as it was, whatever it was that failed, and one that ends well changes at
most the file that it is meant to change.
-/

namespace Agenda

/-- The file that a query has written when it ends with this many tasks. A selection writes its
target if it has one, and a change writes its file if there is anything to change. -/
def Query.written? (count : Nat) : Query → Option Path
  | .select s => s.target.map Path.ofText
  | q => if count = 0 then none else some (Path.ofText q.file)

/-- The second directory is the first one with new lines in the file at the path, or it is the first
one if there is no path. -/
def Directory.Wrote (written : Option Path) (d d' : Directory) : Prop :=
  match written with
  | none => d' = d
  | some p => ∃ lines, d.putLines p lines = .ok d'

namespace Session

variable {α β : Type} {s : Settings} {p : Path} {d d' : Directory}

/-! ### Requests that fail -/

/-- The request leaves the directory as it was, however it ends. -/
def Reads (x : Session α) : Prop := ∀ d, (x.run.run d).2 = d

/-- The request leaves the directory as it was if it fails. -/
def Spares (x : Session α) : Prop := ∀ d e d', x.run.run d = (.error e, d') → d' = d

theorem Reads.spares {x : Session α} (h : Reads x) : Spares x := by
  intro d e d' hrun
  have hd := h d
  rw [hrun] at hd
  exact hd

theorem reads_pure (a : α) : Reads (pure a) := fun _ => rfl

theorem reads_throw (e : Fault) : Reads (throw e : Session α) := fun _ => rfl

theorem reads_get : Reads get := fun _ => rfl

theorem reads_bind {x : Session α} {f : α → Session β} (hx : Reads x) (hf : ∀ a, Reads (f a)) :
    Reads (x >>= f) := by
  intro d
  have hd := hx d
  rw [run_bind]
  rcases hrun : x.run.run d with ⟨r, d₁⟩
  rw [hrun] at hd
  cases r with
  | ok a => exact (hf a d₁).trans hd
  | error e => exact hd

theorem spares_bind {x : Session α} {f : α → Session β} (hx : Reads x) (hf : ∀ a, Spares (f a)) :
    Spares (x >>= f) := by
  intro d e d' hrun
  have hd := hx d
  rw [run_bind] at hrun
  rcases hx' : x.run.run d with ⟨r, d₁⟩
  rw [hx'] at hrun hd
  obtain rfl : d₁ = d := hd
  cases r with
  | ok a => exact hf a d₁ e d' hrun
  | error _ => exact (Prod.mk.inj hrun).2.symm

/-- What comes after the write cannot fail. -/
theorem spares_bind_pure {x : Session α} (hx : Spares x) (b : β) :
    Spares (x >>= fun _ => pure b) := by
  intro d e d' hrun
  rw [run_bind] at hrun
  rcases hx' : x.run.run d with ⟨r, d₁⟩
  rw [hx'] at hrun
  cases r with
  | ok a => cases (Prod.mk.inj hrun).1
  | error _ =>
      obtain rfl := (Prod.mk.inj hrun).2
      exact hx d _ _ hx'

theorem reads_ofExcept {ε : Type} (fault : ε → Fault) (r : Except ε α) :
    Reads (ofExcept fault r) := by
  cases r with
  | ok a => exact reads_pure a
  | error e => exact reads_throw (fault e)

theorem reads_refuse (fault : Option Fault) : Reads (refuse fault) := by
  cases fault with
  | none => exact reads_pure ()
  | some e => exact reads_throw e

theorem reads_linesAt (p : Path) : Reads (linesAt p) :=
  reads_bind reads_get fun _ => reads_ofExcept _ _

theorem reads_hasPath (p : Path) : Reads (hasPath p) :=
  reads_bind reads_get fun _ => reads_ofExcept _ _

theorem reads_load (s : Settings) (strict : Bool) (p : Path) : Reads (load s strict p) := by
  refine reads_bind (reads_linesAt p) fun lines => reads_bind (reads_refuse _) fun _ => ?_
  dsimp only
  split
  · exact reads_bind (reads_throw _) fun _ => reads_ofExcept _ _
  · exact reads_ofExcept _ _

theorem reads_loadOrStart (s : Settings) (p : Path) : Reads (loadOrStart s p) := by
  refine reads_bind (reads_hasPath p) fun found => ?_
  split
  · exact reads_load s true p
  · exact reads_pure _

theorem reads_baseLines (source target : Path) (own : List Text) :
    Reads (baseLines source target own) := by
  refine reads_bind (reads_hasPath target) fun found => ?_
  split
  · exact reads_linesAt target
  · exact reads_pure own

theorem spares_putLines (p : Path) (lines : List Text) : Spares (putLines p lines) := by
  refine spares_bind reads_get fun d => spares_bind (reads_ofExcept _ _) ?_
  intro new d e d' hrun
  cases (Prod.mk.inj hrun).1

theorem spares_save (s : Settings) (p : Path) (tasks : Forest Task) (lines : List Text) :
    Spares (save s p tasks lines) :=
  spares_bind (reads_refuse _) fun _ => spares_bind (reads_ofExcept _ _) fun new =>
    spares_putLines p new

theorem spares_saveIf (count : Nat) (s : Settings) (p : Path) (tasks : Forest Task)
    (lines : List Text) (result : Result) :
    Spares (if count ≠ 0 then (do save s p tasks lines; return result) else return result) := by
  split
  · exact spares_bind_pure (spares_save s p tasks lines) result
  · exact (reads_pure result).spares

theorem spares_execute (s : Settings) (q : Query) : Spares (execute s q) := by
  -- In each command everything but the last part only reads.
  cases q with
  | select q =>
      refine spares_bind (reads_load s true _) fun document => ?_
      cases q.target with
      | none =>
          exact (reads_bind (reads_ofExcept _ _) fun _ => reads_pure _).spares
      | some file =>
          refine spares_bind (reads_ofExcept _ _) fun tasks => ?_
          refine spares_bind (reads_baseLines _ _ _) fun lines => ?_
          exact spares_bind_pure (spares_save s _ _ _) _
  | update file assignments filter =>
      refine spares_bind (reads_ofExcept _ _) fun changes => ?_
      refine spares_bind (reads_load s true _) fun document => ?_
      refine spares_bind (reads_ofExcept _ _) fun ⟨tasks, count⟩ => ?_
      exact spares_saveIf count s _ tasks document.lines _
  | delete file filter =>
      refine spares_bind (reads_load s true _) fun document => ?_
      refine spares_bind (reads_ofExcept _ _) fun ⟨tasks, count⟩ => ?_
      exact spares_saveIf count s _ tasks document.lines _
  | insert file assignments =>
      refine spares_bind (reads_ofExcept _ _) fun changes => ?_
      refine spares_bind (reads_loadOrStart s _) fun document => ?_
      refine spares_bind (reads_ofExcept _ _) fun ⟨tasks, task⟩ => ?_
      exact spares_bind_pure (spares_save s _ _ _) _

/-! ### Requests that end well -/

theorem Reads.eq_of_ends {x : Session α} (h : Reads x) {a : α} (hends : Ends x d a d') :
    d' = d := by
  have hd := h d
  rwa [hends] at hd

theorem wrote_of_saveIf {tasks : Forest Task} {lines : List Text} {count : Nat}
    {result r : Result}
    (h : Ends (if count ≠ 0 then (do save s p tasks lines; return result) else return result)
      d r d') (hresult : result.count = count) :
    Directory.Wrote (if r.count = 0 then none else some p) d d' := by
  obtain ⟨rfl, hzero, hsave⟩ := of_saveIf h
  rw [hresult]
  by_cases hcount : count = 0
  · rw [if_pos hcount]
    exact hzero hcount
  · rw [if_neg hcount]
    obtain ⟨new, -, hput⟩ := hsave hcount
    exact ⟨new, hput⟩

/-- A query that ends well has written the file that it is meant to write, and no other. -/
theorem wrote_of_execute {q : Query} {r : Result} (h : Ends (execute s q) d r d') :
    Directory.Wrote (q.written? r.count) d d' := by
  cases q with
  | select q =>
      simp only [execute, select, ends_bind] at h
      obtain ⟨document, _, hload, h⟩ := h
      obtain rfl := (reads_load s true _).eq_of_ends hload
      cases htarget : q.target with
      | none =>
          simp only [htarget, ends_bind, ends_ofExcept, ends_pure] at h
          obtain ⟨rows, _, ⟨-, rfl⟩, -, rfl⟩ := h
          rw [Query.written?, htarget]
          rfl
      | some file =>
          simp only [htarget, ends_bind, ends_ofExcept, ends_pure] at h
          obtain ⟨tasks, _, ⟨-, rfl⟩, lines, _, hlines, _, _, hsave, -, rfl⟩ := h
          obtain rfl := (reads_baseLines _ _ _).eq_of_ends hlines
          obtain ⟨new, -, hput⟩ := putLines_of_save hsave
          rw [Query.written?, htarget]
          exact ⟨new, hput⟩
  | update file assignments filter =>
      simp only [execute, update, ends_bind, ends_ofExcept] at h
      obtain ⟨changes, _, ⟨-, rfl⟩, document, _, hload, ⟨tasks, count⟩, _, ⟨-, rfl⟩, h⟩ := h
      obtain rfl := (reads_load s true _).eq_of_ends hload
      exact wrote_of_saveIf h rfl
  | delete file filter =>
      simp only [execute, delete, ends_bind, ends_ofExcept] at h
      obtain ⟨document, _, hload, ⟨tasks, count⟩, _, ⟨-, rfl⟩, h⟩ := h
      obtain rfl := (reads_load s true _).eq_of_ends hload
      exact wrote_of_saveIf h rfl
  | insert file assignments =>
      simp only [execute, insert, ends_bind, ends_ofExcept] at h
      obtain ⟨changes, _, ⟨-, rfl⟩, document, _, hload, ⟨tasks, task⟩, _, ⟨-, rfl⟩, _, _, hsave,
        hend⟩ := h
      obtain ⟨rfl, rfl⟩ := ends_pure.1 hend
      obtain rfl := (reads_loadOrStart s _).eq_of_ends hload
      obtain ⟨new, -, hput⟩ := putLines_of_save hsave
      exact ⟨new, hput⟩

/-- A query that fails, for whatever reason, leaves the directory as it was. One that ends well
leaves it as well if it has no file to write, which is so for a selection without a target and for
an update or a deletion of no task; otherwise it leaves all folders and every other file. -/
theorem execute_atomic (s : Settings) (q : Query) (d : Directory) :
    match (execute s q).run.run d with
    | (.error _, d') => d' = d
    | (.ok r, d') =>
      match q.written? r.count with
      | none => d' = d
      | some p => (∃ lines, d.putLines p lines = .ok d') ∧ d'.folders = d.folders ∧
          ∀ name, name ≠ p.text → d'.get? name = d.get? name := by
  rcases hrun : (execute s q).run.run d with ⟨e | r, d'⟩
  · exact spares_execute s q d e d' hrun
  · have hwrote := wrote_of_execute hrun
    dsimp only
    cases hp : q.written? r.count with
    | none =>
        rw [hp] at hwrote
        exact hwrote
    | some p =>
        rw [hp] at hwrote
        obtain ⟨lines, hput⟩ := hwrote
        exact ⟨⟨lines, hput⟩, Directory.get?_of_putLines hput⟩

end Session

end Agenda
