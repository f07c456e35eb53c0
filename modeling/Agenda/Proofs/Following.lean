import Agenda.Proofs.Nesting
import Agenda.Proofs.Reading
import Agenda.Proofs.Uses

/-!
The linter follows the reader. Both go through a document line by line, each with a state of its
own; what the reader keeps is a part of what the linter keeps, and it stays so on every line on
which the linter finds no error. So in a document without errors the linter checks the lines that
become tasks as bullets, and the columns that it keeps open around a bullet are as many as the task
is deep in the forest.
-/

namespace Agenda

theorem Reader.inTask_eq (r : Reader) (l : Line) :
    r.inTask l = !(l.isHeading || l.isRule || r.bullet.all (l.indent ≤ ·)) := by
  cases hb : r.bullet <;> simp [inTask, hb, ← decide_not]

namespace Lint.Pass

variable {size : Nat} {p : Pass} {l : Line} {next : List Line}

def reader (p : Pass) : Reader := ⟨p.bullet, p.block⟩

/-- What the pass does with a line on which it finds no error, by the role that the line plays for
the reader. -/
inductive Follows (size : Nat) (p : Pass) (l : Line) : Role → Pass × List Issue → Prop
  | blank : Follows size p l .blank (p, [])
  | blockLine : Follows size p l .blockLine (p, [])
  | bullet {content : Text} (line : l.bullet? = some content) :
      Follows size p l (.bullet content) (visitBullet size { p with block := none } l)
  | valueless {key : Text} : Follows size p l (.field key []) ({ p with block := none }, [])
  | field {key value : Text} (value_ne : value ≠ []) :
      Follows size p l (.field key value) (visitValue { p with block := none } l key value)
  | block {key : Text} : Follows size p l (.block key) ({ p with block := some l.indent }, [])
  | outside : Follows size p l .outside ({ p with bullet := none, block := none }, [])

theorem not_accepts_singleton {i : Issue} (h : i.isError = true) : ¬ Accepts [i] := fun hok => by
  rw [hok i (List.mem_singleton_self i)] at h
  cases h

/-- The linter looks for deeper lines as the reader does. -/
theorem hasDeeper_eq_isDeeper : hasDeeper = Reader.isDeeper := rfl

theorem inBlock_reader (p : Pass) (l : Line) :
    p.reader.inBlock l = (p.block.isSome && l.isBlank || p.block.any (· < l.indent)) := by
  cases hb : p.block <;> simp [reader, Reader.inBlock, hb]

theorem inTask_reader (p : Pass) (l : Line) :
    p.reader.inTask l = !(l.isHeading || l.isRule || p.bullet.all (l.indent ≤ ·)) :=
  p.reader.inTask_eq l

/-- Lines of a block and blank lines are passed over. -/
theorem visit_of_skipped (h : p.reader.inBlock l = true ∨ l.isBlank = true) :
    p.visit size l next = (p, []) := by
  have hskip : (l.isBlank || p.block.any (· < l.indent)) = true := by
    rw [inBlock_reader] at h
    rcases h with h | h
    · revert h
      cases l.isBlank <;> simp
    · rw [h]
      rfl
  simp only [visit, hskip, if_true]

theorem visit_of_text (hin : p.reader.inBlock l = false) (htext : l.isBlank = false) :
    p.visit size l next = visitOpen size { p with block := none } l next := by
  rw [inBlock_reader, Bool.or_eq_false_iff] at hin
  simp [visit, htext, hin.2]

theorem visit_of_below (hin : p.reader.inBlock l = false) (htext : l.isBlank = false)
    (hbullet : l.bullet? = none) (hbelow : p.reader.inTask l = true) :
    p.visit size l next = visitContinuation { p with block := none } l next := by
  rw [inTask_reader, Bool.not_eq_true'] at hbelow
  simp [visit_of_text hin htext, visitOpen, Line.isBullet, hbullet, hbelow]

theorem not_accepts_visitContinuation (hkeyless : l.keyed? = none) :
    ¬ Accepts (visitContinuation p l next).2 := by
  simp only [visitContinuation, hkeyless]
  split
  · exact not_accepts_singleton rfl
  · exact not_accepts_singleton rfl

/-- A key that opens a block for the reader opens one for the pass, if that finds no error. -/
theorem visitContinuation_opens {key value : Text} (hkeyed : l.keyed? = some (key, value))
    (hopens : value = Scalar.blockMarker ∨ value = [] ∧ Reader.isDeeper l.indent next = true)
    (h : Accepts (visitContinuation p l next).2) :
    visitContinuation p l next = ({ p with block := some l.indent }, []) := by
  simp only [visitContinuation, hkeyed, hasDeeper_eq_isDeeper] at h ⊢
  rcases hopens with rfl | ⟨rfl, hdeeper⟩
  · by_cases hdeeper : Reader.isDeeper l.indent next = true
    · simp only [hdeeper, if_true]
    · simp only [hdeeper, if_true] at h
      exact absurd h (not_accepts_singleton rfl)
  · have hmarker : ([] : Text) ≠ Scalar.blockMarker := by decide
    simp only [hmarker, hdeeper, if_true, if_false, List.isEmpty_nil] at h
    exact absurd h (not_accepts_singleton rfl)

/-- Unless it finds an error, the pass does with a line what its role for the reader says. -/
theorem follows_visit (h : Accepts (p.visit size l next).2) :
    Follows size p l (p.reader.role l next) (p.visit size l next) := by
  have htakes := p.reader.takes_role l next
  generalize p.reader.role l next = role at htakes ⊢
  cases htakes with
  | blockLine inside =>
      rw [visit_of_skipped (.inl inside)]
      exact .blockLine
  | blank _ blank =>
      rw [visit_of_skipped (.inr blank)]
      exact .blank
  | bullet apart text bullet =>
      rw [visit_of_text apart text]
      simp only [visitOpen, Line.isBullet, bullet, Option.isSome_some, if_true]
      exact .bullet bullet
  | outside apart text no_bullet away =>
      rw [inTask_reader, Bool.not_eq_false'] at away
      rw [visit_of_text apart text]
      simp only [visitOpen, Line.isBullet, no_bullet, Option.isSome_none, Bool.false_eq_true,
        if_false, away, if_true]
      exact .outside
  | stray apart text no_bullet below keyless =>
      rw [visit_of_below apart text no_bullet below] at h
      exact absurd h (not_accepts_visitContinuation keyless)
  | block apart text no_bullet below keyed opens =>
      rw [visit_of_below apart text no_bullet below] at h ⊢
      rw [visitContinuation_opens keyed opens h]
      exact .block
  | @field key value apart text no_bullet below keyed not_marker ends =>
      rw [visit_of_below apart text no_bullet below]
      simp only [visitContinuation, keyed, not_marker, if_false, hasDeeper_eq_isDeeper]
      cases hvalue : value.isEmpty with
      | true =>
          obtain rfl := List.isEmpty_iff.1 hvalue
          simp only [ends rfl, if_true, Bool.false_eq_true, if_false]
          exact .valueless
      | false =>
          simp only [Bool.false_eq_true, if_false]
          exact .field (by simpa using hvalue)

/-- The pass and the reader stay together. -/
theorem Follows.reader_eq {role : Role} {r : Pass × List Issue} (h : Follows size p l role r) :
    r.1.reader = p.reader.after l role := by
  cases h <;> rfl

theorem Follows.ne_stray {role : Role} {r : Pass × List Issue} (h : Follows size p l role r) :
    role ≠ .stray := by
  cases h <;> exact nofun

/-- What the lines from here on add up to, by what the pass keeps. -/
theorem Follows.gatherFrom_eq (h : Follows size p l (p.reader.role l next) (p.visit size l next)) :
    Entry.gatherFrom size p.reader (l :: next) =
      Entry.gather size l (p.reader.role l next)
        (Entry.gatherFrom size (p.visit size l next).1.reader next) := by
  rw [Entry.gatherFrom_cons, h.reader_eq]

/-- The bullet check runs on the bullets of the reader. -/
theorem bullets_cons (size : Nat) (p : Pass) (l : Line) (ls : List Line) :
    p.bullets size (l :: ls) =
      (match p.reader.role l ls with
        | .bullet _ => [(l, (p.visit size l ls).1)]
        | _ => []) ++ (p.visit size l ls).1.bullets size ls := by
  rw [bullets]
  congr 1
  cases hbullet : l.bullet? with
  | none =>
      have hsuits := (p.reader.takes_role l ls).suits
      rw [Line.isBullet, hbullet, Option.isSome_none, Bool.and_false, if_neg Bool.false_ne_true]
      split
      · next hrole =>
          rw [hrole, Role.Suits, hbullet] at hsuits
          cases hsuits
      · rfl
  | some content =>
      rw [Reader.role, inBlock_reader]
      cases hblank : l.isBlank with
      | true => cases p.block <;> simp
      | false => cases hblock : p.block.any (· < l.indent) <;> simp [Line.isBullet, hbullet]

/-- No line of a document without errors is stray. -/
theorem ne_stray_of_accepts {ls : List Line} (h : Accepts (p.issues size ls)) :
    ∀ m ∈ p.reader.roles ls, m.2 ≠ .stray := by
  induction ls generalizing p with
  | nil => exact nofun
  | cons l ls ih =>
      rw [issues_cons, accepts_append] at h
      have hf := follows_visit h.1
      rw [Reader.roles]
      refine List.forall_mem_cons.2 ⟨hf.ne_stray, ?_⟩
      rw [← hf.reader_eq]
      exact ih h.2

/-- In a document without errors the bullet check runs on the lines of the entries, and what it
leaves open around a bullet are the columns that the bullet stands below. -/
theorem bullets_of_accepts {ls : List Line} (h : Accepts (p.issues size ls)) :
    (p.bullets size ls).map (·.1) = (Entry.gatherFrom size p.reader ls).entries.map (·.line) ∧
      (p.bullets size ls).map (·.2.columns.length) =
        (Forest.depths p.columns
          ((Entry.gatherFrom size p.reader ls).entries.map (·.line.indent))).map (· + 1) := by
  induction ls generalizing p with
  | nil => exact ⟨rfl, rfl⟩
  | cons l ls ih =>
      rw [issues_cons, accepts_append] at h
      have hf := follows_visit h.1
      obtain ⟨hlines, hdepths⟩ := ih h.2
      rw [hf.gatherFrom_eq, bullets_cons]
      generalize p.visit size l ls = r at hf hlines hdepths ⊢
      generalize p.reader.role l ls = role at hf ⊢
      cases hf with
      | bullet _ =>
          exact ⟨congrArg (l :: ·) hlines,
            congrArg (((p.columns.dropWhile (l.indent ≤ ·)).length + 1) :: ·) hdepths⟩
      | _ => exact ⟨hlines, hdepths⟩

end Lint.Pass

/-! ### The tree -/

namespace Task

variable {length : Nat} {taken : List Text} {ts us : List Task}

/-- An id that is computed changes nothing but the fields of its task. -/
theorem fields_assignIds (h : assignIds length taken ts = .ok us) :
    List.Forall₂ (fun t u => u = { t with fields := u.fields }) ts us := by
  induction ts generalizing taken us with
  | nil =>
      obtain rfl := Except.ok.inj h
      exact .nil
  | cons t ts ih =>
      obtain ⟨u, id, us', hu, hus, rfl⟩ := assignIds_cons h
      refine .cons ?_ (ih hus)
      rcases withId_eq_ok hu with ⟨-, rfl⟩ | ⟨-, -, -, rfl⟩ <;> rfl

end Task

/-- A task and the column that it is nested by are where the bullet of the entry stands. -/
structure Entry.Places (size : Nat) (e : Entry) (p : Nat × Task) : Prop where
  column : p.1 = e.line.indent
  line : p.2.line = e.line.index + 1
  indent : p.2.indent = e.line.indent / size

theorem Entry.places_of_task {size : Nat} {e : Entry} {t : Task} (h : e.task size = .ok t) :
    e.Places size (e.line.indent, t) := by
  obtain ⟨fs, -, rfl⟩ := map_eq_ok.1 h
  exact ⟨rfl, rfl, rfl⟩

theorem map_eq_map_of_forall₂ {α β γ : Type} {R : α → β → Prop} {g : α → γ} {k : β → γ}
    (hR : ∀ a b, R a b → k b = g a) {xs : List α} {ys : List β} (h : List.Forall₂ R xs ys) :
    ys.map k = xs.map g := by
  induction h with
  | nil => rfl
  | cons hfirst _ ih => rw [List.map_cons, List.map_cons, hR _ _ hfirst, ih]

theorem forall₂_zip_right {α β γ : Type} {R : β → γ → Prop} {xs : List (α × β)} {ys : List γ}
    (h : List.Forall₂ R (xs.map (·.2)) ys) :
    List.Forall₂ (fun x p => p.1 = x.1 ∧ R x.2 p.2) xs ((xs.map (·.1)).zip ys) := by
  induction xs generalizing ys with
  | nil => exact .nil
  | cons x xs ih =>
      cases h with
      | cons hfirst h => exact .cons ⟨rfl, hfirst⟩ (ih h)

namespace Document

variable {size idLength : Nat} {ls : List Line} {f : Forest Task}

/-- The forest of a document is nested by columns, and its tasks stand where the bullets of its
entries do. -/
theorem exists_columns_of_tasksIn (h : tasksIn size idLength ls = .ok f) :
    ∃ placed : List (Nat × Task),
      List.Forall₂ (Entry.Places size) (Entry.ofLines size ls) placed ∧
      f = Task.link none ((Forest.ofColumns (·.1) placed).map (·.2)) := by
  obtain ⟨found, us, hfound, hids, rfl⟩ := exists_of_tasksIn h
  refine ⟨(found.map (·.1)).zip us, ?_, rfl⟩
  refine (forall₂_comp hfound (forall₂_zip_right (Task.fields_assignIds hids))).imp ?_
  rintro e p ⟨c, ⟨hcolumn, htask⟩, hfirst, hsecond⟩
  have hplace := Entry.places_of_task htask
  exact ⟨hfirst.trans hcolumn, hsecond ▸ hplace.line, hsecond ▸ hplace.indent⟩

/-- The depths of the tasks are those that the columns of the bullets give. -/
theorem depths_tasksIn (h : tasksIn size idLength ls = .ok f) :
    (f.outline 0).map (·.1) = Forest.depths [] ((Entry.ofLines size ls).map (·.line.indent)) := by
  obtain ⟨placed, hplaced, rfl⟩ := exists_columns_of_tasksIn h
  have hcolumns := map_eq_map_of_forall₂ (fun _ _ h => h.column) hplaced
  have hlink := Task.map_link (k := Task.line) (fun _ _ => rfl) none
    ((Forest.ofColumns (·.1) placed).map (·.2))
  rw [← Forest.map_fst_outline_map Task.line, hlink, Forest.map_fst_outline_map,
    Forest.map_fst_outline_map, Forest.map_fst_outline_ofColumns, hcolumns]

/-- What the place of a bullet says about its task, the tasks have in the order of the bullets. -/
theorem map_tasksIn {β : Type} {k : Task → β} {g : Line → β}
    (hlink : ∀ (t : Task) owner, k { t with parent := owner } = k t)
    (hplace : ∀ e p, Entry.Places size e p → k p.2 = g e.line)
    (h : tasksIn size idLength ls = .ok f) :
    f.toList.map k = (Entry.ofLines size ls).map (g ·.line) := by
  obtain ⟨placed, hplaced, rfl⟩ := exists_columns_of_tasksIn h
  rw [← Forest.toList_map, Task.map_link hlink, Forest.toList_map, Forest.toList_map,
    Forest.toList_ofColumns, List.map_map]
  exact map_eq_map_of_forall₂ hplace hplaced

/-- The outline of a document: the lines of its entries, each as deep as its column says. -/
theorem outline_tasksIn (h : tasksIn size idLength ls = .ok f) :
    (f.outline 0).map (fun q => (q.2.line, q.1 + 1)) =
      ((Entry.ofLines size ls).map (·.line.index + 1)).zip
        ((Forest.depths [] ((Entry.ofLines size ls).map (·.line.indent))).map (· + 1)) := by
  have hlines := map_tasksIn (k := Task.line) (g := (·.index + 1)) (fun _ _ => rfl)
    (fun _ _ hplace => hplace.line) h
  rw [← Forest.map_snd_outline f 0, List.map_map] at hlines
  rw [← depths_tasksIn h, List.map_map, ← hlines, List.zip_map']
  rfl

end Document

/-- The linter and the reader see the same tree. In a document without errors that can be read, the
bullet check runs on the lines of the tasks, in their order, and right after the check as many
columns are open as the task is deep, and its own. -/
theorem Lint.bullets_eq_outline (size idLength : Nat) (heading : Option Text) (lines : List Text)
    {f : Forest Task} (hok : Accepts (run size heading lines))
    (hf : Document.readTasks size idLength heading lines = .ok f) :
    (({} : Pass).bullets size ((Section.region heading lines).lines size lines)).map
        (fun b => (b.1.index + 1, b.2.columns.length)) =
      (f.outline 0).map fun q => (q.2.line, q.1 + 1) := by
  obtain ⟨hlines, hdepths⟩ := Pass.bullets_of_accepts hok
  have hnumbers := congrArg (List.map (·.index + 1)) hlines
  rw [List.map_map, List.map_map] at hnumbers
  rw [Document.outline_tasksIn hf, ← List.zip_map', hdepths]
  exact congrArg (List.zip · _) hnumbers

/-- A block with lines that look like bullets, a heading between tasks, and a bullet that stands
too deep, of which the linter only warns. -/
theorem Lint.bullets_eq_outline_block :
    let lines : List Text := ["# Plan", "- \"a\" id: 1", "  note: |", "    - x", "", "      - y",
      "  - \"b\" id: 2", "      - \"c\" id: 3", "", "# Later", "- \"d\" id: 4"]
    let task (title id : Text) : Task :=
      { fields := [(Key.title, .text title), (Key.id, .text id)] }
    let a : Task :=
      { fields := [(Key.title, .text "a"), (Key.id, .text "1"), ("note", .text "- x\n\n  - y")],
        line := 2, inline := false }
    let b : Task := { task "b" "2" with parent := some "1", indent := 1, line := 7 }
    let c : Task := { task "c" "3" with parent := some "2", indent := 3, line := 8 }
    let d : Task := { task "d" "4" with line := 11 }
    let f : Forest Task := .cons a (.cons b (.cons c .nil .nil) .nil) (.cons d .nil .nil)
    (Accepts (run 2 none lines) ∧ Document.readTasks 2 8 none lines = .ok f) ∧
      (({} : Pass).bullets 2 ((Section.region none lines).lines 2 lines)).map
          (fun b => (b.1.index + 1, b.2.columns.length)) = [(2, 1), (7, 2), (8, 3), (11, 1)] := by
  intro lines task a b c d f
  have hok : Accepts (run 2 none lines) := by
    unfold Accepts
    decide
  have hf : Document.readTasks 2 8 none lines = .ok f := by decide
  exact ⟨⟨hok, hf⟩, bullets_eq_outline 2 8 none lines hok hf⟩

end Agenda
