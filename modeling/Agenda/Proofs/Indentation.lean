import Agenda.Proofs.CleanLines
import Agenda.Proofs.Following

/-!
Documents whose bullets leave out no level. Where the linter finds no error and does not warn of a
jump, the columns that it keeps open are those of all levels down to some depth; a bullet stands at
the next level below the ones around it. So the nesting level that its column stands for is the
depth of its task in the forest.
-/

namespace Agenda

namespace Lint

/-- No bullet leaves out a level. -/
def Steady (issues : List Issue) : Prop := ∀ i ∈ issues, i.finding.rule ≠ .indentJump

theorem steady_append {is js : List Issue} : Steady (is ++ js) ↔ Steady is ∧ Steady js :=
  List.forall_mem_append

variable {size : Nat}

theorem length_openColumns (size depth : Nat) : (openColumns size depth).length = depth := by
  induction depth with
  | zero => rfl
  | succ depth ih => rw [openColumns, List.length_cons, ih]

/-- A bullet closes the columns of the levels from some depth on. -/
theorem exists_dropWhile_openColumns (size depth : Nat) (q : Nat → Bool) :
    ∃ around, (openColumns size depth).dropWhile q = openColumns size around := by
  induction depth with
  | zero => exact ⟨0, rfl⟩
  | succ depth ih =>
      rw [openColumns, List.dropWhile_cons]
      split
      · exact ih
      · exact ⟨depth + 1, rfl⟩

/-- The three rules about the column of a bullet leave it one place below the levels around it. -/
theorem indent_eq_of_accepts (hsize : 0 < size) {l : Line} {depth : Nat}
    (haround : ∀ c ∈ (openColumns size depth).head?, c < l.indent)
    (heven : Accepts (checkIndent size l))
    (hnesting : Accepts (checkNesting size (openColumns size depth) l))
    (hsteady : Steady (checkNesting size (openColumns size depth) l)) :
    l.indent = depth * size := by
  have hmultiple : l.indent % size = 0 := by
    by_contra hnot
    rw [checkIndent, if_neg hnot] at heven
    exact Pass.not_accepts_singleton rfl heven
  cases depth with
  | zero =>
      by_contra hnot
      have hpos : 0 < l.indent := by omega
      simp only [openColumns, checkNesting, hpos, if_true] at hnesting
      exact Pass.not_accepts_singleton rfl hnesting
  | succ depth =>
      have hlt : depth * size < l.indent := haround _ rfl
      have hdistance : l.indent - depth * size ≤ size := by
        by_contra hfar
        simp only [openColumns, checkNesting, Nat.not_le.1 hfar, if_true] at hsteady
        exact hsteady _ (List.mem_singleton_self _) rfl
      -- The column is a multiple of the step, past that of the level around, by one step at most.
      obtain ⟨k, hk⟩ := Nat.dvd_of_mod_eq_zero hmultiple
      rw [Nat.mul_comm] at hk
      have hsucc : (depth + 1) * size = depth * size + size := Nat.succ_mul _ _
      have hlow : depth < k := Nat.lt_of_mul_lt_mul_right (a := size) (by omega)
      have hhigh : k < depth + 2 := by
        have hsucc' : (depth + 2) * size = (depth + 1) * size + size := Nat.succ_mul _ _
        exact Nat.lt_of_mul_lt_mul_right (a := size) (by omega)
      rw [hk, show k = depth + 1 by omega]

namespace Pass

variable {p : Pass} {l : Line} {ls : List Line} {depth : Nat}

/-- A bullet stands below the levels around it, and opens the next one. -/
theorem visitBullet_of_steady (hsize : 0 < size) (hp : p.columns = openColumns size depth)
    (hok : Accepts (p.visitBullet size l).2) (hsteady : Steady (p.visitBullet size l).2) :
    ∃ around, p.columns.dropWhile (l.indent ≤ ·) = openColumns size around ∧
      l.indent = around * size ∧
      (p.visitBullet size l).1.columns = openColumns size (around + 1) := by
  obtain ⟨around, haround⟩ := exists_dropWhile_openColumns size depth (l.indent ≤ ·)
  rw [← hp] at haround
  have hhead : ∀ c ∈ (openColumns size around).head?, c < l.indent := by
    intro c hc
    rw [← haround] at hc
    have hstop := List.head?_dropWhile_not (l.indent ≤ ·) p.columns
    rw [hc] at hstop
    simpa using hstop
  obtain ⟨found, hissues⟩ : ∃ found, (p.visitBullet size l).2 =
      checkIndent size l ++ found ++
        checkNesting size (p.columns.dropWhile (l.indent ≤ ·)) l := ⟨_, rfl⟩
  have hcolumns : (p.visitBullet size l).1.columns =
      l.indent :: p.columns.dropWhile (l.indent ≤ ·) := rfl
  rw [hissues, haround, accepts_append, accepts_append] at hok
  rw [hissues, haround, steady_append] at hsteady
  have hindent := indent_eq_of_accepts hsize hhead hok.1.1 hok.2 hsteady.2
  refine ⟨around, haround, hindent, ?_⟩
  rw [hcolumns, haround, hindent]
  rfl

/-- Without errors and jumps, every bullet stands in the column of its depth. -/
theorem columns_of_steady (hsize : 0 < size) (hok : Accepts (p.issues size ls))
    (hsteady : Steady (p.issues size ls)) (hp : p.columns = openColumns size depth) :
    (Entry.gatherFrom size p.reader ls).entries.map (·.line.indent) =
      (Forest.depths p.columns
        ((Entry.gatherFrom size p.reader ls).entries.map (·.line.indent))).map (· * size) := by
  induction ls generalizing p depth with
  | nil => rfl
  | cons l ls ih =>
      rw [issues_cons, accepts_append] at hok
      rw [issues_cons, steady_append] at hsteady
      obtain ⟨hhere, hrest⟩ := hok
      have hf := follows_visit hhere
      have hnext := fun next => @ih (p.visit size l ls).1 next hrest hsteady.2
      rw [hf.gatherFrom_eq]
      generalize p.visit size l ls = r at hf hhere hsteady hnext ⊢
      generalize p.reader.role l ls = role at hf ⊢
      cases hf with
      | bullet _ =>
          obtain ⟨around, haround, hindent, hcolumns⟩ :=
            visitBullet_of_steady hsize hp hhere hsteady.1
          have hdepth : l.indent = (p.columns.dropWhile (l.indent ≤ ·)).length * size := by
            rw [haround, length_openColumns]
            exact hindent
          exact congrArg₂ List.cons hdepth (hnext _ hcolumns)
      | _ => exact hnext depth hp

end Pass

/-- In a document without errors that can be read, and in which no bullet leaves out a level, every
task has the depth that its column stands for. -/
theorem indent_eq_depth {size : Nat} (hsize : 0 < size) (idLength : Nat) (heading : Option Text)
    (lines : List Text) {f : Forest Task} (hok : Accepts (run size heading lines))
    (hsteady : Steady (run size heading lines))
    (hf : Document.readTasks size idLength heading lines = .ok f) :
    ∀ q ∈ f.outline 0, q.2.indent = q.1 := by
  set entries := Entry.ofLines size ((Section.region heading lines).lines size lines)
  have hcolumns : entries.map (·.line.indent) =
      (Forest.depths [] (entries.map (·.line.indent))).map (· * size) :=
    Pass.columns_of_steady hsize hok hsteady (show [] = openColumns size 0 from rfl)
  have hdepths := Document.depths_tasksIn hf
  have hindents : f.toList.map (·.indent) = entries.map (·.line.indent / size) :=
    Document.map_tasksIn (k := Task.indent) (g := (·.indent / size)) (fun _ _ => rfl)
      (fun _ _ hplace => hplace.indent) hf
  have hsame : (f.outline 0).map (·.2.indent) = (f.outline 0).map (·.1) :=
    calc (f.outline 0).map (·.2.indent)
        = f.toList.map (·.indent) := by rw [← Forest.map_snd_outline f 0, List.map_map]; rfl
      _ = (entries.map (·.line.indent)).map (· / size) := by rw [hindents, List.map_map]; rfl
      _ = ((Forest.depths [] (entries.map (·.line.indent))).map (· * size)).map (· / size) :=
          congrArg (List.map (· / size)) hcolumns
      _ = Forest.depths [] (entries.map (·.line.indent)) := by
          simp only [List.map_map, Function.comp_def, Nat.mul_div_cancel _ hsize, List.map_id']
      _ = (f.outline 0).map (·.1) := hdepths.symm
  exact List.map_inj_left.1 hsame

/-- A block with a line that looks like a bullet too deep, a value with a space, of which the linter
warns, and a heading after which a bullet stands below one from before it. -/
theorem indent_eq_depth_block :
    let lines : List Text := ["# Plan", "- \"a\" id: 1", "  note: |", "        - x",
      "  - \"b\" id: 2", "    - \"c\" id: 3", "      due: some day", "", "# Later",
      "  - \"d\" id: 4"]
    let task (title id : Text) : Task :=
      { fields := [(Key.title, .text title), (Key.id, .text id)] }
    let a : Task :=
      { fields := [(Key.title, .text "a"), (Key.id, .text "1"), ("note", .text "    - x")],
        line := 2, inline := false }
    let b : Task := { task "b" "2" with parent := some "1", indent := 1, line := 5 }
    let c : Task :=
      { fields := [(Key.title, .text "c"), (Key.id, .text "3"), (Key.due, .text "some day")],
        parent := some "2", indent := 2, line := 6, inline := false }
    let d : Task := { task "d" "4" with parent := some "1", indent := 1, line := 10 }
    let f : Forest Task := .cons a (.cons b (.cons c .nil .nil) (.cons d .nil .nil)) .nil
    (Accepts (run 2 none lines) ∧ Steady (run 2 none lines) ∧
        Document.readTasks 2 8 none lines = .ok f) ∧
      f.outline 0 = [(0, a), (1, b), (2, c), (1, d)] ∧ ∀ q ∈ f.outline 0, q.2.indent = q.1 := by
  intro lines task a b c d f
  have hok : Accepts (run 2 none lines) := by
    unfold Accepts
    decide
  have hsteady : Steady (run 2 none lines) := by
    unfold Steady
    decide
  have hf : Document.readTasks 2 8 none lines = .ok f := by decide
  exact ⟨⟨hok, hsteady, hf⟩, rfl, indent_eq_depth (by decide) 8 none lines hok hsteady hf⟩

end Lint

end Agenda
