import Agenda.Proofs.Changes
import Agenda.Proofs.CleanLines
import Agenda.Proofs.Section
import Agenda.Proofs.Session

/-!
Files after a change. An update, a deletion or an insertion writes the tasks that it leaves into the
document, and the file is read again from what was written. The linter then finds an error if and
only if two tasks have the same id or a block is blank.
-/

namespace Agenda

theorem Lint.Pass.Judges.accepts_iff {size : Nat} {p : Lint.Pass} {ls : List Line} {ok : Prop}
    (h : p.Judges size ls ok) : Lint.Accepts (p.issues size ls) ↔ ok := by
  rw [← h.2]
  constructor
  · intro haccepts
    rw [List.eq_nil_iff_forall_not_mem]
    intro i hi
    have herror := haccepts i hi
    rw [h.1 i hi] at herror
    cases herror
  · intro hnil
    rw [hnil]
    exact fun i hi => absurd hi List.not_mem_nil

/-! ### Documents -/

namespace Document

/-- A document with new tasks has no lint errors if and only if their ids are distinct and no block
of them is blank. -/
theorem accepts_replaceTasks_iff {s : Settings} (hstep : 2 ≤ s.indentSize)
    (hwrap : s.wrapWidth = none) (hne : s.heading ≠ [])
    (hheading : (Heading.level? (Text.strip s.heading)).isSome = true) {tasks : Forest Task}
    (htasks : ∀ t ∈ tasks.toList, t.Sound ∧ Layout.KeepsId t) {lines new : List Text}
    (h : replaceTasks s tasks lines = .ok new) :
    Lint.Accepts (Lint.run s.indentSize (some s.heading) new) ↔
      (Task.ids tasks.toList).Nodup ∧
        ∀ t ∈ tasks.toList, ∀ x ∈ s.layout.blocks t, Section.isBlankText x = false := by
  obtain ⟨written, hwritten, rfl⟩ := map_eq_ok.1 h
  obtain ⟨before, title, after, hframe, -, hreplace⟩ :=
    Section.exists_frame s.indentSize hheading lines
  obtain ⟨blanks, hlines, hblanks⟩ := Layout.exists_blank_after_forestLines (o := s.layout) hwrap
    hstep (fun t ht => (htasks t ht).1) hwritten hframe.blank (before.length + 1)
  have hjudges := Layout.judges_forestLines (o := s.layout) (Nat.lt_of_lt_of_le (by decide) hstep)
    hwrap htasks hwritten (before.length + 1) hblanks
  rw [← hlines] at hjudges
  rw [hreplace, Lint.run, hframe.lines_region hne]
  exact hjudges.accepts_iff

end Document

/-! ### Files -/

/-- A task whose lines come back as they were written: its keys are keys, its id is kept, and no
block of it has a carriage return, which is read as the end of a line. -/
structure Layout.Seamless (o : Layout) (t : Task) : Prop where
  isKey : ∀ f ∈ t.fields, IsKey f.1
  keepsId : KeepsId t
  no_return : ∀ x ∈ o.blocks t, '\r' ∉ x

/-- The lines of a document with new tasks have no line ends in them, if its own lines have none. -/
theorem Document.of_mem_replaceTasks {s : Settings} (hwrap : s.wrapWidth = none)
    (hheading : (Heading.level? (Text.strip s.heading)).isSome = true)
    (hends : '\n' ∉ s.heading ∧ '\r' ∉ s.heading) {tasks : Forest Task}
    (htasks : ∀ t ∈ tasks.toList, t.Sound ∧ s.layout.Seamless t) {lines new : List Text}
    (hlines : ∀ line ∈ lines, '\n' ∉ line ∧ '\r' ∉ line)
    (h : replaceTasks s tasks lines = .ok new) :
    (∀ line ∈ new, '\n' ∉ line ∧ '\r' ∉ line) ∧ ∃ line ∈ new, line ≠ [] := by
  obtain ⟨written, hwritten, rfl⟩ := map_eq_ok.1 h
  obtain ⟨before, title, after, hframe, hkept, hreplace⟩ :=
    Section.exists_frame s.indentSize hheading lines
  have hframeLines : ∀ line ∈ before ++ title :: after, '\n' ∉ line ∧ '\r' ∉ line := by
    intro line hline
    rcases hkept line hline with hline | rfl | rfl
    · exact hlines line hline
    · simp
    · exact ⟨fun hm => hends.1 (Text.mem_of_mem_strip hm),
        fun hm => hends.2 (Text.mem_of_mem_strip hm)⟩
  have hwrittenLines : ∀ line ∈ written, '\n' ∉ line ∧ '\r' ∉ line := by
    intro line hline
    obtain ⟨t, ht, n, taskLines, htaskLines, hline⟩ := Layout.exists_taskLines hwritten hline
    obtain ⟨hsound, hseamless⟩ := htasks t ht
    obtain ⟨hnl, hcr⟩ := Layout.of_mem_taskLines (o := s.layout) hwrap hsound hseamless.keepsId
      htaskLines line hline
    refine ⟨hnl, fun hm => ?_⟩
    obtain ⟨x, hx, hm⟩ := hcr hm
    exact hseamless.no_return x hx hm
  rw [hreplace]
  refine ⟨?_, title, by simp, ?_⟩
  · intro line hline
    simp only [List.mem_append, List.mem_cons] at hline
    rcases hline with hline | rfl | hline | hline
    · exact hframeLines line (by simp [hline])
    · exact hframeLines line (by simp)
    · exact hwrittenLines line hline
    · exact hframeLines line (by simp [hline])
  · rintro rfl
    have htitled := hframe.titled
    rw [Section.isTitled_nil] at htitled
    cases htitled

namespace Session

/-- A query that changes a file leaves one that can be read. If the tasks it leaves come back as
they were written, the file has no lint errors if and only if their ids are distinct and no block of
them is blank. -/
theorem execute_accepts_iff {q : Query} (hq : ∀ selection, q ≠ .select selection)
    {d d' : Directory} {r : Result} (hrun : (execute {} q).run.run d = (.ok r, d'))
    (hcount : r.count ≠ 0) :
    ∃ doc tasks effect lines, StartsFrom {} d (Path.ofText q.file) doc ∧
      Query.step 8 q doc.tasks = .ok (tasks, effect) ∧
      d'.linesAt (Path.ofText q.file) = .ok lines ∧
      ((∀ t ∈ tasks.toList, ({} : Layout).Seamless t) →
        (Lint.Accepts (Lint.run 2 (some "## TODO") lines) ↔
          (Task.ids tasks.toList).Nodup ∧
            ∀ t ∈ tasks.toList, ∀ x ∈ ({} : Layout).blocks t, Section.isBlankText x = false)) := by
  obtain ⟨doc, tasks, effect, new, hstarts, hstep, hnew, hput⟩ :=
    putLines_of_execute hq hrun hcount
  have hheading : (Heading.level? (Text.strip ({} : Settings).heading)).isSome = true := by decide
  have htame : ∀ t ∈ tasks.toList, t.Tame := by
    refine Query.tame_step hq (by decide) ?_ hstep
    intro t ht
    rcases hstarts with hholds | ⟨-, rfl⟩
    · obtain ⟨f, hf, hdoc⟩ := map_eq_ok.1 hholds.read
      rw [← hdoc] at ht
      exact (Document.wellFormed_tasksIn (by decide) hf t ht).tame
    · cases ht
  have hlines : ∀ line ∈ doc.lines, '\n' ∉ line ∧ '\r' ∉ line := by
    rcases hstarts with hholds | ⟨-, rfl⟩
    · exact Directory.of_mem_linesAt hholds.lines
    · simp
  refine ⟨doc, tasks, effect, _, hstarts, hstep, Directory.linesAt_putLines hput, ?_⟩
  intro hseamless
  have hsound : ∀ t ∈ tasks.toList, t.Sound := fun t ht =>
    Task.sound_of_tame (hseamless t ht).isKey (htame t ht).1 (htame t ht).2
  obtain ⟨hends, hne⟩ := Document.of_mem_replaceTasks (s := {}) rfl hheading (by decide)
    (fun t ht => ⟨hsound t ht, hseamless t ht⟩) hlines hnew
  have hread := Directory.linesAt_putLines hput
  rw [Directory.linesAt_putLines_of_lines hput hends hne] at hread
  rw [← Except.ok.inj hread]
  exact Document.accepts_replaceTasks_iff (s := {}) (by decide) rfl (by decide) hheading
    (fun t ht => ⟨hsound t ht, (hseamless t ht).keepsId⟩) hnew

/-- A note that is nothing but a line feed makes a file that is refused. -/
theorem not_accepts_of_blank_note :
    let q : Query := .insert "f.md" [⟨Key.title, ⟨"x", true⟩⟩, ⟨Key.id, ⟨"i", true⟩⟩,
      ⟨"note", ⟨"\\n", true⟩⟩]
    let d : Directory := { files := [("f.md", [])] }
    ∃ d' lines, (execute {} q).run.run d = (.ok (.inserted "i" (Path.ofText "f.md")), d') ∧
      d'.linesAt (Path.ofText "f.md") = .ok lines ∧
      ¬ Lint.Accepts (Lint.run 2 (some "## TODO") lines) := by
  intro q d
  let t : Task :=
    { fields := [(Key.title, .text "x"), (Key.id, .text "i"), ("note", .text "\n")] }
  let d' : Directory :=
    { files := [("f.md", Text.toBytes "## TODO\n- \"x\" id: i\n  note: |\n\n")] }
  have hrun : (execute {} q).run.run d = (.ok (.inserted "i" (Path.ofText "f.md")), d') := by
    rfl
  obtain ⟨doc, tasks, effect, lines, hstarts, hstep, hlines, hiff⟩ :=
    execute_accepts_iff (q := q) nofun hrun (by decide)
  have hdoc : doc.tasks = .nil := by
    rcases hstarts with hholds | ⟨-, rfl⟩
    · have hempty : d.linesAt (Path.ofText "f.md") = .ok [] := by decide
      have hnil : doc.lines = [] := Except.ok.inj (hholds.lines.symm.trans hempty)
      have hread := hholds.read
      rw [hnil] at hread
      rw [← Except.ok.inj hread]
      rfl
    · rfl
  have htasks : tasks = .cons t .nil .nil := by
    have hnil : Query.step 8 q .nil = .ok (.cons t .nil .nil, .inserted t.fields (some "i")) := by
      decide
    rw [hdoc, hnil] at hstep
    exact (Prod.mk.inj (Except.ok.inj hstep)).1.symm
  subst htasks
  have hid : t.id? = some "i" := rfl
  have hseamless : ({} : Layout).Seamless t := by
    refine ⟨by decide, ?_, by decide⟩
    intro id ht
    rw [← Option.some.inj (hid.symm.trans ht)]
    exact .inr (by decide)
  refine ⟨d', lines, hrun, hlines, ?_⟩
  rw [hiff (by simpa [Forest.toList] using hseamless)]
  rintro ⟨-, hblocks⟩
  have hblank : Section.isBlankText "\n" = false :=
    hblocks t (by simp [Forest.toList]) "\n" (by decide)
  exact absurd hblank (by decide)

end Session

end Agenda
