import Agenda.Lint
import Agenda.Proofs.LostForest

/-!
Rewriting a document. The tasks that a document was read with are put back into its lines, and the
new document is read again. It has the same tasks if and only if every id is kept and every value
survives.
-/

namespace Agenda.Document

/-- Tasks that are put into a frame are read from the lines that they leave there. -/
theorem ofText_frame {s : Settings} {before after : List Text} {title : Text}
    (hframe : Section.Frame s.heading before title after) (hne : s.heading ≠ [])
    (hnl : ∀ line ∈ before ++ title :: after, '\n' ∉ line) (written : List Text) :
    (ofText s (Text.join ['\n'] (before ++ title :: (written ++ after)))).map (·.tasks) =
      tasksIn s.indentSize s.idLength (Line.ofTexts s.indentSize (before.length + 1)
        ((written.flatMap (Text.split '\n') ++ after).takeWhile
          (!Section.closes (Section.levelOf s.heading) ·))) := by
  obtain ⟨hbefore, htitle, hafter⟩ : (∀ line ∈ before, '\n' ∉ line) ∧ '\n' ∉ title ∧
      ∀ line ∈ after, '\n' ∉ line := by simpa [or_imp, forall_and] using hnl
  have hsplit : Text.split '\n' (Text.join ['\n'] (before ++ title :: (written ++ after))) =
      before ++ title :: (written.flatMap (Text.split '\n') ++ after) := by
    rw [Text.split_join_flatMap (by simp), List.flatMap_append, List.flatMap_cons,
      List.flatMap_append, Text.flatMap_split_of_not_mem hbefore,
      Text.flatMap_split_of_not_mem hafter, Text.split_of_not_mem htitle]
    rfl
  rw [ofText, hsplit, ofLines, readTasks, hframe.lines_region hne]
  cases tasksIn s.indentSize s.idLength _ <;> rfl

/-- The lines of a text have no line feeds, so that those of its frame have none either. -/
theorem not_mem_of_isKept {t heading line : Text} (hheading : '\n' ∉ heading)
    (h : Section.IsKept heading (Text.split '\n' t) line) : '\n' ∉ line := by
  rcases h with hline | rfl | rfl
  · exact Text.not_mem_of_mem_split hline
  · simp
  · exact fun hm => hheading (Text.mem_of_mem_strip hm)

/-- If every id is kept, the tasks are read back from a frame as the tasks that the layout leaves
of them. -/
theorem exists_tasks_of_frame {s : Settings} (hstep : 2 ≤ s.indentSize)
    (hwrap : s.wrapWidth = none) {f : Forest Task}
    (hf : ∀ u ∈ f.toList, u.WellFormed ∧ Layout.KeepsId u) {written after : List Text}
    (hwritten : s.layout.lines f = .ok written) {level : Nat}
    (hafter : ∀ line ∈ after.takeWhile (!Section.closes level ·), line = []) (index : Nat) :
    ∃ f', tasksIn s.indentSize s.idLength (Line.ofTexts s.indentSize index
        ((written.flatMap (Text.split '\n') ++ after).takeWhile (!Section.closes level ·))) = .ok f' ∧
      Forest.Rel (fun t u => u.fields = s.layout.rereadFields t) f f' := by
  have hsound : ∀ u ∈ f.toList, u.Sound := fun u hu => (hf u hu).1.sound
  obtain ⟨blanks, hlines, hblanks⟩ := Layout.exists_blank_after_forestLines (o := s.layout) hwrap
    hstep hsound hwritten hafter index
  have hnl : ∀ line ∈ written, '\n' ∉ line :=
    Layout.not_mem_of_mem_forestLines hwrap hsound (fun u hu => (hf u hu).2) hwritten
  obtain ⟨f', hf', hrel⟩ := Layout.tasksIn_forestLines (o := s.layout)
    (Nat.lt_of_lt_of_le (by decide) hstep) hwrap hf hwritten s.idLength index hblanks
  rw [← hlines] at hf'
  rw [Text.flatMap_split_of_not_mem hnl]
  exact ⟨f', hf', hrel.imp fun _ _ h => h.1⟩

/-- Rewriting a document keeps all of its tasks if and only if every id is kept and every value
survives. -/
theorem rewrite_same_iff {t : Text} {d : Document} (h : ofText {} t = .ok d) :
    (∃ lines d', replaceTasks {} d.tasks d.lines = .ok lines ∧
        ofText {} (Text.join ['\n'] lines) = .ok d' ∧ d.tasks.same Task.same d'.tasks = true) ↔
      ∀ u ∈ d.tasks.toList, Layout.KeepsId u ∧ ({} : Layout).TaskSurvives u := by
  obtain ⟨f, hf, rfl⟩ := map_eq_ok.1 h
  have hwf := wellFormed_tasksIn (by decide) hf
  have hheading : (Heading.level? (Text.strip ({} : Settings).heading)).isSome = true := by decide
  obtain ⟨before, title, after, hframe, hkept, hreplace⟩ :=
    Section.exists_frame ({} : Settings).indentSize hheading (Text.split '\n' t)
  have hread := ofText_frame (s := {}) hframe (by decide) fun line hline =>
    not_mem_of_isKept (by decide) (hkept line hline)
  have hreplaced : ∀ {lines}, replaceTasks {} f (Text.split '\n' t) = .ok lines ↔
      ∃ written, ({} : Layout).lines f = .ok written ∧
        before ++ title :: (written ++ after) = lines := by
    intro lines
    rw [replaceTasks, map_eq_ok]
    simp only [hreplace]
    rfl
  by_cases hids : ∀ u ∈ f.toList, Layout.KeepsId u
  · constructor
    · rintro ⟨lines, d', hlines, hd', hsame⟩ u hu
      obtain ⟨written, hwritten, rfl⟩ := hreplaced.1 hlines
      obtain ⟨f', hf', hrel⟩ := exists_tasks_of_frame (s := {}) (by decide) rfl
        (fun u hu => ⟨hwf u hu, hids u hu⟩) hwritten hframe.blank (before.length + 1)
      rw [← hread, hd'] at hf'
      obtain rfl := Except.ok.inj hf'
      refine ⟨hids u hu, (Layout.forest_survives_iff hwf).1 ⟨⟨written, hwritten⟩, ?_⟩ u hu⟩
      exact (Layout.same_iff_of_rel hrel).1 hsame
    · intro hall
      obtain ⟨⟨written, hwritten⟩, hsame⟩ :=
        (Layout.forest_survives_iff hwf).2 fun u hu => (hall u hu).2
      obtain ⟨f', hf', hrel⟩ := exists_tasks_of_frame (s := {}) (by decide) rfl
        (fun u hu => ⟨hwf u hu, hids u hu⟩) hwritten hframe.blank (before.length + 1)
      rw [← hread] at hf'
      obtain ⟨d', hd', rfl⟩ := map_eq_ok.1 hf'
      exact ⟨_, d', hreplaced.2 ⟨written, hwritten, rfl⟩, hd',
        (Layout.same_iff_of_rel hrel).2 hsame⟩
  · refine iff_of_false ?_ fun hall => hids fun u hu => (hall u hu).1
    rintro ⟨lines, d', hlines, hd', hsame⟩
    obtain ⟨written, hwritten, rfl⟩ := hreplaced.1 hlines
    simp only [not_forall] at hids
    obtain ⟨u, hu, hlost⟩ := hids
    have hf' := hread written
    rw [hd'] at hf'
    rw [Layout.not_same_of_lost (o := {}) (by decide) rfl hwf ⟨u, hu, hlost⟩ hwritten hframe.blank
      hf'.symm] at hsame
    cases hsame

/-- A document without lint errors in which a text that ends with a line feed is lost. -/
theorem rewrite_not_same_of_newline :
    let t : Text := "- \"t\" note: \"a\\n\" id: x"
    let u : Task :=
      { fields := [(Key.title, .text "t"), ("note", .text "a\n"), (Key.id, .text "x")], line := 1 }
    let d : Document := ⟨.cons u .nil .nil, [t]⟩
    ofText {} t = .ok d ∧ Lint.run 2 (some "## TODO") d.lines = [] ∧
      ¬ ∃ lines d', replaceTasks {} d.tasks d.lines = .ok lines ∧
        ofText {} (Text.join ['\n'] lines) = .ok d' ∧ d.tasks.same Task.same d'.tasks = true := by
  intro t u d
  have hd : ofText {} t = .ok d := by decide
  have hlint : Lint.run 2 (some "## TODO") d.lines = [] := by decide
  refine ⟨hd, hlint, ?_⟩
  rw [rewrite_same_iff hd]
  intro hall
  have hsafe : Layout.BlockSafe "a\n" :=
    (hall u (by simp [d, Forest.toList])).2 ("note", .text "a\n") (by decide) (by decide) (by decide)
  exact absurd hsafe (by decide)

end Agenda.Document
