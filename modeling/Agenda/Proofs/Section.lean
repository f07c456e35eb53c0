import Agenda.Section
import Agenda.Proofs.Line

/-!
The task section after its tasks have been replaced. The lines before the heading and the lines
after the section do not depend on the new tasks, and the section is found again: it is the new
tasks, up to the first heading among them that ends it, and after them nothing but a blank line.
-/

namespace Agenda.Section

variable {size : Nat} {heading : Text} {lines : List Text}

theorem isTitled_nil (heading : Text) : isTitled heading [] = false := rfl

theorem closes_nil (level : Nat) : closes level [] = false := rfl

theorem closes_of_level?_eq_none {level : Nat} {line : Text} (h : Heading.level? line = none) :
    closes level line = false := by
  simp [closes, h]

/-- A heading is written so that it says what was wanted. -/
theorem isTitled_strip (h : (Heading.level? (Text.strip heading)).isSome = true) :
    isTitled heading (Text.strip heading) = true := by
  rw [isTitled, h, caption, caption, (Text.trimmed_strip heading).strip_eq]
  simp

/-- The lines that a task section stands between: `title` is the first line that says what the
heading does, and after the section at most a blank line is left of it. -/
structure Frame (heading : Text) (before : List Text) (title : Text) (after : List Text) :
    Prop where
  not_titled : ∀ line ∈ before, isTitled heading line = false
  titled : isTitled heading title = true
  blank : ∀ line ∈ after.takeWhile (!closes (levelOf heading) ·), line = []

theorem region_of_heading? {index : Nat} (hne : heading ≠ [])
    (h : heading? heading lines = some index) :
    region (some heading) lines = ⟨index + 1, stop (levelOf heading) index lines⟩ := by
  unfold region
  split
  · contradiction
  · next heq => exact absurd (Option.some.inj heq) hne
  · next heq =>
      obtain rfl := Option.some.inj heq
      rw [h]

/-- The heading that is found is the first that says what was wanted. -/
theorem heading?_append_cons {before rest : List Text} {title : Text}
    (hbefore : ∀ line ∈ before, isTitled heading line = false)
    (htitle : isTitled heading title = true) :
    heading? heading (before ++ title :: rest) = some before.length := by
  have hnone : before.findIdx? (isTitled heading) = none := List.findIdx?_eq_none_iff.2 hbefore
  rw [heading?, List.findIdx?_append, hnone, List.findIdx?_cons, htitle]
  simp

theorem drop_append_cons (before rest : List Text) (title : Text) :
    (before ++ title :: rest).drop (before.length + 1) = rest := by
  rw [← List.drop_drop, List.drop_left]
  rfl

/-- The lines of the section in a frame. -/
theorem Frame.lines_region {before after : List Text} {title : Text}
    (h : Frame heading before title after) (hne : heading ≠ []) (body : List Text) :
    (region (some heading) (before ++ title :: body)).lines size (before ++ title :: body) =
      Line.ofTexts size (before.length + 1) (body.takeWhile (!closes (levelOf heading) ·)) := by
  have hdrop := drop_append_cons before body title
  rw [region_of_heading? hne (heading?_append_cons h.not_titled h.titled)]
  simp only [Region.lines, stop, hdrop]
  rw [List.drop_take, hdrop, Nat.add_sub_cancel_left, List.takeWhile_eq_take_findIdx_not]
  simp

/-! ### Replacing the section -/

theorem mem_of_mem_remainder {dropped : List Nat} {index : Nat} {afterDrop afterBlank : Bool}
    {line : Text} (h : line ∈ remainder dropped index afterDrop afterBlank lines) :
    line ∈ lines := by
  induction lines generalizing index afterDrop afterBlank with
  | nil => exact h
  | cons first lines ih =>
      rw [remainder] at h
      split at h
      · exact List.mem_cons_of_mem _ (ih h)
      · split at h
        · exact List.mem_cons_of_mem _ (ih h)
        · rcases List.mem_cons.mp h with rfl | h
          · exact List.mem_cons_self
          · exact List.mem_cons_of_mem _ (ih h)

theorem mem_of_mem_dropBlankEnd {line : Text} (h : line ∈ dropBlankEnd lines) : line ∈ lines :=
  List.mem_reverse.mp ((List.dropWhile_suffix _).subset (List.mem_reverse.mp h))

/-- What stands before a section that is put at the end of a document: the lines without the bullets
and, if there are any, a blank line. -/
def textBefore (size : Nat) (lines : List Text) : List Text :=
  let kept := dropBlankEnd (remainder (ownedLines size lines) 0 false false lines)
  kept ++ if kept.isEmpty then [] else [[]]

def lineEnd (lines : List Text) : List Text := if lines.getLast? = some [] then [[]] else []

theorem replace_of_heading?_eq_none (h : heading? heading lines = none) (tasks : List Text) :
    replace size heading tasks lines =
      textBefore size lines ++ Text.strip heading :: (tasks ++ lineEnd lines) := by
  simp only [replace, h, append, textBefore, lineEnd, List.append_assoc, List.cons_append]

theorem mem_textBefore {line : Text} (h : line ∈ textBefore size lines) :
    line ∈ lines ∨ line = [] := by
  rcases List.mem_append.mp h with hline | hline
  · exact .inl (mem_of_mem_remainder (mem_of_mem_dropBlankEnd hline))
  · split at hline
    · cases hline
    · exact .inr (List.mem_singleton.mp hline)

theorem mem_lineEnd {line : Text} (h : line ∈ lineEnd lines) : line = [] := by
  unfold lineEnd at h
  split at h
  · exact List.mem_singleton.mp h
  · cases h

/-- No line before a section that is put at the end says what its heading does. -/
theorem not_titled_textBefore (h : heading? heading lines = none) :
    ∀ line ∈ textBefore size lines, isTitled heading line = false := by
  intro line hline
  rcases mem_textBefore hline with hline | rfl
  · exact List.findIdx?_eq_none_iff.1 h line hline
  · exact isTitled_nil heading

/-- No line before the heading that is found says what it does. -/
theorem not_titled_take {index : Nat} (h : heading? heading lines = some index) :
    ∀ line ∈ lines.take index, isTitled heading line = false := by
  obtain ⟨hlt, -, hfirst⟩ := List.findIdx?_eq_some_iff_getElem.1 h
  intro line hline
  obtain ⟨i, hi, rfl⟩ := List.mem_iff_getElem.1 hline
  rw [List.getElem_take]
  simpa using hfirst i (by simp at hi; omega)

/-- A section that was there keeps its place and its heading. -/
theorem replace_of_heading?_eq_some (size : Nat) {index : Nat}
    (h : heading? heading lines = some index) :
    ∃ title, isTitled heading title = true ∧ lines.take (index + 1) = lines.take index ++ [title] ∧
      ∀ tasks, replace size heading tasks lines = lines.take index ++
        title :: (tasks ++ [] :: lines.drop (stop (levelOf heading) index lines)) := by
  obtain ⟨hlt, htitled, -⟩ := List.findIdx?_eq_some_iff_getElem.1 h
  have hsplit : lines.take (index + 1) = lines.take index ++ [lines[index]] :=
    (List.take_append_getElem hlt).symm
  refine ⟨lines[index], htitled, hsplit, fun tasks => ?_⟩
  simp only [replace, h, hsplit, List.append_assoc, List.cons_append, List.nil_append]

def IsKept (heading : Text) (lines : List Text) (line : Text) : Prop :=
  line ∈ lines ∨ line = [] ∨ line = Text.strip heading

/-- What is left after the section is a blank line. -/
theorem takeWhile_drop_stop (level start : Nat) (lines : List Text) :
    (lines.drop (stop level start lines)).takeWhile (!closes level ·) = [] := by
  rw [stop, ← List.drop_drop]
  set rest := lines.drop (start + 1)
  induction rest with
  | nil => rfl
  | cons line rest ih =>
      by_cases hline : closes level line = true
      · simp [List.findIdx_cons, hline]
      · simp [List.findIdx_cons, hline, ih]

/-- The new tasks stand in a frame that does not depend on them. -/
theorem exists_frame (size : Nat) (h : (Heading.level? (Text.strip heading)).isSome = true)
    (lines : List Text) :
    ∃ before title after, Frame heading before title after ∧
      (∀ line ∈ before ++ title :: after, IsKept heading lines line) ∧
      ∀ tasks, replace size heading tasks lines = before ++ title :: (tasks ++ after) := by
  cases hfind : heading? heading lines with
  | some index =>
      obtain ⟨title, htitled, hsplit, hreplace⟩ := replace_of_heading?_eq_some size hfind
      have htitle : title ∈ lines := List.mem_of_mem_take (hsplit ▸ List.mem_concat_self)
      refine ⟨lines.take index, title, [] :: lines.drop (stop (levelOf heading) index lines),
        ⟨not_titled_take hfind, htitled, ?_⟩, ?_, hreplace⟩
      · rw [List.takeWhile_cons_of_pos (by simp [closes_nil]), takeWhile_drop_stop]
        simp
      · intro line hline
        simp only [List.mem_append, List.mem_cons] at hline
        rcases hline with hline | rfl | rfl | hline
        · exact .inl (List.mem_of_mem_take hline)
        · exact .inl htitle
        · exact .inr (.inl rfl)
        · exact .inl (List.mem_of_mem_drop hline)
  | none =>
      refine ⟨textBefore size lines, Text.strip heading, lineEnd lines,
        ⟨not_titled_textBefore hfind, isTitled_strip h, ?_⟩, ?_,
        replace_of_heading?_eq_none hfind⟩
      · exact fun line hline => mem_lineEnd ((List.takeWhile_prefix _).subset hline)
      · intro line hline
        rcases List.mem_append.mp hline with hline | hline
        · exact (mem_textBefore hline).imp_right .inl
        · rcases List.mem_cons.mp hline with rfl | hline
          · exact .inr (.inr rfl)
          · exact .inr (.inl (mem_lineEnd hline))

end Agenda.Section
