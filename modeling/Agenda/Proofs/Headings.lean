import Agenda.Proofs.RoundTrip
import Agenda.Proofs.Section

/-!
Headings in the text of blocks. The text of a block is written as it is, two levels deeper than its
bullet, and a heading stands at most three spaces from the margin. So with two or more spaces a
level no text looks like a heading where it is written; with one space a level the text of the
blocks of roots, and of their children, may.
-/

namespace Agenda

/-- A text moves to the right, and is no heading there if that is too far from the margin. -/
theorem Heading.level?_spaces_append (n : Nat) (t : Text) :
    level? (Text.spaces n ++ t) =
      if n + (t.takeWhile (· = ' ')).length ≤ 3 then level? t else none := by
  have hlength := congrArg List.length (List.takeWhile_append_dropWhile (p := (· = ' ')) (l := t))
  rw [List.length_append] at hlength
  have hspaces : (Text.spaces n ++ t).length = n + t.length := by
    rw [List.length_append, Text.spaces, List.length_replicate]
  by_cases h : n + (t.takeWhile (· = ' ')).length ≤ 3
  · have hmoved : (Text.spaces n ++ t).length ≤ (t.dropWhile (· = ' ')).length + 3 := by omega
    have hmargin : t.length ≤ (t.dropWhile (· = ' ')).length + 3 := by omega
    simp only [level?, Line.dropWhile_space_margin, hmoved, hmargin, h, if_true]
  · have hmoved : ¬ (Text.spaces n ++ t).length ≤ (t.dropWhile (· = ' ')).length + 3 := by omega
    simp only [level?, Line.dropWhile_space_margin, hmoved, h, decide_false, Bool.false_and,
      Bool.false_eq_true, if_false]

theorem Heading.level?_spaces_append_eq_none {n : Nat} {t : Text} :
    level? (Text.spaces n ++ t) = none ↔
      level? t = none ∨ 3 < n + (t.takeWhile (· = ' ')).length := by
  rw [level?_spaces_append]
  split
  · next h => rw [or_iff_left (Nat.not_lt.2 h)]
  · next h => exact iff_of_true rfl (.inr (Nat.lt_of_not_le h))

/-- The lines of a section reach past `tasks` if none of these ends it. -/
theorem Section.lt_stop_iff {level : Nat} {before tasks after : List Text} {title : Text} :
    before.length + tasks.length <
        stop level before.length (before ++ title :: (tasks ++ after)) ↔
      ∀ line ∈ tasks, closes level line = false := by
  rw [stop, drop_append_cons, List.findIdx_append]
  by_cases h : tasks.findIdx (closes level) < tasks.length
  · obtain ⟨line, hline, hcloses⟩ := List.findIdx_lt_length.1 h
    rw [if_pos h]
    refine iff_of_false (by omega) fun hopen => ?_
    rw [hopen line hline] at hcloses
    cases hcloses
  · rw [if_neg h]
    refine iff_of_true (by omega) fun line hline => ?_
    rw [Bool.eq_false_iff]
    exact fun hcloses => h (List.findIdx_lt_length.2 ⟨line, hline, hcloses⟩)

namespace Layout

variable {o : Layout} {depth : Nat} {ls : List Text}

def fieldsBelow (o : Layout) (t : Task) : Fields :=
  if isMultiline o.longValue t then otherFields false t.fields else []

def blocks (o : Layout) (t : Task) : List Text :=
  (o.fieldsBelow t).filterMap fun f => blockValue? o.longValue f.2

/-- No line of a block of the task looks like a heading, unless it is written too deep for one. -/
def ClearAt (o : Layout) (depth : Nat) (t : Task) : Prop :=
  ∀ text ∈ o.blocks t, ∀ line ∈ Text.split '\n' text,
    Heading.level? line = none ∨ 3 < (depth + 2) * o.step + (line.takeWhile (· = ' ')).length

def Clear (o : Layout) (f : Forest Task) : Prop := ∀ p ∈ f.outline 0, o.ClearAt p.1 p.2

theorem clearAt_of_two_le (hstep : 2 ≤ o.step) (t : Task) : o.ClearAt depth t := by
  intro text _ line _
  have hdeep : 2 * 2 ≤ (depth + 2) * o.step := Nat.mul_le_mul (by omega) hstep
  exact .inr (by omega)

theorem level?_dash (n : Nat) (rest : Text) :
    Heading.level? (Text.spaces n ++ '-' :: rest) = none := by
  apply Line.level?_of_head (c := '-') _ (by decide)
  rw [Line.dropWhile_space_margin, List.dropWhile_cons_of_neg (by decide)]
  rfl

theorem level?_bulletLine (n : Nat) (parts : List Text) :
    Heading.level? (bulletLine (Text.spaces n) parts) = none := by
  rw [bulletLine_eq]
  exact level?_dash n _

theorem level?_keyLine (n : Nat) {key : Text} (hkey : IsKey key) (rest : Text) :
    Heading.level? (Text.spaces n ++ (key ++ rest)) = none := by
  obtain ⟨c, cs, rfl⟩ := List.exists_cons_of_ne_nil hkey.ne_nil
  have hne : ∀ d, isKeyStart d = false → c ≠ d := by
    rintro d hd rfl
    rw [hkey.1] at hd
    cases hd
  apply Line.level?_of_head (c := c) _ (hne '#' (by decide))
  rw [Line.dropWhile_space_margin, List.cons_append,
    List.dropWhile_cons_of_neg (by simpa using hne ' ' (by decide))]
  rfl

/-- Something holds of all lines if it holds of the lines of each part. -/
theorem forall_mem_flatten {α : Type} {R : α → List Text → Prop} {P : Text → Prop} {Q : α → Prop}
    {as : List α} {groups : List (List Text)} (h : List.Forall₂ R as groups)
    (hR : ∀ a ∈ as, ∀ ls, R a ls → ((∀ l ∈ ls, P l) ↔ Q a)) :
    (∀ l ∈ groups.flatten, P l) ↔ ∀ a ∈ as, Q a := by
  induction h with
  | nil => exact ⟨nofun, nofun⟩
  | cons hr _ ih =>
      rw [List.forall_mem_cons] at hR
      rw [List.flatten_cons, List.forall_mem_append, List.forall_mem_cons, hR.1 _ hr, ih hR.2]

theorem heading_fieldLines (hwrap : o.wrapWidth = none) {margin : Nat} {f : Text × Value}
    (hkey : IsKey f.1) (hls : o.fieldLines (Text.spaces margin) f = .ok ls) :
    (∀ l ∈ ls, Heading.level? l = none) ↔
      ∀ text ∈ blockValue? o.longValue f.2, ∀ line ∈ Text.split '\n' text,
        Heading.level? (Text.spaces (margin + 2 * o.step) ++ line) = none := by
  rcases (fieldLines_eq_ok hwrap).1 hls with ⟨text, htext, rfl⟩ | ⟨hnone, w, -, rfl⟩
  · -- An empty line is written without a margin.
    have hline : ∀ line, Heading.level? (if line.isEmpty then [] else
        Text.spaces (margin + o.step + o.step) ++ line) =
          Heading.level? (Text.spaces (margin + 2 * o.step) ++ line) := by
      intro line
      cases line with
      | nil => rw [Heading.level?_spaces_append, List.isEmpty_nil, if_pos rfl]; split <;> rfl
      | cons c cs => rw [Nat.two_mul, ← Nat.add_assoc]; rfl
    simp only [blockLines, List.forall_mem_cons, List.forall_mem_map, hline, level?_keyLine _ hkey,
      true_and, htext, Option.mem_some_iff, forall_eq']
  · rw [List.forall_mem_singleton]
    refine iff_of_true (level?_keyLine _ hkey _) fun text htext => ?_
    rw [hnone] at htext
    cases htext

theorem level?_of_mem_fieldLines (hwrap : o.wrapWidth = none) (hstep : 2 ≤ o.step) {margin : Nat}
    {f : Text × Value} (hkey : IsKey f.1) (hls : o.fieldLines (Text.spaces margin) f = .ok ls) :
    ∀ l ∈ ls, Heading.level? l = none := by
  refine (heading_fieldLines hwrap hkey hls).2 fun text _ line _ => ?_
  exact Heading.level?_spaces_append_eq_none.2 (.inr (by omega))

/-- The lines of a task are a bullet and the lines of the fields below it. -/
theorem exists_fieldLines {t : Task} (hls : o.taskLines depth t = .ok ls) :
    ∃ parts groups, ls = bulletLine (Text.spaces (depth * o.step)) parts :: groups.flatten ∧
      List.Forall₂ (fun f ls => o.fieldLines (Text.spaces (depth * o.step)) f = .ok ls)
        (o.fieldsBelow t) groups := by
  unfold fieldsBelow
  rcases taskLines_eq_ok.1 hls with ⟨hm, groups, hgroups, rfl⟩ | ⟨hm, parts, -, rfl⟩
  · rw [if_pos hm]
    exact ⟨_, groups, rfl, hgroups⟩
  · rw [if_neg (by simp [hm])]
    exact ⟨_, [], rfl, .nil⟩

theorem heading_taskLines (hwrap : o.wrapWidth = none) {t : Task}
    (hkeys : ∀ f ∈ t.fields, IsKey f.1) (hls : o.taskLines depth t = .ok ls) :
    (∀ l ∈ ls, Heading.level? l = none) ↔ o.ClearAt depth t := by
  obtain ⟨parts, groups, rfl, hgroups⟩ := exists_fieldLines hls
  have hkey : ∀ f ∈ o.fieldsBelow t, IsKey f.1 := by
    intro f hf
    unfold fieldsBelow at hf
    split at hf
    · exact hkeys f (mem_otherFields.1 hf).1
    · cases hf
  -- Keys and the bullet are no headings, so all depends on the lines of the blocks.
  have hfields := forall_mem_flatten hgroups fun f hf ls hls =>
    heading_fieldLines hwrap (hkey f hf) hls
  simp only [List.forall_mem_cons, level?_bulletLine, true_and, hfields,
    Heading.level?_spaces_append_eq_none, blocks, List.forall_mem_filterMap, ← Nat.add_mul,
    ClearAt, Option.mem_def]

/-- The lines of a forest are the lines of its tasks, each at its depth. -/
theorem exists_outlineLines {f : Forest Task} (hls : o.forestLines depth f = .ok ls) :
    ∃ groups, ls = groups.flatten ∧
      List.Forall₂ (fun p ls => o.taskLines p.1 p.2 = .ok ls) (f.outline depth) groups := by
  induction f generalizing depth ls with
  | nil =>
      obtain rfl := Except.ok.inj hls
      exact ⟨[], rfl, .nil⟩
  | cons t children rest ihc ihr =>
      obtain ⟨lines, below, after, hlines, hbelow, hafter, rfl⟩ := forestLines_cons hls
      obtain ⟨gs, rfl, hgs⟩ := ihc hbelow
      obtain ⟨hs, rfl, hhs⟩ := ihr hafter
      refine ⟨lines :: (gs ++ hs), ?_, .cons hlines (List.rel_append hgs hhs)⟩
      rw [List.flatten_cons, List.flatten_append, List.append_assoc]

theorem forall_level?_iff (hwrap : o.wrapWidth = none) {f : Forest Task}
    (hkeys : ∀ t ∈ f.toList, ∀ p ∈ t.fields, IsKey p.1) (hls : o.lines f = .ok ls) :
    (∀ l ∈ ls, Heading.level? l = none) ↔ o.Clear f := by
  obtain ⟨groups, rfl, hgroups⟩ := exists_outlineLines hls
  refine forall_mem_flatten hgroups fun p hp ls hls => heading_taskLines hwrap (hkeys p.2 ?_) hls
  rw [← Forest.map_snd_outline f 0]
  exact List.mem_map_of_mem hp

/-- No line of written tasks is a heading if there are two or more spaces a level. In any case none
is, and no section that they are written into ends among them, if and only if no line of a block
looks like a heading and is written at most three spaces from the margin. The values of the fields
may be any, and so may the ids. -/
theorem clear_iff (hwrap : o.wrapWidth = none) {f : Forest Task}
    (hkeys : ∀ t ∈ f.toList, ∀ p ∈ t.fields, IsKey p.1) (hls : o.lines f = .ok ls) :
    (2 ≤ o.step → o.Clear f) ∧
      (o.Clear f ↔ ∀ l ∈ ls, Heading.level? l = none) ∧
      (o.Clear f ↔ ∀ level before title after, before.length + ls.length <
        Section.stop level before.length (before ++ title :: (ls ++ after))) := by
  have hlines := forall_level?_iff hwrap hkeys hls
  refine ⟨fun hstep p _ => clearAt_of_two_le hstep p.2, hlines.symm, ?_⟩
  simp only [← hlines, Section.lt_stop_iff]
  constructor
  · exact fun hnone level before title after line hline =>
      Section.closes_of_level?_eq_none (hnone line hline)
  · intro hopen line hline
    cases hlevel : Heading.level? line with
    | none => rfl
    | some level =>
        have hcloses := hopen level [] [] [] line hline
        simp [Section.closes, hlevel] at hcloses

/-- With one space a level, a note of a root that starts with a heading ends the section. -/
theorem clear_iff_one_space :
    let o : Layout := { step := 1 }
    let fields : Fields := [(Key.title, .text "t"), (Key.id, .text "x"), ("note", .text "# a\nb")]
    let f : Forest Task := .cons { fields } .nil .nil
    let ls : List Text := ["- \"t\" id: x", " note: |", "  # a", "  b"]
    (o.wrapWidth = none ∧ (∀ t ∈ f.toList, ∀ p ∈ t.fields, IsKey p.1) ∧ o.lines f = .ok ls) ∧
      Heading.level? "  # a" = some 1 ∧ ¬ o.Clear f ∧
      Section.stop 2 0 ("## TODO" :: (ls ++ [])) = 3 := by
  intro o fields f ls
  have hkeys : ∀ t ∈ f.toList, ∀ p ∈ t.fields, IsKey p.1 := by decide
  have hls : o.lines f = .ok ls := by decide
  have hheading : Heading.level? "  # a" = some 1 := by decide
  obtain ⟨-, hclear, -⟩ := clear_iff rfl hkeys hls
  refine ⟨⟨rfl, hkeys, hls⟩, hheading, fun h => ?_, by decide⟩
  have hnone := hclear.1 h "  # a" (by decide)
  rw [hheading] at hnone
  cases hnone

end Layout

end Agenda
