import Agenda.Proofs.OwnedLines
import Agenda.Proofs.Owners

/-!
The tree of a document, told from its lines. Tasks come in the order of their lines, and a task
belongs to the last one before it whose bullet stands in a smaller column. No line has to be without
errors for that: blocks, headings and stray lines lie between bullets and change nothing about them.
-/

namespace Agenda

/-! ### Bullets among the lines -/

def Role.isBullet : Role → Bool
  | .bullet _ => true
  | _ => false

def Reader.bullets (r : Reader) (ls : List Line) : List Line :=
  ((r.roles ls).filter (·.2.isBullet)).map (·.1)

def Line.numbered? (ls : List Line) (number : Nat) : Option Line :=
  ls.find? (·.index + 1 = number)

def Document.column (ls : List Line) (t : Task) : Nat :=
  ((Line.numbered? ls t.line).map (·.indent)).getD 0

theorem Entry.map_line_gatherFrom (size : Nat) (r : Reader) (ls : List Line) :
    (gatherFrom size r ls).entries.map (·.line) = r.bullets ls := by
  induction ls generalizing r with
  | nil => rfl
  | cons l ls ih =>
      have hrest := ih (r.after l (r.role l ls))
      rw [Reader.bullets] at hrest
      rw [gatherFrom_cons, Reader.bullets, Reader.roles]
      cases hrole : r.role l ls with
      | bullet content =>
          rw [hrole] at hrest
          rw [List.filter_cons_of_pos rfl, List.map_cons, ← hrest]
          rfl
      | _ =>
          rw [hrole] at hrest
          rw [List.filter_cons_of_neg (by simp [Role.isBullet]), ← hrest]
          rfl

theorem Reader.bullets_sublist (r : Reader) (ls : List Line) : (r.bullets ls).Sublist ls := by
  have hsub := (List.filter_sublist (p := fun m : Line × Role => m.2.isBullet)
    (l := r.roles ls)).map (·.1)
  rwa [map_fst_roles] at hsub

def Line.Ordered (ls : List Line) : Prop := ls.Pairwise fun l m => l.index < m.index

theorem Line.ordered_ofTexts (size index : Nat) (ts : List Text) :
    Ordered (ofTexts size index ts) := by
  have hindex : ((ofTexts size index ts).map (·.index)).Pairwise (· < ·) := by
    rw [map_index_ofTexts]
    exact List.pairwise_lt_range'
  exact List.pairwise_map.1 hindex

theorem Line.Ordered.numbered? {ls : List Line} (h : Ordered ls) {l : Line} (hl : l ∈ ls) :
    numbered? ls (l.index + 1) = some l := by
  induction ls with
  | nil => cases hl
  | cons m ls ih =>
      obtain ⟨hm, hls⟩ := List.pairwise_cons.1 h
      rcases List.mem_cons.mp hl with rfl | hl
      · simp [Line.numbered?]
      · have hne : m.index ≠ l.index := Nat.ne_of_lt (hm l hl)
        rw [Line.numbered?, List.find?_cons_of_neg (by simpa using hne)]
        exact ih hls hl

/-! ### The tree -/

namespace Document

variable {size idLength : Nat} {ls : List Line} {f : Forest Task}

theorem map_line_tasksIn (h : tasksIn size idLength ls = .ok f) :
    f.toList.map (·.line) = (Reader.start.bullets ls).map (·.index + 1) := by
  rw [map_tasksIn (k := Task.line) (g := (·.index + 1)) (fun _ _ => rfl)
    (fun _ _ hplace => hplace.line) h, ← Entry.map_line_gatherFrom size, List.map_map]
  rfl

/-- The forest of a document is nested by the columns of its bullets. -/
theorem nested_tasksIn (hls : Line.Ordered ls) (h : tasksIn size idLength ls = .ok f) :
    f.Nested (column ls) := by
  obtain ⟨placed, hplaced, rfl⟩ := exists_columns_of_tasksIn h
  -- A line has its number alone, so the number of a task gives back the column of its bullet.
  have hcolumn : ∀ p ∈ placed, column ls p.2 = p.1 := by
    intro p hp
    obtain ⟨e, he, hplace⟩ := exists_of_mem_forall₂ hplaced hp
    have hbullet : e.line ∈ Reader.start.bullets ls := by
      rw [← Entry.map_line_gatherFrom size]
      exact List.mem_map_of_mem he
    have hl := hls.numbered? ((Reader.bullets_sublist _ _).subset hbullet)
    rw [column, hplace.line, hl, hplace.column]
    rfl
  have hnested : (Forest.ofColumns (·.1) placed).Nested fun p => column ls p.2 :=
    (Forest.nested_ofColumns _ _).congr (by rwa [Forest.toList_ofColumns])
  have hcolumns : (((Forest.ofColumns (·.1) placed).map (·.2)).map (column ls)).Nested id :=
    Forest.nested_map.2 (Forest.nested_map.2 hnested)
  rw [← Task.map_link (k := column ls) (fun _ _ => rfl) none] at hcolumns
  exact (Forest.nested_map.1 hcolumns :)

theorem exists_bullet_of_mem (hls : Line.Ordered ls) (h : tasksIn size idLength ls = .ok f)
    {t : Task} (ht : t ∈ f.toList) :
    ∃ l ∈ Reader.start.bullets ls, l.index + 1 = t.line ∧ l.indent = column ls t := by
  have hline := List.mem_map_of_mem (f := Task.line) ht
  rw [map_line_tasksIn h] at hline
  obtain ⟨l, hl, hnumber⟩ := List.mem_map.1 hline
  refine ⟨l, hl, hnumber, ?_⟩
  rw [column, ← hnumber, hls.numbered? ((Reader.bullets_sublist _ _).subset hl)]
  rfl

theorem pairwise_line_tasksIn (hls : Line.Ordered ls) (h : tasksIn size idLength ls = .ok f) :
    (f.toList.map (·.line)).Pairwise (· < ·) := by
  rw [map_line_tasksIn h]
  refine List.pairwise_map.2 ((List.Pairwise.sublist (Reader.bullets_sublist _ _) hls).imp ?_)
  intro l m hlm
  exact Nat.succ_lt_succ hlm

/-- What stands above a task, in a list of tasks in the order of their lines. -/
theorem filter_above {ts earlier later : List Task} {t : Task}
    (hts : (ts.map (·.line)).Pairwise (· < ·)) (heq : ts = earlier ++ t :: later)
    (q : Task → Prop) [DecidablePred q] :
    (ts.filter fun u => u.line < t.line ∧ q u) = earlier.filter fun u => q u := by
  rw [heq, List.pairwise_map, List.pairwise_append] at hts
  obtain ⟨-, hlater, hearlier⟩ := hts
  have habove : ∀ u ∈ earlier, u.line < t.line := fun u hu => hearlier u hu t List.mem_cons_self
  have hbelow : ∀ u ∈ later, ¬ u.line < t.line := fun u hu =>
    Nat.not_lt.2 (Nat.le_of_lt (List.rel_of_pairwise_cons hlater hu))
  have hnone : (t :: later).filter (fun u => decide (u.line < t.line ∧ q u)) = [] := by
    rw [List.filter_eq_nil_iff, List.forall_mem_cons]
    exact ⟨by simp, fun u hu => by simp [hbelow u hu]⟩
  rw [heq, List.filter_append, hnone, List.append_nil]
  exact List.filter_congr fun u hu => by simp [habove u hu]

/-- The tree of a document. Its tasks are on the lines that start tasks, in their order. A task
belongs to the last one above it whose bullet stands in a smaller column, and is a root if there is
none; so of siblings no bullet stands deeper than one before it. -/
theorem owned_tasksIn (size idLength : Nat) (r : Section.Region) (lines : List Text)
    {f : Forest Task} (h : tasksIn size idLength (r.lines size lines) = .ok f) :
    let column := column (r.lines size lines)
    (f.toList.map (·.line) = (Reader.start.bullets (r.lines size lines)).map (·.index + 1) ∧
        ∀ t ∈ f.toList, ∃ l ∈ Reader.start.bullets (r.lines size lines),
          l.index + 1 = t.line ∧ l.indent = column t) ∧
      (f.toList.map (·.line)).Pairwise (· < ·) ∧
      f.owned none = f.toList.map (fun t =>
        ((f.toList.filter fun u => u.line < t.line ∧ column u < column t).getLast?, t)) ∧
      ∀ group ∈ f.siblings, group.Pairwise fun t u => column u ≤ column t := by
  intro column
  have hls : Line.Ordered (r.lines size lines) := Line.ordered_ofTexts _ _ _
  have hnested := nested_tasksIn hls h
  have hlines := pairwise_line_tasksIn hls h
  refine ⟨⟨map_line_tasksIn h, fun t ht => exists_bullet_of_mem hls h ht⟩, hlines, ?_,
    hnested.siblings⟩
  have hroots : ∀ t ∈ f.roots, Forest.lastBelow column (column t) [] = none := fun _ _ => rfl
  -- The tasks above a task are those that come before it, since lines increase.
  have howner : ∀ p ∈ f.owned none,
      p = ((f.toList.filter fun u => u.line < p.2.line ∧ column u < column p.2).getLast?, p.2) := by
    intro p hp
    obtain ⟨earlier, later, heq, hlast⟩ := hnested.exists_of_mem_owned hroots hp
    rw [filter_above hlines heq]
    exact Prod.ext hlast rfl
  calc f.owned none
      = (f.owned none).map id := (List.map_id _).symm
    _ = ((f.owned none).map (·.2)).map fun t =>
          ((f.toList.filter fun u => u.line < t.line ∧ column u < column t).getLast?, t) := by
        rw [List.map_map]
        exact List.map_congr_left howner
    _ = _ := by rw [Forest.map_snd_owned]

/-- A bullet that leaves out a level, a block with lines that look like bullets, and a heading
after which a bullet stands below one from before it. -/
theorem owned_tasksIn_dedent :
    let lines : List Text := ["intro", "- \"a\" id: 1", "    - \"b\" id: 2", "      note: |",
      "        - x", "  - \"c\" id: 3", "", "# Later", "   - \"d\" id: 4", "- \"e\" id: 5"]
    let r : Section.Region := ⟨1, 10⟩
    let task (title id : Text) (line : Nat) : Task :=
      { fields := [(Key.title, .text title), (Key.id, .text id)], line := line }
    let a := task "a" "1" 2
    let b : Task :=
      { fields := [(Key.title, .text "b"), (Key.id, .text "2"), ("note", .text "- x")],
        parent := some "1", indent := 2, line := 3, inline := false }
    let c : Task := { task "c" "3" 6 with parent := some "1", indent := 1 }
    let d : Task := { task "d" "4" 9 with parent := some "3", indent := 1 }
    let e := task "e" "5" 10
    let f : Forest Task :=
      .cons a (.cons b .nil (.cons c (.cons d .nil .nil) .nil)) (.cons e .nil .nil)
    let column := column (r.lines 2 lines)
    tasksIn 2 8 (r.lines 2 lines) = .ok f ∧
      f.toList.map column = [0, 4, 2, 3, 0] ∧
      f.owned none = [(none, a), (some a, b), (some a, c), (some c, d), (none, e)] ∧
      f.owned none = f.toList.map (fun t =>
        ((f.toList.filter fun u => u.line < t.line ∧ column u < column t).getLast?, t)) := by
  intro lines r task a b c d e f column
  have h : tasksIn 2 8 (r.lines 2 lines) = .ok f := by decide
  exact ⟨h, by decide, rfl, (owned_tasksIn 2 8 r lines h).2.2.1⟩

end Document

end Agenda
