import Agenda.Proofs.UniqueIds

/-!
Documents that follow each other. A bullet without indentation ends whatever is open above it: the
block of a key, a key that waits for deeper lines, and every bullet around it. So the lines from
such a bullet on are read as a document of their own, which only stands further down.
-/

namespace Agenda

/-! ### Lines further down -/

/-- The line as it is when `n` more lines come before it. -/
def Line.lower (n : Nat) (l : Line) : Line := { l with index := l.index + n }

def Entry.lower (n : Nat) (e : Entry) : Entry := { e with line := e.line.lower n }

def Task.lower (n : Nat) (t : Task) : Task := { t with line := t.line + n }

theorem Line.ofTexts_add (size index n : Nat) (ts : List Text) :
    ofTexts size (index + n) ts = (ofTexts size index ts).map (lower n) := by
  induction ts generalizing index with
  | nil => rfl
  | cons t ts ih =>
      have hrest := ih (index + 1)
      rw [Nat.add_right_comm] at hrest
      rw [ofTexts, hrest]
      rfl

namespace Reader

theorem isDeeper_lower (n indent : Nat) (ls : List Line) :
    isDeeper indent (ls.map (Line.lower n)) = isDeeper indent ls := by
  have hfind : (ls.map (Line.lower n)).find? (!·.isBlank) =
      (ls.find? (!·.isBlank)).map (Line.lower n) := List.find?_map
  rw [isDeeper, isDeeper, hfind]
  cases ls.find? (!·.isBlank) <;> rfl

theorem role_lower (r : Reader) (n : Nat) (l : Line) (next : List Line) :
    r.role (l.lower n) (next.map (Line.lower n)) = r.role l next := by
  unfold role
  rw [isDeeper_lower]
  rfl

end Reader

namespace Entry

def Gathered.lower (n : Nat) (g : Gathered) : Gathered :=
  { g with block := g.block.map (Line.lower n), entries := g.entries.map (Entry.lower n) }

theorem blockText_lower (size key n : Nat) (ls : List Line) :
    blockText size key (ls.map (Line.lower n)) = blockText size key ls := by
  rw [blockText, List.map_map]
  rfl

theorem gather_lower (size n : Nat) (l : Line) (role : Role) (g : Gathered) :
    gather size (l.lower n) role (g.lower n) = (gather size l role g).lower n := by
  cases role with
  | block key =>
      simp only [gather, Gathered.lower, blockText_lower]
      rfl
  | _ => rfl

theorem gatherFrom_lower (size n : Nat) (r : Reader) (ls : List Line) :
    gatherFrom size r (ls.map (Line.lower n)) = (gatherFrom size r ls).lower n := by
  induction ls generalizing r with
  | nil => rfl
  | cons l ls ih =>
      have hafter : ∀ role, r.after (l.lower n) role = r.after l role := by
        intro role
        cases role <;> rfl
      rw [List.map_cons, gatherFrom_cons, gatherFrom_cons, Reader.role_lower, hafter, ih,
        gather_lower]

theorem ofLines_lower (size n : Nat) (ls : List Line) :
    ofLines size (ls.map (Line.lower n)) = (ofLines size ls).map (lower n) :=
  congrArg Gathered.entries (gatherFrom_lower size n .start ls)

theorem task_lower (size n : Nat) (e : Entry) :
    (e.lower n).task size = (e.task size).map (Task.lower n) := by
  have hline : e.line.index + n + 1 = e.line.index + 1 + n := Nat.add_right_comm _ _ _
  unfold task
  simp only [lower, Line.lower, hline]
  cases (Bullet.headFields e.content (tokens e.content)).assignAll
    (Bullet.written (tokens e.content) ++ e.fields) <;> rfl

theorem tasks_lower (size n : Nat) (es : List Entry) :
    tasks size (es.map (lower n)) =
      (tasks size es).map (List.map fun c => (c.1, c.2.lower n)) := by
  induction es with
  | nil => rfl
  | cons e es ih =>
      rw [List.map_cons, tasks, tasks, task_lower, ih]
      cases e.task size with
      | error err => rfl
      | ok t => cases tasks size es <;> rfl

theorem tasks_append (size : Nat) (es fs : List Entry) :
    tasks size (es ++ fs) = (tasks size es).bind fun cs => (tasks size fs).map (cs ++ ·) := by
  induction es with
  | nil => cases h : tasks size fs <;> simp [tasks, h, Except.bind, Except.map]
  | cons e es ih =>
      rw [List.cons_append, tasks, tasks, ih]
      cases e.task size with
      | error err => rfl
      | ok t =>
          cases tasks size es with
          | error err => rfl
          | ok cs => cases tasks size fs <;> rfl

end Entry

/-! ### The boundary -/

/-- A bullet without indentation. -/
def Line.IsBoundary (l : Line) : Prop := l.isBullet = true ∧ l.indent = 0

instance (l : Line) : Decidable l.IsBoundary := inferInstanceAs (Decidable (_ ∧ _))

variable {size : Nat} {m : Line} {ls ms : List Line}

theorem Line.IsBoundary.not_blank (hm : m.IsBoundary) : m.isBlank = false := by
  obtain ⟨hbullet, -⟩ := hm
  cases hblank : m.isBlank with
  | false => rfl
  | true =>
      rw [isBlank, List.isEmpty_iff] at hblank
      simp [isBullet, bullet?, hblank] at hbullet

/-- No line looks for deeper ones past a boundary. -/
theorem Reader.isDeeper_append (hm : m.IsBoundary) (indent : Nat) (ls : List Line) :
    isDeeper indent (ls ++ m :: ms) = isDeeper indent ls := by
  rw [isDeeper, isDeeper, List.find?_append]
  cases ls.find? (!·.isBlank) with
  | some l => rfl
  | none => simp [hm.not_blank, hm.2]

/-- A boundary changes nothing about the lines above it. -/
theorem Reader.role_append (hm : m.IsBoundary) (r : Reader) (l : Line) (next : List Line) :
    r.role l (next ++ m :: ms) = r.role l next := by
  unfold role
  rw [isDeeper_append hm]

namespace Entry

/-- From a boundary on, the lines are read as at the start of a document. -/
theorem gatherFrom_boundary (hm : m.IsBoundary) (r : Reader) :
    gatherFrom size r (m :: ms) = { entries := ofLines size (m :: ms) } := by
  obtain ⟨content, hcontent⟩ := Option.isSome_iff_exists.1 hm.1
  have hrole : ∀ r : Reader, r.role m ms = .bullet content := fun r =>
    Reader.role_bullet hcontent hm.not_blank fun k _ => by
      rw [hm.2]
      exact Nat.zero_le k
  have hstart : ofLines size (m :: ms) = (gatherFrom size .start (m :: ms)).entries := rfl
  rw [hstart, gatherFrom_cons, gatherFrom_cons, hrole, hrole]
  rfl

/-- The lines above a boundary are read as if they were the whole document, whatever is open where
they end. -/
theorem gatherFrom_append (hm : m.IsBoundary) (r : Reader) (ls : List Line) :
    gatherFrom size r (ls ++ m :: ms) =
      { gatherFrom size r ls with
        entries := (gatherFrom size r ls).entries ++ ofLines size (m :: ms) } := by
  induction ls generalizing r with
  | nil => exact gatherFrom_boundary hm r
  | cons l ls ih =>
      rw [List.cons_append, gatherFrom_cons, gatherFrom_cons, Reader.role_append hm, ih]
      cases r.role l ls <;> rfl

theorem ofLines_append (hm : m.IsBoundary) (ls : List Line) :
    ofLines size (ls ++ m :: ms) = ofLines size ls ++ ofLines size (m :: ms) :=
  congrArg Gathered.entries (gatherFrom_append hm .start ls)

end Entry

/-! ### The forests -/

namespace Task

theorem link_append (owner : Option Text) (f g : Forest Task) :
    link owner (f ++ g) = link owner f ++ link owner g := by
  induction f with
  | nil => rfl
  | cons t children rest _ ihr =>
      change Forest.cons _ (link t.id? children) (link owner (rest ++ g)) = _
      rw [ihr]
      rfl

theorem link_lower (n : Nat) (owner : Option Text) (f : Forest Task) :
    link owner (f.map (lower n)) = (link owner f).map (lower n) := by
  induction f generalizing owner with
  | nil => rfl
  | cons t children rest ihc ihr =>
      rw [Forest.map, link, ihc, ihr]
      rfl

end Task

namespace Document

/-- The forest of tasks that have ids, from the columns of their bullets. -/
def nested (found : List (Nat × Task)) : Forest Task :=
  Task.link none ((Forest.ofColumns (·.1) found).map (·.2))

theorem nested_append_lower (n : Nat) (found : List (Nat × Task)) {below : List (Nat × Task)}
    (h : ∀ c ∈ below.head?, c.1 = 0) :
    nested (found ++ below.map fun c => (c.1, c.2.lower n)) =
      nested found ++ (nested below).map (Task.lower n) := by
  have hhead : ∀ c ∈ (below.map fun c : Nat × Task => (c.1, c.2.lower n)).head?, c.1 = 0 := by
    intro c hc
    rw [List.head?_map] at hc
    obtain ⟨d, hd, rfl⟩ := Option.map_eq_some_iff.1 hc
    exact h d hd
  rw [nested, nested, nested, Forest.ofColumns_append _ hhead, Forest.ofColumns_map,
    Forest.map_append, Task.link_append, Forest.map_map, ← Task.link_lower, Forest.map_map]

/-- Lines whose entries all have an id are read without one being computed. -/
theorem tasksIn_of_ids (idLength : Nat) (h : ∀ e ∈ Entry.ofLines size ls, e.id?.isSome = true) :
    tasksIn size idLength ls =
      ((Entry.tasks size (Entry.ofLines size ls)).mapError .ofOversize).map nested := by
  unfold tasksIn
  cases hfound : Entry.tasks size (Entry.ofLines size ls) with
  | error err => rfl
  | ok found =>
      have hids : ∀ t ∈ found.map (·.2), ∃ id, t.id? = some id := by
        intro t ht
        obtain ⟨c, hc, rfl⟩ := List.mem_map.1 ht
        obtain ⟨e, he, -, htask⟩ := exists_of_mem_forall₂ (Entry.forall₂_tasks hfound) hc
        rw [Entry.id?_of_task htask]
        exact Option.isSome_iff_exists.1 (h e he)
      change assemble idLength found = .ok (nested found)
      have hzip : (found.map (·.1)).zip (found.map (·.2)) = found := by
        rw [List.zip_map']
        exact List.map_id found
      rw [assemble, Task.assignIds_of_ids hids]
      simp only [Except.map, hzip, Forest.grow_eq_ofColumns]
      rfl

/-- The first entry from a boundary on stands at the margin. -/
theorem column_of_boundary (hm : m.IsBoundary) {found : List (Nat × Task)}
    (h : Entry.tasks size (Entry.ofLines size (m :: ms)) = .ok found) :
    ∀ c ∈ found.head?, c.1 = 0 := by
  obtain ⟨content, hcontent⟩ := Option.isSome_iff_exists.1 hm.1
  have hreads := Entry.reads_bullet size hcontent hm.not_blank ms
  rw [Entry.ofLines_of_reads hreads] at h
  cases Entry.forall₂_tasks h with
  | cons hfirst _ =>
      rintro _ ⟨rfl⟩
      exact hfirst.1.trans hm.2

/-- The entries of lines with a boundary among them. -/
theorem ofLines_ofTexts_append (size : Nat) (above rest : List Text) {first : Text}
    (hfirst : (Line.ofText size 0 first).IsBoundary) :
    Entry.ofLines size (Line.ofTexts size 0 (above ++ first :: rest)) =
      Entry.ofLines size (Line.ofTexts size 0 above) ++
        (Entry.ofLines size (Line.ofTexts size 0 (first :: rest))).map
          (Entry.lower above.length) := by
  have hlower : ((Line.ofText size 0 first).lower above.length).IsBoundary := hfirst
  rw [Line.ofTexts_append, Line.ofTexts_add, ← Entry.ofLines_lower]
  exact Entry.ofLines_append hlower _

theorem readTasks_none (size idLength : Nat) (lines : List Text) :
    readTasks size idLength none lines = tasksIn size idLength (Line.ofTexts size 0 lines) := by
  simp [readTasks, Section.region, Section.Region.lines]

/-- A document in which a bullet without indentation follows some lines, where every task has an id
that is written: it is read as the lines above the bullet and then those from the bullet on, each of
them as a document of its own. Only the line numbers of the second one grow, and if one of the two
cannot be read, neither can the whole. -/
theorem readTasks_append (size idLength : Nat) (above : List Text) {first : Text}
    {rest : List Text} (hfirst : (Line.ofText size 0 first).IsBoundary)
    (habove : ∀ e ∈ Entry.ofLines size (Line.ofTexts size 0 above), e.id?.isSome = true)
    (hbelow : ∀ e ∈ Entry.ofLines size (Line.ofTexts size 0 (first :: rest)),
      e.id?.isSome = true) :
    readTasks size idLength none (above ++ first :: rest) =
      (readTasks size idLength none above).bind fun f =>
        (readTasks size idLength none (first :: rest)).map fun g =>
          f ++ g.map (Task.lower above.length) := by
  have hentries := ofLines_ofTexts_append size above rest hfirst
  have hids : ∀ e ∈ Entry.ofLines size (Line.ofTexts size 0 (above ++ first :: rest)),
      e.id?.isSome = true := by
    rw [hentries, List.forall_mem_append, List.forall_mem_map]
    exact ⟨habove, hbelow⟩
  rw [readTasks_none, readTasks_none, readTasks_none, tasksIn_of_ids idLength hids,
    tasksIn_of_ids idLength habove, tasksIn_of_ids idLength hbelow, hentries, Entry.tasks_append,
    Entry.tasks_lower]
  cases Entry.tasks size (Entry.ofLines size (Line.ofTexts size 0 above)) with
  | error err => rfl
  | ok found =>
      cases hfound : Entry.tasks size
          (Entry.ofLines size (Line.ofTexts size 0 (first :: rest))) with
      | error err => rfl
      | ok more =>
          exact congrArg Except.ok
            (nested_append_lower above.length found (column_of_boundary hfirst hfound))

/-- Lines that end in a key whose value could still follow, after a block and below a bullet that is
open; and from the boundary on a bullet that stands deeper than any of them. -/
theorem readTasks_append_open :
    let above : List Text := ["- \"a\" id: 1", "  note: |", "    - x", "", "  - \"b\" id: 2",
      "    due:", ""]
    let rest : List Text := ["      - \"d\" id: 4"]
    let first : Text := "- \"c\" id: 3"
    let task (title id : Text) (line : Nat) : Task :=
      { fields := [(Key.title, .text title), (Key.id, .text id)], line := line }
    let a : Task :=
      { fields := [(Key.title, .text "a"), (Key.id, .text "1"), ("note", .text "- x")],
        line := 1, inline := false }
    let b : Task :=
      { fields := [(Key.title, .text "b"), (Key.id, .text "2"), (Key.due, .text [])],
        parent := some "1", indent := 1, line := 5, inline := false }
    let c := task "c" "3"
    let d (line : Nat) : Task := { task "d" "4" line with parent := some "3", indent := 3 }
    ((Line.ofText 2 0 first).IsBoundary ∧
        (∀ e ∈ Entry.ofLines 2 (Line.ofTexts 2 0 above), e.id?.isSome = true) ∧
        ∀ e ∈ Entry.ofLines 2 (Line.ofTexts 2 0 (first :: rest)), e.id?.isSome = true) ∧
      readTasks 2 8 none above = .ok (.cons a (.cons b .nil .nil) .nil) ∧
      readTasks 2 8 none (first :: rest) = .ok (.cons (c 1) (.cons (d 2) .nil .nil) .nil) ∧
      readTasks 2 8 none (above ++ first :: rest) =
        .ok (.cons a (.cons b .nil .nil) (.cons (c 8) (.cons (d 9) .nil .nil) .nil)) := by
  intro above rest first task a b c d
  have hfirst : (Line.ofText 2 0 first).IsBoundary := by decide
  have habove : ∀ e ∈ Entry.ofLines 2 (Line.ofTexts 2 0 above), e.id?.isSome = true := by decide
  have hbelow : ∀ e ∈ Entry.ofLines 2 (Line.ofTexts 2 0 (first :: rest)), e.id?.isSome = true := by
    decide
  have hreads : readTasks 2 8 none above = .ok (.cons a (.cons b .nil .nil) .nil) := by decide
  have hmore : readTasks 2 8 none (first :: rest) =
      .ok (.cons (c 1) (.cons (d 2) .nil .nil) .nil) := by decide
  refine ⟨⟨hfirst, habove, hbelow⟩, hreads, hmore, ?_⟩
  rw [readTasks_append 2 8 above hfirst habove hbelow, hreads, hmore]
  rfl

end Document

end Agenda
