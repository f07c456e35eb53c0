import Agenda.Document
import Agenda.Proofs.Growth
import Agenda.Proofs.Reread

/-!
A forest that is written is read back. The lines of a forest are read as one entry for each task,
in the columns of its outline; ids that are there are kept, and the columns give the nesting back.
Every writable forest comes back as the same forest.
-/

namespace Agenda

/-! ### The lines of a forest -/

namespace Layout

variable {o : Layout}

theorem forestLines_cons {depth : Nat} {t : Task} {children rest : Forest Task} {ls : List Text}
    (h : o.forestLines depth (.cons t children rest) = .ok ls) :
    ∃ lines below after, o.taskLines depth t = .ok lines ∧
      o.forestLines (depth + 1) children = .ok below ∧ o.forestLines depth rest = .ok after ∧
      ls = lines ++ below ++ after := by
  rw [forestLines] at h
  split at h
  · cases h
  · next lines hlines =>
      split at h
      · cases h
      · next below hbelow =>
          obtain ⟨after, hafter, rfl⟩ := map_eq_ok.1 h
          exact ⟨lines, below, after, hlines, hbelow, hafter, rfl⟩

theorem exists_forestLines_iff {depth : Nat} {f : Forest Task} :
    (∃ ls, o.forestLines depth f = .ok ls) ↔
      ∀ p ∈ f.outline depth, ∃ ls, o.taskLines p.1 p.2 = .ok ls := by
  induction f generalizing depth with
  | nil => exact ⟨fun _ => by simp [Forest.outline], fun _ => ⟨[], rfl⟩⟩
  | cons t children rest ihc ihr =>
      simp only [Forest.outline, List.forall_mem_cons, List.forall_mem_append]
      rw [← ihc, ← ihr]
      constructor
      · rintro ⟨ls, h⟩
        obtain ⟨lines, below, after, hlines, hbelow, hafter, -⟩ := forestLines_cons h
        exact ⟨⟨lines, hlines⟩, ⟨below, hbelow⟩, ⟨after, hafter⟩⟩
      · rintro ⟨⟨lines, hlines⟩, ⟨below, hbelow⟩, ⟨after, hafter⟩⟩
        refine ⟨lines ++ below ++ after, ?_⟩
        rw [forestLines, hlines, hbelow, hafter]
        rfl

def KeepsId (t : Task) : Prop := ∀ id, t.id? = some id → IdKept id

theorem exists_entry_of_taskLines (hstep : 0 < o.step) (hwrap : o.wrapWidth = none) {t : Task}
    (ht : t.WellFormed) (hkept : KeepsId t) {depth : Nat} {ls : List Text}
    (hls : o.taskLines depth t = .ok ls) (index : Nat) :
    ∃ e, Entry.EntryLines o.step (depth * o.step) (Line.ofTexts o.step index ls) e ∧
      o.Stands t e := by
  obtain ⟨id, hne, hm⟩ := ht.has_id
  have hid := ht.id?_eq hne hm
  exact entryLines_taskLines hstep hwrap ht hid (hkept id hid) hls index

/-- The lines of a forest are read as the entries of its tasks, before whatever starts no deeper
than its roots. -/
theorem reads_forestLines (hstep : 0 < o.step) (hwrap : o.wrapWidth = none) {f : Forest Task}
    (hf : ∀ t ∈ f.toList, t.WellFormed ∧ KeepsId t) {depth : Nat} {ls : List Text}
    (hls : o.forestLines depth f = .ok ls) (index : Nat) {rest : List Line} {after : List Entry}
    (hrest : Entry.Reads o.step (depth * o.step) rest after) :
    ∃ es, List.Forall₂ (fun p e => e.line.indent = p.1 * o.step ∧ o.Stands p.2 e)
        (f.outline depth) es ∧
      Entry.Reads o.step (depth * o.step) (Line.ofTexts o.step index ls ++ rest) (es ++ after) := by
  induction f generalizing depth ls index rest after with
  | nil =>
      obtain rfl := Except.ok.inj hls
      exact ⟨[], .nil, hrest⟩
  | cons t children siblings ihc ihs =>
      obtain ⟨lines, below, later, hlines, hbelow, hlater, rfl⟩ := forestLines_cons hls
      simp only [Forest.toList, List.forall_mem_cons, List.forall_mem_append] at hf
      obtain ⟨⟨ht, hid⟩, hc, hs⟩ := hf
      have hdeeper : (depth + 1) * o.step = depth * o.step + o.step := Nat.succ_mul _ _
      obtain ⟨es', hes', hreads'⟩ :=
        ihs hs hlater (index + lines.length + below.length) hrest
      obtain ⟨ec, hec, hreadsc⟩ := ihc hc hbelow (index + lines.length)
        (hreads'.mono (by omega))
      obtain ⟨e, hlines', hstands⟩ := exists_entry_of_taskLines hstep hwrap ht hid hlines index
      rw [hdeeper] at hreadsc
      have hreads := hlines'.reads hreadsc
      refine ⟨e :: (ec ++ es'), ?_, ?_⟩
      · exact .cons ⟨hlines'.indent_eq, hstands⟩ (List.rel_append hec hes')
      · simp only [Line.ofTexts_append, List.append_assoc] at hreads ⊢
        simpa [Nat.add_assoc] using hreads

end Layout

/-! ### From entries to a forest -/

theorem Entry.ofLines_of_reads {size column : Nat} {ls : List Line} {es : List Entry}
    (h : Reads size column ls es) : ofLines size ls = es :=
  (h .start (by simp [Reader.start])).2.2

theorem Entry.tasks_of_forall₂ {size : Nat} {es : List Entry} {ts : List Task}
    (h : List.Forall₂ (fun e t => e.task size = .ok t) es ts) :
    tasks size es = .ok ((es.map (·.line.indent)).zip ts) := by
  induction h with
  | nil => rfl
  | cons he _ ih =>
      rw [tasks, he, ih]
      rfl

namespace Task

/-- Ids that are there are kept. -/
theorem assignIds_of_ids {length : Nat} {taken : List Text} {ts : List Task}
    (h : ∀ t ∈ ts, ∃ id, t.id? = some id) : assignIds length taken ts = .ok ts := by
  induction ts generalizing taken with
  | nil => rfl
  | cons t ts ih =>
      obtain ⟨id, hid⟩ := h t (by simp)
      rw [assignIds, withId, hid]
      simp only
      rw [ih fun t ht => h t (List.mem_cons_of_mem _ ht)]

/-- Linking changes nothing but the parents. -/
theorem rel_link {α : Type} {R : α → Task → Prop} (hR : ∀ a t p, R a t → R a { t with parent := p })
    {f : Forest α} {g : Forest Task} (h : Forest.Rel R f g) (owner : Option Text) :
    Forest.Rel R f (link owner g) := by
  induction h generalizing owner with
  | nil => exact .nil
  | cons root _ _ ihc ihr => exact .cons (hR _ _ _ root) (ihc _) (ihr _)

end Task

/-- The tasks that entries are read as. -/
theorem Entry.exists_tasks {size : Nat} {R : Task → Task → Prop} {ps : List (Nat × Task)}
    {es : List Entry}
    (h : List.Forall₂ (fun p e => e.line.indent = p.1 * size ∧
      ∃ u, e.task size = .ok u ∧ R p.2 u ∧ ∃ id, u.id? = some id) ps es) :
    ∃ us : List Task, (∀ u ∈ us, ∃ id, u.id? = some id) ∧
      List.Forall₂ (fun e u => e.task size = .ok u) es us ∧
      List.Forall₂ (fun p (c : Nat × Task) => c.1 = p.1 * size ∧ R p.2 c.2) ps
        ((es.map (·.line.indent)).zip us) := by
  induction h with
  | nil => exact ⟨[], by simp, .nil, .nil⟩
  | cons hfirst _ ih =>
      obtain ⟨hcolumn, u, hu, hr, hid⟩ := hfirst
      obtain ⟨us, hids, hus, hcolumns⟩ := ih
      exact ⟨u :: us, List.forall_mem_cons.2 ⟨hid, hids⟩, .cons hu hus,
        .cons ⟨hcolumn, hr⟩ hcolumns⟩

/-- Entries in the columns of an outline, each of which is read as a task with an id, make up the
forest of the outline. -/
theorem Document.tasksIn_of_entries {size idLength : Nat} (hsize : 0 < size) {f : Forest Task}
    {R : Task → Task → Prop} (hR : ∀ t u p, R t u → R t { u with parent := p }) {ls : List Line}
    (h : List.Forall₂ (fun p e => e.line.indent = p.1 * size ∧
      ∃ u, e.task size = .ok u ∧ R p.2 u ∧ ∃ id, u.id? = some id) (f.outline 0)
      (Entry.ofLines size ls)) :
    ∃ f', tasksIn size idLength ls = .ok f' ∧ Forest.Rel R f f' := by
  obtain ⟨us, hids, hus, hcolumns⟩ := Entry.exists_tasks h
  set columns := (Entry.ofLines size ls).map (·.line.indent) with hcol
  have hlen : columns.length = us.length := by rw [hcol, List.length_map, hus.length_eq]
  have hsnd : (columns.zip us).map (·.2) = us := List.map_snd_zip (by omega)
  have hfst : (columns.zip us).map (·.1) = columns := List.map_fst_zip (by omega)
  have hnested : Forest.Rel (fun t c => R t c.2) f
      (Forest.ofColumns (fun c : Nat × Task => c.1) (columns.zip us)) :=
    Forest.rel_ofColumns hsize hcolumns
  have hrel := Task.rel_link hR hnested.map none
  refine ⟨_, ?_, hrel⟩
  rw [tasksIn, Entry.tasks_of_forall₂ hus]
  simp only [assemble, ← hcol, hsnd, hfst, Forest.grow_eq_ofColumns]
  rw [Task.assignIds_of_ids hids]
  rfl

namespace Layout

variable {o : Layout}

theorem get_id_rereadFields {t : Task} (ht : t.WellFormed) :
    (o.rereadFields t).get Key.id = t.fields.get Key.id := by
  have hnodup := nodup_keys_writtenFields (o := o) ht
  rw [← keys_rereadFields] at hnodup
  apply Fields.get_of_mem hnodup
  simp only [rereadFields, List.mem_append]
  refine .inr ?_
  split
  · exact List.mem_cons_self
  · exact List.mem_append_right _ (by simp)

/-- The lines of a forest, and after them lines that say nothing, are read as the forest of the
tasks that are read back. -/
theorem tasksIn_forestLines (hstep : 0 < o.step) (hwrap : o.wrapWidth = none) {f : Forest Task}
    (hf : ∀ t ∈ f.toList, t.WellFormed ∧ KeepsId t) {ls : List Text} (hls : o.lines f = .ok ls)
    (idLength index : Nat) {rest : List Line} (hrest : ∀ l ∈ rest, l.isBlank = true) :
    ∃ f', Document.tasksIn o.step idLength (Line.ofTexts o.step index ls ++ rest) = .ok f' ∧
      Forest.Rel (fun t u => u.fields = o.rereadFields t ∧ u.inline = o.isRereadInline t) f f' := by
  obtain ⟨es, hes, hreads⟩ := reads_forestLines hstep hwrap hf hls index
    (Entry.reads_blank o.step (0 * o.step) hrest)
  rw [List.append_nil] at hreads
  apply Document.tasksIn_of_entries hstep (fun _ _ _ h => h)
  rw [Entry.ofLines_of_reads hreads]
  have hmem : ∀ p ∈ f.outline 0, p.2.WellFormed ∧ KeepsId p.2 := by
    intro p hp
    apply hf
    rw [← Forest.map_snd_outline f 0]
    exact List.mem_map.2 ⟨p, hp, rfl⟩
  refine ((List.forall₂_and_left _ _).2 ⟨hmem, hes⟩).imp ?_
  rintro p e ⟨⟨ht, hid⟩, hcolumn, hstands⟩
  obtain ⟨id, hne, hm⟩ := ht.has_id
  have hid' := ht.id?_eq hne hm
  refine ⟨hcolumn, _, hstands.task_eq ht hid' (hid id hid'), ⟨rfl, hstands.inline⟩, id, ?_⟩
  rw [← hid', Task.id?, Task.id?, get_id_rereadFields ht]

/-- The lines of a forest, as a document of their own, are read as the forest of the tasks that are
read back. -/
theorem readTasks_forestLines (hstep : 0 < o.step) (hwrap : o.wrapWidth = none) {f : Forest Task}
    (hf : ∀ t ∈ f.toList, t.WellFormed ∧ KeepsId t) {ls : List Text} (hls : o.lines f = .ok ls)
    (idLength : Nat) :
    ∃ f', Document.readTasks o.step idLength none ls = .ok f' ∧
      Forest.Rel (fun t u => u.fields = o.rereadFields t ∧ u.inline = o.isRereadInline t) f f' := by
  have hnone : ∀ l ∈ ([] : List Line), l.isBlank = true := by simp
  obtain ⟨f', hf', hrel⟩ := tasksIn_forestLines hstep hwrap hf hls idLength 0 hnone
  refine ⟨f', ?_, hrel⟩
  rw [← hf', List.append_nil, Document.readTasks]
  congr 1
  simp [Section.region, Section.Region.lines]

/-- A forest is the same as one whose tasks have the given fields if every task is the same. -/
theorem same_iff_of_rel {g : Task → Fields} {f f' : Forest Task}
    (h : Forest.Rel (fun t u => u.fields = g t) f f') :
    f.same Task.same f' = true ↔ ∀ t ∈ f.toList, t.fields.same (g t) = true := by
  rw [Forest.same_iff_rel]
  induction h with
  | nil => exact ⟨fun _ => by simp [Forest.toList], fun _ => .nil⟩
  | cons root _ _ ihc ihr =>
      simp only [Forest.toList, List.forall_mem_cons, List.forall_mem_append]
      rw [← ihc, ← ihr, ← root]
      constructor
      · intro hrel
        cases hrel with
        | cons hroot hc hr => exact ⟨hroot, hc, hr⟩
      · rintro ⟨hroot, hc, hr⟩
        exact .cons hroot hc hr

/-- A forest is written, and every task in it is the same when it is read back, if and only if all
of it survives. -/
theorem forest_survives_iff {f : Forest Task} (hf : ∀ t ∈ f.toList, t.WellFormed) :
    ((∃ ls, o.lines f = .ok ls) ∧
        ∀ t ∈ f.toList, t.fields.same (o.rereadFields t) = true) ↔
      ∀ t ∈ f.toList, o.TaskSurvives t := by
  have houtline : ∀ p ∈ f.outline 0, p.2 ∈ f.toList := by
    intro p hp
    rw [← Forest.map_snd_outline f 0]
    exact List.mem_map.2 ⟨p, hp, rfl⟩
  rw [lines, exists_forestLines_iff]
  constructor
  · rintro ⟨hlines, hsame⟩ t ht
    rw [← Forest.map_snd_outline f 0] at ht
    obtain ⟨p, hp, rfl⟩ := List.mem_map.mp ht
    have hmem := houtline p hp
    exact (taskSurvives_iff (hf _ hmem) p.1).1 ⟨hlines p hp, hsame _ hmem⟩
  · intro h
    exact ⟨fun p hp => ((taskSurvives_iff (hf _ (houtline p hp)) p.1).2 (h _ (houtline p hp))).1,
      fun t ht => ((taskSurvives_iff (hf t ht) 0).2 (h t ht)).2⟩

/-- A forest is read back as the same forest if all of it survives. -/
theorem readTasks_of_survives (hstep : 0 < o.step) (hwrap : o.wrapWidth = none) {f : Forest Task}
    (hf : ∀ t ∈ f.toList, t.WellFormed ∧ KeepsId t ∧ o.TaskSurvives t) (idLength : Nat) :
    ∃ ls f', o.lines f = .ok ls ∧ Document.readTasks o.step idLength none ls = .ok f' ∧
      f.same Task.same f' = true := by
  obtain ⟨⟨ls, hls⟩, hsame⟩ :=
    (forest_survives_iff fun t ht => (hf t ht).1).2 fun t ht => (hf t ht).2.2
  obtain ⟨f', hf', hrel⟩ := readTasks_forestLines hstep hwrap
    (fun t ht => ⟨(hf t ht).1, (hf t ht).2.1⟩) hls idLength
  exact ⟨ls, f', hls, hf', (same_iff_of_rel (hrel.imp fun _ _ h => h.1)).2 hsame⟩

end Layout

/-! ### Writable forests -/

/-- A value that can be written under a key: a text that is not too large an integer and that a
block keeps if it has to be one, a flag, an integer that is not too large, or a list of names. -/
def Value.Writable (longValue : Nat) (key : Text) : Value → Prop
  | .null => False
  | .text s =>
    Key.isList key = false ∧ ¬ Number.IsOversize s ∧
      (key ≠ Key.id → key ≠ Key.title → '\n' ∈ s ∨ longValue < s.length → Layout.BlockSafe s)
  | .flag _ => Key.isList key = false ∧ key ∉ Key.texts
  | .number (.int n) =>
    Key.isList key = false ∧ key ∉ Key.texts ∧ (Text.ofNat n.natAbs).length ≤ Number.maxDigits
  | .number (.float _) => False
  | .names xs => Key.isList key = true ∧ xs ≠ [] ∧ xs.Nodup ∧ ∀ x ∈ xs, IsListed x

instance (longValue : Nat) (key : Text) : (v : Value) → Decidable (v.Writable longValue key)
  | .null => inferInstanceAs (Decidable False)
  | .text _ => inferInstanceAs (Decidable (_ ∧ _ ∧ _))
  | .flag _ => inferInstanceAs (Decidable (_ ∧ _))
  | .number (.int _) => inferInstanceAs (Decidable (_ ∧ _ ∧ _))
  | .number (.float _) => inferInstanceAs (Decidable False)
  | .names _ => inferInstanceAs (Decidable (_ ∧ _ ∧ _ ∧ _))

/-- A task that can be written: its keys are keys and no two of them are alike, its values can be
written, and it has an id in which no whitespace but spaces stands. -/
structure Task.Writable (longValue : Nat) (t : Task) : Prop where
  nodup : t.fields.keys.Nodup
  isKey : ∀ f ∈ t.fields, IsKey f.1
  values : ∀ f ∈ t.fields, f.2.Writable longValue f.1
  has_id : ∃ id, (Key.id, .text id) ∈ t.fields ∧ id ≠ [] ∧
    ∀ c ∈ id, isBlank c = true → c = ' '

theorem Number.same_int (n : Int) : (Number.int n).same (.int n) = true := by
  simp [Number.same, Number.exact, Binary64.same, Binary64.order, Binary64.compareScaled]

theorem Value.Writable.fits {longValue : Nat} {key : Text} {v : Value}
    (h : v.Writable longValue key) : v.Fits key := by
  cases v with
  | null => exact h
  | text s => exact h.1
  | flag b => exact h
  | number n =>
      cases n with
      | float x => exact h.elim
      | int n => exact ⟨h.1, h.2.1, decide_eq_true h.2.2⟩
  | names xs =>
      refine ⟨h.1, h.2.2.1, fun x hx => ⟨(h.2.2.2 x hx).ne_nil, fun hlast => ?_⟩⟩
      exact absurd ((h.2.2.2 x hx).trimmed.2 _ hlast) (by decide)

/-- A text that is written as a block is one that a block keeps. -/
theorem Value.Writable.blockSafe {longValue : Nat} {key s : Text}
    (h : (Value.text s).Writable longValue key) (hid : key ≠ Key.id) (htitle : key ≠ Key.title)
    (hb : Layout.isBlock longValue s = true) : Layout.BlockSafe s := by
  apply h.2.2 hid htitle
  simp only [Layout.isBlock, Bool.and_eq_true, Bool.or_eq_true, List.contains_iff_mem,
    decide_eq_true_eq] at hb
  exact hb.imp_right fun h => h.1

theorem Value.Writable.survives {o : Layout} {multiline : Bool} {key : Text} {v : Value}
    (h : v.Writable o.longValue key) (hid : key ≠ Key.id) (htitle : key ≠ Key.title) :
    o.Survives multiline v := by
  cases v with
  | null => trivial
  | text s =>
      simp only [Layout.Survives]
      split
      · next hb => exact h.blockSafe hid htitle (Bool.and_eq_true_iff.1 hb).2
      · exact h.2.1
  | flag b => trivial
  | number n =>
      cases n with
      | float x => exact h.elim
      | int n => exact ⟨.int n, Number.read?_ofInt h.2.2, Number.same_int n⟩
  | names xs =>
      simp only [Layout.Survives]
      split
      · exact h.2.2.2
      · exact h.2.1

theorem Layout.idKept_of_spaces {id : Text} (h : ∀ c ∈ id, isBlank c = true → c = ' ') :
    IdKept id := by
  by_cases hspace : ' ' ∈ id
  · exact .inl ⟨' ', hspace, by decide⟩
  · refine .inr fun c hc => ?_
    cases hb : isBlank c with
    | false => rfl
    | true => exact absurd (h c hc hb ▸ hc) hspace

namespace Task.Writable

variable {longValue : Nat} {t : Task}

theorem wellFormed (h : t.Writable longValue) : t.WellFormed where
  nodup := h.nodup
  isKey := h.isKey
  fits f hf := (h.values f hf).fits
  has_id := by
    obtain ⟨id, hm, hne, -⟩ := h.has_id
    exact ⟨id, hne, hm⟩

theorem keepsId (h : t.Writable longValue) : Layout.KeepsId t := by
  intro id hid
  obtain ⟨id', hm, hne, hspaces⟩ := h.has_id
  rw [h.wellFormed.id?_eq hne hm] at hid
  obtain rfl := Option.some.inj hid
  exact Layout.idKept_of_spaces hspaces

theorem survives {o : Layout} (h : t.Writable o.longValue) : o.TaskSurvives t :=
  fun f hf hid htitle => (h.values f hf).survives hid htitle

end Task.Writable

/-- Reading undoes writing: a writable forest is written, and its lines are read as the same
forest, whatever the step, the length of long values and the length of computed ids are. -/
theorem Layout.readTasks_lines (o : Layout) (hstep : 0 < o.step) (hwrap : o.wrapWidth = none)
    (idLength : Nat) (f : Forest Task) (hf : ∀ t ∈ f.toList, t.Writable o.longValue) :
    ∃ ls f', o.lines f = .ok ls ∧ Document.readTasks o.step idLength none ls = .ok f' ∧
      f.same Task.same f' = true :=
  readTasks_of_survives hstep hwrap
    (fun t ht => ⟨(hf t ht).wellFormed, (hf t ht).keepsId, (hf t ht).survives⟩) idLength

/-- A task with names that are not proper ones and with a block, and one below it on one line. -/
theorem Layout.readTasks_lines_nested :
    let parent : Task :=
      { fields := [(Key.id, .text "a b"), (Key.title, .text "say \"hi\""),
          (Key.tags, .names ["x y", "z"]), ("note", .text "one\n\n  two")] }
    let child : Task :=
      { fields := [(Key.completed, .flag true), (Key.priority, .text "A"),
          (Key.stakeholders, .names ["me"]), ("cost", .number (.int (-7))), ("due", .text "7"),
          (Key.id, .text "c")] }
    let f : Forest Task := .cons parent (.cons child .nil .nil) .nil
    (∀ t ∈ f.toList, t.Writable 25) ∧
      ∃ ls f', ({} : Layout).lines f = .ok ls ∧ Document.readTasks 2 8 none ls = .ok f' ∧
        f.same Task.same f' = true := by
  intro parent child f
  have hparent : parent.Writable 25 :=
    ⟨by decide, by decide, by decide, "a b", by decide, by decide, by decide⟩
  have hchild : child.Writable 25 :=
    ⟨by decide, by decide, by decide, "c", by decide, by decide, by decide⟩
  have hf : ∀ t ∈ f.toList, t.Writable 25 := by
    intro t ht
    rcases List.mem_cons.mp ht with rfl | ht
    · exact hparent
    · rw [List.mem_singleton.mp ht]
      exact hchild
  exact ⟨hf, readTasks_lines {} (by decide) rfl 8 f hf⟩

end Agenda
