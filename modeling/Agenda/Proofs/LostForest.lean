import Agenda.Proofs.LostId

/-!
A forest in which an id gets lost. Its lines are read as the forest up to the first task that loses
its id, and that task is read with an id that has no blank, so the forest that is read is not the
one that was written.
-/

namespace Agenda

namespace Layout

variable {o : Layout} {t : Task} {id : Text} {depth : Nat}

/-! ### Where a forest goes on -/

def StartsBy (o : Layout) (depth : Nat) (ls : List Text) : Prop :=
  ls = [] ∨ ∃ n ≤ depth, ∃ parts more, ls = bulletLine (Text.spaces (n * o.step)) parts :: more

theorem StartsBy.mono {ls : List Text} {m n : Nat} (h : o.StartsBy m ls) (hmn : m ≤ n) :
    o.StartsBy n ls := by
  rcases h with rfl | ⟨k, hk, parts, more, rfl⟩
  · exact .inl rfl
  · exact .inr ⟨k, Nat.le_trans hk hmn, parts, more, rfl⟩

theorem StartsBy.append {ls ms : List Text} {n : Nat} (h : o.StartsBy n ls)
    (h' : o.StartsBy n ms) : o.StartsBy n (ls ++ ms) := by
  rcases h with rfl | ⟨k, hk, parts, more, rfl⟩
  · exact h'
  · exact .inr ⟨k, hk, parts, more ++ ms, rfl⟩

theorem startsBy_taskLines {ls : List Text} (hls : o.taskLines depth t = .ok ls)
    (more : List Text) : o.StartsBy depth (ls ++ more) := by
  obtain ⟨parts, groups, rfl, -⟩ := exists_fieldLines hls
  exact .inr ⟨depth, Nat.le_refl _, parts, _, rfl⟩

theorem startsBy_forestLines {f : Forest Task} {ls : List Text}
    (hls : o.forestLines depth f = .ok ls) : o.StartsBy depth ls := by
  cases f with
  | nil =>
      obtain rfl := Except.ok.inj hls
      exact .inl rfl
  | cons t children rest =>
      obtain ⟨lines, below, after, hlines, -, -, rfl⟩ := forestLines_cons hls
      rw [List.append_assoc]
      exact startsBy_taskLines hlines _

/-- The first piece of the line of a bullet is a bullet in the same column. -/
theorem exists_bullet_of_split {n : Nat} {parts : List Text} {piece : Text} {pieces : List Text}
    (hsplit : Text.split '\n' (bulletLine (Text.spaces n) parts) = piece :: pieces)
    (size index : Nat) :
    Heading.level? piece = none ∧ (Line.ofText size index piece).indent = n ∧
      (Line.ofText size index piece).isBlank = false ∧
      ∃ content, (Line.ofText size index piece).bullet? = some content := by
  set rest := Text.stripEnd (' ' :: Text.join [' '] parts) with hrest
  obtain ⟨first, others, hfirst⟩ := List.exists_cons_of_ne_nil (Text.split_ne_nil '\n' rest)
  have hdash : '\n' ∉ Text.spaces n ++ ['-'] := by simp [Text.spaces]
  have hline : bulletLine (Text.spaces n) parts = Text.spaces n ++ ['-'] ++ rest := by
    simp [bulletLine_eq, hrest]
  rw [hline, Text.split_append hdash hfirst] at hsplit
  obtain ⟨rfl, rfl⟩ := List.cons.inj hsplit
  obtain ⟨hindent, htext⟩ := Line.ofText_mark size index n (c := '-') (by decide) first
  rw [List.append_assoc, List.singleton_append]
  refine ⟨level?_dash n first, hindent, by rw [Line.isBlank, htext]; rfl, ?_⟩
  apply Line.exists_bullet? htext
  · intro c hc
    have hc := Text.head_dropEndWhile hc
    cases first with
    | nil => cases hc
    | cons d ds =>
        have hd := Text.head_dropEndWhile (Text.head?_of_split hfirst rfl)
        obtain rfl : ' ' = d := by simpa using hd
        obtain rfl : ' ' = c := by simpa [Line.expandTabs] using hc
        decide
  · exact not_mem_readLine.2 (Text.not_mem_of_mem_split (hfirst ▸ List.mem_cons_self))

/-- Lines that go on with a bullet start with an entry, wherever they are cut off. -/
theorem StartsBy.reads {ls after : List Text} {n level : Nat} (h : o.StartsBy n ls)
    (hafter : ∀ l ∈ after.takeWhile (!Section.closes level ·), l = []) (index : Nat) :
    ∃ es, Entry.Reads o.step (n * o.step) (Line.ofTexts o.step index
      ((ls.flatMap (Text.split '\n') ++ after).takeWhile (!Section.closes level ·))) es := by
  rcases h with rfl | ⟨k, hk, parts, more, rfl⟩
  · refine ⟨[], Entry.reads_blank _ _ fun l hl => ?_⟩
    obtain ⟨i, text, htext, rfl⟩ := Line.mem_ofTexts hl
    rw [hafter text htext]
    rfl
  · obtain ⟨piece, pieces, hsplit⟩ := List.exists_cons_of_ne_nil
      (Text.split_ne_nil '\n' (bulletLine (Text.spaces (k * o.step)) parts))
    obtain ⟨hlevel, hindent, hblank, content, hbullet⟩ :=
      exists_bullet_of_split hsplit o.step index
    have hopen : Section.closes level piece = false := Section.closes_of_level?_eq_none hlevel
    rw [List.flatMap_cons, hsplit, List.cons_append, List.cons_append,
      List.takeWhile_cons_of_pos (by simp [hopen]), Line.ofTexts]
    have hle : (Line.ofText o.step index piece).indent ≤ n * o.step := by
      rw [hindent]
      exact Nat.mul_le_mul_right _ hk
    exact ⟨_, (Entry.reads_bullet o.step hbullet hblank _).mono hle⟩

/-! ### The first lost id -/

/-- The lines of a forest up to the first task whose id is lost, those of the task, and those after
it. -/
structure FirstLost (o : Layout) (depth : Nat) (f : Forest Task) (ls : List Text)
    (before after : List Task) (t : Task) (n : Nat) (good lines later : List Text) : Prop where
  tasks : f.toList = before ++ t :: after
  lost : ¬ KeepsId t
  depth_le : depth ≤ n
  lines_eq : ls = good ++ (lines ++ later)
  taskLines : o.taskLines n t = .ok lines
  startsBy : o.StartsBy (n + 1) later
  good_lines : ∀ l ∈ good, '\n' ∉ l
  reads : ∀ index rest es, Entry.Reads o.step (n * o.step) rest es →
    ∃ es', es'.length = before.length ∧
      Entry.Reads o.step (depth * o.step) (Line.ofTexts o.step index good ++ rest) (es' ++ es)

namespace FirstLost

variable {f children rest : Forest Task} {ls lines below later good lines' later' : List Text}
  {before after : List Task} {u : Task} {n : Nat}

/-- The first task itself loses its id. -/
theorem of_root (hlost : ¬ KeepsId t) (hlines : o.taskLines depth t = .ok lines)
    (hlater : o.StartsBy (depth + 1) later) :
    FirstLost o depth (.cons t children rest) (lines ++ later) []
      (children.toList ++ rest.toList) t depth [] lines later where
  tasks := rfl
  lost := hlost
  depth_le := Nat.le_refl _
  lines_eq := rfl
  taskLines := hlines
  startsBy := hlater
  good_lines := by simp
  reads := fun _ _ _ hmore => ⟨[], rfl, hmore⟩

/-- The first id that is lost is below the first task. -/
theorem of_children (h : FirstLost o (depth + 1) children below before after u n good lines' later')
    (hlines : ∀ l ∈ lines, '\n' ∉ l)
    (hentry : ∀ index, ∃ e,
      Entry.EntryLines o.step (depth * o.step) (Line.ofTexts o.step index lines) e)
    (hlater : o.StartsBy depth later) :
    FirstLost o depth (.cons t children rest) (lines ++ below ++ later) (t :: before)
      (after ++ rest.toList) u n (lines ++ good) lines' (later' ++ later) := by
  have hle : depth ≤ n := Nat.le_of_succ_le h.depth_le
  refine ⟨by simp [Forest.toList, h.tasks], h.lost, hle, by simp [h.lines_eq], h.taskLines,
    h.startsBy.append (hlater.mono (Nat.le_succ_of_le hle)), ?_, ?_⟩
  · intro l hl
    rcases List.mem_append.mp hl with hl | hl
    · exact hlines l hl
    · exact h.good_lines l hl
  · intro index more es hmore
    obtain ⟨es', hlen, hreads⟩ := h.reads (index + lines.length) more es hmore
    obtain ⟨e, he⟩ := hentry index
    rw [Nat.succ_mul] at hreads
    refine ⟨e :: es', by simp [hlen], ?_⟩
    rw [Line.ofTexts_append, List.append_assoc]
    exact he.reads hreads

/-- The first id that is lost is behind the first task and those below it. -/
theorem of_rest (h : FirstLost o depth rest later before after u n good lines' later')
    (hlines : ∀ l ∈ lines ++ below, '\n' ∉ l)
    (hentries : ∀ index more es, Entry.Reads o.step (depth * o.step) more es →
      ∃ es', es'.length = (t :: children.toList).length ∧
        Entry.Reads o.step (depth * o.step) (Line.ofTexts o.step index (lines ++ below) ++ more)
          (es' ++ es)) :
    FirstLost o depth (.cons t children rest) (lines ++ below ++ later)
      (t :: (children.toList ++ before)) after u n (lines ++ below ++ good) lines' later' := by
  refine ⟨by simp [Forest.toList, h.tasks], h.lost, h.depth_le, by simp [h.lines_eq],
    h.taskLines, h.startsBy, ?_, ?_⟩
  · intro l hl
    rcases List.mem_append.mp hl with hl | hl
    · exact hlines l hl
    · exact h.good_lines l hl
  · intro index more es hmore
    obtain ⟨es', hlen, hreads⟩ := h.reads (index + (lines ++ below).length) more es hmore
    obtain ⟨es'', hlen', hreads'⟩ := hentries index _ _ hreads
    refine ⟨es'' ++ es', by simp [hlen, hlen']; omega, ?_⟩
    rw [Line.ofTexts_append, List.append_assoc, List.append_assoc]
    exact hreads'

end FirstLost

/-- The lines of a task and of those below it are read as one entry for each of them. -/
theorem reads_withChildren (hstep : 0 < o.step) (hwrap : o.wrapWidth = none) (ht : t.WellFormed)
    (hkept : KeepsId t) {children : Forest Task}
    (hc : ∀ u ∈ children.toList, u.WellFormed ∧ KeepsId u) {lines below : List Text}
    (hlines : o.taskLines depth t = .ok lines)
    (hbelow : o.forestLines (depth + 1) children = .ok below) (index : Nat) {more : List Line}
    {es : List Entry} (hmore : Entry.Reads o.step (depth * o.step) more es) :
    ∃ es', es'.length = (t :: children.toList).length ∧
      Entry.Reads o.step (depth * o.step) (Line.ofTexts o.step index (lines ++ below) ++ more)
        (es' ++ es) := by
  obtain ⟨ec, hec, hreads⟩ := reads_forestLines hstep hwrap hc hbelow (index + lines.length)
    (hmore.mono (Nat.mul_le_mul_right _ (Nat.le_succ _)))
  obtain ⟨e, he, -⟩ := exists_entry_of_taskLines hstep hwrap ht hkept hlines index
  have hlen : ec.length = children.toList.length := by
    rw [← hec.length_eq, ← Forest.map_snd_outline children (depth + 1), List.length_map]
  rw [Nat.succ_mul] at hreads
  refine ⟨e :: ec, by simp [hlen], ?_⟩
  rw [Line.ofTexts_append, List.append_assoc]
  exact he.reads hreads

/-- A forest that loses an id has a first task that does. -/
theorem exists_firstLost (hstep : 0 < o.step) (hwrap : o.wrapWidth = none) {f : Forest Task}
    (hf : ∀ t ∈ f.toList, t.WellFormed) (hlost : ∃ t ∈ f.toList, ¬ KeepsId t) {ls : List Text}
    (hls : o.forestLines depth f = .ok ls) :
    ∃ before after t n good lines later,
      FirstLost o depth f ls before after t n good lines later := by
  induction f generalizing depth ls with
  | nil =>
      obtain ⟨t, ht, -⟩ := hlost
      cases ht
  | cons t children rest ihc ihr =>
      obtain ⟨lines, below, later, hlines, hbelow, hlater, rfl⟩ := forestLines_cons hls
      simp only [Forest.toList, List.forall_mem_cons, List.forall_mem_append] at hf
      obtain ⟨ht, hc, hr⟩ := hf
      by_cases hkept : KeepsId t
      · have htaskNl : ∀ l ∈ lines, '\n' ∉ l := fun l hl =>
          (of_mem_taskLines hwrap ht.sound hkept hlines l hl).1
        by_cases hchildren : ∃ u ∈ children.toList, ¬ KeepsId u
        · obtain ⟨before, after, u, n, good, lines', later', h⟩ := ihc hc hchildren hbelow
          have hentry := exists_entry_of_taskLines hstep hwrap ht hkept hlines
          exact ⟨_, _, u, n, _, lines', _,
            h.of_children htaskNl (fun index => (hentry index).imp fun _ he => he.1)
              (startsBy_forestLines hlater)⟩
        · simp only [not_exists, not_and, not_not] at hchildren
          have hrest : ∃ u ∈ rest.toList, ¬ KeepsId u := by
            obtain ⟨u, hu, hnot⟩ := hlost
            simp only [Forest.toList, List.mem_cons, List.mem_append] at hu
            rcases hu with rfl | hu | hu
            · exact absurd hkept hnot
            · exact absurd (hchildren u hu) hnot
            · exact ⟨u, hu, hnot⟩
          obtain ⟨before, after, u, n, good, lines', later', h⟩ := ihr hr hrest hlater
          have hbelowNl := not_mem_of_mem_forestLines hwrap (fun u hu => (hc u hu).sound)
            hchildren hbelow
          exact ⟨_, _, u, n, _, lines', _,
            h.of_rest (List.forall_mem_append.2 ⟨htaskNl, hbelowNl⟩) fun index _ _ hmore =>
              reads_withChildren hstep hwrap ht hkept (fun u hu => ⟨hc u hu, hchildren u hu⟩)
                hlines hbelow index hmore⟩
      · have hlater : o.StartsBy (depth + 1) (below ++ later) :=
          (startsBy_forestLines hbelow).append
            ((startsBy_forestLines hlater).mono (Nat.le_succ _))
        rw [List.append_assoc]
        exact ⟨_, _, t, depth, _, lines, _, .of_root hkept hlines hlater⟩

theorem writtenField_key {multiline : Bool} {f : Text × Value} {w : Text × Written}
    (h : o.writtenField multiline f = .ok w) : w.1 = f.1 := by
  unfold writtenField at h
  split at h
  · rw [← Except.ok.inj h]
  · obtain ⟨u, -, rfl⟩ := map_eq_ok.1 h
    rfl

/-- Below the bullet of a lost id no line sets the id. -/
theorem key_ne_id_below (hstep : 2 ≤ o.step) (hwrap : o.wrapWidth = none) (h : IdLost id)
    {piece : Text} {pieces : List Text}
    (hsplit : Text.split '\n' (Text.stripEnd (' ' :: id)) = piece :: pieces) {fs : Fields}
    {groups : List (List Text)} (hfs : ∀ f ∈ fs, IsKey f.1 ∧ f.1 ≠ Key.id)
    (hgroups : List.Forall₂ (fun f ls => o.fieldLines (Text.spaces (depth * o.step)) f = .ok ls) fs
      groups) {tail : List Text} {level : Nat}
    (htail : ∀ index, ∃ es, Entry.Reads o.step ((depth + 1) * o.step)
      (Line.ofTexts o.step index (tail.takeWhile (!Section.closes level ·))) es) (index : Nat) :
    ∀ w ∈ (Entry.gatherFrom o.step ⟨some (depth * o.step), none⟩ (Line.ofTexts o.step index
      ((pieces ++ (groups.flatten ++ tail)).takeWhile (!Section.closes level ·)))).fields,
      w.1 ≠ Key.id := by
  by_cases hne : pieces = []
  · -- The bullet is whole, so its fields are read, and none of them is the id.
    subst hne
    have hopen : ∀ l ∈ groups.flatten, (!Section.closes level l) = true := by
      intro l hl
      obtain ⟨group, hgroup, hl⟩ := List.mem_flatten.1 hl
      obtain ⟨f, hf, hlines⟩ := exists_of_mem_forall₂ hgroups hgroup
      have hlevel := level?_of_mem_fieldLines hwrap hstep (hfs f hf).1 hlines l hl
      simp [Section.closes_of_level?_eq_none hlevel]
    obtain ⟨ws, measured, hflat, hmeasured, hws⟩ :=
      fieldLines_groups (by omega) hwrap (fun f hf => (hfs f hf).1) hgroups index
    obtain ⟨es, hes⟩ := htail (index + groups.flatten.length)
    rw [Nat.succ_mul] at hes
    have hreads := Entry.readsFields_flatten hmeasured hes ⟨some (depth * o.step), none⟩ rfl
      (by simp)
    rw [List.nil_append, List.takeWhile_append_of_pos hopen, Line.ofTexts_append, hflat, hreads.1]
    intro w hw
    obtain ⟨f, hf, hfield⟩ := exists_of_mem_forall₂ hws hw
    rw [writtenField_key hfield]
    exact (hfs f hf).2
  · -- What is torn off stands at the margin, so no line below it belongs to the bullet.
    have hmem : ∀ q ∈ pieces, '\t' ∉ q ∧ ' ' ∉ q := fun q hq =>
      ⟨fun hm => (h.ne_space _ (IdLost.mem_of_mem_pieces hsplit q hq _ hm)).2 rfl,
        fun hm => (h.ne_space _ (IdLost.mem_of_mem_pieces hsplit q hq _ hm)).1 rfl⟩
    rw [Entry.fields_gatherFrom_of_margin fun l hl => indent_of_pieces (groups.flatten ++ tail)
      hmem (IdLost.exists_not_blank hsplit hne) hl]
    simp

end Layout

/-! ### A forest that loses an id -/

/-- Forests that differ at some place are not the same. -/
theorem Forest.same_eq_false_of_toList {α : Type} {eq : α → α → Bool} {f g : Forest α}
    {before after before' after' : List α} {a b : α} (hf : f.toList = before ++ a :: after)
    (hg : g.toList = before' ++ b :: after') (hlen : before.length = before'.length)
    (h : eq a b = false) : f.same eq g = false := by
  by_contra hsame
  have hrel := (Forest.same_iff_rel.1 (by simpa using hsame)).toList
  rw [hf] at hrel
  obtain ⟨xs, ys, hxs, hys, hg'⟩ := Forest.exists_append_of_forall₂ hrel
  obtain ⟨-, heq⟩ := List.append_inj (hg.symm.trans hg') (hlen.symm.trans hxs.length_eq)
  rw [← heq] at hys
  cases hys with
  | cons hab _ =>
      rw [h] at hab
      cases hab

/-- The task that the entry at some place is read as. -/
theorem Document.exists_task_of_reads {size idLength column : Nat} {ls : List Line}
    {f : Forest Task} (h : Document.tasksIn size idLength ls = .ok f) {es es' : List Entry}
    {e : Entry} (hreads : Entry.Reads size column ls (es ++ e :: es')) :
    ∃ us u us', f.toList = us ++ u :: us' ∧ us.length = es.length ∧
      ∃ t : Task, e.task size = .ok t ∧ t.IsNamed idLength u := by
  have hread := Document.forall₂_tasksIn h
  rw [Entry.ofLines_of_reads hreads] at hread
  obtain ⟨us, rest, hus, hrest, hf⟩ := Forest.exists_append_of_forall₂ hread
  cases hrest with
  | cons hu _ => exact ⟨us, _, _, hf, hus.length_eq.symm, hu⟩

theorem Identity.bare_hash {i : Identity} {length n : Nat} {id : Text}
    (h : i.hash length n = .ok id) : id.Bare := by
  have hdigit : ∀ c ∈ Digest.digits, isBlank c = false ∧ Quote.ofChar? c = none := by decide
  obtain ⟨t, -, rfl⟩ := map_eq_ok.1 h
  intro c hc
  exact hdigit c ((Digest.isHex_sha1 _).mem_digits c (List.mem_of_mem_take hc))

/-- An entry in which the id has no blanks is read as a task of which the same holds. -/
theorem Entry.bareId_of_task {e : Entry} {size length : Nat} {t u : Task}
    (hbullet : ∀ w ∈ Bullet.written (tokens e.content), Fields.IsBareId w)
    (hfields : ∀ w ∈ e.fields, w.1 ≠ Key.id) (ht : e.task size = .ok t)
    (hu : t.IsNamed length u) : u.fields.BareId := by
  have hread : t.fields.BareId := by
    unfold task at ht
    obtain ⟨fs, hfs, rfl⟩ := map_eq_ok.1 ht
    refine (Fields.BareId.headFields _ _).assignAll ?_ hfs
    intro w hw
    rcases List.mem_append.mp hw with hw | hw
    · exact hbullet w hw
    · exact fun hid => absurd hid (hfields w hw)
  rcases hu with ⟨-, -, hu⟩ | ⟨-, n, id, hhash, hu⟩
  · rw [hu]
    exact hread
  · rw [hu]
    exact hread.set fun _ => ⟨_, rfl, Identity.bare_hash hhash⟩

namespace Layout

variable {o : Layout}

/-- A task whose id is lost is not the task that is read instead. -/
theorem not_same_of_bareId {t u : Task} (ht : t.WellFormed) (hlost : ¬ KeepsId t)
    (hu : u.fields.BareId) : t.same u = false := by
  obtain ⟨id, hne, hm⟩ := ht.has_id
  have hid := ht.id?_eq hne hm
  by_contra hsame
  obtain ⟨w, hlookup, hw⟩ := Fields.exists_lookup_of_same (by simpa [Task.same] using hsame) hm
  obtain ⟨s, rfl, hbare⟩ := hu w (Fields.mem_of_lookup hlookup)
  obtain rfl : id = s := by simpa [Value.same, Value.number?] using hw
  apply hlost
  intro id' hid'
  rw [hid] at hid'
  obtain rfl := Option.some.inj hid'
  exact .inr fun c hc => (hbare c hc).1

theorem FirstLost.idLost {f : Forest Task} {ls : List Text} {before behind : List Task} {t : Task}
    {n : Nat} {good lines later : List Text}
    (h : FirstLost o depth f ls before behind t n good lines later) {id : Text}
    (hid : t.id? = some id) : IdLost id := by
  apply idLost_of_not_idKept
  intro hkept
  apply h.lost
  intro id' hid'
  rw [hid] at hid'
  exact Option.some.inj hid' ▸ hkept

/-- The lines of a forest when they are cut at the line feeds of the first lost id: those before
it, what is left of its bullet, and what is torn off. -/
theorem FirstLost.exists_torn (hwrap : o.wrapWidth = none) {f : Forest Task} {ls : List Text}
    {before behind : List Task} {t : Task} (ht : t.Sound) {n : Nat} {good lines later : List Text}
    (h : FirstLost o depth f ls before behind t n good lines later) {id : Text}
    (hid : t.id? = some id) :
    ∃ kvs groups piece pieces, (∀ kv ∈ kvs, IsKey kv.1 ∧ kv.1 ≠ Key.id ∧ Scalar.Form kv.2) ∧
      List.Forall₂ (fun f ls => o.fieldLines (Text.spaces (n * o.step)) f = .ok ls)
        (o.fieldsBelow t) groups ∧
      Text.split '\n' (Text.stripEnd (' ' :: id)) = piece :: pieces ∧
      ls.flatMap (Text.split '\n') = good ++ o.tornBullet n t kvs piece ::
        (pieces ++ (groups.flatten ++ later.flatMap (Text.split '\n'))) := by
  obtain ⟨kvs, groups, hlines, hkvs, hgroups⟩ := taskLines_shape ht hid h.taskLines
  obtain ⟨piece, pieces, hsplit⟩ := List.exists_cons_of_ne_nil
    (Text.split_ne_nil '\n' (Text.stripEnd (' ' :: id)))
  have hgroupsNl : ∀ l ∈ groups.flatten, '\n' ∉ l := by
    intro l hl
    obtain ⟨group, hgroup, hl⟩ := List.mem_flatten.1 hl
    obtain ⟨g, hg, hgroupLines⟩ := exists_of_mem_forall₂ hgroups hgroup
    exact (of_mem_fieldLines hwrap (of_mem_fieldsBelow ht hg).1 hgroupLines l hl).1
  refine ⟨kvs, groups, piece, pieces, hkvs, hgroups, hsplit, ?_⟩
  rw [h.lines_eq, hlines]
  simp only [List.flatMap_append, List.flatMap_cons, split_idBullet ht hkvs (h.idLost hid) hsplit,
    Text.flatMap_split_of_not_mem h.good_lines, Text.flatMap_split_of_not_mem hgroupsNl]
  simp

/-- The lines of a forest up to its first lost id are read as the entries of the tasks up to that
one, and nothing sets the id in the entry of the task that loses it. -/
theorem FirstLost.reads_torn (hstep : 2 ≤ o.step) (hwrap : o.wrapWidth = none) {f : Forest Task}
    (hf : ∀ t ∈ f.toList, t.Sound) {ls : List Text} {before behind : List Task} {t : Task}
    {n : Nat} {good lines later : List Text}
    (h : FirstLost o 0 f ls before behind t n good lines later) (hls : o.lines f = .ok ls)
    {id : Text} (hid : t.id? = some id) {after : List Text} {level : Nat}
    (hafter : ∀ l ∈ after.takeWhile (!Section.closes level ·), l = []) (index : Nat) :
    ∃ es e es', es.length = before.length ∧
      Entry.Reads o.step (0 * o.step) (Line.ofTexts o.step index
        ((ls.flatMap (Text.split '\n') ++ after).takeWhile (!Section.closes level ·)))
        (es ++ e :: es') ∧
      (∀ w ∈ Bullet.written (tokens e.content), Fields.IsBareId w) ∧
      ∀ w ∈ e.fields, w.1 ≠ Key.id := by
  have ht : t.Sound := hf t (by simp [h.tasks])
  obtain ⟨kvs, groups, piece, pieces, hkvs, hgroups, hsplit, hpieces⟩ :=
    h.exists_torn hwrap ht hid
  -- Neither the lines before the bullet nor what is left of it end the section.
  have hgood : ∀ l ∈ good, (!Section.closes level l) = true := by
    intro l hl
    have hnone := level?_of_mem_forestLines hwrap hstep hf hls l (by simp [h.lines_eq, hl])
    simp [Section.closes_of_level?_eq_none hnone]
  have hopen : (!Section.closes level (o.tornBullet n t kvs piece)) = true := by
    have hnone : Heading.level? (o.tornBullet n t kvs piece) = none := level?_dash _ _
    simp [Section.closes_of_level?_eq_none hnone]
  rw [hpieces, List.append_assoc, List.takeWhile_append_of_pos hgood, List.cons_append,
    List.takeWhile_cons_of_pos (p := (!Section.closes level ·)) hopen, Line.ofTexts_append,
    Line.ofTexts, List.append_assoc, List.append_assoc]
  obtain ⟨content, hindent, hbullet, hblank, hbare⟩ :=
    ofText_tornBullet o n ht hkvs (h.idLost hid) hsplit (index + good.length)
  have hentry := Entry.reads_bullet o.step hbullet hblank (Line.ofTexts o.step
    (index + good.length + 1) ((pieces ++ (groups.flatten ++
      (later.flatMap (Text.split '\n') ++ after))).takeWhile (!Section.closes level ·)))
  rw [hindent] at hentry
  obtain ⟨es, hlen, hreads⟩ := h.reads index _ _ hentry
  refine ⟨es, _, _, hlen, hreads, hbare, ?_⟩
  exact key_ne_id_below hstep hwrap (h.idLost hid) hsplit (fun f => of_mem_fieldsBelow ht) hgroups
    (fun i => h.startsBy.reads hafter i) _

/-- If an id is lost, the lines of a forest are not read as that forest. -/
theorem not_same_of_lost (hstep : 2 ≤ o.step) (hwrap : o.wrapWidth = none) {f : Forest Task}
    (hf : ∀ t ∈ f.toList, t.WellFormed) (hlost : ∃ t ∈ f.toList, ¬ KeepsId t) {ls : List Text}
    (hls : o.lines f = .ok ls) {after : List Text} {level index idLength : Nat}
    (hafter : ∀ l ∈ after.takeWhile (!Section.closes level ·), l = []) {f' : Forest Task}
    (hf' : Document.tasksIn o.step idLength (Line.ofTexts o.step index
      ((ls.flatMap (Text.split '\n') ++ after).takeWhile (!Section.closes level ·))) = .ok f') :
    f.same Task.same f' = false := by
  obtain ⟨before, behind, t, n, good, lines, later, h⟩ :=
    exists_firstLost (by omega) hwrap hf hlost hls
  have ht : t.WellFormed := hf t (by simp [h.tasks])
  obtain ⟨id, hne, hm⟩ := ht.has_id
  obtain ⟨es, e, es', hlen, hreads, hbullet, hfields⟩ := h.reads_torn hstep hwrap
    (fun u hu => (hf u hu).sound) hls (ht.id?_eq hne hm) hafter index
  obtain ⟨us, u, us', hus, hlen', v, hv, hnamed⟩ := Document.exists_task_of_reads hf' hreads
  have hbareId := Entry.bareId_of_task hbullet hfields hv hnamed
  exact Forest.same_eq_false_of_toList h.tasks hus (hlen.symm.trans hlen'.symm)
    (not_same_of_bareId ht h.lost hbareId)

end Layout

end Agenda
