import Agenda.Proofs.Owners
import Agenda.Proofs.Store
import Mathlib.Data.List.Infix
import Mathlib.Logic.Function.Iterate

/-!
Selected tasks find their places again. Whichever tasks of a forest are selected, and in whatever
order, each of them is below the owner it had, if that one is selected too, and is a root otherwise;
its siblings come in the order of the selection, and nothing is lost. The reason is that climbing
from owner to owner comes to an end in a forest, so that every selected task hangs on a root; and
that it goes through different tasks, so that no task lies deeper than there are tasks.
-/

namespace Agenda

/-! ### Forests from their groups of siblings -/

namespace Forest

variable {α : Type}

theorem exists_mem_subtrees {f : Forest α} {a : α} (h : a ∈ f.toList) :
    ∃ children, (a, children) ∈ f.subtrees := by
  induction f with
  | nil => cases h
  | cons b children rest ihc ihr =>
      simp only [toList, subtrees, List.mem_cons, List.mem_append] at h ⊢
      rcases h with rfl | h | h
      · exact ⟨children, .inl rfl⟩
      · exact (ihc h).imp fun _ hc => .inr (.inl hc)
      · exact (ihr h).imp fun _ hc => .inr (.inr hc)

theorem of_mem_subtrees {f : Forest α} {p : α × Forest α} (h : p ∈ f.subtrees) :
    p.1 ∈ f.toList ∧ p.2.toList ⊆ f.toList := by
  induction f with
  | nil => cases h
  | cons b children rest ihc ihr =>
      have hchildren : children.toList ⊆ (cons b children rest).toList := fun a ha =>
        List.mem_cons_of_mem _ (List.mem_append_left _ ha)
      have hrest : rest.toList ⊆ (cons b children rest).toList := fun a ha =>
        List.mem_cons_of_mem _ (List.mem_append_right _ ha)
      simp only [subtrees, List.mem_cons, List.mem_append] at h
      rcases h with rfl | h | h
      · exact ⟨List.mem_cons_self, hchildren⟩
      · exact (ihc h).imp (@hchildren p.1) fun hp => List.Subset.trans hp hchildren
      · exact (ihr h).imp (@hrest p.1) fun hp => List.Subset.trans hp hrest

/-- Every element is a root or a child. -/
theorem mem_roots_or_child {f : Forest α} {a : α} (h : a ∈ f.toList) :
    a ∈ f.roots ∨ ∃ p ∈ f.subtrees, a ∈ p.2.roots := by
  induction f with
  | nil => cases h
  | cons b children rest ihc ihr =>
      simp only [toList, List.mem_cons, List.mem_append] at h
      simp only [roots, subtrees, List.mem_cons, List.mem_append]
      rcases h with rfl | h | h
      · exact .inl (.inl rfl)
      · rcases ihc h with hroot | ⟨p, hp, ha⟩
        · exact .inr ⟨_, .inl rfl, hroot⟩
        · exact .inr ⟨p, .inr (.inl hp), ha⟩
      · rcases ihr h with hroot | ⟨p, hp, ha⟩
        · exact .inl (.inr hroot)
        · exact .inr ⟨p, .inr (.inr hp), ha⟩

/-- A forest is known by its roots and by what the children of each element are. -/
theorem eq_of_roots (next : α → List α) {f g : Forest α}
    (hf : ∀ p ∈ f.subtrees, p.2.roots = next p.1) (hg : ∀ p ∈ g.subtrees, p.2.roots = next p.1)
    (h : f.roots = g.roots) : f = g := by
  induction f generalizing g with
  | nil =>
      cases g with
      | nil => rfl
      | cons b bc br => cases h
  | cons a children rest ihc ihr =>
      cases g with
      | nil => cases h
      | cons b bc br =>
          obtain ⟨rfl, hrest⟩ := List.cons.inj h
          simp only [subtrees, List.forall_mem_cons, List.forall_mem_append] at hf hg
          obtain ⟨hfa, hfc, hfr⟩ := hf
          obtain ⟨hga, hgc, hgr⟩ := hg
          rw [ihc hfc hgc (hfa.trans hga.symm), ihr hfr hgr hrest]

variable (children : α → Forest α)

def ofRoots : List α → Forest α
  | [] => .nil
  | a :: as => .cons a (children a) (ofRoots as)

@[simp] theorem roots_ofRoots (as : List α) : (ofRoots children as).roots = as := by
  induction as with
  | nil => rfl
  | cons a as ih => rw [ofRoots, roots, ih]

theorem forall_mem_subtrees_ofRoots {P : α × Forest α → Prop} {as : List α} :
    (∀ p ∈ (ofRoots children as).subtrees, P p) ↔
      ∀ a ∈ as, P (a, children a) ∧ ∀ p ∈ (children a).subtrees, P p := by
  induction as with
  | nil => exact ⟨nofun, nofun⟩
  | cons a as ih =>
      rw [ofRoots, subtrees, List.forall_mem_cons, List.forall_mem_append, List.forall_mem_cons,
        ih, and_assoc]

end Forest

/-! ### The forest that parents describe -/

namespace Task

/-- The roots are the tasks without a parent, and the children of a task are those that have it as
parent, in the order of the list. -/
structure Grouped (ts : List Task) (f : Forest Task) : Prop where
  roots : f.roots = ts.filter (·.parent = none)
  children : ∀ p ∈ f.subtrees, p.2.roots = ts.filter (·.parent = p.1.id?)

theorem Grouped.unique {ts : List Task} {f g : Forest Task} (hf : Grouped ts f)
    (hg : Grouped ts g) : f = g :=
  Forest.eq_of_roots (fun t => ts.filter (·.parent = t.id?)) hf.children hg.children
    (hf.roots.trans hg.roots.symm)

theorem Grouped.subset {ts : List Task} {f : Forest Task} (hf : Grouped ts f) :
    f.toList ⊆ ts := by
  intro t ht
  rcases Forest.mem_roots_or_child ht with hmem | ⟨p, hp, hmem⟩
  · rw [hf.roots] at hmem
    exact List.mem_of_mem_filter hmem
  · rw [hf.children p hp] at hmem
    exact List.mem_of_mem_filter hmem

variable {owner a : Option Text} {f : Forest Task}

theorem Linked.parent_cases (h : Linked owner f) {t : Task} (ht : t ∈ f.toList) :
    t.parent = owner ∨ t.parent ∈ f.toList.map id? := by
  induction f generalizing owner with
  | nil => cases ht
  | cons u children rest ihc ihr =>
      obtain ⟨hu, hc, hr⟩ := h
      simp only [Forest.toList, List.map_cons, List.map_append, List.mem_cons,
        List.mem_append] at ht ⊢
      rcases ht with rfl | ht | ht
      · exact .inl hu
      · exact .inr ((ihc hc ht).imp_right .inl)
      · exact (ihr hr ht).imp_right fun hm => .inr (.inr hm)

theorem Linked.filter_eq_nil (h : Linked owner f) (hne : a ≠ owner)
    (hnew : a ∉ f.toList.map id?) : f.toList.filter (·.parent = a) = [] := by
  rw [List.filter_eq_nil_iff]
  intro t ht heq
  obtain rfl := of_decide_eq_true heq
  exact (h.parent_cases ht).elim hne hnew

/-- In a forest whose ids are distinct the parents alone say which task is where. -/
theorem Linked.roots_eq (h : Linked owner f) (hnodup : (f.toList.map id?).Nodup)
    (hnew : owner ∉ f.toList.map id?) :
    f.roots = f.toList.filter (·.parent = owner) ∧
      ∀ p ∈ f.subtrees, p.2.roots = f.toList.filter (·.parent = p.1.id?) := by
  induction f generalizing owner with
  | nil => exact ⟨rfl, nofun⟩
  | cons u children rest ihc ihr =>
      obtain ⟨hu, hc, hr⟩ := h
      simp only [Forest.toList, List.map_cons, List.map_append, List.nodup_cons,
        List.nodup_append', List.mem_cons, List.mem_append, not_or] at hnodup hnew
      obtain ⟨⟨huc, hur⟩, hndc, hndr, hdisj⟩ := hnodup
      obtain ⟨hou, hoc, hor⟩ := hnew
      obtain ⟨hrootsc, hchildrenc⟩ := ihc hc hndc huc
      obtain ⟨hrootsr, hchildrenr⟩ := ihr hr hndr hor
      have hid : ∀ {g : Forest Task}, ∀ p ∈ g.subtrees, p.1.id? ∈ g.toList.map id? := fun p hp =>
        List.mem_map_of_mem (Forest.of_mem_subtrees hp).1
      -- A task has its id as parent only if it is in the part of the forest that the id is in.
      have hroot : ∀ b, b ≠ owner → (u :: (children.toList ++ rest.toList)).filter (·.parent = b) =
          children.toList.filter (·.parent = b) ++ rest.toList.filter (·.parent = b) := by
        intro b hb
        rw [List.filter_cons_of_neg, List.filter_append]
        rw [hu]
        simpa using Ne.symm hb
      simp only [Forest.toList, Forest.subtrees, List.forall_mem_cons, List.forall_mem_append]
      refine ⟨?_, ?_, fun p hp => ?_, fun p hp => ?_⟩
      · rw [List.filter_cons_of_pos (by simpa using hu), List.filter_append,
          hc.filter_eq_nil hou hoc, List.nil_append, Forest.roots, hrootsr]
      · rw [hroot _ (Ne.symm hou), hr.filter_eq_nil (Ne.symm hou) hur, List.append_nil, hrootsc]
      · have hp' := hid p hp
        have hne : p.1.id? ≠ owner := fun heq => hoc (heq ▸ hp')
        rw [hroot _ hne, hr.filter_eq_nil hne (hdisj hp'), List.append_nil, hchildrenc p hp]
      · have hp' := hid p hp
        have hne : p.1.id? ≠ owner := fun heq => hor (heq ▸ hp')
        have hnu : p.1.id? ≠ u.id? := fun heq => hur (heq ▸ hp')
        rw [hroot _ hne, hc.filter_eq_nil hnu fun hm => hdisj hm hp', List.nil_append,
          hchildrenr p hp]

theorem Distinct.none_notMem {ts : List Task} (h : Distinct ts) : none ∉ ts.map id? := by
  rw [List.mem_map]
  rintro ⟨t, ht, hnone⟩
  obtain ⟨id, -, hid⟩ := h.has_id t ht
  rw [hnone] at hid
  cases hid

theorem Consistent.grouped (h : Consistent f) : Grouped f.toList f := by
  obtain ⟨hroots, hchildren⟩ := h.linked.roots_eq h.distinct.nodup_map h.distinct.none_notMem
  exact ⟨hroots, hchildren⟩

end Task

namespace Query

variable {ids : List Text} {ts : List Task} {a x : Option Text} {depth m n : Nat}

/-! ### The places of the selected tasks -/

/-- A task with the owner it has among the selected ones. -/
def place (ids : List Text) (t : Task) : Task := { t with parent := ownerAmong ids t }

@[simp] theorem map_id?_map_place (ts : List Task) :
    (ts.map (place ids)).map Task.id? = ts.map Task.id? := by
  rw [List.map_map]
  rfl

theorem filter_map_place (ids : List Text) (owner : Option Text) (ts : List Task) :
    (ts.map (place ids)).filter (·.parent = owner) =
      (ts.filter fun t => ownerAmong ids t = owner).map fun t => { t with parent := owner } := by
  rw [List.filter_map]
  refine List.map_congr_left fun t ht => ?_
  obtain rfl := of_decide_eq_true (List.mem_filter.1 ht).2
  rfl

theorem mem_filter_place {u : Task} :
    u ∈ (ts.map (place ids)).filter (·.parent = a) ↔
      ∃ t ∈ ts, ownerAmong ids t = a ∧ place ids t = u := by
  simp only [List.mem_filter, List.mem_map, decide_eq_true_eq]
  constructor
  · rintro ⟨⟨t, ht, rfl⟩, hparent⟩
    exact ⟨t, ht, hparent, rfl⟩
  · rintro ⟨t, ht, hparent, rfl⟩
    exact ⟨⟨t, ht, rfl⟩, hparent⟩

theorem below_succ (ids : List Text) (ts : List Task) (depth : Nat) (owner : Option Text) :
    below ids ts (depth + 1) owner =
      Forest.ofRoots (fun t => below ids ts depth t.id?)
        ((ts.map (place ids)).filter (·.parent = owner)) := by
  rw [below, filter_map_place]
  induction ts.filter fun t => ownerAmong ids t = owner with
  | nil => rfl
  | cons t us ih =>
      rw [List.foldr_cons, ih]
      rfl

/-! ### The end of the way up -/

/-- In a forest the way up comes to an end, for every task, whichever tasks were selected: at the
first task whose owner was left out, or at a root. -/
theorem exists_liesBelow {f : Forest Task} {owner : Option Text} (hlinked : Task.Linked owner f)
    (hmem : ∀ u ∈ f.toList, ∀ id ∈ ids, u.id? = some id → u ∈ ts)
    (hroots : ∃ n, LiesBelow ids ts none n (owner.filter ids.contains)) :
    ∀ u ∈ f.toList, ∃ n, LiesBelow ids ts none n (ownerAmong ids u) := by
  induction f generalizing owner with
  | nil => exact nofun
  | cons u children rest ihc ihr =>
      obtain ⟨rfl, hc, hr⟩ := hlinked
      simp only [Forest.toList, List.forall_mem_cons, List.forall_mem_append] at hmem ⊢
      obtain ⟨hmemu, hmemc, hmemr⟩ := hmem
      refine ⟨hroots, ihc hc hmemc ?_, ihr hr hmemr hroots⟩
      -- Below `u` the way up goes through `u`, or it ends there if `u` was left out.
      cases hid : u.id?.filter ids.contains with
      | none => exact ⟨0, rfl⟩
      | some id =>
          obtain ⟨hsome, hcontains⟩ := Option.filter_eq_some_iff.1 hid
          obtain ⟨n, hn⟩ := hroots
          exact ⟨n + 1, u, hmemu id (List.contains_iff_mem.1 hcontains) hsome, hsome, hn⟩

/-- The way up goes through different tasks. -/
theorem LiesBelow.exists_chain (hts : Task.Distinct ts) (h : LiesBelow ids ts none n x) :
    ∃ us : List Task, us.length = n ∧ us.Nodup ∧ us ⊆ ts ∧
      ∀ u ∈ us, ∃ k ≤ n, LiesBelow ids ts none k u.id? := by
  induction n generalizing x with
  | zero => exact ⟨[], rfl, List.nodup_nil, List.nil_subset ts, nofun⟩
  | succ n ih =>
      obtain ⟨t, ht, rfl, hup⟩ := h
      obtain ⟨us, rfl, hnodup, hsub, hdepth⟩ := ih hup
      have htop : LiesBelow ids ts none (us.length + 1) t.id? := ⟨t, ht, rfl, hup⟩
      refine ⟨t :: us, rfl, List.nodup_cons.2 ⟨fun htus => ?_, hnodup⟩,
        List.cons_subset.2 ⟨ht, hsub⟩, List.forall_mem_cons.2 ⟨⟨_, Nat.le_refl _, htop⟩, ?_⟩⟩
      · -- The task would lie at two depths.
        obtain ⟨k, hk, hlies⟩ := hdepth t htus
        have := htop.depth_eq hts hlies
        omega
      · exact fun u hu => (hdepth u hu).imp fun k hk => ⟨by omega, hk.2⟩

theorem LiesBelow.le_length (hts : Task.Distinct ts) (h : LiesBelow ids ts none n x) :
    n ≤ ts.length := by
  obtain ⟨us, rfl, hnodup, hsub, -⟩ := h.exists_chain hts
  exact (List.subperm_of_subset hnodup hsub).length_le

/-! ### The forest of the selected tasks -/

/-- Where no task is deeper than `depth`, every group of siblings is there, in order. -/
theorem roots_below (hts : Task.Distinct ts) (ha : LiesBelow ids ts none m a)
    (hdepth : ts.length ≤ m + depth) :
    (below ids ts depth a).roots = (ts.map (place ids)).filter (·.parent = a) ∧
      ∀ p ∈ (below ids ts depth a).subtrees,
        p.2.roots = (ts.map (place ids)).filter (·.parent = p.1.id?) := by
  have hup : ∀ u ∈ (ts.map (place ids)).filter (·.parent = a),
      LiesBelow ids ts none (m + 1) u.id? := by
    intro u hu
    obtain ⟨t, ht, rfl, rfl⟩ := mem_filter_place.1 hu
    exact ⟨t, ht, rfl, ha⟩
  induction depth generalizing m a with
  | zero =>
      refine ⟨?_, nofun⟩
      -- A task here would have more tasks above it than there are.
      refine (List.eq_nil_iff_forall_not_mem.2 fun u hu => ?_).symm
      have := (hup u hu).le_length hts
      omega
  | succ depth ih =>
      rw [below_succ, Forest.roots_ofRoots, Forest.forall_mem_subtrees_ofRoots]
      refine ⟨rfl, fun u hu => ih (hup u hu) (by omega) ?_⟩
      intro v hv
      obtain ⟨t, ht, howner, rfl⟩ := mem_filter_place.1 hv
      exact ⟨t, ht, rfl, howner ▸ hup u hu⟩

theorem grouped_rebuild (hts : Task.Distinct ts) :
    Task.Grouped (ts.map (place (Task.ids ts))) (rebuild ts) := by
  have htop : LiesBelow (Task.ids ts) ts none 0 none := rfl
  obtain ⟨hroots, hchildren⟩ := roots_below hts htop (Nat.zero_add _).ge
  exact ⟨hroots, hchildren⟩

/-- A task from which climbing comes to an end has a place in every forest with these groups. -/
theorem LiesBelow.mem_of_grouped {f : Forest Task} (hf : Task.Grouped (ts.map (place ids)) f)
    {t : Task} (ht : t ∈ ts) (h : LiesBelow ids ts none n (ownerAmong ids t)) :
    place ids t ∈ f.toList := by
  induction n generalizing t with
  | zero =>
      refine Forest.roots_subset f ?_
      rw [hf.roots]
      exact mem_filter_place.2 ⟨t, ht, h, rfl⟩
  | succ n ih =>
      obtain ⟨v, hv, howner, hup⟩ := h
      obtain ⟨children, hp⟩ := Forest.exists_mem_subtrees (ih hv hup)
      refine (Forest.of_mem_subtrees hp).2 (Forest.roots_subset children ?_)
      rw [hf.children _ hp]
      exact mem_filter_place.2 ⟨t, ht, howner.symm, rfl⟩

theorem perm_rebuild {f : Forest Task} (hf : Task.Consistent f) (hts : ts.Nodup)
    (hsub : ts ⊆ f.toList) : (rebuild ts).toList.Perm (ts.map (place (Task.ids ts))) := by
  have hdistinct := hf.distinct.subperm (List.subperm_of_subset hts hsub)
  have hgrouped := grouped_rebuild hdistinct
  have hplaced : (ts.map (place (Task.ids ts))).Nodup := by
    refine List.Nodup.of_map Task.id? ?_
    rw [map_id?_map_place]
    exact hdistinct.nodup_map
  have hbuilt := List.Nodup.of_map Task.id? (distinct_rebuild hdistinct).nodup_map
  refine (List.perm_ext_iff_of_nodup hbuilt hplaced).2 fun u =>
    ⟨fun hu => hgrouped.subset hu, fun hu => ?_⟩
  obtain ⟨t, ht, rfl⟩ := List.mem_map.1 hu
  -- Ids are distinct, so a task whose id was selected was selected itself.
  have hmem : ∀ v ∈ f.toList, ∀ id ∈ Task.ids ts, v.id? = some id → v ∈ ts := by
    intro v hv id hid hsome
    obtain ⟨w, hw, hw'⟩ := List.mem_filterMap.1 hid
    obtain rfl := hf.distinct.eq_of_id? (hsub hw) hv (hw'.trans hsome.symm)
    exact hw
  obtain ⟨n, hn⟩ := exists_liesBelow hf.linked hmem ⟨0, rfl⟩ t (hsub ht)
  exact hn.mem_of_grouped hgrouped ht

/-- Where all tasks are selected, every owner is. -/
theorem map_place_toList {f : Forest Task} (hf : Task.Consistent f) :
    f.toList.map (place (Task.ids f.toList)) = f.toList := by
  refine (List.map_congr_left fun t ht => ?_).trans (List.map_id _)
  have howner : ownerAmong (Task.ids f.toList) t = t.parent := by
    rcases hf.linked.parent_cases ht with hparent | hparent
    · rw [ownerAmong, hparent, Option.filter_none]
    · rw [hf.distinct.map_id?_eq] at hparent
      obtain ⟨id, hid, hsome⟩ := List.mem_map.1 hparent
      rw [ownerAmong, ← hsome]
      exact Option.filter_eq_some_iff.2 ⟨rfl, List.contains_iff_mem.2 hid⟩
  rw [place, howner]
  rfl

theorem rebuild_toList {f : Forest Task} (hf : Task.Consistent f) : rebuild f.toList = f := by
  have hgrouped := grouped_rebuild hf.distinct
  rw [map_place_toList hf] at hgrouped
  exact hgrouped.unique hf.grouped

/-! ### The walk -/

/-- The walk that makes up the forest: the tasks that wait for their turn, the next one first, and
those that were put in already, each with its depth. -/
structure Walk where
  pending : List (Nat × Task)
  built : List (Nat × Task)

def group (ids : List Text) (ts : List Task) (depth : Nat) (owner : Option Text) :
    List (Nat × Task) :=
  ((ts.map (place ids)).filter (·.parent = owner)).map (depth, ·)

/-- Puts in the next task; the tasks that it owns come before those that wait. -/
def Walk.step (ids : List Text) (ts : List Task) (w : Walk) : Walk :=
  match w.pending with
  | [] => w
  | (depth, t) :: pending =>
    { pending := group ids ts (depth + 1) t.id? ++ pending, built := w.built ++ [(depth, t)] }

theorem iterate_step {f : Forest Task}
    (hf : ∀ p ∈ f.subtrees, p.2.roots = (ts.map (place ids)).filter (·.parent = p.1.id?))
    (depth : Nat) (pending built : List (Nat × Task)) :
    (Walk.step ids ts)^[f.size] ⟨f.roots.map (depth, ·) ++ pending, built⟩ =
      ⟨pending, built ++ f.outline depth⟩ := by
  induction f generalizing depth pending built with
  | nil => simp [Forest.size, Forest.roots, Forest.outline]
  | cons t children rest ihc ihr =>
      simp only [Forest.subtrees, List.forall_mem_cons, List.forall_mem_append] at hf
      obtain ⟨hgroup, hc, hr⟩ := hf
      have hstep :
          Walk.step ids ts ⟨(Forest.cons t children rest).roots.map (depth, ·) ++ pending, built⟩ =
            ⟨children.roots.map (depth + 1, ·) ++ (rest.roots.map (depth, ·) ++ pending),
              built ++ [(depth, t)]⟩ := by
        rw [hgroup]
        rfl
      -- One step puts in the root, the next ones its children and then what comes after it.
      rw [Forest.size, Nat.add_assoc, Nat.add_comm, Function.iterate_add_apply,
        Function.iterate_one, hstep, Nat.add_comm, Function.iterate_add_apply, ihc hc, ihr hr]
      simp [Forest.outline]

/-- The walk ends, when each of the selected tasks has had its turn. -/
theorem walk_rebuild {f : Forest Task} (hf : Task.Consistent f) (hts : ts.Nodup)
    (hsub : ts ⊆ f.toList) :
    (Walk.step (Task.ids ts) ts)^[ts.length] ⟨group (Task.ids ts) ts 0 none, []⟩ =
      ⟨[], (rebuild ts).outline 0⟩ := by
  have hgrouped := grouped_rebuild (hf.distinct.subperm (List.subperm_of_subset hts hsub))
  have hlength : (rebuild ts).size = ts.length := by
    rw [← Forest.length_toList, (perm_rebuild hf hts hsub).length_eq, List.length_map]
  have hwalk := iterate_step hgrouped.children 0 [] []
  rwa [hlength, hgrouped.roots, List.append_nil, List.nil_append] at hwalk

/-- Whichever tasks of a consistent forest are selected, and in whatever order: the walk puts in one
task after the other until none waits, each selected task once, and gives it the owner it had in the
forest if that one is selected too, and none otherwise; the roots are the tasks without an owner
and the children of a task those that it owns, all of them in the order of the selection. If all
tasks are selected, in their order, the forest is made up again. -/
theorem rebuild_regroups {f : Forest Task} (hf : Task.Consistent f) {ts : List Task}
    (hts : ts.Nodup) (hsub : ts ⊆ f.toList) :
    (Walk.step (Task.ids ts) ts)^[ts.length] ⟨group (Task.ids ts) ts 0 none, []⟩ =
        ⟨[], (rebuild ts).outline 0⟩ ∧
      (rebuild ts).toList.Perm (ts.map (place (Task.ids ts))) ∧
      Task.Grouped (ts.map (place (Task.ids ts))) (rebuild ts) ∧
      rebuild f.toList = f :=
  ⟨walk_rebuild hf hts hsub, perm_rebuild hf hts hsub,
    grouped_rebuild (hf.distinct.subperm (List.subperm_of_subset hts hsub)), rebuild_toList hf⟩

/-- A task that comes before its owner, and one whose owner was left out. -/
theorem rebuild_regroups_unordered :
    let task (id : Text) (parent : Option Text) : Task := { fields := [(Key.id, .text id)], parent }
    let f : Forest Task :=
      .cons (task "a" none)
        (.cons (task "b" (some "a")) (.cons (task "c" (some "b")) .nil .nil)
          (.cons (task "d" (some "a")) .nil .nil))
        (.cons (task "e" none) .nil .nil)
    let ts := [task "d" (some "a"), task "e" none, task "c" (some "b"), task "a" none]
    (Task.Consistent f ∧ ts.Nodup ∧ ts ⊆ f.toList) ∧
      rebuild ts =
        .cons (task "e" none) .nil
          (.cons (task "c" none) .nil
            (.cons (task "a" none) (.cons (task "d" (some "a")) .nil .nil) .nil)) ∧
      (Walk.step (Task.ids ts) ts)^[ts.length] ⟨group (Task.ids ts) ts 0 none, []⟩ =
        ⟨[], (rebuild ts).outline 0⟩ ∧
      (rebuild ts).toList.Perm (ts.map (place (Task.ids ts))) ∧
      Task.Grouped (ts.map (place (Task.ids ts))) (rebuild ts) ∧
      rebuild f.toList = f := by
  intro task f ts
  have hf : Task.Consistent f := by
    have hid : ∀ t ∈ f.toList, t.id?.isSome := by decide
    have hlinked : Task.Linked none f :=
      ⟨rfl, ⟨rfl, ⟨rfl, trivial, trivial⟩, rfl, trivial, trivial⟩, rfl, trivial, trivial⟩
    refine ⟨⟨fun t ht => ?_, by decide⟩, hlinked⟩
    obtain ⟨id, hsome⟩ := Option.isSome_iff_exists.1 (hid t ht)
    exact ⟨id, Task.ne_nil_of_id? hsome, hsome⟩
  have hts : ts.Nodup := by decide
  have hsub : ts ⊆ f.toList := by decide
  exact ⟨⟨hf, hts, hsub⟩, by decide, rebuild_regroups hf hts hsub⟩

end Query

end Agenda
