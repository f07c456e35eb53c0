import Agenda.Query.Select
import Agenda.Proofs.Fields
import Mathlib.Data.List.Nodup
import Mathlib.Data.List.Perm.Subperm
import Mathlib.Data.Option.Basic

/-!
The forest that selected tasks make up. A task finds its place by climbing from owner to owner among
the selected ones. Where the ids are distinct there is one way up, and it comes to the end after one
number of steps only, so no task is put in twice; nothing is assumed of the owners themselves, which
may be any ids or none.
-/

namespace Agenda

/-! ### Ids and owners -/

namespace Task

structure Distinct (ts : List Task) : Prop where
  has_id : ∀ t ∈ ts, ∃ id, id ≠ [] ∧ t.id? = some id
  nodup : (ids ts).Nodup

/-- Every task has the id of its owner as parent; `owner` is that of the roots. -/
def Linked (owner : Option Text) : Forest Task → Prop
  | .nil => True
  | .cons t children rest => t.parent = owner ∧ Linked t.id? children ∧ Linked owner rest

theorem linked_link (owner : Option Text) (f : Forest Task) : Linked owner (link owner f) := by
  induction f generalizing owner with
  | nil => trivial
  | cons t children rest ihc ihr => exact ⟨rfl, ihc t.id?, ihr owner⟩

/-- Linking a linked forest changes nothing. -/
theorem Linked.link_eq {owner : Option Text} {f : Forest Task} (h : Linked owner f) :
    link owner f = f := by
  induction f generalizing owner with
  | nil => rfl
  | cons t children rest ihc ihr =>
      obtain ⟨rfl, hc, hr⟩ := h
      rw [link, ihc hc, ihr hr]

theorem Linked.append {owner : Option Text} {f g : Forest Task} (hf : Linked owner f)
    (hg : Linked owner g) : Linked owner (f ++ g) := by
  induction f with
  | nil => exact hg
  | cons t children rest _ ihr => exact ⟨hf.1, hf.2.1, ihr hf.2.2⟩

theorem ids_append (ts us : List Task) : ids (ts ++ us) = ids ts ++ ids us :=
  List.filterMap_append

theorem mem_ids_cons {t : Task} {ts : List Task} {id : Text} (h : id ∈ ids (t :: ts)) :
    t.id? = some id ∨ id ∈ ids ts := by
  obtain ⟨u, hu, hid⟩ := List.mem_filterMap.1 h
  rcases List.mem_cons.1 hu with rfl | hu
  · exact .inl hid
  · exact .inr (List.mem_filterMap.2 ⟨u, hu, hid⟩)

theorem Distinct.subperm {ts us : List Task} (h : Distinct ts) (hsub : us.Subperm ts) :
    Distinct us := by
  refine ⟨fun t ht => h.has_id t (hsub.subset ht), ?_⟩
  obtain ⟨vs, hperm, hvs⟩ := hsub
  exact (hperm.filterMap id?).nodup_iff.1 (h.nodup.sublist (hvs.filterMap id?))

theorem Distinct.map_id?_eq {ts : List Task} (h : Distinct ts) :
    ts.map id? = (ids ts).map some := by
  have hid := h.has_id
  clear h
  induction ts with
  | nil => rfl
  | cons t ts ih =>
      obtain ⟨⟨id, -, hsome⟩, hrest⟩ := List.forall_mem_cons.1 hid
      rw [ids, List.filterMap_cons_some hsome, List.map_cons, List.map_cons, ih hrest, hsome]
      rfl

theorem Distinct.nodup_map {ts : List Task} (h : Distinct ts) : (ts.map id?).Nodup := by
  rw [h.map_id?_eq]
  exact h.nodup.map (Option.some_injective Text)

/-- A task is known by its id. -/
theorem Distinct.eq_of_id? {ts : List Task} (h : Distinct ts) {t u : Task} (ht : t ∈ ts)
    (hu : u ∈ ts) (heq : t.id? = u.id?) : t = u :=
  List.inj_on_of_nodup_map h.nodup_map ht hu heq

end Task

namespace Query

variable {ids : List Text} {ts : List Task} {a b x : Option Text} {depth m n : Nat}

/-! ### The way up -/

/-- Climbing from `x` to the owner among the selected tasks, and so on, one comes to `a` in the
given number of steps. -/
def LiesBelow (ids : List Text) (ts : List Task) (a : Option Text) : Nat → Option Text → Prop
  | 0, x => x = a
  | n + 1, x => ∃ t ∈ ts, t.id? = x ∧ LiesBelow ids ts a n (ownerAmong ids t)

theorem LiesBelow.trans (hb : LiesBelow ids ts a m b) (hx : LiesBelow ids ts b n x) :
    LiesBelow ids ts a (m + n) x := by
  induction n generalizing x with
  | zero =>
      obtain rfl := hx
      exact hb
  | succ n ih =>
      obtain ⟨t, ht, hid, hup⟩ := hx
      exact ⟨t, ht, hid, ih hup⟩

/-- There is one way up. -/
theorem LiesBelow.unique (hts : Task.Distinct ts) (ha : LiesBelow ids ts a n x)
    (hb : LiesBelow ids ts b n x) : a = b := by
  induction n generalizing x with
  | zero => exact ha.symm.trans hb
  | succ n ih =>
      obtain ⟨t, ht, hid, hup⟩ := ha
      obtain ⟨u, hu, hid', hup'⟩ := hb
      obtain rfl := hts.eq_of_id? ht hu (hid.trans hid'.symm)
      exact ih hup hup'

/-- What has no owner at the end of the way up is at one depth only. -/
theorem LiesBelow.depth_eq (hts : Task.Distinct ts) (hm : LiesBelow ids ts none m x)
    (hn : LiesBelow ids ts none n x) : m = n := by
  have hstop : ∀ k, ¬ LiesBelow ids ts none (k + 1) none := by
    rintro k ⟨t, ht, hid, -⟩
    obtain ⟨id, -, hsome⟩ := hts.has_id t ht
    rw [hid] at hsome
    cases hsome
  induction m generalizing n x with
  | zero =>
      obtain rfl := hm
      cases n with
      | zero => rfl
      | succ n => exact absurd hn (hstop n)
  | succ m ih =>
      cases n with
      | zero =>
          obtain rfl := hn
          exact absurd hm (hstop m)
      | succ n =>
          obtain ⟨t, ht, hid, hup⟩ := hm
          obtain ⟨u, hu, hid', hup'⟩ := hn
          obtain rfl := hts.eq_of_id? ht hu (hid.trans hid'.symm)
          rw [ih hup hup']

/-! ### The tasks below an owner -/

theorem toList_foldr_cons {α : Type} (root : Task → α) (children : Task → Forest α)
    (us : List Task) :
    (us.foldr (fun t rest => Forest.cons (root t) (children t) rest) .nil).toList =
      us.flatMap fun t => root t :: (children t).toList := by
  induction us with
  | nil => rfl
  | cons u us ih => rw [List.foldr_cons, Forest.toList, ih, List.flatMap_cons, List.cons_append]

theorem toList_below (ids : List Text) (ts : List Task) (depth : Nat) (owner : Option Text) :
    (below ids ts (depth + 1) owner).toList =
      (ts.filter fun t => ownerAmong ids t = owner).flatMap fun t =>
        { t with parent := owner } :: (below ids ts depth t.id?).toList :=
  toList_foldr_cons _ _ _

theorem linked_below (ids : List Text) (ts : List Task) (depth : Nat) (owner : Option Text) :
    Task.Linked owner (below ids ts depth owner) := by
  induction depth generalizing owner with
  | zero => trivial
  | succ depth ih =>
      rw [below]
      induction ts.filter fun t => ownerAmong ids t = owner with
      | nil => trivial
      | cons t us ihu => exact ⟨rfl, ih t.id?, ihu⟩

/-- The tasks are those that were selected, each with its new parent. -/
theorem mem_below {u : Task} (h : u ∈ (below ids ts depth a).toList) :
    ∃ t ∈ ts, u = { t with parent := u.parent } := by
  induction depth generalizing a with
  | zero => cases h
  | succ depth ih =>
      rw [toList_below] at h
      obtain ⟨t, ht, hu⟩ := List.mem_flatMap.1 h
      rcases List.mem_cons.1 hu with rfl | hu
      · exact ⟨t, List.mem_of_mem_filter ht, rfl⟩
      · exact ih hu

theorem ids_below (ids : List Text) (ts : List Task) (depth : Nat) (owner : Option Text) :
    Task.ids (below ids ts (depth + 1) owner).toList =
      (ts.filter fun t => ownerAmong ids t = owner).flatMap fun t =>
        Task.ids (t :: (below ids ts depth t.id?).toList) := by
  rw [toList_below, Task.ids, List.filterMap_flatMap]
  rfl

theorem liesBelow_owner {t : Task}
    (ht : t ∈ ts.filter fun t => ownerAmong ids t = a) : LiesBelow ids ts a 1 t.id? := by
  obtain ⟨hmem, howner⟩ := List.mem_filter.1 ht
  refine ⟨t, hmem, rfl, ?_⟩
  show ownerAmong ids t = a
  simpa using howner

/-- What is below an owner is found by climbing to it. -/
theorem liesBelow_of_mem {id : Text} (h : id ∈ Task.ids (below ids ts depth a).toList) :
    ∃ n, LiesBelow ids ts a (n + 1) (some id) := by
  induction depth generalizing a with
  | zero => cases h
  | succ depth ih =>
      rw [ids_below] at h
      obtain ⟨t, ht, hid⟩ := List.mem_flatMap.1 h
      rcases Task.mem_ids_cons hid with hid | hid
      · exact ⟨0, hid ▸ liesBelow_owner ht⟩
      · obtain ⟨n, hn⟩ := ih hid
        have hup := (liesBelow_owner ht).trans hn
        rw [Nat.add_comm] at hup
        exact ⟨n + 1, hup⟩

theorem liesBelow_of_mem_cons {t : Task} {id : Text}
    (h : id ∈ Task.ids (t :: (below ids ts depth t.id?).toList)) :
    ∃ n, LiesBelow ids ts t.id? n (some id) := by
  rcases Task.mem_ids_cons h with hid | hid
  · exact ⟨0, hid.symm⟩
  · obtain ⟨n, hn⟩ := liesBelow_of_mem hid
    exact ⟨n + 1, hn⟩

theorem nodup_below (hts : Task.Distinct ts) (ha : LiesBelow ids ts none m a) :
    (Task.ids (below ids ts depth a).toList).Nodup := by
  induction depth generalizing m a with
  | zero => exact List.nodup_nil
  | succ depth ih =>
      rw [ids_below, List.nodup_flatMap]
      constructor
      · intro t ht
        have htop := ha.trans (liesBelow_owner ht)
        obtain ⟨id, -, hid⟩ := hts.has_id t (List.mem_of_mem_filter ht)
        rw [Task.ids, List.filterMap_cons_some hid, List.nodup_cons]
        refine ⟨fun hmem => ?_, ih htop⟩
        -- A task below itself would be at two depths.
        obtain ⟨n, hn⟩ := liesBelow_of_mem hmem
        have hdepth := LiesBelow.depth_eq hts (hid ▸ htop) (htop.trans hn)
        omega
      · have hne := (List.pairwise_map.1 hts.nodup_map).filter fun t => ownerAmong ids t = a
        refine hne.imp_of_mem fun ht hu htu id hid hid' => htu ?_
        -- A common task is at one depth, so the ways up from it meet at once.
        obtain ⟨n, hn⟩ := liesBelow_of_mem_cons hid
        obtain ⟨k, hk⟩ := liesBelow_of_mem_cons hid'
        have hdepth := LiesBelow.depth_eq hts ((ha.trans (liesBelow_owner ht)).trans hn)
          ((ha.trans (liesBelow_owner hu)).trans hk)
        obtain rfl : n = k := by omega
        exact hn.unique hts hk

/-! ### The whole forest -/

/-- The forest that selected tasks make up has distinct ids, if the tasks have. -/
theorem distinct_rebuild (hts : Task.Distinct ts) : Task.Distinct (rebuild ts).toList where
  has_id := fun u hu => by
    obtain ⟨t, ht, heq⟩ := mem_below hu
    rw [heq]
    exact hts.has_id t ht
  nodup := nodup_below (m := 0) hts rfl

theorem linked_rebuild (ts : List Task) : Task.Linked none (rebuild ts) := linked_below _ _ _ _

end Query

end Agenda
