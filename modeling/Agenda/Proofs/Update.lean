import Agenda.Proofs.Store

/-!
What an update leaves. Of the assignments to one field the last one counts. An update makes these
changes in the tasks that are meant and touches nothing else: the forest keeps its shape, a task its
id and its owner, and the fields that stay keep their order. A field that was set keeps its value
when it is set again and one that was removed is gone, so the same update changes nothing further.
-/

namespace Agenda

/-- What a field holds when it was set to a value; null removes it. -/
def Value.stored (v : Value) : Option Value := if v.isNull then none else some v

theorem Value.stored_of_ne {v : Value} (h : v ≠ .null) : v.stored = some v := by
  cases v with
  | null => exact absurd rfl h
  | _ => rfl

/-! ### One change -/

namespace Fields

variable {fs gs : Fields} {key : Text} {v : Value}

/-- A field that has the value already is not changed by setting it. -/
theorem set_of_lookup (h : fs.lookup key = some v) : fs.set key v = fs := by
  induction fs with
  | nil => cases h
  | cons f fs ih =>
      obtain ⟨k, w⟩ := f
      rw [lookup_cons] at h
      rw [set]
      split
      · next hk =>
          rw [if_pos hk.symm] at h
          rw [Option.some.inj h]
      · next hk =>
          rw [if_neg (Ne.symm hk)] at h
          rw [ih h]

theorem erase_of_lookup (h : fs.lookup key = none) : fs.erase key = fs := by
  refine List.filter_eq_self.2 fun f hf => decide_eq_true fun heq => ?_
  exact lookup_eq_none_iff.1 h (heq ▸ List.mem_map_of_mem hf)

def amend (key : Text) (v : Value) (fs : Fields) : Fields :=
  if v.isNull then fs.erase key else fs.set key v

theorem lookup_amend (key other : Text) (v : Value) (fs : Fields) :
    (fs.amend key v).lookup other = if other = key then v.stored else fs.lookup other := by
  rw [amend, Value.stored]
  split
  · exact lookup_erase key other fs
  · exact lookup_set key other v fs

theorem amend_of_lookup (h : fs.lookup key = v.stored) : fs.amend key v = fs := by
  rw [Value.stored] at h
  rw [amend]
  split
  · next hnull =>
      rw [if_pos hnull] at h
      exact erase_of_lookup h
  · next hnull =>
      rw [if_neg hnull] at h
      exact set_of_lookup h

/-- The keys that are in both maps are in the same order, and the new ones come after them. -/
def KeepsOrder (fs gs : Fields) : Prop :=
  ∃ added, gs.keys = fs.keys.filter (· ∈ gs.keys) ++ added ∧ ∀ key ∈ added, key ∉ fs.keys

theorem keepsOrder_self (fs : Fields) : KeepsOrder fs fs :=
  ⟨[], by rw [List.append_nil, List.filter_eq_self.2 fun key hkey => decide_eq_true hkey], nofun⟩

/-- A key that is gone in the end may be taken out at once. -/
theorem KeepsOrder.of_erase (h : KeepsOrder (fs.erase key) gs) (hgone : key ∉ gs.keys) :
    KeepsOrder fs gs := by
  obtain ⟨added, hkeys, hadded⟩ := h
  have hne : ∀ other ∈ gs.keys, other ≠ key := fun other hmem heq => hgone (heq ▸ hmem)
  refine ⟨added, ?_, fun other hmem => ?_⟩
  · have hfilter : (fs.erase key).keys.filter (· ∈ gs.keys) = fs.keys.filter (· ∈ gs.keys) := by
      rw [keys_erase, List.filter_filter]
      refine List.filter_congr fun other _ => ?_
      by_cases hmem : other ∈ gs.keys
      · simp [hmem, hne other hmem]
      · simp [hmem]
    rwa [hfilter] at hkeys
  · have hnew := hadded other hmem
    rw [keys_erase, List.mem_filter] at hnew
    have hmem' : other ∈ gs.keys := by
      rw [hkeys]
      exact List.mem_append_right _ hmem
    exact fun hold => hnew ⟨hold, decide_eq_true (hne other hmem')⟩

/-- A key that is there in the end may be put in at once. -/
theorem KeepsOrder.of_set (h : KeepsOrder (fs.set key v) gs) (hthere : key ∈ gs.keys) :
    KeepsOrder fs gs := by
  obtain ⟨added, hkeys, hadded⟩ := h
  rw [keys_set] at hkeys hadded
  split at hkeys
  · next hold =>
      rw [if_pos hold] at hadded
      exact ⟨added, hkeys, hadded⟩
  · next hnew =>
      rw [if_neg hnew] at hadded
      refine ⟨key :: added, ?_, List.forall_mem_cons.2 ⟨hnew, fun other hmem hold => ?_⟩⟩
      · have hkey : [key].filter (· ∈ gs.keys) = [key] := by simp [hthere]
        rw [List.filter_append, hkey, List.append_assoc] at hkeys
        exact hkeys
      · exact hadded other hmem (List.mem_append_left _ hold)

end Fields

/-! ### Changes in a field map -/

namespace Query

variable {changes : Fields}

theorem applyChanges_cons (key : Text) (v : Value) (changes fs : Fields) :
    applyChanges ((key, v) :: changes) fs = applyChanges changes (fs.amend key v) := rfl

/-- The fields after changes, each of them to another field. -/
theorem lookup_applyChanges (hc : changes.keys.Nodup) (fs : Fields) (key : Text) :
    (applyChanges changes fs).lookup key =
      (changes.lookup key).elim (fs.lookup key) Value.stored := by
  induction changes generalizing fs with
  | nil => rfl
  | cons c changes ih =>
      obtain ⟨k, v⟩ := c
      obtain ⟨hk, hrest⟩ := List.nodup_cons.1 hc
      rw [applyChanges_cons, ih hrest, Fields.lookup_amend, Fields.lookup_cons]
      by_cases heq : key = k
      · rw [if_pos heq, if_pos heq, heq, Fields.lookup_eq_none_iff.2 hk]
        rfl
      · rw [if_neg heq, if_neg heq]

theorem keepsOrder_applyChanges (hc : changes.keys.Nodup) (fs : Fields) :
    fs.KeepsOrder (applyChanges changes fs) := by
  induction changes generalizing fs with
  | nil => exact fs.keepsOrder_self
  | cons c changes ih =>
      obtain ⟨k, v⟩ := c
      have hlookup := lookup_applyChanges hc fs k
      rw [Fields.lookup_cons, if_pos rfl, Option.elim_some, Value.stored] at hlookup
      rw [applyChanges_cons] at hlookup ⊢
      have hrest := ih (List.nodup_cons.1 hc).2 (fs.amend k v)
      rw [Fields.amend] at hlookup hrest ⊢
      split at hlookup
      · next hnull =>
          rw [if_pos hnull] at hrest ⊢
          exact hrest.of_erase (Fields.lookup_eq_none_iff.1 hlookup)
      · next hnull =>
          rw [if_neg hnull] at hrest ⊢
          refine hrest.of_set (Decidable.not_not.1 fun hnot => ?_)
          rw [Fields.lookup_eq_none_iff.2 hnot] at hlookup
          cases hlookup

/-- Changes that were made already change nothing. -/
theorem applyChanges_eq_self {fs : Fields} (h : ∀ f ∈ changes, fs.lookup f.1 = f.2.stored) :
    applyChanges changes fs = fs := by
  induction changes with
  | nil => rfl
  | cons c changes ih =>
      obtain ⟨hc, hrest⟩ := List.forall_mem_cons.1 h
      rw [applyChanges_cons, Fields.amend_of_lookup hc, ih hrest]

theorem applyChanges_idem (hc : changes.keys.Nodup) (fs : Fields) :
    applyChanges changes (applyChanges changes fs) = applyChanges changes fs := by
  refine applyChanges_eq_self fun f hf => ?_
  rw [lookup_applyChanges hc, Fields.lookup_of_mem hc hf]
  rfl

/-! ### What assignments come to -/

variable {isNew : Bool} {as : List Assignment}

def Assignment.setTo? (key : Text) (a : Assignment) : Option Value :=
  if key = a.key then a.literal.value.toOption.map fun v => (a.change v).1 else none

/-- What assignments set a field to: the last one to the field counts. -/
def assigned? (as : List Assignment) (key : Text) : Option Value :=
  as.reverse.findSome? (Assignment.setTo? key)

theorem assigned?_cons (a : Assignment) (as : List Assignment) (key : Text) :
    assigned? (a :: as) key = (assigned? as key).or (a.setTo? key) := by
  rw [assigned?, List.reverse_cons, List.findSome?_append, List.findSome?_singleton]
  rfl

theorem lookup_gatherChanges {changes changes' : Fields}
    (h : gatherChanges isNew changes as = .ok (changes', [])) (key : Text) :
    changes'.lookup key = (assigned? as key).or (changes.lookup key) := by
  induction as generalizing changes with
  | nil =>
      obtain ⟨rfl, -⟩ := Prod.mk.inj (Except.ok.inj h)
      rfl
  | cons a as ih =>
      obtain ⟨v, hv, -, hmore⟩ := of_gatherChanges_cons h
      rw [ih hmore, Fields.lookup_set, assigned?_cons, Option.or_assoc, Assignment.setTo?]
      split
      · rw [hv]
        rfl
      · rfl

theorem nodup_gatherChanges {changes changes' : Fields} (hc : changes.keys.Nodup)
    (h : gatherChanges isNew changes as = .ok (changes', [])) : changes'.keys.Nodup := by
  induction as generalizing changes with
  | nil =>
      obtain ⟨rfl, -⟩ := Prod.mk.inj (Except.ok.inj h)
      exact hc
  | cons a as ih =>
      obtain ⟨v, -, -, hmore⟩ := of_gatherChanges_cons h
      exact ih (Fields.nodup_keys_set hc a.key _) hmore

theorem lookup_readChanges (h : readChanges isNew as = .ok changes) (key : Text) :
    changes.lookup key = assigned? as key := by
  rw [lookup_gatherChanges (gatherChanges_of_readChanges h), List.lookup_nil, Option.or_none]

theorem nodup_readChanges (h : readChanges isNew as = .ok changes) : changes.keys.Nodup :=
  nodup_gatherChanges (show (Fields.keys []).Nodup from List.nodup_nil)
    (gatherChanges_of_readChanges h)

/-- A task after assignments: its assigned fields have the values of the last assignments to them,
and nothing else is different. -/
structure Updated (as : List Assignment) (t u : Task) : Prop where
  rest : u = { t with fields := u.fields }
  id_eq : u.id? = t.id?
  kept : ∀ key, assigned? as key = none → u.fields.lookup key = t.fields.lookup key
  removed : ∀ key, assigned? as key = some .null → u.fields.lookup key = none
  set : ∀ key v, assigned? as key = some v → v ≠ .null → u.fields.lookup key = some v
  order : t.fields.KeepsOrder u.fields

theorem updated_applyChanges (h : readChanges false as = .ok changes) (t : Task) :
    Updated as t { t with fields := applyChanges changes t.fields } := by
  have hlookup : ∀ key, (applyChanges changes t.fields).lookup key =
      (assigned? as key).elim (t.fields.lookup key) Value.stored := fun key => by
    rw [lookup_applyChanges (nodup_readChanges h), lookup_readChanges h]
  refine ⟨rfl, id?_applyChanges (areChanges_readChanges h) t, fun key hkey => ?_,
    fun key hkey => ?_, fun key v hkey hv => ?_,
    keepsOrder_applyChanges (nodup_readChanges h) t.fields⟩
  · rw [hlookup, hkey]
    rfl
  · rw [hlookup, hkey]
    rfl
  · rw [hlookup, hkey]
    exact Value.stored_of_ne hv

/-! ### Updates -/

variable {filter : Option Filter} {f : Forest Task}

theorem filterTasks_of_answers {ts : List Task} (h : Answers filter ts) :
    filterTasks filter ts = .ok (ts.filter (isMeant filter)) := by
  induction ts with
  | nil => rfl
  | cons t ts ih =>
      obtain ⟨⟨hit, hmatch⟩, hts⟩ := List.forall_mem_cons.1 h
      rw [filterTasks, hmatch, List.filter_cons, isMeant_of_isMatch hmatch, ih hts]
      cases hit <;> rfl

/-- An unlimited selection is about as many tasks as are meant. -/
theorem Selection.length_tasks {s : Selection} (hlimit : s.limit = none)
    (h : Answers s.filter f.toList) :
    ∃ ts, s.tasks f = .ok ts ∧ ts.length = f.toList.countP (isMeant s.filter) := by
  refine ⟨sortBy s.order (f.toList.filter (isMeant s.filter)), ?_, ?_⟩
  · rw [Selection.tasks, filterTasks_of_answers h, hlimit]
    rfl
  · rw [sortBy, List.length_mergeSort, List.countP_eq_length_filter]

theorem changeFrom_of_answers (changes : Fields) (h : Answers filter f.toList) :
    changeFrom changes filter f =
      .ok (f.map (updated changes filter), f.toList.countP (isMeant filter)) := by
  induction f with
  | nil => rfl
  | cons t children rest ihc ihr =>
      simp only [Answers, Forest.toList, List.forall_mem_cons, List.forall_mem_append] at h
      obtain ⟨⟨hit, hmatch⟩, hc, hr⟩ := h
      rw [changeFrom, hmatch, ihc hc, ihr hr, Forest.map, updated, Forest.toList, List.countP_cons,
        List.countP_append, isMeant_of_isMatch hmatch]
      refine congrArg Except.ok (Prod.ext rfl ?_)
      show (if hit then 1 else 0) + _ + _ = _
      omega

theorem linked_map_updated {owner : Option Text} (hc : AreChanges false changes)
    (filter : Option Filter) (hf : Task.Linked owner f) :
    Task.Linked owner (f.map (updated changes filter)) := by
  induction f generalizing owner with
  | nil => trivial
  | cons t children rest ihc ihr =>
      obtain ⟨rfl, hchildren, hrest⟩ := hf
      refine ⟨?_, ?_, ihr hrest⟩
      · rw [updated]
        split <;> rfl
      · rw [id?_updated hc]
        exact ihc hchildren

theorem changeMatching_of_answers (hc : AreChanges false changes) (hf : Task.Linked none f)
    (h : Answers filter f.toList) :
    changeMatching changes filter f =
      .ok (f.map (updated changes filter), f.toList.countP (isMeant filter)) := by
  rw [changeMatching, changeFrom_of_answers changes h]
  show Except.ok (Task.link none (f.map (updated changes filter)), _) = _
  rw [(linked_map_updated hc filter hf).link_eq]

/-- Without a filter every task is meant, so a second update finds its changes made. -/
theorem changeMatching_again (h : readChanges false as = .ok changes) (hf : Task.Linked none f) :
    changeMatching changes none (f.map (updated changes none)) =
      .ok (f.map (updated changes none), f.toList.countP (isMeant none)) := by
  have hc := areChanges_readChanges h
  have hanswers : ∀ ts, Answers none ts := fun ts t _ => ⟨true, rfl⟩
  have hidem : ∀ t, updated changes none (updated changes none t) = updated changes none t := by
    intro t
    show ({ t with fields := applyChanges changes (applyChanges changes t.fields) } : Task) = _
    rw [applyChanges_idem (nodup_readChanges h)]
    rfl
  have hcount : (f.map (updated changes none)).toList.countP (isMeant none) =
      f.toList.countP (isMeant none) := by
    rw [Forest.toList_map, List.countP_map]
    rfl
  rw [changeMatching_of_answers hc (linked_map_updated hc none hf) (hanswers _), hcount,
    Forest.map_map, funext hidem]

/-- An update by a filter that has an answer for every task changes the tasks that are meant, as the
assignments say, and no other task. It counts the tasks that a selection by that filter is about;
and an update of all tasks, made once more, changes nothing further. -/
theorem changeMatching_updates (hf : Task.Linked none f) (hc : readChanges false as = .ok changes)
    (hanswers : Answers filter f.toList) :
    ∃ g count, changeMatching changes filter f = .ok (g, count) ∧
      Forest.Rel (fun t u => (isMatch filter t = .ok true → Updated as t u) ∧
        (isMatch filter t = .ok false → u = t)) f g ∧
      (∀ s : Selection, s.filter = filter → s.limit = none →
        ∃ ts, s.tasks f = .ok ts ∧ ts.length = count) ∧
      (filter = none → changeMatching changes filter g = .ok (g, count)) := by
  refine ⟨_, _, changeMatching_of_answers (areChanges_readChanges hc) hf hanswers,
    Forest.rel_map fun t _ => ⟨fun hmatch => ?_, fun hmatch => ?_⟩, ?_, ?_⟩
  · rw [updated, if_pos (isMeant_of_isMatch hmatch)]
    exact updated_applyChanges hc t
  · rw [updated, if_neg (Bool.eq_false_iff.1 (isMeant_of_isMatch hmatch))]
  · rintro s rfl hlimit
    exact Selection.length_tasks hlimit hanswers
  · rintro rfl
    exact changeMatching_again hc hf

/-- Two assignments to one field, one that removes a field and one of names, for the tasks below
another one. -/
theorem changeMatching_updates_nested :
    let task (id : Text) (parent : Option Text) (fields : Fields) : Task :=
      { fields := (Key.id, .text id) :: fields, parent }
    let a := task "1" none [("note", .text "x")]
    let b := task "2" (some "1")
      [("note", .text "x"), (Key.due, .text "may"), ("effort", .text "low")]
    let c := task "3" (some "2") []
    let d := task "4" (some "1") [(Key.tags, .names ["old"])]
    let f : Forest Task := .cons a (.cons b (.cons c .nil .nil) (.cons d .nil .nil)) .nil
    let as : List Assignment :=
      [⟨"effort", ⟨"high", false⟩⟩, ⟨"note", ⟨"null", false⟩⟩, ⟨Key.tags, ⟨"x, y", true⟩⟩,
        ⟨"effort", ⟨"none", false⟩⟩]
    let changes : Fields :=
      [("effort", .text "none"), ("note", .null), (Key.tags, .names ["x", "y"])]
    let filter : Option Filter := some (.single ⟨Key.parent, .compare .equal ⟨"1", false⟩⟩)
    (Task.Linked none f ∧ readChanges false as = .ok changes ∧ Answers filter f.toList) ∧
      changeMatching changes filter f = .ok
        (.cons a
          (.cons
            (task "2" (some "1") [(Key.due, .text "may"), ("effort", .text "none"),
              (Key.tags, .names ["x", "y"])])
            (.cons c .nil .nil)
            (.cons
              (task "4" (some "1") [(Key.tags, .names ["x", "y"]), ("effort", .text "none")])
              .nil .nil))
          .nil, 2) ∧
      ∃ g count, changeMatching changes filter f = .ok (g, count) ∧
        Forest.Rel (fun t u => (isMatch filter t = .ok true → Updated as t u) ∧
          (isMatch filter t = .ok false → u = t)) f g ∧
        (∀ s : Selection, s.filter = filter → s.limit = none →
          ∃ ts, s.tasks f = .ok ts ∧ ts.length = count) ∧
        (filter = none → changeMatching changes filter g = .ok (g, count)) := by
  intro task a b c d f as changes filter
  have hf : Task.Linked none f :=
    ⟨rfl, ⟨rfl, ⟨rfl, trivial, trivial⟩, rfl, trivial, trivial⟩, trivial⟩
  have hc : readChanges false as = .ok changes := by decide
  have hanswers : Answers filter f.toList := by
    have hall : ∀ t ∈ f.toList, isMatch filter t = .ok (isMeant filter t) := by decide
    exact fun t ht => ⟨_, hall t ht⟩
  exact ⟨⟨hf, hc, hanswers⟩, by decide, changeMatching_updates hf hc hanswers⟩

end Query

end Agenda
