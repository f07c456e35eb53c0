import Agenda.Proofs.Order
import Agenda.Query.Select
import Mathlib.Tactic.ByContra

/-!
Sorting tasks. Two numbers are compared as numbers and anything else as texts, and the two orders
need not agree: 9 is less than 10, but `10` comes before `5x` and `5x` before `9`. So there is no
order to sort by where a text stands between two numbers that it puts the other way round. Wherever
no key has such values the tasks come out in order, those that compare equal in the order in which
they came, and a task that lacks the first key comes before all that have it.
-/

namespace Agenda.Query

/-! ### Comparing two values -/

theorem compareValues_number (m n : Number) : compareValues (.number m) (.number n) = m.order n :=
  rfl

theorem compareValues_of_left {v : Value} (h : v.isNumber = false) (w : Value) :
    compareValues v w = Text.compare v.plain w.plain := by
  cases v with
  | number n => cases h
  | _ => rfl

theorem compareValues_of_right (v : Value) {w : Value} (h : w.isNumber = false) :
    compareValues v w = Text.compare v.plain w.plain := by
  cases w with
  | number n => cases h
  | _ => cases v <;> rfl

theorem isNumber_cases (v : Value) : (∃ n, v = .number n) ∨ v.isNumber = false := by
  cases v with
  | number n => exact .inl ⟨n, rfl⟩
  | _ => exact .inr rfl

instance : Std.OrientedCmp compareValues where
  eq_swap {v w} := by
    rcases isNumber_cases v with ⟨m, rfl⟩ | hv
    · rcases isNumber_cases w with ⟨n, rfl⟩ | hw
      · rw [compareValues_number, compareValues_number]
        exact Std.OrientedCmp.eq_swap
      · rw [compareValues_of_right _ hw, compareValues_of_left hw]
        exact Std.OrientedCmp.eq_swap
    · rw [compareValues_of_left hv, compareValues_of_right _ hv]
      exact Std.OrientedCmp.eq_swap

/-- Compares two values in a direction. A missing value comes first in either of them. -/
def Direction.compare (d : Direction) (v w : Value) : Ordering :=
  match v, w with
  | .null, .null => .eq
  | .null, _ => .lt
  | _, .null => .gt
  | v, w =>
    match d with
    | .ascending => compareValues v w
    | .descending => (compareValues v w).swap

theorem SortKey.compare_eq (k : SortKey) (t u : Task) :
    k.compare t u = k.direction.compare (sortValue t k.key) (sortValue u k.key) := rfl

namespace Direction

theorem compare_null_left (d : Direction) (w : Value) : (d.compare .null w).isLE := by
  cases w <;> rfl

theorem eq_null_of_isLE {d : Direction} {v : Value} (h : (d.compare v .null).isLE) : v = .null := by
  cases v with
  | null => rfl
  | _ => cases h

theorem compare_ascending {v w : Value} (hv : v ≠ .null) (hw : w ≠ .null) :
    ascending.compare v w = compareValues v w := by
  cases v with
  | null => exact absurd rfl hv
  | _ =>
      cases w with
      | null => exact absurd rfl hw
      | _ => rfl

theorem compare_descending {v w : Value} (hv : v ≠ .null) (hw : w ≠ .null) :
    descending.compare v w = compareValues w v := by
  have hswap : compareValues w v = (compareValues v w).swap := Std.OrientedCmp.eq_swap
  rw [hswap, ← compare_ascending hv hw]
  cases v with
  | null => exact absurd rfl hv
  | _ =>
      cases w with
      | null => exact absurd rfl hw
      | _ => rfl

instance (d : Direction) : Std.OrientedCmp d.compare where
  eq_swap {v w} := by
    by_cases hv : v = .null
    · subst hv
      cases w <;> rfl
    · by_cases hw : w = .null
      · subst hw
        cases v <;> rfl
      · cases d with
        | ascending =>
            rw [compare_ascending hv hw, compare_ascending hw hv]
            exact Std.OrientedCmp.eq_swap
        | descending =>
            rw [compare_descending hv hw, compare_descending hw hv]
            exact Std.OrientedCmp.eq_swap

end Direction

/-! ### Values that are in order -/

def TransitiveOn {α : Type} (cmp : α → α → Ordering) (xs : List α) : Prop :=
  ∀ x ∈ xs, ∀ y ∈ xs, ∀ z ∈ xs, (cmp x y).isLE → (cmp y z).isLE → (cmp x z).isLE

/-- Two numbers in order, and a value that is compared as a text and leads from the second back to
the first. -/
structure IsCycle (m n : Number) (v : Value) : Prop where
  there : v ≠ .null
  other : v.isNumber = false
  inOrder : (m.order n).isLE
  after : (Text.compare n.text v.plain).isLE
  before : (Text.compare v.plain m.text).isLE
  /-- The two numbers are not equal both as numbers and as texts. -/
  apart : m.order n = .lt ∨ Text.compare n.text m.text = .lt

def HasCycle (vs : List Value) : Prop :=
  ∃ m n v, .number m ∈ vs ∧ .number n ∈ vs ∧ v ∈ vs ∧ IsCycle m n v

/-- Three values that are there are in order unless there is a cycle among them. -/
theorem isLE_compareValues_trans {vs : List Value} (hnan : .number (.float .nan) ∉ vs)
    (hcycle : ¬ HasCycle vs) {v w x : Value} (hv : v ∈ vs) (hw : w ∈ vs) (hx : x ∈ vs)
    (hvnull : v ≠ .null) (hwnull : w ≠ .null) (hxnull : x ≠ .null)
    (hvw : (compareValues v w).isLE) (hwx : (compareValues w x).isLE) :
    (compareValues v x).isLE := by
  by_contra hvx
  have hxv := Std.OrientedCmp.lt_of_not_isLE hvx
  -- With two numbers the third value leads from one to the other; with fewer all are texts.
  rcases isNumber_cases v with ⟨l, rfl⟩ | hvtext
  · rcases isNumber_cases w with ⟨m, rfl⟩ | hwtext
    · rcases isNumber_cases x with ⟨n, rfl⟩ | hxtext
      · exact hvx (Number.isLE_order_trans (fun h => hnan (h ▸ hw)) hvw hwx)
      · rw [compareValues_of_right _ hxtext] at hwx
        rw [compareValues_of_left hxtext] at hxv
        exact hcycle ⟨l, m, x, hv, hw, hx, hxnull, hxtext, hvw, hwx, Ordering.isLE_of_eq_lt hxv,
          .inr (Std.TransCmp.lt_of_isLE_of_lt hwx hxv)⟩
    · rw [compareValues_of_right _ hwtext] at hvw
      rw [compareValues_of_left hwtext] at hwx
      rcases isNumber_cases x with ⟨n, rfl⟩ | hxtext
      · exact hcycle ⟨n, l, w, hx, hv, hw, hwnull, hwtext, Ordering.isLE_of_eq_lt hxv, hvw, hwx,
          .inl hxv⟩
      · rw [compareValues_of_right _ hxtext] at hvx
        exact hvx (Std.TransCmp.isLE_trans hvw hwx)
  · rw [compareValues_of_left hvtext] at hvw hvx
    rcases isNumber_cases w with ⟨m, rfl⟩ | hwtext
    · rcases isNumber_cases x with ⟨n, rfl⟩ | hxtext
      · rw [compareValues_of_right _ hvtext] at hxv
        exact hcycle ⟨m, n, v, hw, hx, hv, hvnull, hvtext, hwx, Ordering.isLE_of_eq_lt hxv, hvw,
          .inr (Std.TransCmp.lt_of_lt_of_isLE hxv hvw)⟩
      · rw [compareValues_of_right _ hxtext] at hwx
        exact hvx (Std.TransCmp.isLE_trans hvw hwx)
    · rw [compareValues_of_left hwtext] at hwx
      exact hvx (Std.TransCmp.isLE_trans hvw hwx)

/-- A cycle leaves the values in no order. -/
theorem HasCycle.not_transitive {vs : List Value} (h : HasCycle vs) :
    ¬ ∀ v ∈ vs, ∀ w ∈ vs, ∀ x ∈ vs, v ≠ .null → w ≠ .null → x ≠ .null →
      (compareValues v w).isLE → (compareValues w x).isLE → (compareValues v x).isLE := by
  obtain ⟨m, n, v, hm, hn, hv, hc⟩ := h
  intro htrans
  have hmnull : Value.number m ≠ .null := nofun
  have hnnull : Value.number n ≠ .null := nofun
  have hafter : (compareValues (.number n) v).isLE := by
    rw [compareValues_of_right _ hc.other]
    exact hc.after
  have hbefore : (compareValues v (.number m)).isLE := by
    rw [compareValues_of_left hc.other]
    exact hc.before
  rcases hc.apart with hlt | hlt
  · have hback := htrans _ hn _ hv _ hm hnnull hc.there hmnull hafter hbefore
    exact Std.OrientedCmp.not_isLE_of_lt hlt hback
  · have hmv := htrans _ hm _ hn _ hv hmnull hnnull hc.there hc.inOrder hafter
    have hvn := htrans _ hv _ hm _ hn hc.there hmnull hnnull hbefore hc.inOrder
    rw [compareValues_of_right _ hc.other] at hmv
    rw [compareValues_of_left hc.other] at hvn
    exact Std.OrientedCmp.not_isLE_of_lt hlt (Std.TransCmp.isLE_trans hmv hvn)

/-- In either direction values are in order exactly if there is no cycle among them. -/
theorem transitiveOn_compare_iff (d : Direction) {vs : List Value}
    (hnan : .number (.float .nan) ∉ vs) : TransitiveOn d.compare vs ↔ ¬ HasCycle vs := by
  constructor
  · refine fun h hcycle => hcycle.not_transitive ?_
    intro v hv w hw x hx hvnull hwnull hxnull hvw hwx
    cases d with
    | ascending =>
        rw [← Direction.compare_ascending hvnull hwnull] at hvw
        rw [← Direction.compare_ascending hwnull hxnull] at hwx
        rw [← Direction.compare_ascending hvnull hxnull]
        exact h v hv w hw x hx hvw hwx
    | descending =>
        rw [← Direction.compare_descending hwnull hvnull] at hvw
        rw [← Direction.compare_descending hxnull hwnull] at hwx
        rw [← Direction.compare_descending hxnull hvnull]
        exact h x hx w hw v hv hwx hvw
  · intro hcycle v hv w hw x hx hvw hwx
    by_cases hvnull : v = .null
    · rw [hvnull]
      exact d.compare_null_left x
    · -- What comes after a value that is there is there too.
      have hwnull : w ≠ .null := fun h => hvnull (Direction.eq_null_of_isLE (h ▸ hvw))
      have hxnull : x ≠ .null := fun h => hwnull (Direction.eq_null_of_isLE (h ▸ hwx))
      cases d with
      | ascending =>
          rw [Direction.compare_ascending hvnull hwnull] at hvw
          rw [Direction.compare_ascending hwnull hxnull] at hwx
          rw [Direction.compare_ascending hvnull hxnull]
          exact isLE_compareValues_trans hnan hcycle hv hw hx hvnull hwnull hxnull hvw hwx
      | descending =>
          rw [Direction.compare_descending hvnull hwnull] at hvw
          rw [Direction.compare_descending hwnull hxnull] at hwx
          rw [Direction.compare_descending hvnull hxnull]
          exact isLE_compareValues_trans hnan hcycle hx hw hv hxnull hwnull hvnull hwx hvw

/-! ### Comparing by keys -/

instance (k : SortKey) : Std.OrientedCmp k.compare where
  eq_swap {t u} := by
    rw [k.compare_eq, k.compare_eq]
    exact Std.OrientedCmp.eq_swap

instance (ks : List SortKey) : Std.OrientedCmp (compareBy ks) where
  eq_swap {t u} := by
    induction ks with
    | nil => rfl
    | cons k ks ih =>
        have hkey : k.compare t u = (k.compare u t).swap := Std.OrientedCmp.eq_swap
        rw [compareBy, compareBy, Ordering.swap_then, ← ih, ← hkey]

theorem transitiveOn_key_iff (k : SortKey) (ts : List Task) :
    TransitiveOn k.compare ts ↔
      TransitiveOn k.direction.compare (ts.map (sortValue · k.key)) := by
  simp only [TransitiveOn, List.forall_mem_map, SortKey.compare_eq]

/-- The keys after the first count only where the first one makes no difference. -/
theorem TransitiveOn.cons {k : SortKey} {ks : List SortKey} {ts : List Task}
    (hk : TransitiveOn k.compare ts) (hks : TransitiveOn (compareBy ks) ts) :
    TransitiveOn (compareBy (k :: ks)) ts := by
  intro t ht u hu v hv htu huv
  obtain ⟨hktu, htu⟩ := Ordering.isLE_then_iff_and.1 htu
  obtain ⟨hkuv, huv⟩ := Ordering.isLE_then_iff_and.1 huv
  have hktv := hk t ht u hu v hv hktu hkuv
  refine Ordering.isLE_then_iff_and.2 ⟨hktv, ?_⟩
  by_cases hlt : k.compare t v = .lt
  · exact .inl hlt
  · -- The outer two are equal under the key, so the middle one is equal to both.
    have hkvt : (k.compare v t).isLE := by
      by_contra hvt
      exact hlt (Std.OrientedCmp.lt_of_not_isLE hvt)
    have hkut := hk u hu v hv t ht hkuv hkvt
    have hkvu := hk v hv t ht u hu hkvt hktu
    have htu := htu.resolve_left (Std.OrientedCmp.not_lt_of_isLE hkut)
    have huv := huv.resolve_left (Std.OrientedCmp.not_lt_of_isLE hkvu)
    exact .inr (hks t ht u hu v hv htu huv)

theorem transitiveOn_compareBy {ks : List SortKey} {ts : List Task}
    (h : ∀ k ∈ ks, TransitiveOn k.compare ts) : TransitiveOn (compareBy ks) ts := by
  induction ks with
  | nil => exact fun _ _ _ _ _ _ _ _ => rfl
  | cons k ks ih =>
      exact (h k List.mem_cons_self).cons (ih fun j hj => h j (List.mem_cons_of_mem _ hj))

theorem compareBy_singleton (k : SortKey) (t u : Task) : compareBy [k] t u = k.compare t u := by
  rw [compareBy, compareBy, Ordering.then_eq]

/-- A value that can be compared with any other: it has a text to be compared by, and it is not the
number that is neither less nor greater than any. -/
structure IsSortable (v : Value) : Prop where
  writable : v.isWritable = true
  ne_nan : v ≠ .number (.float .nan)

instance (v : Value) : Decidable (IsSortable v) :=
  decidable_of_iff (v.isWritable = true ∧ v ≠ .number (.float .nan))
    ⟨fun ⟨hwritable, hnan⟩ => ⟨hwritable, hnan⟩, fun h => ⟨h.writable, h.ne_nan⟩⟩

/-- Of two tasks one comes before the other or they are equal, whichever is asked about first. Some
tasks are in order by whatever keys of a list exactly if under none of these keys a text closes a
cycle with two numbers that it puts the other way round. -/
theorem compareBy_orders_iff (ks : List SortKey) (ts : List Task)
    (hsortable : ∀ k ∈ ks, ∀ t ∈ ts, IsSortable (sortValue t k.key)) :
    (∀ t ∈ ts, ∀ u ∈ ts, compareBy ks t u = (compareBy ks u t).swap) ∧
      ((∀ js ⊆ ks, TransitiveOn (compareBy js) ts) ↔
        ∀ k ∈ ks, ¬ HasCycle (ts.map (sortValue · k.key))) := by
  have hvalues : ∀ k ∈ ks, .number (.float .nan) ∉ ts.map (sortValue · k.key) := by
    intro k hk hmem
    obtain ⟨t, ht, hvalue⟩ := List.mem_map.1 hmem
    exact (hsortable k hk t ht).ne_nan hvalue
  refine ⟨fun t _ u _ => Std.OrientedCmp.eq_swap, fun h k hk => ?_, fun h js hjs => ?_⟩
  · have hone := h [k] (fun j hj => List.mem_singleton.1 hj ▸ hk)
    rw [← transitiveOn_compare_iff k.direction (hvalues k hk), ← transitiveOn_key_iff]
    simpa only [TransitiveOn, compareBy_singleton] using hone
  · refine transitiveOn_compareBy fun k hk => ?_
    rw [transitiveOn_key_iff, transitiveOn_compare_iff _ (hvalues k (hjs hk))]
    exact h k (hjs hk)

/-- 10 comes before `5x` and `5x` before 9, as texts, but 9 comes before 10. -/
theorem compareBy_not_transitive :
    let task (v : Value) : Task := { fields := [("w", v)] }
    let a := task (.number (.int 10))
    let b := task (.text "5x")
    let c := task (.number (.int 9))
    let k : SortKey := { key := "w" }
    (∀ j ∈ [k], ∀ t ∈ [a, b, c], IsSortable (sortValue t j.key)) ∧
      compareBy [k] a b = .lt ∧ compareBy [k] b c = .lt ∧ compareBy [k] a c = .gt ∧
      ¬ ∀ js ⊆ [k], TransitiveOn (compareBy js) [a, b, c] := by
  intro task a b c k
  have hsortable : ∀ j ∈ [k], ∀ t ∈ [a, b, c], IsSortable (sortValue t j.key) := by decide
  have hcycle : HasCycle ([a, b, c].map (sortValue · k.key)) :=
    ⟨.int 9, .int 10, .text "5x", by decide, by decide, by decide,
      ⟨by decide, by decide, by decide, by decide, by decide, by decide⟩⟩
  exact ⟨hsortable, by decide, by decide, by decide,
    fun h => (compareBy_orders_iff [k] [a, b, c] hsortable).2.1 h k List.mem_cons_self hcycle⟩

/-! ### Sorting -/

section MergeSort

variable {α : Type} {cmp : α → α → Ordering} {xs : List α}

theorem isLE_total [Std.OrientedCmp cmp] (x y : α) :
    ((cmp x y).isLE || (cmp y x).isLE) = true := by
  rw [Bool.or_eq_true]
  by_cases h : (cmp x y).isLE
  · exact .inl h
  · exact .inr (Ordering.isLE_of_eq_lt (Std.OrientedCmp.lt_of_not_isLE h))

/-- Sorting looks at nothing but the elements of the list. -/
theorem mergeSort_eq_attach (cmp : α → α → Ordering) (xs : List α) :
    xs.mergeSort (fun x y => (cmp x y).isLE) =
      (xs.attach.mergeSort fun x y => (cmp x.1 y.1).isLE).map (·.1) := by
  rw [List.map_mergeSort (s := fun x y => (cmp x y).isLE) fun _ _ _ _ => rfl,
    List.attach_map_subtype_val]

theorem TransitiveOn.attach (h : TransitiveOn cmp xs) (x y z : { x // x ∈ xs }) :
    (cmp x.1 y.1).isLE = true → (cmp y.1 z.1).isLE = true → (cmp x.1 z.1).isLE = true :=
  h x x.2 y y.2 z z.2

variable [Std.OrientedCmp cmp]

theorem TransitiveOn.pairwise_mergeSort (h : TransitiveOn cmp xs) :
    (xs.mergeSort fun x y => (cmp x y).isLE).Pairwise fun x y => (cmp x y).isLE := by
  rw [mergeSort_eq_attach]
  exact List.pairwise_map.2
    (List.pairwise_mergeSort h.attach (fun x y => isLE_total x.1 y.1) xs.attach)

theorem TransitiveOn.sublist_mergeSort (h : TransitiveOn cmp xs) {ys : List α}
    (hys : ys.Pairwise fun x y => (cmp x y).isLE) (hsub : ys.Sublist xs) :
    ys.Sublist (xs.mergeSort fun x y => (cmp x y).isLE) := by
  rw [← List.attach_map_subtype_val xs] at hsub
  obtain ⟨zs, hzs, rfl⟩ := List.sublist_map_iff.1 hsub
  rw [mergeSort_eq_attach]
  exact (List.sublist_mergeSort h.attach (fun x y => isLE_total x.1 y.1)
    (List.pairwise_map.1 hys) hzs).map _

/-- Elements that are equal to one another come out as they came in. -/
theorem TransitiveOn.filter_mergeSort (h : TransitiveOn cmp xs) {x : α} (hx : x ∈ xs) :
    (xs.mergeSort fun x y => (cmp x y).isLE).filter (cmp x · == .eq) =
      xs.filter (cmp x · == .eq) := by
  have hequal : (xs.filter (cmp x · == .eq)).Pairwise fun y z => (cmp y z).isLE := by
    refine List.pairwise_of_forall_mem_list fun y hy z hz => ?_
    obtain ⟨hy, hxy⟩ := List.mem_filter.1 hy
    obtain ⟨hz, hxz⟩ := List.mem_filter.1 hz
    have hyx : cmp y x = .eq := Std.OrientedCmp.eq_symm (by simpa using hxy)
    have hxz : cmp x z = .eq := by simpa using hxz
    exact h y hy x hx z hz (Ordering.isLE_of_eq_eq hyx) (Ordering.isLE_of_eq_eq hxz)
  have hsub := (h.sublist_mergeSort hequal List.filter_sublist).filter (cmp x · == .eq)
  simp only [List.filter_filter, Bool.and_self] at hsub
  have hperm := (List.mergeSort_perm xs fun x y => (cmp x y).isLE).filter (cmp x · == .eq)
  exact (hsub.eq_of_length hperm.length_eq.symm).symm

end MergeSort

/-- Whether the values that are there are all numbers or all something else. -/
def OneKind (vs : List Value) : Prop :=
  (∀ v ∈ vs, v = .null ∨ v.isNumber = true ∧ v ≠ .number (.float .nan)) ∨
    ∀ v ∈ vs, v.isNumber = false

instance (vs : List Value) : Decidable (OneKind vs) := inferInstanceAs (Decidable (_ ∨ _))

theorem OneKind.no_nan {vs : List Value} (h : OneKind vs) : .number (.float .nan) ∉ vs := by
  intro hmem
  rcases h with h | h
  · rcases h _ hmem with hnull | ⟨-, hne⟩
    · cases hnull
    · exact hne rfl
  · cases h _ hmem

theorem OneKind.not_hasCycle {vs : List Value} (h : OneKind vs) : ¬ HasCycle vs := by
  rintro ⟨m, n, v, hm, -, hv, hc⟩
  rcases h with h | h
  · rcases h v hv with hnull | ⟨hnumber, -⟩
    · exact hc.there hnull
    · cases hc.other.symm.trans hnumber
  · cases h _ hm

theorem transitiveOn_of_oneKind {ks : List SortKey} {ts : List Task}
    (h : ∀ k ∈ ks, OneKind (ts.map (sortValue · k.key))) : TransitiveOn (compareBy ks) ts := by
  refine transitiveOn_compareBy fun k hk => ?_
  rw [transitiveOn_key_iff, transitiveOn_compare_iff _ (h k hk).no_nan]
  exact (h k hk).not_hasCycle

/-- Where the values under each key are of one kind, the tasks come out in order: every one of them
once, none after one that it comes before, those that compare equal as they came in, and the ones
that lack the first key before the ones that have it. -/
theorem sortBy_sorts (ks : List SortKey) (ts : List Task)
    (hkind : ∀ k ∈ ks, OneKind (ts.map (sortValue · k.key))) :
    (sortBy ks ts).Perm ts ∧
      (sortBy ks ts).Pairwise (fun t u => (compareBy ks t u).isLE) ∧
      (∀ t ∈ ts, (sortBy ks ts).filter (compareBy ks t · == .eq) =
        ts.filter (compareBy ks t · == .eq)) ∧
      ∀ k, ks.head? = some k → (sortBy ks ts).Pairwise fun t u =>
        sortValue u k.key = .null → sortValue t k.key = .null := by
  have htrans := transitiveOn_of_oneKind hkind
  have hsorted := htrans.pairwise_mergeSort
  refine ⟨List.mergeSort_perm _ _, hsorted, fun t ht => htrans.filter_mergeSort ht, ?_⟩
  intro k hk
  obtain ⟨js, rfl⟩ := List.head?_eq_some_iff.1 hk
  refine hsorted.imp fun {t u} htu hnull => ?_
  have hfirst := Ordering.isLE_left_of_isLE_then htu
  rw [SortKey.compare_eq, hnull] at hfirst
  exact Direction.eq_null_of_isLE hfirst

/-- Falling weights, one of them missing and two of them equal. -/
theorem sortBy_sorts_descending :
    let task (name : Text) (weight : Value) : Task :=
      { fields := [(Key.title, .text name), ("weight", weight)] }
    let a := task "a" (.number (.int 5))
    let b := task "b" .null
    let c := task "c" (.number (.float (.finite false 11 (-1))))
    let d := task "d" (.number (.int 5))
    let k : SortKey := { key := "weight", direction := .descending }
    let sorted := sortBy [k] [a, b, c, d]
    (∀ j ∈ [k], OneKind ([a, b, c, d].map (sortValue · j.key))) ∧
      sorted.Perm [a, b, c, d] ∧
      sorted.Pairwise (fun t u => (compareBy [k] t u).isLE) ∧
      sorted.filter (compareBy [k] a · == .eq) = [a, d] ∧
      sorted.Pairwise fun t u => sortValue u k.key = .null → sortValue t k.key = .null := by
  intro task a b c d k sorted
  have hkind : ∀ j ∈ [k], OneKind ([a, b, c, d].map (sortValue · j.key)) := by decide
  obtain ⟨hperm, hsorted, hstable, hfirst⟩ := sortBy_sorts [k] [a, b, c, d] hkind
  exact ⟨hkind, hperm, hsorted, (hstable a List.mem_cons_self).trans (by decide), hfirst k rfl⟩

end Agenda.Query
