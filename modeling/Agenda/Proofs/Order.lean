import Agenda.Number

/-!
The orders that values are compared by. Texts are compared like lists of code points, and numbers by
what they stand for: two finite ones by their significands at a common exponent. A number that is
not one is equal to every other, so it must not stand between two numbers that are to be compared.
-/

namespace Agenda

/-! ### Texts -/

namespace Text

theorem compare_eq (s t : Text) :
    compare s t = Ord.compare (s.map Char.toNat) (t.map Char.toNat) := by
  induction s generalizing t with
  | nil => cases t <;> rfl
  | cons c s ih =>
      cases t with
      | nil => rfl
      | cons d t =>
          rw [List.map_cons, List.map_cons, List.compare_cons_cons, Nat.compare_eq_ite_lt, compare,
            ih]
          split
          · rfl
          · split <;> rfl

instance : Std.TransCmp compare where
  eq_swap {s t} := by
    rw [compare_eq, compare_eq t]
    exact Std.OrientedOrd.eq_swap
  isLE_trans {s t u} hst htu := by
    rw [compare_eq] at hst htu ⊢
    exact Std.TransOrd.isLE_trans hst htu

end Text

/-! ### Numbers -/

namespace Binary64

theorem compare_mul_of_pos {k : Int} (hk : 0 < k) (m n : Int) :
    compare (m * k) (n * k) = compare m n := by
  rw [Int.compare_eq_ite_lt, Int.compare_eq_ite_lt]
  simp only [Int.mul_lt_mul_right hk]

/-- Two scaled integers compare as they do at any exponent that is none of the larger ones. -/
theorem compareScaled_eq {m e n f g : Int} (he : g ≤ e) (hf : g ≤ f) :
    compareScaled m e n f = compare (m * 2 ^ (e - g).toNat) (n * 2 ^ (f - g).toNat) := by
  have hleft : (e - g).toNat = (e - f).toNat + (min e f - g).toNat := by omega
  have hright : (f - g).toNat = (f - e).toNat + (min e f - g).toNat := by omega
  have hpos : (0 : Int) < 2 ^ (min e f - g).toNat := Int.pow_pos (by decide)
  rw [hleft, hright, Int.pow_add, Int.pow_add, ← Int.mul_assoc, ← Int.mul_assoc,
    compare_mul_of_pos hpos, compareScaled]

theorem compareScaled_swap (m e n f : Int) :
    (compareScaled m e n f).swap = compareScaled n f m e := Int.compare_swap _ _

theorem order_swap (x y : Binary64) : (x.order y).swap = y.order x := by
  cases x with
  | nan => cases y <;> rfl
  | infinite a =>
      cases y with
      | infinite b => cases a <;> cases b <;> rfl
      | _ => cases a <;> rfl
  | finite a m e =>
      cases y with
      | nan => rfl
      | infinite b => cases b <;> rfl
      | finite b n f => exact compareScaled_swap _ _ _ _

theorem isLE_compareScaled_trans {k m n d e f : Int} (hkm : (compareScaled k d m e).isLE)
    (hmn : (compareScaled m e n f).isLE) : (compareScaled k d n f).isLE := by
  -- All three are compared at the least exponent of them.
  have hd : min d (min e f) ≤ d := by omega
  have he : min d (min e f) ≤ e := by omega
  have hf : min d (min e f) ≤ f := by omega
  rw [compareScaled_eq hd he] at hkm
  rw [compareScaled_eq he hf] at hmn
  rw [compareScaled_eq hd hf]
  exact Std.TransOrd.isLE_trans hkm hmn

theorem isLE_order_least (z : Binary64) : ((infinite true).order z).isLE := by
  rcases z with _ | (_ | _) | _ <;> rfl

theorem isLE_order_greatest (x : Binary64) : (x.order (.infinite false)).isLE := by
  rcases x with _ | (_ | _) | _ <;> rfl

/-- The order is transitive around a number. -/
theorem isLE_order_trans {x y z : Binary64} (hy : y ≠ .nan) (hxy : (x.order y).isLE)
    (hyz : (y.order z).isLE) : (x.order z).isLE := by
  -- An infinite number at either end is beyond everything, and only itself is beyond it.
  rcases x with ⟨a, k, d⟩ | (_ | _) | _
  case infinite.true => exact isLE_order_least z
  case nan => rfl
  all_goals rcases z with ⟨c, n, f⟩ | (_ | _) | _
  case finite.infinite.false | infinite.false.infinite.false => exact isLE_order_greatest _
  case finite.nan | infinite.false.nan => rfl
  all_goals rcases y with ⟨b, m, e⟩ | (_ | _) | _
  case finite.finite.finite => exact isLE_compareScaled_trans hxy hyz
  all_goals contradiction

end Binary64

namespace Number

instance : Std.OrientedCmp order where
  eq_swap := (Binary64.order_swap _ _).symm

theorem isLE_order_trans {l m n : Number} (hm : m ≠ .float .nan) (hlm : (l.order m).isLE)
    (hmn : (m.order n).isLE) : (l.order n).isLE := by
  refine Binary64.isLE_order_trans ?_ hlm hmn
  cases m with
  | int i => nofun
  | float x => exact fun hx => hm (congrArg _ hx)

end Number

end Agenda
