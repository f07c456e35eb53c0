import Agenda.Digest

/-!
The digits of a digest. There are forty, all of them hexadecimal, whatever the message is; nothing
else is known of them here. Of the texts of `n` such digits there are `16 ^ n`.
-/

namespace Agenda.Digest

def digits : Text := "0123456789abcdef"

structure IsHex (length : Nat) (t : Text) : Prop where
  length_eq : t.length = length
  mem_digits : ∀ c ∈ t, c ∈ digits

theorem digitChar_mem_digits {d : Nat} (h : d < 16) : Nat.digitChar d ∈ digits := by
  have hall : ∀ d < 16, Nat.digitChar d ∈ digits := by decide
  exact hall d h

theorem isHex_hexWord (word : UInt32) : IsHex 8 (hexWord word) where
  length_eq := by rw [hexWord, List.length_map, List.length_range]
  mem_digits := fun c hc => by
    obtain ⟨i, -, rfl⟩ := List.mem_map.1 hc
    exact digitChar_mem_digits (Nat.mod_lt _ (by decide))

theorem IsHex.append {m n : Nat} {s t : Text} (hs : IsHex m s) (ht : IsHex n t) :
    IsHex (m + n) (s ++ t) where
  length_eq := by rw [List.length_append, hs.length_eq, ht.length_eq]
  mem_digits := fun c hc => (List.mem_append.1 hc).elim (hs.mem_digits c) (ht.mem_digits c)

theorem IsHex.take {m n : Nat} {t : Text} (h : IsHex n t) (hm : m ≤ n) : IsHex m (t.take m) where
  length_eq := by rw [List.length_take, h.length_eq, Nat.min_eq_left hm]
  mem_digits := fun c hc => h.mem_digits c (List.mem_of_mem_take hc)

theorem isHex_sha1 (message : List UInt8) : IsHex 40 (sha1 message) :=
  ((((isHex_hexWord _).append (isHex_hexWord _)).append (isHex_hexWord _)).append
    (isHex_hexWord _)).append (isHex_hexWord _)

def hexTexts : Nat → List Text
  | 0 => [[]]
  | n + 1 => digits.flatMap fun c => (hexTexts n).map (c :: ·)

theorem mem_hexTexts {n : Nat} {t : Text} (h : IsHex n t) : t ∈ hexTexts n := by
  induction n generalizing t with
  | zero =>
      rw [List.eq_nil_of_length_eq_zero h.length_eq]
      exact List.mem_singleton.2 rfl
  | succ n ih =>
      obtain ⟨c, s, rfl⟩ := List.exists_cons_of_length_eq_add_one h.length_eq
      have hs : IsHex n s :=
        ⟨Nat.succ.inj h.length_eq, fun d hd => h.mem_digits d (List.mem_cons_of_mem _ hd)⟩
      exact List.mem_flatMap.2
        ⟨c, h.mem_digits c List.mem_cons_self, List.mem_map_of_mem (ih hs)⟩

theorem length_hexTexts (n : Nat) : (hexTexts n).length = 16 ^ n := by
  induction n with
  | zero => rfl
  | succ n ih =>
      simp only [hexTexts, List.length_flatMap, List.length_map, ih, List.map_const',
        List.sum_replicate_nat]
      rw [Nat.pow_succ, Nat.mul_comm]
      rfl

end Agenda.Digest
