import Agenda.Number.Loose
import Agenda.Proofs.Order
import Agenda.Proofs.Scalar

/-!
Numerals. The text of every finite number is a numeral, whichever layout it gets. A numeral is read
alike by both readers: the floating-point number that the loose one finds is the nearest one to the
number that the strict one finds.
-/

namespace Agenda

/-! ### What numerals are made of -/

namespace Numeral

variable {t : Text} {n : Numeral}

def isPart (c : Char) : Bool := ['+', '-', '.', 'e', 'E'].contains c || Text.isDigit c

theorem isPart_of_isDigit {c : Char} (h : Text.isDigit c = true) : isPart c = true := by
  rw [isPart, h, Bool.or_true]

theorem isUnquotable_of_isPart {c : Char} (h : isPart c = true) :
    Scalar.isUnquotable c = false := by
  have hmarks : ∀ d ∈ ['+', '-', '.', 'e', 'E'], Scalar.isUnquotable d = false := by decide
  rcases Bool.or_eq_true_iff.1 h with h | h
  · exact hmarks c (List.contains_iff_mem.1 h)
  · exact Scalar.isUnquotable_of_isDigit h

theorem mem_takeFraction {c : Char} (h : c ∈ t) : isPart c = true ∨ c ∈ (takeFraction t).2 := by
  unfold takeFraction
  split
  · next t =>
      rcases List.mem_cons.1 h with rfl | h
      · exact .inl rfl
      · rw [← List.takeWhile_append_dropWhile (p := Text.isDigit) (l := t)] at h
        refine (List.mem_append.1 h).imp_left fun hdigit => ?_
        exact isPart_of_isDigit (List.mem_takeWhile_imp hdigit)
  · exact .inr h

theorem isPart_of_readExponent? {e : Option (Bool × Text)} (h : readExponent? t = some e) :
    ∀ c ∈ t, isPart c = true := by
  cases t with
  | nil => nofun
  | cons c t =>
      simp only [readExponent?, Option.ite_none_right_eq_some, Bool.and_eq_true, Bool.or_eq_true,
        decide_eq_true_eq, List.all_eq_true] at h
      obtain ⟨⟨⟨hc, -⟩, hdigits⟩, -⟩ := h
      refine List.forall_mem_cons.2 ⟨by rcases hc with rfl | rfl <;> rfl, fun d hd => ?_⟩
      rcases mem_takeSign hd with rfl | rfl | hd
      · rfl
      · rfl
      · exact isPart_of_isDigit (hdigits d hd)

theorem isPart_of_read? (h : read? t = some n) : ∀ c ∈ t, isPart c = true := by
  simp only [read?, Option.ite_none_left_eq_some, Option.map_eq_some_iff] at h
  obtain ⟨-, exponent, hexponent, -⟩ := h
  intro c hc
  rcases mem_takeSign hc with rfl | rfl | hc
  · rfl
  · rfl
  · rw [← List.takeWhile_append_dropWhile (p := Text.isDigit) (l := (takeSign t).2)] at hc
    rcases List.mem_append.1 hc with hc | hc
    · exact isPart_of_isDigit (List.mem_takeWhile_imp hc)
    · exact (mem_takeFraction hc).elim id (isPart_of_readExponent? hexponent c)

/-- After its sign a numeral begins with a digit or with the point. -/
theorem exists_head_of_read? (h : read? t = some n) :
    ∃ c cs, (takeSign t).2 = c :: cs ∧ (c = '.' ∨ Text.isDigit c = true) := by
  simp only [read?, Option.ite_none_left_eq_some] at h
  obtain ⟨hparts, -⟩ := h
  cases hbody : (takeSign t).2 with
  | nil => simp [hbody, takeFraction] at hparts
  | cons c cs =>
      refine ⟨c, cs, rfl, ?_⟩
      by_cases hdigit : Text.isDigit c = true
      · exact .inr hdigit
      · rw [hbody, List.takeWhile_cons_of_neg hdigit, List.dropWhile_cons_of_neg hdigit] at hparts
        by_contra hpoint
        have hfraction : takeFraction (c :: cs) = (none, c :: cs) := by
          unfold takeFraction
          split
          · next heq => exact absurd (.inl (List.cons.inj heq).1) hpoint
          · rfl
        simp [hfraction] at hparts

end Numeral

/-! ### The loose reader -/

namespace Binary64

variable {t : Text} {n : Numeral}

theorem isMargin_of_isPart {c : Char} (h : Numeral.isPart c = true) : Text.isMargin c = false := by
  have hquotable := Numeral.isUnquotable_of_isPart h
  simp only [Scalar.isUnquotable, Bool.or_eq_false_iff] at hquotable
  rw [Text.isMargin, hquotable.1.1.1.1.1, Bool.false_and]

theorem dropMargins_of_parts (hne : t ≠ []) (h : ∀ c ∈ t, Numeral.isPart c = true) (margin : Text)
    (hmargin : ∀ c ∈ margin, Text.isMargin c = true) : Text.dropMargins (t ++ margin) = t := by
  obtain ⟨c, cs, rfl⟩ := List.exists_cons_of_ne_nil hne
  have hc := isMargin_of_isPart (h c List.mem_cons_self)
  have hend : ((c :: cs) ++ margin).reverse.dropWhile Text.isMargin =
      (c :: cs).reverse.dropWhile Text.isMargin := by
    rw [List.reverse_append, List.dropWhile_append_of_pos fun d hd => hmargin d (by simpa using hd)]
  rw [Text.dropMargins, List.cons_append, List.dropWhile_cons_of_neg (by simp [hc]),
    ← List.cons_append, Text.dropEndWhile, hend]
  exact Text.dropEndWhile_of_getLast fun d hd => isMargin_of_isPart (h d (List.mem_of_getLast? hd))

theorem dropMargins_eq_of_read? (h : Numeral.read? (Text.dropFinalNewline t) = some n) :
    Text.dropMargins t = Text.dropFinalNewline t := by
  have hne : Text.dropFinalNewline t ≠ [] := by
    intro hnil
    rw [hnil] at h
    cases h
  have hparts := Numeral.isPart_of_read? h
  unfold Text.dropFinalNewline at hne hparts ⊢
  split at hne
  · next hlast =>
      obtain ⟨s, rfl⟩ := List.getLast?_eq_some_iff.1 hlast
      simp only [hlast, if_true, List.dropLast_concat] at hne hparts ⊢
      exact dropMargins_of_parts hne hparts ['\n'] (by decide)
  · next hlast =>
      simp only [hlast, if_false] at hparts ⊢
      simpa using dropMargins_of_parts hne hparts [] nofun

theorem dropUnderscores?_of_not_mem (h : '_' ∉ t) (afterDigit : Bool) :
    dropUnderscores? afterDigit t = some t := by
  induction t generalizing afterDigit with
  | nil => rfl
  | cons c t ih =>
      rw [List.mem_cons, not_or] at h
      have hc : c ≠ '_' := Ne.symm h.1
      unfold dropUnderscores?
      split
      · contradiction
      · next heq => exact absurd (List.cons.inj heq).1 hc
      · next heq =>
          obtain ⟨rfl, rfl⟩ := List.cons.inj heq
          rw [if_neg hc, ih h.2]
          rfl

theorem toLower_of_isDigit {c : Char} (h : Text.isDigit c = true) : Char.toLower c = c := by
  have hzeros : ∀ z ∈ Text.zeros, z + 9 < 65 ∨ 90 < z := by decide
  obtain ⟨v, hv⟩ := Option.isSome_iff_exists.1 h
  obtain ⟨z, hz, -⟩ := Option.map_eq_some_iff.1 hv
  have hrange := List.find?_some hz
  simp only [Bool.and_eq_true, decide_eq_true_eq] at hrange
  have hfar := hzeros z (List.mem_of_find?_eq_some hz)
  unfold Char.toLower
  split
  · next hcapital =>
      have hlow : 65 ≤ c.toNat := UInt32.le_iff_toNat_le.1 hcapital.1
      have hhigh : c.toNat ≤ 90 := UInt32.le_iff_toNat_le.1 hcapital.2
      omega
  · rfl

/-- The names of infinity and nan begin with letters. -/
theorem readName?_of_read? (h : Numeral.read? t = some n) : readName? t = none := by
  obtain ⟨c, cs, hbody, hc⟩ := Numeral.exists_head_of_read? h
  have hlower : Char.toLower c = c := by
    rcases hc with rfl | hc
    · rfl
    · exact toLower_of_isDigit hc
  have hletters : ∀ d ∈ ['i', 'n'], d ≠ '.' ∧ Text.isDigit d = false := by decide
  have hne : ∀ d ∈ ['i', 'n'], c ≠ d := by
    rintro d hd rfl
    obtain ⟨hpoint, hdigit⟩ := hletters c hd
    rcases hc with hc | hc
    · exact hpoint hc
    · exact absurd hc (by simp [hdigit])
  have hname : lowerName (Numeral.takeSign t).2 = c :: lowerName cs := by
    rw [hbody, lowerName, List.map_cons, hlower]
    rfl
  have hother : ∀ d ∈ ['i', 'n'], ∀ ds, decide (c :: lowerName cs = d :: ds) = false := by
    intro d hd ds
    rw [decide_eq_false_iff_not]
    exact fun heq => hne d hd (List.cons.inj heq).1
  have hinf := hother 'i' (by decide) "nf".toList
  have hinfinity := hother 'i' (by decide) "nfinity".toList
  have hnan := hother 'n' (by decide) "an".toList
  simp only [readName?, hname]
  rw [if_neg, if_neg]
  · exact of_decide_eq_false hnan
  · rw [Bool.not_eq_true, Bool.or_eq_false_iff]
    exact ⟨hinf, hinfinity⟩

/-- A numeral is read loosely as it is read strictly. -/
theorem read?_of_numeral (h : Numeral.read? (Text.dropFinalNewline t) = some n) :
    read? t = some n.toBinary64 := by
  have hunderscore : '_' ∉ Text.dropFinalNewline t := fun hmem =>
    absurd (Numeral.isPart_of_read? h '_' hmem) (by decide)
  simp only [read?, dropMargins_eq_of_read? h, readName?_of_read? h,
    dropUnderscores?_of_not_mem hunderscore, Option.bind_eq_bind, Option.bind_some, h]
  rfl

end Binary64

/-! ### The texts of numbers -/

namespace Numeral

variable {whole rest : Text}

/-- Numerals without a sign: some digits, and a fraction and an exponent if there are any. -/
def IsUnsigned (t : Text) : Prop :=
  ∃ whole rest, t = whole ++ rest ∧ whole ≠ [] ∧ (∀ c ∈ whole, Text.isDigit c = true) ∧
    (∀ c, rest.head? = some c → Text.isDigit c = false) ∧
    (readExponent? (takeFraction rest).2).isSome = true

theorem takeWhile_digits_append (hwhole : ∀ c ∈ whole, Text.isDigit c = true)
    (hrest : ∀ c, rest.head? = some c → Text.isDigit c = false) :
    (whole ++ rest).takeWhile Text.isDigit = whole := by
  rw [List.takeWhile_append_of_pos hwhole]
  cases rest with
  | nil => simp
  | cons c rest => simp [hrest c rfl]

theorem dropWhile_digits_append (hwhole : ∀ c ∈ whole, Text.isDigit c = true)
    (hrest : ∀ c, rest.head? = some c → Text.isDigit c = false) :
    (whole ++ rest).dropWhile Text.isDigit = rest := by
  rw [List.dropWhile_append_of_pos hwhole]
  cases rest with
  | nil => rfl
  | cons c rest => exact List.dropWhile_cons_of_neg (by simp [hrest c rfl])

theorem isUnsigned_point {exponent : Text} (hne : whole ≠ [])
    (hwhole : ∀ c ∈ whole, Text.isDigit c = true) (hrest : ∀ c ∈ rest, Text.isDigit c = true)
    (hhead : ∀ c, exponent.head? = some c → Text.isDigit c = false)
    (hexponent : (readExponent? exponent).isSome = true) :
    IsUnsigned (whole ++ '.' :: (rest ++ exponent)) := by
  refine ⟨whole, _, rfl, hne, hwhole, fun c hc => ?_, ?_⟩
  · obtain rfl : '.' = c := Option.some.inj hc
    rfl
  · rw [takeFraction, dropWhile_digits_append hrest hhead]
    exact hexponent

theorem isSome_read?_of_takeSign {t u : Text} {negative : Bool} (h : IsUnsigned u)
    (hsign : takeSign t = (negative, u)) : (read? t).isSome = true := by
  obtain ⟨whole, rest, rfl, hne, hwhole, hrest, hexponent⟩ := h
  have hempty : whole.isEmpty = false := by simpa using hne
  simp [read?, hsign, takeWhile_digits_append hwhole hrest, dropWhile_digits_append hwhole hrest,
    hempty, hexponent]

theorem takeSign_of_isUnsigned {t : Text} (h : IsUnsigned t) : takeSign t = (false, t) := by
  obtain ⟨_ | ⟨c, whole⟩, rest, rfl, hne, hwhole, -⟩ := h
  · contradiction
  · refine takeSign_of_head fun d hd => ?_
    obtain rfl : c = d := Option.some.inj hd
    have hdigit := hwhole c List.mem_cons_self
    constructor
    · rintro rfl
      exact absurd hdigit (by decide)
    · rintro rfl
      exact absurd hdigit (by decide)

end Numeral

namespace Binary64

open Numeral

variable {digits : Text} {point : Int}

theorem isDigit_of_mem_replicate {n : Nat} {c : Char} (h : c ∈ List.replicate n '0') :
    Text.isDigit c = true := by
  rw [List.eq_of_mem_replicate h]
  rfl

theorem isSome_readExponent?_exponentText (e : Int) :
    (readExponent? ('e' :: exponentText e)).isSome = true := by
  have hsign (d : Text) : takeSign ((if e < 0 then '-' else '+') :: d) = (decide (e < 0), d) := by
    split
    · next h => rw [decide_eq_true h]; rfl
    · next h => rw [decide_eq_false h]; rfl
  have hall : (List.replicate (2 - (Text.ofNat e.natAbs).length) '0' ++
      Text.ofNat e.natAbs).all Text.isDigit = true := by
    refine List.all_eq_true.2 fun c hc => (List.mem_append.1 hc).elim ?_ ?_
    · exact isDigit_of_mem_replicate
    · exact Text.isDigit_of_mem_ofNat
  simp [readExponent?, exponentText, hsign, hall, Text.ofNat_ne_nil]

/-- However many digits there are and wherever the point is, the layout is a numeral. -/
theorem isUnsigned_layOut (hne : digits ≠ []) (hdigits : ∀ c ∈ digits, Text.isDigit c = true)
    (point : Int) : IsUnsigned (layOut digits point) := by
  have hexponent := isSome_readExponent?_exponentText (point - 1)
  have hhead : ∀ c, ('e' :: exponentText (point - 1)).head? = some c → Text.isDigit c = false := by
    intro c hc
    obtain rfl : 'e' = c := Option.some.inj hc
    rfl
  have hfraction {whole rest : Text} (hwhole : whole ≠ []) (h : ∀ c ∈ whole, Text.isDigit c = true)
      (hrest : ∀ c ∈ rest, Text.isDigit c = true) : IsUnsigned (whole ++ '.' :: rest) := by
    have hnone : IsUnsigned (whole ++ '.' :: (rest ++ [])) :=
      isUnsigned_point hwhole h hrest nofun rfl
    simpa using hnone
  unfold layOut
  split
  · -- A power of ten follows one digit, or the digits after the point.
    split
    · next first second rest =>
        rw [List.forall_mem_cons] at hdigits
        exact isUnsigned_point (List.cons_ne_nil first []) (by simpa using hdigits.1) hdigits.2
          hhead hexponent
    · exact ⟨digits, _, rfl, hne, hdigits, hhead, hexponent⟩
  · split
    · refine hfraction (List.cons_ne_nil '0' []) (by decide) fun c hc => ?_
      exact (List.mem_append.1 hc).elim isDigit_of_mem_replicate (hdigits c)
    · simp only
      split
      · refine hfraction (by simp [hne]) (fun c hc => ?_) (by decide)
        exact (List.mem_append.1 hc).elim (hdigits c) isDigit_of_mem_replicate
      · refine hfraction ?_ (fun c hc => hdigits c (List.mem_of_mem_take hc))
          fun c hc => hdigits c (List.mem_of_mem_drop hc)
        rw [Ne, List.take_eq_nil_iff, not_or]
        exact ⟨by omega, hne⟩

theorem trimZeros_ne_nil (digits : Text) : trimZeros digits ≠ [] := by
  unfold trimZeros
  split
  · exact List.cons_ne_nil _ _
  · next h => exact fun hnil => h hnil

/-- Every finite number is written as a numeral. -/
theorem isSome_read?_text (negative : Bool) (significand : Nat) (exponent : Int) :
    (Numeral.read? (finite negative significand exponent).text).isSome = true := by
  have hunsigned : IsUnsigned (if significand = 0 then "0.0".toList else
      layOut (trimZeros (Text.ofNat (shortest significand exponent).1))
        ((Text.ofNat (shortest significand exponent).1).length +
          (shortest significand exponent).2)) := by
    split
    · have hzero : IsUnsigned (['0'] ++ '.' :: (['0'] ++ [])) :=
        isUnsigned_point (List.cons_ne_nil _ _) (by decide) (by decide) nofun rfl
      exact hzero
    · refine isUnsigned_layOut (trimZeros_ne_nil _) (fun c hc => ?_) _
      rcases mem_trimZeros hc with rfl | hc
      · rfl
      · exact Text.isDigit_of_mem_ofNat hc
  unfold text
  simp only
  split
  · exact isSome_read?_of_takeSign hunsigned rfl
  · exact isSome_read?_of_takeSign hunsigned (takeSign_of_isUnsigned hunsigned)

end Binary64

/-! ### The nearest number -/

namespace Binary64

theorem order_self (x : Binary64) : x.order x = .eq := by
  have hswap := order_swap x x
  revert hswap
  cases x.order x <;> decide

theorem two_pow_le_ten_pow (k : Nat) : 2 ^ (205 * k) ≤ 10 ^ (62 * k) := by
  rw [Nat.pow_mul, Nat.pow_mul]
  exact Nat.pow_le_pow_left (by decide) k

theorem le_log2_of_long {n k : Nat} (hk : 0 < k) (h : 62 * k < (Nat.toDigits 10 n).length) :
    205 * k ≤ Nat.log2 n := by
  have hle : 10 ^ (62 * k) ≤ n := Nat.le_of_not_lt fun hlt =>
    absurd ((Nat.length_toDigits_le_iff (by decide) (by omega)).2 hlt) (Nat.not_le.2 h)
  have hne : n ≠ 0 := by
    rintro rfl
    exact absurd hle (Nat.not_le.2 (Nat.pow_pos (by decide)))
  exact (Nat.le_log2 hne).2 (Nat.le_trans (two_pow_le_ten_pow k) hle)

theorem log2_sub_le_exponentFor (num den : Nat) :
    (Nat.log2 num : Int) - Nat.log2 den - 53 ≤ exponentFor num den := by
  unfold exponentFor
  refine Int.le_trans ?_ (Int.le_max_right _ _)
  split
  · omega
  · omega

theorem ofRatio_of_lt_exponentFor (negative : Bool) {num den : Nat} (hne : num ≠ 0)
    (h : maxExponent < exponentFor num den) : ofRatio negative num den = .infinite negative := by
  unfold ofRatio
  rw [if_neg hne]
  extract_lets e m
  by_cases hcarry : m = 2 ^ 53
  · rw [if_pos hcarry]
    exact if_pos (Int.lt_trans h (Int.lt_succ e))
  · rw [if_neg hcarry]
    exact if_pos h

/-- An integer of more than 310 digits is beyond all finite numbers. -/
theorem ofRatio_of_long (negative : Bool) {n : Nat} (h : 310 < (Nat.toDigits 10 n).length) :
    ofRatio negative n 1 = .infinite negative := by
  have hlog : 1025 ≤ Nat.log2 n := le_log2_of_long (k := 5) (by decide) h
  have hone : Nat.log2 1 = 0 := by decide
  have hexponent := log2_sub_le_exponentFor n 1
  refine ofRatio_of_lt_exponentFor negative ?_ ?_
  · rintro rfl
    exact absurd hlog (by decide)
  · unfold maxExponent
    omega

theorem ofDecimal_of_pos (negative : Bool) {n : Nat} (hne : n ≠ 0) :
    ofDecimal negative n 0 = ofRatio negative n 1 := by
  unfold ofDecimal
  extract_lets magnitude
  have hlow : (decide (n = 0) || decide (magnitude < -330)) = false := by
    rw [Bool.or_eq_false_iff, decide_eq_false_iff_not, decide_eq_false_iff_not]
    exact ⟨hne, by omega⟩
  rw [if_neg (by rw [hlow]; decide)]
  split
  · next hhigh => exact (ofRatio_of_long negative (by omega)).symm
  · simp

theorem order_zero (a b : Bool) (e : Int) : (finite a 0 e).order (finite b 0 e) = .eq := by
  cases a <;> cases b <;> simp [order, compareScaled, signed]

end Binary64

namespace Number

/-- An integer that has a nearest floating-point number can be written. -/
theorem isWritable_of_toBinary64? {n : Int} {x : Binary64}
    (h : (Number.int n).toBinary64? = some x) : (Number.int n).isWritable = true := by
  rw [isWritable, decide_eq_true_iff]
  by_contra hlong
  have hinfinite : Binary64.ofInt n = .infinite (n < 0) :=
    Binary64.ofRatio_of_long _ (Nat.lt_of_lt_of_le (by decide) (Nat.le_of_not_le hlong))
  simp only [toBinary64?, hinfinite] at h
  cases h

theorem ofInt_eq_of_toBinary64? {n : Int} {x : Binary64}
    (h : (Number.int n).toBinary64? = some x) : Binary64.ofInt n = x := by
  unfold toBinary64? at h
  simp only at h
  split at h
  · cases h
  · exact Option.some.inj h

end Number

namespace Numeral

theorem toBinary64_of_isInteger {n : Numeral} (hint : n.isInteger = true) :
    n.toBinary64 = .ofDecimal n.negative (Text.natOfDigits n.whole) 0 := by
  simp only [isInteger, Bool.and_eq_true, Option.isNone_iff_eq_none] at hint
  simp [toBinary64, hint]

/-- The floating-point number read for an integer is the nearest one to it. -/
theorem order_toBinary64 {n : Numeral} (hint : n.isInteger = true) {x : Binary64}
    (h : (Number.int n.toInt).toBinary64? = some x) : x.order n.toBinary64 = .eq := by
  have hx := Number.ofInt_eq_of_toBinary64? h
  rw [toBinary64_of_isInteger hint, ← hx]
  unfold toInt
  by_cases hzero : Text.natOfDigits n.whole = 0
  · -- Zero has a sign when it is read, and none when it is converted.
    rw [hzero]
    cases n.negative <;> exact Binary64.order_zero _ _ _
  · have hpos : ¬ (Text.natOfDigits n.whole : Int) < 0 := by omega
    have hneg : -(Text.natOfDigits n.whole : Int) < 0 := by omega
    rw [Binary64.ofDecimal_of_pos _ hzero, Binary64.ofInt]
    cases n.negative
    · simp only [if_false, Bool.false_eq_true, Int.natAbs_natCast, hpos, decide_false,
        Binary64.order_self]
    · simp only [if_true, Int.natAbs_neg, Int.natAbs_natCast, hneg, decide_true,
        Binary64.order_self]

end Numeral

end Agenda
