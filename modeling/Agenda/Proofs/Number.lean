import Agenda.Proofs.Text
import Agenda.Value
import Mathlib.Data.List.Induction

/-!
Integers are written in decimal and read back. The digits that a number is written with are the
ASCII ones, so that their values are those that the table of digits gives.
-/

namespace Agenda

namespace Text

theorem digit?_of_range {c : Char} (h : 48 ≤ c.toNat ∧ c.toNat ≤ 57) :
    digit? c = some (c.toNat - 48) := by
  have hz : (decide (48 ≤ c.toNat) && decide (c.toNat ≤ 48 + 9)) = true := by
    simp only [Bool.and_eq_true, decide_eq_true_eq]
    omega
  simp [digit?, zeros, hz]

theorem isDigit_of_range {c : Char} (h : 48 ≤ c.toNat ∧ c.toNat ≤ 57) : isDigit c = true := by
  rw [isDigit, digit?_of_range h]
  rfl

theorem range_of_mem_ofNat {n : Nat} {c : Char} (h : c ∈ ofNat n) :
    48 ≤ c.toNat ∧ c.toNat ≤ 57 := by
  have hd := Nat.isDigit_of_mem_toDigits (by decide) (by decide) h
  simpa [Char.isDigit, UInt32.le_iff_toNat_le] using hd

theorem isDigit_of_mem_ofNat {n : Nat} {c : Char} (h : c ∈ ofNat n) : isDigit c = true :=
  isDigit_of_range (range_of_mem_ofNat h)

theorem ofNat_ne_nil (n : Nat) : ofNat n ≠ [] := Nat.toDigits_ne_nil

theorem natOfDigits_concat (t : Text) (c : Char) :
    natOfDigits (t ++ [c]) = natOfDigits t * 10 + (digit? c).getD 0 := by
  simp [natOfDigits]

theorem digit?_digitChar {d : Nat} (h : d < 10) : digit? (Nat.digitChar d) = some d := by
  have hn : (Nat.digitChar d).toNat = 48 + d := by
    have := Nat.toNat_digitChar_of_lt_ten h
    omega
  rw [digit?_of_range (by omega), hn]
  congr 1
  omega

@[simp] theorem natOfDigits_ofNat (n : Nat) : natOfDigits (ofNat n) = n := by
  induction n using Nat.strong_induction_on with
  | _ n ih =>
      unfold ofNat
      rw [Nat.toDigits_eq_if (by decide)]
      split
      · next h =>
          simp [digit?_digitChar h, natOfDigits]
      · next h =>
          rw [natOfDigits_concat, digit?_digitChar (Nat.mod_lt _ (by decide))]
          have := ih (n / 10) (by omega)
          unfold ofNat at this
          rw [this]
          simp only [Option.getD_some]
          omega

end Text

/-! ### Reading digits -/

namespace Numeral

theorem takeSign_of_head {t : Text} (h : ∀ c, t.head? = some c → c ≠ '-' ∧ c ≠ '+') :
    takeSign t = (false, t) := by
  cases t with
  | nil => rfl
  | cons c t =>
      obtain ⟨hminus, hplus⟩ := h c rfl
      unfold takeSign
      split
      · next heq => simp_all
      · next heq => simp_all
      · rfl

theorem takeSign_digits {t : Text} (h : ∀ c ∈ t, 48 ≤ c.toNat ∧ c.toNat ≤ 57) :
    takeSign t = (false, t) := by
  apply takeSign_of_head
  intro c hc
  have hr := h c (List.mem_of_mem_head? hc)
  constructor
  · rintro rfl
    exact absurd hr (by decide)
  · rintro rfl
    exact absurd hr (by decide)

/-- A run of digits after an optional minus is an integer numeral. -/
theorem read?_integer {negative : Bool} {t digits : Text} (hsign : takeSign t = (negative, digits))
    (hne : digits ≠ []) (hd : ∀ c ∈ digits, Text.isDigit c = true) :
    read? t = some ⟨negative, digits, none, none⟩ := by
  have htake : digits.takeWhile Text.isDigit = digits := List.takeWhile_eq_self_iff.2 hd
  have hdrop : digits.dropWhile Text.isDigit = [] := List.dropWhile_eq_nil_iff.2 hd
  have hemp : digits.isEmpty = false := by simpa using hne
  simp [read?, hsign, htake, hdrop, takeFraction, hemp, readExponent?]

end Numeral

theorem Text.takeSign_ofInt (n : Int) :
    Numeral.takeSign (Text.ofInt n) = (decide (n < 0), Text.ofNat n.natAbs) := by
  cases n with
  | ofNat m =>
      simp [Text.ofInt, Numeral.takeSign_digits fun c hc => Text.range_of_mem_ofNat hc]
  | negSucc m => simp [Text.ofInt, Numeral.takeSign, Int.negSucc_lt_zero]

theorem Text.mem_ofInt {n : Int} {c : Char} (h : c ∈ Text.ofInt n) :
    c.toNat = 45 ∨ (48 ≤ c.toNat ∧ c.toNat ≤ 57) := by
  cases n with
  | ofNat m => exact .inr (Text.range_of_mem_ofNat h)
  | negSucc m =>
      rcases List.mem_cons.mp h with rfl | h
      · exact .inl rfl
      · exact .inr (Text.range_of_mem_ofNat h)

theorem Text.ofInt_ne_nil (n : Int) : Text.ofInt n ≠ [] := by
  cases n with
  | ofNat m => exact Text.ofNat_ne_nil m
  | negSucc m => simp [Text.ofInt]

theorem Text.dropFinalNewline_of_not_mem {t : Text} (h : '\n' ∉ t) :
    Text.dropFinalNewline t = t := by
  have : t.getLast? ≠ some '\n' := fun hl => h (List.mem_of_getLast? hl)
  simp [Text.dropFinalNewline, this]

theorem Text.dropFinalNewline_concat (t : Text) : Text.dropFinalNewline (t ++ ['\n']) = t := by
  rw [Text.dropFinalNewline, List.getLast?_concat, if_pos rfl, List.dropLast_concat]

theorem Text.mem_dropFinalNewline {t : Text} {c : Char} (hc : c ≠ '\n') (h : c ∈ t) :
    c ∈ Text.dropFinalNewline t := by
  unfold Text.dropFinalNewline
  split
  · next hlast =>
      obtain ⟨s, rfl⟩ := List.getLast?_eq_some_iff.1 hlast
      rw [List.dropLast_concat]
      exact (List.mem_append.1 h).resolve_right fun hm => hc (List.mem_singleton.1 hm)
  · exact h

namespace Number

/-- An integer of no more digits than are read is read back as itself. -/
theorem read?_ofInt {n : Int} (h : (Text.ofNat n.natAbs).length ≤ maxDigits) :
    read? (Text.ofInt n) = .ok (some (.int n)) := by
  have hnl : '\n' ∉ Text.ofInt n := by
    intro hm
    rcases Text.mem_ofInt hm with h | h
    · exact absurd h (by decide)
    · exact absurd h (by decide)
  have hread := Numeral.read?_integer (Text.takeSign_ofInt n) (Text.ofNat_ne_nil _)
    fun c hc => Text.isDigit_of_mem_ofNat hc
  rw [read?, Text.dropFinalNewline_of_not_mem hnl, hread]
  have hval : (if n < 0 then -((n.natAbs : Int)) else (n.natAbs : Int)) = n := by
    split <;> omega
  simp only [Numeral.isInteger, Numeral.toInt, Nat.not_lt.2 h, Text.natOfDigits_ofNat,
    decide_eq_true_eq, hval, Option.isNone_none, Bool.and_self, if_true, if_false]

end Number

/-! ### What is read as an integer -/

namespace Numeral

theorem mem_takeSign {t : Text} {c : Char} (h : c ∈ t) :
    c = '+' ∨ c = '-' ∨ c ∈ (takeSign t).2 := by
  unfold takeSign
  split
  · rcases List.mem_cons.mp h with rfl | h
    · exact .inr (.inl rfl)
    · exact .inr (.inr h)
  · rcases List.mem_cons.mp h with rfl | h
    · exact .inl rfl
    · exact .inr (.inr h)
  · exact .inr (.inr h)

theorem takeFraction_eq_none {t u : Text} (h : takeFraction t = (none, u)) : u = t := by
  unfold takeFraction at h
  split at h
  · cases h
  · exact (Prod.mk.inj h).2.symm

theorem readExponent?_eq_none {t : Text} (h : readExponent? t = some none) : t = [] := by
  unfold readExponent? at h
  split at h
  · rfl
  · simp only at h
    split at h <;> cases h

/-- A number without a point and an exponent is a sign and digits. -/
theorem whole_of_isInteger {t : Text} {n : Numeral} (h : read? t = some n)
    (hint : n.isInteger = true) :
    n.whole = (takeSign t).2 ∧ n.whole ≠ [] ∧ ∀ c ∈ n.whole, Text.isDigit c = true := by
  unfold read? at h
  simp only at h
  split at h
  · cases h
  · next hne =>
      obtain ⟨exponent, he, rfl⟩ := Option.map_eq_some_iff.1 h
      simp only [isInteger, Bool.and_eq_true, Option.isNone_iff_eq_none] at hint
      obtain ⟨hfraction, rfl⟩ := hint
      have hrest := readExponent?_eq_none he
      have hdrop := (takeFraction_eq_none (Prod.ext hfraction hrest)).symm
      have htake := List.takeWhile_append_dropWhile (p := Text.isDigit) (l := (takeSign t).2)
      rw [hdrop, List.append_nil] at htake
      refine ⟨htake, ?_, fun c hc => List.mem_takeWhile_imp hc⟩
      simpa [hfraction] using hne

end Numeral

/-! ### Integers that are too large -/

namespace Numeral

def IsSign (sign : Text) : Prop := sign = [] ∨ sign = ['+'] ∨ sign = ['-']

theorem exists_sign (t : Text) : ∃ sign, IsSign sign ∧ t = sign ++ (takeSign t).2 := by
  unfold takeSign
  split
  · exact ⟨['-'], .inr (.inr rfl), rfl⟩
  · exact ⟨['+'], .inr (.inl rfl), rfl⟩
  · exact ⟨[], .inl rfl, rfl⟩

theorem takeSign_append {sign digits : Text} (hsign : IsSign sign)
    (hdigits : ∀ c ∈ digits, Text.isDigit c = true) : (takeSign (sign ++ digits)).2 = digits := by
  rcases hsign with rfl | rfl | rfl
  · rw [List.nil_append, takeSign_of_head]
    intro c hc
    have hdigit := hdigits c (List.mem_of_mem_head? hc)
    constructor
    · rintro rfl
      exact absurd hdigit (by decide)
    · rintro rfl
      exact absurd hdigit (by decide)
  · rfl
  · rfl

end Numeral

namespace Number

/-- The text is an integer with more digits than are read. -/
def IsOversize (t : Text) : Prop :=
  ∃ sign digits, Numeral.IsSign sign ∧ (∀ c ∈ digits, Text.isDigit c = true) ∧
    maxDigits < digits.length ∧ t = sign ++ digits

theorem isOversize_iff {t : Text} : IsOversize t ↔
    (∀ c ∈ (Numeral.takeSign t).2, Text.isDigit c = true) ∧
      maxDigits < (Numeral.takeSign t).2.length := by
  constructor
  · rintro ⟨sign, digits, hsign, hdigits, hlength, rfl⟩
    rw [Numeral.takeSign_append hsign hdigits]
    exact ⟨hdigits, hlength⟩
  · rintro ⟨hdigits, hlength⟩
    obtain ⟨sign, hsign, ht⟩ := Numeral.exists_sign t
    exact ⟨sign, _, hsign, hdigits, hlength, ht⟩

instance (t : Text) : Decidable (IsOversize t) := decidable_of_iff _ isOversize_iff.symm

/-- Reading refuses the integers that are too large and nothing else. A line feed at the end does
not make a difference. -/
theorem read?_eq_error_iff {t : Text} {e : Oversize} :
    read? t = .error e ↔ IsOversize (Text.dropFinalNewline t) := by
  rw [isOversize_iff]
  constructor
  · intro h
    unfold read? at h
    split at h
    · cases h
    · next numeral hnumeral =>
        split at h
        · next hinteger =>
            split at h
            · next hlength =>
                obtain ⟨hwhole, -, hdigits⟩ := Numeral.whole_of_isInteger hnumeral hinteger
                rw [hwhole] at hdigits hlength
                exact ⟨hdigits, hlength⟩
            · cases h
        · cases h
  · rintro ⟨hdigits, hlength⟩
    have hne : (Numeral.takeSign (Text.dropFinalNewline t)).2 ≠ [] :=
      List.ne_nil_of_length_pos (Nat.zero_lt_of_lt hlength)
    have hnumeral := Numeral.read?_integer (t := Text.dropFinalNewline t) rfl hne hdigits
    cases e
    rw [read?, hnumeral]
    exact if_pos hlength

theorem IsOversize.mem {t : Text} (h : IsOversize t) :
    ∀ c ∈ t, c = '+' ∨ c = '-' ∨ Text.isDigit c = true := fun c hc =>
  (Numeral.mem_takeSign hc).imp_right (Or.imp_right ((isOversize_iff.1 h).1 c))

theorem IsOversize.ne_nil {t : Text} (h : IsOversize t) : t ≠ [] := by
  obtain ⟨sign, digits, -, -, hlength, rfl⟩ := h
  exact List.append_ne_nil_of_right_ne_nil _ (List.ne_nil_of_length_pos (by omega))

theorem IsOversize.not_mem {t : Text} (h : IsOversize t) {c : Char} (hc : Text.isDigit c = false)
    (hplus : c ≠ '+') (hminus : c ≠ '-') : c ∉ t := by
  intro hm
  rcases h.mem c hm with rfl | rfl | hdigit
  · exact hplus rfl
  · exact hminus rfl
  · rw [hc] at hdigit
    cases hdigit

theorem isWritable_int_iff {n : Int} :
    (int n).isWritable = true ↔ n.natAbs < 10 ^ maxDigits := by
  rw [isWritable, decide_eq_true_iff]
  exact Nat.length_toDigits_le_iff (by decide) (by decide)

end Number

namespace Value

theorem isWritable_iff {v : Value} :
    v.isWritable = true ↔ ∀ n : Int, v = .number (.int n) → n.natAbs < 10 ^ Number.maxDigits := by
  cases v with
  | number n =>
      cases n with
      | int n =>
          simp only [number.injEq, Number.int.injEq, forall_eq']
          exact Number.isWritable_int_iff
      | float x => exact iff_of_true rfl nofun
  | _ => exact iff_of_true rfl nofun

theorem spell_eq_ok {v : Value} {t : Text} :
    v.spell = .ok t ↔ v.isWritable = true ∧ v.plain = t := by
  rw [spell]
  cases v.isWritable <;> simp

end Value

/-! ### The characters of numbers -/

def isNumberChar (c : Char) : Bool :=
  (48 ≤ c.toNat && c.toNat ≤ 57) || ['+', '-', '.', 'a', 'e', 'f', 'i', 'n'].contains c

theorem isNumberChar_of_range {c : Char} (h : 48 ≤ c.toNat ∧ c.toNat ≤ 57) :
    isNumberChar c = true := by
  simp [isNumberChar, h.1, h.2]

theorem isNumberChar_of_mem_ofNat {n : Nat} {c : Char} (h : c ∈ Text.ofNat n) :
    isNumberChar c = true := isNumberChar_of_range (Text.range_of_mem_ofNat h)

namespace Binary64

theorem mem_trimZeros {digits : Text} {c : Char} (h : c ∈ trimZeros digits) :
    c = '0' ∨ c ∈ digits := by
  unfold trimZeros at h
  split at h
  · exact .inl (List.mem_singleton.mp h)
  · refine .inr ?_
    have hsub := (List.dropWhile_suffix (l := digits.reverse) (· = '0')).subset
    have := hsub (List.mem_reverse.mp h)
    exact List.mem_reverse.mp this

theorem mem_exponentText {e : Int} {c : Char} (h : c ∈ exponentText e) :
    isNumberChar c = true := by
  simp only [exponentText, List.mem_cons, List.mem_append, List.mem_replicate] at h
  rcases h with rfl | ⟨-, rfl⟩ | h
  · split <;> rfl
  · rfl
  · exact isNumberChar_of_mem_ofNat h

theorem mem_layOut {digits : Text} {point : Int} (hd : ∀ c ∈ digits, isNumberChar c = true)
    {c : Char} (h : c ∈ layOut digits point) : isNumberChar c = true := by
  have hdot : isNumberChar '.' = true := rfl
  have hzero : isNumberChar '0' = true := rfl
  unfold layOut at h
  split at h
  · rcases List.mem_append.mp h with h | h
    · split at h
      · simp only [List.mem_cons] at h hd
        rcases h with rfl | rfl | rfl | h
        · exact hd _ (.inl rfl)
        · exact hdot
        · exact hd _ (.inr (.inl rfl))
        · exact hd _ (.inr (.inr h))
      · exact hd c h
    · rcases List.mem_cons.mp h with rfl | h
      · rfl
      · exact mem_exponentText h
  · split at h
    · simp only [List.mem_cons, List.mem_append, List.mem_replicate] at h
      rcases h with rfl | rfl | ⟨-, rfl⟩ | h
      · exact hzero
      · exact hdot
      · exact hzero
      · exact hd c h
    · simp only at h
      split at h
      · simp only [List.mem_append, List.mem_replicate, List.mem_cons, List.not_mem_nil,
          or_false] at h
        rcases h with (h | ⟨-, rfl⟩) | rfl | rfl
        · exact hd c h
        · exact hzero
        · exact hdot
        · exact hzero
      · rcases List.mem_append.mp h with h | h
        · exact hd c (List.mem_of_mem_take h)
        · rcases List.mem_cons.mp h with rfl | h
          · exact hdot
          · exact hd c (List.mem_of_mem_drop h)

theorem mem_text {x : Binary64} {c : Char} (h : c ∈ x.text) : isNumberChar c = true := by
  cases x with
  | nan =>
      revert c
      decide
  | infinite negative =>
      revert c
      cases negative <;> decide
  | finite negative significand exponent =>
      have hun : ∀ d ∈ (if significand = 0 then "0.0".toList else
          layOut (trimZeros (Text.ofNat (shortest significand exponent).1))
            ((Text.ofNat (shortest significand exponent).1).length +
              (shortest significand exponent).2)), isNumberChar d = true := by
        intro d hd
        split at hd
        · revert d
          decide
        · refine mem_layOut (fun e he => ?_) hd
          rcases mem_trimZeros he with rfl | he
          · rfl
          · exact isNumberChar_of_mem_ofNat he
      unfold text at h
      simp only at h
      split at h
      · rcases List.mem_cons.mp h with rfl | h
        · rfl
        · exact hun c h
      · exact hun c h

end Binary64

theorem Number.mem_text {n : Number} {c : Char} (h : c ∈ n.text) : isNumberChar c = true := by
  cases n with
  | int m =>
      rcases Text.mem_ofInt h with h | h
      · obtain rfl : c = '-' := Char.toNat_inj.mp h
        rfl
      · exact isNumberChar_of_range h
  | float x => exact Binary64.mem_text h

theorem Binary64.layOut_ne_nil (digits : Text) (point : Int) : layOut digits point ≠ [] := by
  unfold layOut
  split
  · simp
  · split
    · simp
    · simp only
      split <;> simp

theorem Number.text_ne_nil (n : Number) : n.text ≠ [] := by
  cases n with
  | int m => exact Text.ofInt_ne_nil m
  | float x =>
      cases x with
      | nan => decide
      | infinite negative => cases negative <;> decide
      | finite negative significand exponent =>
          simp only [text, Binary64.text]
          split
          · simp
          · split
            · decide
            · exact Binary64.layOut_ne_nil _ _

/-! ### Numbers that were read -/

theorem Text.digit?_le {c : Char} {n : Nat} (h : digit? c = some n) : n ≤ 9 := by
  obtain ⟨z, hz, rfl⟩ := Option.map_eq_some_iff.1 h
  have hrange := List.find?_some hz
  simp only [Bool.and_eq_true, decide_eq_true_eq] at hrange
  omega

theorem Text.natOfDigits_lt (t : Text) : natOfDigits t < 10 ^ t.length := by
  induction t using List.reverseRecOn with
  | nil => exact Nat.one_pos
  | append_singleton t c ih =>
      have hd : (digit? c).getD 0 ≤ 9 := by
        cases h : digit? c with
        | none => exact Nat.zero_le 9
        | some n => exact digit?_le h
      rw [natOfDigits_concat, List.length_append, List.length_singleton, Nat.pow_succ]
      omega

theorem Text.length_ofNat_natOfDigits {t : Text} (h : t ≠ []) :
    (ofNat (natOfDigits t)).length ≤ t.length :=
  (Nat.length_toDigits_le_iff (by decide) (List.length_pos_iff.2 h)).2 (natOfDigits_lt t)

theorem Binary64.exists_mem_layOut (digits : Text) (point : Int) :
    ∃ c ∈ layOut digits point, c = '.' ∨ c = 'e' := by
  unfold layOut
  split
  · exact ⟨'e', by simp, .inr rfl⟩
  · split
    · exact ⟨'.', by simp, .inl rfl⟩
    · simp only
      split
      · exact ⟨'.', by simp, .inl rfl⟩
      · exact ⟨'.', by simp, .inl rfl⟩

/-- A floating-point number is never written like an integer. -/
theorem Binary64.exists_mem_text (x : Binary64) : ∃ c ∈ x.text, c = '.' ∨ c = 'e' ∨ c = 'n' := by
  cases x with
  | nan => exact ⟨'n', by decide, .inr (.inr rfl)⟩
  | infinite negative => exact ⟨'n', by cases negative <;> decide, .inr (.inr rfl)⟩
  | finite negative significand exponent =>
      have hunsigned : ∃ c ∈ (if significand = 0 then "0.0".toList
          else layOut (trimZeros (Text.ofNat (shortest significand exponent).1))
            ((Text.ofNat (shortest significand exponent).1).length +
              (shortest significand exponent).2)), c = '.' ∨ c = 'e' := by
        split
        · exact ⟨'.', by decide, .inl rfl⟩
        · exact exists_mem_layOut _ _
      obtain ⟨c, hc, h⟩ := hunsigned
      refine ⟨c, ?_, by tauto⟩
      unfold text
      simp only
      split
      · exact List.mem_cons_of_mem _ hc
      · exact hc

/-- A number that was read can be written. -/
theorem Number.isWritable_of_read? {t : Text} {n : Number} (h : read? t = .ok (some n)) :
    n.isWritable = true := by
  cases n with
  | float x => rfl
  | int n =>
      unfold read? at h
      split at h
      · cases h
      · next numeral hnum =>
          split at h
          · next hint =>
              split at h
              · cases h
              · next hlen =>
                  obtain ⟨-, hne, -⟩ := Numeral.whole_of_isInteger hnum hint
                  have habs : n.natAbs = Text.natOfDigits numeral.whole := by
                    have := Number.int.inj (Option.some.inj (Except.ok.inj h))
                    rw [← this, Numeral.toInt]
                    split <;> simp
                  have hdigits := Text.length_ofNat_natOfDigits hne
                  rw [isWritable, decide_eq_true_iff, habs]
                  omega
          · cases h

/-- The text of a number that can be written can be read. -/
theorem Number.exists_read?_text {n : Number} (h : n.isWritable = true) :
    ∃ found, read? n.text = .ok found := by
  cases n with
  | int n => exact ⟨_, read?_ofInt (of_decide_eq_true h)⟩
  | float x =>
      cases hread : read? (float x).text with
      | ok found => exact ⟨found, rfl⟩
      | error e =>
          have hnl : '\n' ∉ (float x).text := fun hm => absurd (mem_text hm) (by decide)
          rw [read?_eq_error_iff, Text.dropFinalNewline_of_not_mem hnl] at hread
          obtain ⟨c, hc, hchar⟩ := x.exists_mem_text
          have hdigit := hread.mem c hc
          rcases hchar with rfl | rfl | rfl <;> exact absurd hdigit (by decide)

end Agenda
