import Agenda.Proofs.Literals
import Agenda.Proofs.Numeral
import Agenda.Query.Condition

/-!
Whether the comparisons of a condition agree. Where a field and a word have an order, just one of
equal, less and greater holds, with one exception: a number and a text are equal if they are spelled
alike, but neither is the greater one if they stand for the same floating-point number. A text that
spells the number in some other way is thus none of the three. Spelled alike they always stand for
the same number, for what is written for a number is read back, by the loose reader too.
-/

namespace Agenda

/-! ### Texts and numbers -/

theorem Text.compare_eq_iff {s t : Text} : compare s t = .eq ↔ s = t := by
  rw [compare_eq, Std.compare_eq_iff_eq]
  exact List.map_inj_right fun _ _ h => Char.toNat_inj.1 h

namespace Binary64

theorem ofRatio_ne_nan (negative : Bool) (num den : Nat) : ofRatio negative num den ≠ .nan := by
  unfold ofRatio
  split
  · nofun
  · extract_lets e m
    generalize (if m = 2 ^ 53 then (2 ^ 52, e + 1) else (m, e)) = scaled
    obtain ⟨significand, exponent⟩ := scaled
    simp only
    split <;> nofun

theorem ofDecimal_ne_nan (negative : Bool) (digits : Nat) (exponent : Int) :
    ofDecimal negative digits exponent ≠ .nan := by
  unfold ofDecimal
  extract_lets magnitude
  split
  · nofun
  · split
    · nofun
    · exact ofRatio_ne_nan _ _ _

end Binary64

namespace Number

variable {t : Text} {m n : Number}

theorem read?_eq_none_iff :
    read? t = .ok none ↔ Numeral.read? (Text.dropFinalNewline t) = none := by
  unfold read?
  constructor
  · intro h
    split at h
    · next hnone => exact hnone
    · split at h
      · split at h <;> cases h
      · cases h
  · intro h
    rw [h]

theorem exists_numeral_of_read? (h : read? t = .ok (some n)) :
    ∃ numeral, Numeral.read? (Text.dropFinalNewline t) = some numeral ∧
      ((numeral.isInteger = true ∧ n = .int numeral.toInt) ∨ n = .float numeral.toBinary64) := by
  unfold read? at h
  split at h
  · cases h
  · next numeral hnumeral =>
      refine ⟨numeral, hnumeral, ?_⟩
      split at h
      · next hint =>
          split at h
          · cases h
          · exact .inl ⟨hint, (Option.some.inj (Except.ok.inj h)).symm⟩
      · exact .inr (Option.some.inj (Except.ok.inj h)).symm

theorem exact_ne_nan (h : n ≠ .float .nan) : n.exact ≠ .nan := by
  cases n with
  | int n => nofun
  | float x => exact fun hx => h (congrArg _ hx)

theorem ne_nan_of_read? (h : read? t = .ok (some n)) : n ≠ .float .nan := by
  obtain ⟨numeral, -, ⟨-, rfl⟩ | rfl⟩ := exists_numeral_of_read? h
  · nofun
  · exact fun heq => Binary64.ofDecimal_ne_nan _ _ _ (Number.float.inj heq)

theorem same_iff (hm : m ≠ .float .nan) (hn : n ≠ .float .nan) :
    m.same n = true ↔ m.order n = .eq := by
  simp [same, Binary64.same, order, exact_ne_nan hm, exact_ne_nan hn]

/-- A number and the floating-point number read for its text are equal. -/
theorem order_read?_text {x y : Binary64} (hx : n.toBinary64? = some x)
    (hnumeral : Numeral.read? n.text = none) (hy : Binary64.read? n.text = some y) :
    x.order y = .eq := by
  cases n with
  | int n =>
      have hread := Numeral.read?_integer (Text.takeSign_ofInt n) (Text.ofNat_ne_nil _)
        fun c hc => Text.isDigit_of_mem_ofNat hc
      rw [text, hread] at hnumeral
      cases hnumeral
  | float z =>
      obtain rfl : z = x := Option.some.inj hx
      cases z with
      | finite negative significand exponent =>
          have hread := Binary64.isSome_read?_text negative significand exponent
          rw [text] at hnumeral
          rw [hnumeral] at hread
          cases hread
      | infinite negative =>
          have hread : Binary64.read? (Binary64.infinite negative).text =
              some (.infinite negative) := by
            cases negative <;> decide
          obtain rfl := Option.some.inj (hread.symm.trans hy)
          exact Binary64.order_self _
      | nan => rfl

/-- A text is read for the floating-point number nearest to the number that it spells. -/
theorem order_read? {x y : Binary64} (h : read? t = .ok (some n)) (hx : Binary64.read? t = some x)
    (hy : n.toBinary64? = some y) : x.order y = .eq := by
  obtain ⟨numeral, hnumeral, hn⟩ := exists_numeral_of_read? h
  obtain rfl : numeral.toBinary64 = x :=
    Option.some.inj ((Binary64.read?_of_numeral hnumeral).symm.trans hx)
  rcases hn with ⟨hint, rfl⟩ | rfl
  · rw [← Binary64.order_swap, Numeral.order_toBinary64 hint hy]
    rfl
  · obtain rfl := Option.some.inj hy
    exact Binary64.order_self _

end Number

namespace Query

/-! ### Escapes -/

theorem exists_mem_resolveEscapes {t : Text} (h : '\\' ∈ t) :
    ∃ c ∈ resolveEscapes t, c ∈ ['\n', '\t', '\r', '\\'] := by
  induction t using resolveEscapes.induct with
  | case1 => cases h
  | case2 c => exact ⟨'\\', h, by decide⟩
  | case3 d cs e he =>
      refine ⟨e, by simp [resolveEscapes, he], ?_⟩
      unfold escape? at he
      split_ifs at he <;> obtain rfl := Option.some.inj he <;> decide
  | case4 d cs he => exact ⟨'\\', by simp [resolveEscapes, he], by decide⟩
  | case5 c d cs hc ih =>
      have htail : '\\' ∈ d :: cs := (List.mem_cons.1 h).resolve_left fun heq => hc heq.symm
      obtain ⟨e, he, hmem⟩ := ih htail
      exact ⟨e, by simp [resolveEscapes, hc, he], hmem⟩

theorem resolveEscapes_of_not_mem {t : Text} (h : '\\' ∉ t) : resolveEscapes t = t := by
  rw [← doubled_of_not_mem h, resolveEscapes_doubled, doubled_of_not_mem h]

/-- What the value of a word can be. -/
theorem Word.value_cases {w : Word} {literal : Value} (h : w.value = .ok literal) :
    literal = .null ∨ (∃ b, literal = .flag b) ∨
      (∃ n, literal = .number n ∧ Number.read? w.text = .ok (some n)) ∨
        (literal = .text w.plain ∧ Number.read? w.text = .ok none) := by
  unfold value at h
  split at h
  · exact .inr (.inl ⟨true, (Except.ok.inj h).symm⟩)
  split at h
  · exact .inr (.inl ⟨false, (Except.ok.inj h).symm⟩)
  split at h
  · exact .inl (Except.ok.inj h).symm
  · obtain ⟨found, hread, rfl⟩ := map_eq_ok.1 h
    cases found with
    | none => exact .inr (.inr (.inr ⟨rfl, hread⟩))
    | some n => exact .inr (.inr (.inl ⟨n, rfl, hread⟩))

/-! ### A number and a text -/

/-- A number and a text that are neither greater nor less as floating-point numbers, but are
spelled differently. -/
def SpelledApart (v : Value) (w : Word) (literal : Value) : Prop :=
  v.isNumber ≠ literal.isNumber ∧ v.plain ≠ comparedText w literal ∧
    ∃ x y, toBinary64 v = .ok (some x) ∧ toBinary64 literal = .ok (some y) ∧ x.order y = .eq

variable {v literal : Value} {w : Word} {o : Ordering}

theorem toBinary64_number {n : Number} {x : Binary64}
    (h : toBinary64 (.number n) = .ok (some x)) : n.toBinary64? = some x := by
  simp only [toBinary64] at h
  split at h
  · next hx => rw [hx, Option.some.inj (Except.ok.inj h)]
  · cases h

/-- A text that spells no number, but is what is written for one, has no escapes. -/
theorem text_eq_of_plain_eq {n : Number} (h : n.text = w.plain) : w.text = n.text := by
  have hmem : '\\' ∉ w.text := by
    intro hmem
    obtain ⟨c, hc, hescaped⟩ := exists_mem_resolveEscapes hmem
    have hchars : ∀ d ∈ ['\n', '\t', '\r', '\\'], isNumberChar d = false := by decide
    have hchar : isNumberChar c = true := Number.mem_text (n := n) (by rw [h]; exact hc)
    rw [hchars c hescaped] at hchar
    cases hchar
  rw [h, Word.plain, resolveEscapes_of_not_mem hmem]

theorem order_of_spelled_text {n : Number} {x y : Binary64} (hread : Number.read? w.text = .ok none)
    (hspelled : n.text = w.plain) (hx : toBinary64 (.number n) = .ok (some x))
    (hy : toBinary64 (.text w.plain) = .ok (some y)) : x.order y = .eq := by
  have hnl : '\n' ∉ n.text := fun hmem => absurd (Number.mem_text hmem) (by decide)
  rw [Number.read?_eq_none_iff, text_eq_of_plain_eq hspelled,
    Text.dropFinalNewline_of_not_mem hnl] at hread
  have hy : Binary64.read? w.plain = some y := Except.ok.inj hy
  exact Number.order_read?_text (toBinary64_number hx) hread (hspelled ▸ hy)

/-- A text that spells a number has no escapes. -/
theorem plain_eq_text {n : Number} (h : Number.read? w.text = .ok (some n)) : w.plain = w.text := by
  obtain ⟨numeral, hnumeral, -⟩ := Number.exists_numeral_of_read? h
  refine resolveEscapes_of_not_mem fun hmem => ?_
  have hpart := Numeral.isPart_of_read? hnumeral '\\' (Text.mem_dropFinalNewline (by decide) hmem)
  exact absurd hpart (by decide)

theorem order_of_spelled_number {n : Number} {x y : Binary64}
    (hread : Number.read? w.text = .ok (some n)) (hx : toBinary64 (.text w.plain) = .ok (some x))
    (hy : toBinary64 (.number n) = .ok (some y)) : x.order y = .eq := by
  have hx : Binary64.read? w.plain = some x := Except.ok.inj hx
  rw [plain_eq_text hread] at hx
  exact Number.order_read? hread hx (toBinary64_number hy)

theorem isWritable_of_toBinary64 {found : Option Binary64} (h : toBinary64 v = .ok found) :
    v.isWritable = true := by
  cases v with
  | number n =>
      cases n with
      | float x => rfl
      | int n =>
          simp only [toBinary64] at h
          split at h
          · next hx => exact Number.isWritable_of_toBinary64? hx
          · cases h
  | _ => rfl

theorem isWritable_of_mixedOrder (h : mixedOrder v w literal = .ok o) : v.isWritable = true := by
  unfold mixedOrder at h
  split at h
  · cases h
  · next hx => exact isWritable_of_toBinary64 hx
  · next hx => exact isWritable_of_toBinary64 hx

/-- A value that has an order with a text, or a text that has one with a number, is equal to it if
it is spelled alike. -/
theorem map_spell_iff {t : Text} (h : v.isWritable = true) :
    v.spell.map (· == t) = .ok true ↔ v.plain = t := by
  rw [Value.spell_eq_ok.2 ⟨h, rfl⟩, Except.map, Except.ok.injEq, beq_iff_eq]

theorem mixedOrder_of_map (h : (mixedOrder v w literal).map some = .ok (some o)) :
    mixedOrder v w literal = .ok o := by
  obtain ⟨o', hmixed, heq⟩ := map_eq_ok.1 h
  rw [hmixed, Option.some.inj heq]

/-- The order of a number and a text, if they have one, is that of two floating-point numbers, or
that of two texts if one of these is no number. -/
theorem mixedOrder_cases (h : mixedOrder v w literal = .ok o) :
    (∃ x y, toBinary64 v = .ok (some x) ∧ toBinary64 literal = .ok (some y) ∧ o = x.order y) ∨
      ((toBinary64 v = .ok none ∨ toBinary64 literal = .ok none) ∧
        o = Text.compare v.plain (comparedText w literal)) := by
  unfold mixedOrder at h
  extract_lets asTexts at h
  split at h
  · cases h
  · next hx => exact .inr ⟨.inl hx, (Except.ok.inj h).symm⟩
  · next x hx =>
      split at h
      · cases h
      · next hy => exact .inr ⟨.inr hy, (Except.ok.inj h).symm⟩
      · next y hy => exact .inl ⟨x, y, hx, hy, (Except.ok.inj h).symm⟩

/-- Neither of a number and a text is the greater one just when they are spelled alike or stand for
the same number, provided that they do stand for the same number when they are spelled alike. -/
theorem mixedOrder_eq_iff (hdiff : v.isNumber ≠ literal.isNumber)
    (halike : v.plain = comparedText w literal → ∀ x y, toBinary64 v = .ok (some x) →
      toBinary64 literal = .ok (some y) → x.order y = .eq)
    (h : mixedOrder v w literal = .ok o) :
    v.plain = comparedText w literal ∨ SpelledApart v w literal ↔ o = .eq := by
  obtain ⟨x, y, hx, hy, rfl⟩ | ⟨hnone, rfl⟩ := mixedOrder_cases h
  · constructor
    · rintro (hspelled | ⟨-, -, x', y', hx', hy', heq⟩)
      · exact halike hspelled x y hx hy
      · obtain rfl : x = x' := Option.some.inj (Except.ok.inj (hx.symm.trans hx'))
        obtain rfl : y = y' := Option.some.inj (Except.ok.inj (hy.symm.trans hy'))
        exact heq
    · intro heq
      by_cases hspelled : v.plain = comparedText w literal
      · exact .inl hspelled
      · exact .inr ⟨hdiff, hspelled, x, y, hx, hy, heq⟩
  · have hapart : ¬ SpelledApart v w literal := by
      rintro ⟨-, -, x, y, hx, hy, -⟩
      rcases hnone with hnone | hnone
      · cases hnone.symm.trans hx
      · cases hnone.symm.trans hy
    rw [or_iff_left hapart, Text.compare_eq_iff]

/-! ### All values -/

theorem not_spelledApart (h : v.isNumber = literal.isNumber) : ¬ SpelledApart v w literal :=
  fun hapart => hapart.1 h

theorem equalTo_of_spelledApart (h : SpelledApart v w literal) :
    equalTo v w literal = .ok false := by
  obtain ⟨hdiff, hspelled, x, y, hx, -⟩ := h
  have hspell := Value.spell_eq_ok.2 ⟨isWritable_of_toBinary64 hx, rfl⟩
  cases v <;> cases literal <;>
    simp_all [equalTo, Value.isNumber, Value.isNull, Except.map]

/-- Where a field and a word have an order, neither is the greater one just when they are equal or
spelled apart. -/
theorem equalTo_or_spelledApart_iff (hw : w.value = .ok literal) (hv : v ≠ .number (.float .nan))
    (ho : orderOf v w literal = .ok (some o)) :
    equalTo v w literal = .ok true ∨ SpelledApart v w literal ↔ o = .eq := by
  rcases Word.value_cases hw with rfl | ⟨b, rfl⟩ | ⟨n, rfl, hread⟩ | ⟨rfl, hread⟩
  · cases v <;> cases ho
  · cases v with
    | flag a =>
        obtain rfl := Option.some.inj (Except.ok.inj ho)
        refine (or_iff_left (not_spelledApart (by rfl))).trans ?_
        show (.ok (a == b) : Except Oversize Bool) = .ok true ↔ compare a.toNat b.toNat = .eq
        cases a <;> cases b <;> decide
    | _ => cases ho
  · cases v with
    | number m =>
        obtain rfl := Option.some.inj (Except.ok.inj ho)
        refine (or_iff_left (not_spelledApart (by rfl))).trans ?_
        show (.ok (m.same n) : Except Oversize Bool) = .ok true ↔ m.order n = .eq
        rw [Except.ok.injEq]
        exact Number.same_iff (fun heq => hv (congrArg _ heq)) (Number.ne_nan_of_read? hread)
    | text s =>
        have hmixed := mixedOrder_of_map ho
        rw [← mixedOrder_eq_iff (by nofun) (fun hspelled x y hx hy => ?_) hmixed]
        · exact or_congr_left (map_spell_iff (isWritable_of_mixedOrder hmixed))
        · obtain rfl : s = w.plain := hspelled
          exact order_of_spelled_number hread hx hy
    | _ => cases ho
  · cases v with
    | number m =>
        have hmixed := mixedOrder_of_map ho
        rw [← mixedOrder_eq_iff (by nofun) (fun hspelled x y hx hy => ?_) hmixed]
        · exact or_congr_left (map_spell_iff (isWritable_of_mixedOrder hmixed))
        · exact order_of_spelled_text hread hspelled hx hy
    | text s =>
        obtain rfl := Option.some.inj (Except.ok.inj ho)
        refine (or_iff_left (not_spelledApart (by rfl))).trans ?_
        rw [Text.compare_eq_iff]
        exact map_spell_iff (v := .text s) rfl
    | _ => cases ho

theorem holds_equal (hw : w.value = .ok literal) :
    Comparison.equal.holds v w = (equalTo v w literal).mapError .ofOversize := by
  rw [Comparison.holds, hw]
  rfl

theorem holds_greater (hw : w.value = .ok literal) (ho : orderOf v w literal = .ok (some o)) :
    Comparison.greater.holds v w = .ok (o == .gt) := by
  rw [Comparison.holds, hw, Except.mapError, Except.bind, ho]
  rfl

theorem holds_less (hw : w.value = .ok literal) (ho : orderOf v w literal = .ok (some o)) :
    Comparison.less.holds v w = .ok (o == .lt) := by
  rw [Comparison.holds, hw, Except.mapError, Except.bind, ho]
  rfl

def Comparison.ofOrdering : Ordering → Comparison
  | .eq => .equal
  | .gt => .greater
  | .lt => .less

theorem holds_iff (hw : w.value = .ok literal) (hv : v ≠ .number (.float .nan))
    (ho : orderOf v w literal = .ok (some o)) (hapart : ¬ SpelledApart v w literal)
    {op : Comparison} (hop : op ≠ .contains) :
    op.holds v w = .ok true ↔ op = .ofOrdering o := by
  cases op with
  | equal =>
      have hiff := equalTo_or_spelledApart_iff hw hv ho
      rw [holds_equal hw, mapError_eq_ok, ← or_iff_left (a := _ = _) hapart, hiff]
      cases o <;> decide
  | greater =>
      rw [holds_greater hw ho]
      cases o <;> decide
  | less =>
      rw [holds_less hw ho]
      cases o <;> decide
  | contains => exact absurd rfl hop

/-- Where a field and a word have an order, just one of equal, less and greater holds, and it is
equality just when neither is the greater one; but none of the three holds of a number and a text
that are spelled apart. -/
theorem comparisons_agree (hw : w.value = .ok literal) (hv : v ≠ .number (.float .nan))
    (ho : orderOf v w literal = .ok (some o)) :
    (¬ SpelledApart v w literal →
      (Comparison.equal.holds v w = .ok true ↔ o = .eq) ∧
        ∃! op : Comparison, op ≠ .contains ∧ op.holds v w = .ok true) ∧
      (SpelledApart v w literal →
        o = .eq ∧ ∀ op : Comparison, op ≠ .contains → op.holds v w = .ok false) := by
  constructor
  · intro hapart
    have hequal : Comparison.equal = .ofOrdering o ↔ o = .eq := by cases o <;> decide
    refine ⟨(holds_iff hw hv ho hapart (by decide)).trans hequal, .ofOrdering o, ?_, ?_⟩
    · have hop : Comparison.ofOrdering o ≠ .contains := by cases o <;> decide
      exact ⟨hop, (holds_iff hw hv ho hapart hop).2 rfl⟩
    · rintro op ⟨hop, hholds⟩
      exact (holds_iff hw hv ho hapart hop).1 hholds
  · intro hapart
    obtain rfl : o = .eq := (equalTo_or_spelledApart_iff hw hv ho).1 (.inr hapart)
    refine ⟨rfl, fun op hop => ?_⟩
    cases op with
    | equal =>
        rw [holds_equal hw, equalTo_of_spelledApart hapart]
        rfl
    | greater => exact holds_greater hw ho
    | less => exact holds_less hw ho
    | contains => exact absurd rfl hop

/-- Ten and the quoted text `1_0` are spelled apart. -/
theorem comparisons_agree_underscore :
    Word.value ⟨"1_0", true⟩ = .ok (.text "1_0") ∧
      orderOf (.number (.int 10)) ⟨"1_0", true⟩ (.text "1_0") = .ok (some .eq) ∧
      ∀ op : Comparison, op ≠ .contains →
        op.holds (.number (.int 10)) ⟨"1_0", true⟩ = .ok false := by
  have hvalue : Word.value ⟨"1_0", true⟩ = .ok (.text "1_0") := by decide
  have horder : orderOf (.number (.int 10)) ⟨"1_0", true⟩ (.text "1_0") = .ok (some .eq) := by
    decide +kernel
  have hapart : SpelledApart (.number (.int 10)) ⟨"1_0", true⟩ (.text "1_0") :=
    ⟨by decide, by decide, .ofInt 10, .ofInt 10, by decide +kernel, by decide +kernel,
      Binary64.order_self _⟩
  exact ⟨hvalue, horder, ((comparisons_agree hvalue (by decide) horder).2 hapart).2⟩

/-- So the text `1.0` has the order of the number one, but is not equal to it. -/
theorem text_neither_equal_less_greater :
    Word.value ⟨"1", false⟩ = .ok (.number (.int 1)) ∧
      orderOf (.text "1.0") ⟨"1", false⟩ (.number (.int 1)) = .ok (some .eq) ∧
      ¬ ∃ op : Comparison, op ≠ .contains ∧ op.holds (.text "1.0") ⟨"1", false⟩ = .ok true := by
  refine ⟨by decide, by decide +kernel, ?_⟩
  rintro ⟨op, hop, h⟩
  cases op with
  | equal => exact absurd h (by decide)
  | greater => exact absurd h (by decide +kernel)
  | less => exact absurd h (by decide +kernel)
  | contains => exact hop rfl

end Query

end Agenda
