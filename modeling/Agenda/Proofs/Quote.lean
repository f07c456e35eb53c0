import Agenda.Quote
import Agenda.Proofs.Text
import Mathlib.Data.List.Induction

/-!
Quoted strings are exact: `enquote` gives a quoted string that stands for the text it was made
of. A scan that comes to it outside quotes leaves it outside quotes again, and the string has
neither a line feed nor a carriage return nor a tab.
-/

namespace Agenda

namespace Quote

@[simp] theorem ofChar?_mark (q : Quote) : ofChar? q.mark = some q := by
  cases q <;> rfl

theorem eq_mark_of_ofChar? {c : Char} {q : Quote} (h : ofChar? c = some q) : c = q.mark := by
  unfold ofChar? at h
  split at h
  · next hc => cases h; exact hc
  · split at h
    · next hc => cases h; exact hc
    · split at h
      · next hc => cases h; exact hc
      · cases h

theorem decode_cons_plain (q : Quote) {c : Char} (h : c ≠ '\\') (t : Text) :
    q.decode (c :: t) = c :: q.decode t := by
  cases t with
  | nil => rfl
  | cons d t => rw [decode, if_neg h]

theorem decode_of_no_backslash (q : Quote) {t : Text} (h : '\\' ∉ t) : q.decode t = t := by
  induction t with
  | nil => rfl
  | cons c t ih =>
      have hc : c ≠ '\\' := fun hc => h (by simp [hc])
      rw [decode_cons_plain q hc, ih fun ht => h (List.mem_cons_of_mem _ ht)]

theorem decode_escapeChar (c : Char) (t : Text) :
    double.decode (escapeChar c ++ t) = c :: double.decode t := by
  by_cases h₁ : c = '\\'
  · subst h₁; rfl
  by_cases h₂ : c = '"'
  · subst h₂; rfl
  by_cases h₃ : c = '\n'
  · subst h₃; rfl
  by_cases h₄ : c = '\r'
  · subst h₄; rfl
  by_cases h₅ : c = '\t'
  · subst h₅; rfl
  have hplain : escapeChar c = [c] := by simp [escapeChar, h₁, h₂, h₃, h₄, h₅]
  rw [hplain, List.singleton_append, decode_cons_plain _ h₁]

theorem decode_escaped (t : Text) : double.decode (t.flatMap escapeChar) = t := by
  induction t with
  | nil => rfl
  | cons c t ih => rw [List.flatMap_cons, decode_escapeChar, ih]

end Quote

/-! ### The shape of quoted strings -/

theorem quotedBody?_wrap (q : Quote) (body : Text) :
    quotedBody? (q.mark :: body ++ [q.mark]) = some (q, body) := by
  simp [quotedBody?]

theorem quotedBody?_eq_some {t body : Text} {q : Quote} (h : quotedBody? t = some (q, body)) :
    t = q.mark :: body ++ [q.mark] := by
  unfold quotedBody? at h
  split at h
  · cases h
  · next c rest =>
      split at h
      · cases h
      · next q' hq =>
          split at h
          · next hlast =>
              cases h
              obtain rfl := Quote.eq_mark_of_ofChar? hq
              obtain ⟨hne, hl⟩ := List.getLast?_eq_some_iff.1 hlast
              simp [hl]
          · cases h

theorem trailingBackslashes_concat_ne {t : Text} {c : Char} (h : c ≠ '\\') :
    trailingBackslashes (t ++ [c]) = 0 := by
  simp [trailingBackslashes, h]

theorem trailingBackslashes_of_no_backslash {t : Text} (h : '\\' ∉ t) :
    trailingBackslashes t = 0 := by
  rcases List.eq_nil_or_concat t with rfl | ⟨s, c, rfl⟩
  · rfl
  · have hc : c ≠ '\\' := by
      rintro rfl
      simp at h
    rw [List.concat_eq_append, trailingBackslashes_concat_ne hc]

/-- An escaped text ends with an even number of backslashes, as each that it has comes from a
pair. -/
theorem even_trailingBackslashes_escaped (t : Text) :
    trailingBackslashes (t.flatMap escapeChar) % 2 = 0 := by
  induction t using List.reverseRecOn with
  | nil => rfl
  | append_singleton t c ih =>
      rw [List.flatMap_append, List.flatMap_singleton]
      by_cases h₁ : c = '\\'
      · subst h₁
        have : trailingBackslashes (t.flatMap escapeChar ++ escapeChar '\\') =
            trailingBackslashes (t.flatMap escapeChar) + 2 := by
          simp [trailingBackslashes, escapeChar]
        omega
      · obtain ⟨s, d, hd, hs⟩ : ∃ s d, d ≠ '\\' ∧ escapeChar c = s ++ [d] := by
          unfold escapeChar
          split
          · contradiction
          · split
            · exact ⟨['\\'], '"', by decide, rfl⟩
            · split
              · exact ⟨['\\'], 'n', by decide, rfl⟩
              · split
                · exact ⟨['\\'], 'r', by decide, rfl⟩
                · split
                  · exact ⟨['\\'], 't', by decide, rfl⟩
                  · exact ⟨[], c, h₁, rfl⟩
        rw [hs, ← List.append_assoc, trailingBackslashes_concat_ne hd]

/-! ### What `enquote` gives

All three ways of quoting are alike in this: the body says the text in its dialect, and the quote
that closes it is not escaped. -/

/-- The body of a quoted string, ready to be closed by the mark of its dialect. -/
structure Quote.Holds (q : Quote) (body t : Text) : Prop where
  decode_eq : q.decode body = t
  isQuoted : isQuotedString (q.mark :: body ++ [q.mark]) = true

theorem Quote.double_holds_plain {t : Text} (h : ∀ c ∈ t, c ≠ '"' ∧ needsEscape c = false) :
    Quote.double.Holds t t := by
  have hb : '\\' ∉ t := fun hm => absurd (h _ hm).2 (by decide)
  refine ⟨decode_of_no_backslash _ hb, ?_⟩
  rw [isQuotedString, quotedBody?_wrap]
  simp [trailingBackslashes_of_no_backslash hb]

theorem Quote.backtick_holds_plain {t : Text}
    (h : ∀ c ∈ t, c ≠ '\x60' ∧ needsEscape c = false) : Quote.backtick.Holds t t := by
  have hb : '\\' ∉ t := fun hm => absurd (h _ hm).2 (by decide)
  have hq : '\x60' ∉ t := fun hm => absurd rfl (h _ hm).1
  refine ⟨decode_of_no_backslash _ hb, ?_⟩
  rw [isQuotedString, quotedBody?_wrap]
  simp [hq]

theorem Quote.double_holds_escaped (t : Text) : Quote.double.Holds (t.flatMap escapeChar) t := by
  refine ⟨decode_escaped t, ?_⟩
  rw [isQuotedString, quotedBody?_wrap]
  simp [even_trailingBackslashes_escaped]

/-- The three forms of a quoted text. -/
theorem enquote_cases (t : Text) :
    (enquote t = '"' :: t ++ ['"'] ∧ ∀ c ∈ t, c ≠ '"' ∧ needsEscape c = false) ∨
      (enquote t = '\x60' :: t ++ ['\x60'] ∧ ∀ c ∈ t, c ≠ '\x60' ∧ needsEscape c = false) ∨
      enquote t = '"' :: t.flatMap escapeChar ++ ['"'] := by
  unfold enquote
  split
  · next h => exact .inl ⟨rfl, by simpa using h⟩
  · split
    · next h => exact .inr (.inl ⟨rfl, by simpa using h⟩)
    · exact .inr (.inr rfl)

theorem exists_holds_enquote (t : Text) :
    ∃ q body, enquote t = q.mark :: body ++ [q.mark] ∧ Quote.Holds q body t := by
  rcases enquote_cases t with ⟨he, h⟩ | ⟨he, h⟩ | he
  · exact ⟨.double, t, he, Quote.double_holds_plain h⟩
  · exact ⟨.backtick, t, he, Quote.backtick_holds_plain h⟩
  · exact ⟨.double, _, he, Quote.double_holds_escaped t⟩

@[simp] theorem isQuotedString_enquote (t : Text) : isQuotedString (enquote t) = true := by
  obtain ⟨q, body, he, h⟩ := exists_holds_enquote t
  rw [he]
  exact h.isQuoted

@[simp] theorem dequote_enquote (t : Text) : dequote (enquote t) = t := by
  obtain ⟨q, body, he, h⟩ := exists_holds_enquote t
  rw [he, dequote, quotedBody?_wrap]
  simp only [h.isQuoted, if_true, h.decode_eq]

theorem head?_enquote (t : Text) : ∃ q : Quote, (enquote t).head? = some q.mark := by
  obtain ⟨q, body, he, -⟩ := exists_holds_enquote t
  exact ⟨q, by simp [he]⟩

theorem getLast?_enquote (t : Text) : ∃ q : Quote, (enquote t).getLast? = some q.mark := by
  obtain ⟨q, body, he, -⟩ := exists_holds_enquote t
  exact ⟨q, by rw [he, List.getLast?_append]; rfl⟩

theorem mem_escapeChar {c d : Char} (h : d ∈ escapeChar c) :
    d ≠ '\n' ∧ d ≠ '\r' ∧ d ≠ '\t' := by
  unfold escapeChar at h
  repeat' split at h
  all_goals
    simp only [List.mem_cons, List.not_mem_nil, or_false] at h
    grind

/-- A quoted text is on one line and has no tab. -/
theorem mem_enquote {t : Text} {c : Char} (h : c ∈ enquote t) :
    c ≠ '\n' ∧ c ≠ '\r' ∧ c ≠ '\t' := by
  have hmark : ∀ q : Quote, q.mark ≠ '\n' ∧ q.mark ≠ '\r' ∧ q.mark ≠ '\t' := by
    intro q
    cases q <;> decide
  have hplain : needsEscape c = false → c ≠ '\n' ∧ c ≠ '\r' ∧ c ≠ '\t' := by
    intro hc
    simp [needsEscape] at hc
    exact ⟨hc.1.1.2, hc.1.2, hc.2⟩
  rcases enquote_cases t with ⟨he, ht⟩ | ⟨he, ht⟩ | he
  all_goals
    rw [he] at h
    simp only [List.cons_append, List.mem_cons, List.mem_append, List.not_mem_nil, or_false] at h
    rcases h with rfl | h | rfl
  · exact hmark .double
  · exact hplain (ht c h).2
  · exact hmark .double
  · exact hmark .backtick
  · exact hplain (ht c h).2
  · exact hmark .backtick
  · exact hmark .double
  · obtain ⟨d, -, hd⟩ := List.mem_flatMap.mp h
    exact mem_escapeChar hd
  · exact hmark .double

end Agenda
