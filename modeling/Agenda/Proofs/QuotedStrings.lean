import Agenda.Proofs.Spans
import Agenda.Scalar

/-!
Texts that are recognised as quoted. The test looks at both ends of a text and at the backslashes
before the last quote, so it also takes several strings for one, as in `"a" "b"`, and it does not
see a backslash that keeps a backtick from closing. The text is one string if and only if every
quote of its dialect inside is escaped and the last one is not.
-/

namespace Agenda

theorem trailingBackslashes_cons {c : Char} (h : c ≠ '\\') (t : Text) :
    trailingBackslashes (c :: t) = trailingBackslashes t := by
  rw [trailingBackslashes, trailingBackslashes, List.reverse_cons, List.takeWhile_append]
  split
  · next hlength =>
      have hself := (List.takeWhile_prefix (· = '\\')).eq_of_length hlength
      simp [h, hself]
  · rfl

theorem Quote.mark_ne_backslash (q : Quote) : q.mark ≠ '\\' := by
  cases q <;> decide

variable {t : Text} {q : Quote} {body : Text}

/-! ### Inside of a quote -/

namespace Scan

/-- A quote is closed by its own mark only, and only where no backslash escapes it. -/
theorem quote_step {s : Scan} (h : s.quote = some q) (c : Char) :
    (s.step c).quote = if s.escaped = false ∧ c = q.mark then none else some q := by
  cases he : s.escaped with
  | true => simp [step, he, h]
  | false =>
      by_cases hm : c = q.mark
      · simp [step, he, h, hm, q.mark_ne_backslash]
      · by_cases hc : c = '\\'
        · simp [step, he, h, hc, q.mark_ne_backslash.symm]
        · simp [step, he, h, hc, hm]

/-- A mark outside of quotes opens one. -/
theorem quote_step_mark {s : Scan} (h : s.quote = none) (hescaped : s.escaped = false) (q : Quote) :
    (s.step q.mark).quote = some q := by
  simp [step, hescaped, h, q.mark_ne_backslash]

/-- After an opening mark the quote stays open as long as every mark is escaped. -/
theorem quote_after_mark (h : ∀ before after, body = before ++ q.mark :: after →
    trailingBackslashes before % 2 = 1) : (start.after (q.mark :: body)).quote = some q := by
  induction body using List.reverseRecOn with
  | nil => cases q <;> rfl
  | append_singleton body c ih =>
      have hopen := ih fun before after hb => h before (after ++ [c]) (by simp [hb])
      rw [← List.cons_append, after_concat, quote_step hopen, if_neg]
      rintro ⟨hescaped, rfl⟩
      have hodd := h body [] rfl
      rw [← trailingBackslashes_cons q.mark_ne_backslash, ← escaped_after_start, hescaped] at hodd
      cases hodd

theorem keeps_iff {s : Scan} : s.Keeps t ↔ ∀ before c after, t = before ++ c :: after →
    (s.after before).separates c = false := by
  constructor
  · rintro h before c after rfl
    exact (keeps_append.1 h).2.1
  · intro h
    induction t generalizing s with
    | nil => trivial
    | cons c t ih =>
        refine ⟨h [] c t rfl, ih fun before d after ht => ?_⟩
        rw [← after_cons]
        exact h (c :: before) d after (by rw [ht]; rfl)

end Scan

theorem tokens_eq_self_iff : tokens t = [⟨t, 0⟩] ↔ t ≠ [] ∧ Scan.start.Keeps t := by
  constructor
  · intro h
    have hmem : (⟨t, 0⟩ : Token) ∈ tokens t := h ▸ List.mem_singleton_self _
    obtain ⟨before, after, hbetween⟩ := between_tokens hmem
    exact ⟨hbetween.ne_nil, hbetween.keeps⟩
  · rintro ⟨hne, hkeeps⟩
    exact tokens_of_keeps hkeeps hne

/-! ### The ends -/

/-- A text that is recognised begins and ends with a mark. The last one is not escaped, unless there
is none of that kind in between. -/
theorem exists_body (h : isQuotedString t = true) : ∃ (q : Quote) (body : Text),
    t = q.mark :: body ++ [q.mark] ∧
      (trailingBackslashes body % 2 = 0 ∨ q.mark ∉ body) := by
  unfold isQuotedString at h
  split at h
  · cases h
  · next body hbody => exact ⟨.backtick, body, quotedBody?_eq_some hbody,
      .inr (by simpa [Quote.mark] using h)⟩
  · next q body _ hbody => exact ⟨q, body, quotedBody?_eq_some hbody, .inl (by simpa using h)⟩

theorem escaped_after_mark (q : Quote) (body : Text) :
    (Scan.start.after (q.mark :: body)).escaped = false ↔ trailingBackslashes body % 2 = 0 := by
  rw [← Bool.not_eq_true, Scan.escaped_after_start, trailingBackslashes_cons q.mark_ne_backslash,
    Nat.mod_two_not_eq_one]

theorem quote_after_mark_of_not_mem (h : q.mark ∉ body) :
    (Scan.start.after (q.mark :: body)).quote = some q := by
  refine Scan.quote_after_mark ?_
  rintro before after rfl
  exact absurd (by simp) h

/-- The last mark closes the quote that is open before it, if that is one of its kind. -/
theorem unclosedQuote?_wrap_iff (h : trailingBackslashes body % 2 = 0 ∨ q.mark ∉ body) :
    unclosedQuote? (q.mark :: body ++ [q.mark]) = none ↔
      (Scan.start.after (q.mark :: body)).quote = some q ∧ trailingBackslashes body % 2 = 0 := by
  rw [unclosedQuote?_eq_none_iff, Scan.after_concat]
  have hescaped := escaped_after_mark q body
  cases hquote : (Scan.start.after (q.mark :: body)).quote with
  | none =>
      -- Outside of quotes the last mark opens a quote.
      have hfinal : trailingBackslashes body % 2 = 0 := h.resolve_right fun hmem => by
        rw [quote_after_mark_of_not_mem hmem] at hquote
        cases hquote
      rw [Scan.quote_step_mark hquote (hescaped.2 hfinal)]
      simp
  | some q' =>
      have hmark : q.mark = q'.mark ↔ q' = q := by
        cases q <;> cases q' <;> decide
      rw [Scan.quote_step hquote, ite_eq_left_iff, hescaped, hmark]
      simp [and_comm]

/-! ### One string -/

/-- The text is one quoted string: it is one token, and the quote that its first character opens is
closed by the last one and by none before. -/
structure IsOneString (t : Text) : Prop where
  tokens_eq : tokens t = [⟨t, 0⟩]
  closed : unclosedQuote? t = none
  open_before : ∀ before after, t = before ++ after → before ≠ [] → after ≠ [] →
    unclosedQuote? before ≠ none

/-- Every mark of the dialect in the body is escaped, and one after it would not be. -/
structure Quote.Seals (q : Quote) (body : Text) : Prop where
  inside : ∀ before after, body = before ++ q.mark :: after → trailingBackslashes before % 2 = 1
  final : trailingBackslashes body % 2 = 0

/-- Every blank and comma of the text is escaped or in quotes, and the last character closes a
quote. -/
structure IsUnbroken (t : Text) : Prop where
  kept : ∀ before c after, t = before ++ c :: after → isBlank c = true ∨ c = ',' →
    trailingBackslashes before % 2 = 1 ∨ unclosedQuote? before ≠ none
  closes : ∃ q before pos, t = before ++ [q.mark] ∧ unclosedQuote? before = some (q, pos) ∧
    trailingBackslashes before % 2 = 0

theorem keeps_start_iff : Scan.start.Keeps t ↔ ∀ before c after, t = before ++ c :: after →
    isBlank c = true ∨ c = ',' →
      trailingBackslashes before % 2 = 1 ∨ unclosedQuote? before ≠ none := by
  rw [Scan.keeps_iff]
  refine forall₄_congr fun before c after _ => ?_
  rw [← Bool.not_eq_true, separates_after_iff, ← Nat.mod_two_ne_zero]
  tauto

theorem exists_unclosedQuote?_iff : (∃ pos, unclosedQuote? t = some (q, pos)) ↔
    (Scan.start.after t).quote = some q := by
  rw [← Scan.map_fst_unclosed .start 0 0, Option.map_eq_some_iff]
  constructor
  · rintro ⟨pos, h⟩
    exact ⟨(q, pos), h, rfl⟩
  · rintro ⟨⟨_, pos⟩, h, rfl⟩
    exact ⟨pos, h⟩

/-- When a text that is recognised as quoted is one token with no quote left open. -/
theorem isUnbroken_iff (h : trailingBackslashes body % 2 = 0 ∨ q.mark ∉ body) :
    (tokens (q.mark :: body ++ [q.mark]) = [⟨q.mark :: body ++ [q.mark], 0⟩] ∧
      unclosedQuote? (q.mark :: body ++ [q.mark]) = none) ↔
      IsUnbroken (q.mark :: body ++ [q.mark]) := by
  have hne : q.mark :: body ++ [q.mark] ≠ [] := List.cons_ne_nil _ _
  rw [tokens_eq_self_iff, and_iff_right hne, keeps_start_iff,
    unclosedQuote?_wrap_iff h, ← exists_unclosedQuote?_iff]
  constructor
  · rintro ⟨hkept, ⟨pos, hopen⟩, hfinal⟩
    refine ⟨hkept, q, q.mark :: body, pos, rfl, hopen, ?_⟩
    rw [trailingBackslashes_cons q.mark_ne_backslash, hfinal]
  · rintro ⟨hkept, q', before, pos, ht, hopen, hfinal⟩
    obtain ⟨rfl, hmark⟩ := List.append_inj' ht rfl
    obtain rfl : q = q' := by
      have := congrArg Quote.ofChar? (List.cons.inj hmark).1
      simpa using this
    rw [trailingBackslashes_cons q.mark_ne_backslash] at hfinal
    exact ⟨hkept, ⟨pos, hopen⟩, hfinal⟩

/-- A proper beginning of the text is the first mark with a beginning of the body. -/
theorem exists_front {before after : Text} (ht : q.mark :: body ++ [q.mark] = before ++ after)
    (hbefore : before ≠ []) (hafter : after ≠ []) :
    ∃ front back, before = q.mark :: front ∧ body = front ++ back := by
  obtain ⟨c, front, rfl⟩ := List.exists_cons_of_ne_nil hbefore
  rw [← List.dropLast_concat_getLast hafter, ← List.append_assoc] at ht
  obtain ⟨hcons, -⟩ := List.append_inj' ht rfl
  obtain ⟨rfl, hbody⟩ := List.cons.inj hcons
  exact ⟨front, after.dropLast, rfl, hbody⟩

/-- A quote that is open before every later character is the first one. -/
theorem quote_of_open (h : ∀ front back, body = front ++ back →
    (Scan.start.after (q.mark :: front)).quote ≠ none) :
    (Scan.start.after (q.mark :: body)).quote = some q := by
  induction body using List.reverseRecOn with
  | nil => cases q <;> rfl
  | append_singleton body c ih =>
      have hopen := ih fun front back hb => h front (back ++ [c]) (by simp [hb])
      have hlast := h (body ++ [c]) [] (by simp)
      rw [← List.cons_append, Scan.after_concat, Scan.quote_step hopen] at hlast ⊢
      exact if_neg fun hclosed => hlast (if_pos hclosed)

theorem isOneString_iff_seals (h : trailingBackslashes body % 2 = 0 ∨ q.mark ∉ body) :
    IsOneString (q.mark :: body ++ [q.mark]) ↔ q.Seals body := by
  constructor
  · intro hone
    have hopen : ∀ front back, body = front ++ back →
        (Scan.start.after (q.mark :: front)).quote ≠ none := by
      rintro front back rfl
      rw [ne_eq, ← unclosedQuote?_eq_none_iff]
      exact hone.open_before (q.mark :: front) (back ++ [q.mark]) (by simp) (by simp) (by simp)
    refine ⟨?_, ((unclosedQuote?_wrap_iff h).1 hone.closed).2⟩
    rintro before after rfl
    have hquote : (Scan.start.after (q.mark :: before)).quote = some q := quote_of_open
      fun front back hb => hopen front (back ++ q.mark :: after) (by simp [hb])
    have hnext := hopen (before ++ [q.mark]) after (by simp)
    rw [← List.cons_append, Scan.after_concat, Scan.quote_step hquote] at hnext
    by_contra hodd
    exact hnext (if_pos ⟨(escaped_after_mark q before).2 (by omega), rfl⟩)
  · intro hseals
    have hfront : ∀ before after, q.mark :: body ++ [q.mark] = before ++ after → before ≠ [] →
        after ≠ [] → unclosedQuote? before ≠ none := by
      intro before after ht hbefore hafter
      obtain ⟨front, back, rfl, rfl⟩ := exists_front ht hbefore hafter
      have hquote : (Scan.start.after (q.mark :: front)).quote = some q := Scan.quote_after_mark
        fun x y hb => hseals.inside x (y ++ back) (by simp [hb])
      rw [ne_eq, unclosedQuote?_eq_none_iff, hquote]
      exact Option.some_ne_none q
    have hquote := Scan.quote_after_mark hseals.inside
    refine ⟨?_, (unclosedQuote?_wrap_iff h).2 ⟨hquote, hseals.final⟩, hfront⟩
    rw [tokens_eq_self_iff, keeps_start_iff]
    refine ⟨List.cons_ne_nil _ _, fun before c after ht hc => .inr ?_⟩
    -- The first character is a mark, which separates nothing; before any other the quote is open.
    cases before with
    | nil =>
        obtain rfl := (List.cons.inj ht).1
        cases q <;> revert hc <;> decide
    | cons d before => exact hfront _ _ ht (List.cons_ne_nil _ _) (List.cons_ne_nil _ _)

/-! ### What is recognised -/

/-- A text that is recognised as quoted stands for what is between its ends, whatever that is. It is
one token with no quote left open only if nothing in it separates, and it is one string only if no
mark before the last one closes it. -/
theorem quoted_isOneString_iff (h : isQuotedString t = true) :
    ∃ (q : Quote) (body : Text), t = q.mark :: body ++ [q.mark] ∧
      Scalar.read t = .ok (.text (q.decode body)) ∧
      ((tokens t = [⟨t, 0⟩] ∧ unclosedQuote? t = none) ↔ IsUnbroken t) ∧
      (IsOneString t ↔ q.Seals body) := by
  obtain ⟨q, body, rfl, hend⟩ := exists_body h
  refine ⟨q, body, rfl, ?_, isUnbroken_iff hend, isOneString_iff_seals hend⟩
  simp only [Scalar.read, h, dequote, quotedBody?_wrap, if_true]

/-- Two strings are recognised as one, and read as one text. -/
theorem quoted_isOneString_iff_pieces :
    isQuotedString "\"a\" \"b\"" = true ∧
      Scalar.read "\"a\" \"b\"" = .ok (.text "a\" \"b") ∧
      tokens "\"a\" \"b\"" = [⟨"\"a\"", 0⟩, ⟨"\"b\"", 4⟩] ∧
      ¬ IsUnbroken "\"a\" \"b\"" ∧ ¬ IsOneString "\"a\" \"b\"" := by
  have hquoted : isQuotedString "\"a\" \"b\"" = true := by decide
  have htokens : tokens "\"a\" \"b\"" = [⟨"\"a\"", 0⟩, ⟨"\"b\"", 4⟩] := by decide
  obtain ⟨q, body, ht, hread, hunbroken, -⟩ := quoted_isOneString_iff hquoted
  have hbody : quotedBody? "\"a\" \"b\"" = some (q, body) := by rw [ht, quotedBody?_wrap]
  obtain ⟨rfl, rfl⟩ : .double = q ∧ "a\" \"b" = body :=
    Prod.mk.inj (Option.some.inj ((by decide : quotedBody? _ = _).symm.trans hbody))
  have hmany : ∀ {P : Prop}, tokens "\"a\" \"b\"" = [⟨"\"a\" \"b\"", 0⟩] → P := fun h =>
    absurd (htokens.symm.trans h) (by decide)
  exact ⟨hquoted, hread, htokens, fun h => hmany (hunbroken.2 h).1, fun h => hmany h.tokens_eq⟩

/-- A backslash before the last backtick does not keep it from being the last, but a scan goes past
it. -/
example : isQuotedString "\x60a\\\x60" = true ∧
    unclosedQuote? "\x60a\\\x60" = some (.backtick, 0) := by decide

end Agenda
