import Agenda.Proofs.Token

/-!
The tokens of a text as spans. Each is cut out where a scan comes to it outside quotes, so it is
the same token when it stands alone; between two tokens there is a separator, and no character is
lost but the separators. What a scan knows at some place can be told from the text before that
place: whether an odd number of backslashes ends it, and which quote is left open in it.
-/

namespace Agenda

/-! ### What a scan knows -/

namespace Scan

/-- The quote that is left open is that of the state at the end. -/
theorem map_fst_unclosed (s : Scan) (opened pos : Nat) (t : Text) :
    (s.unclosed opened pos t).map (·.1) = (s.after t).quote := by
  induction t generalizing s opened pos with
  | nil => cases h : s.quote <;> simp [unclosed, h]
  | cons c t ih => exact ih (s.step c) _ _

theorem after_concat (s : Scan) (t : Text) (c : Char) :
    s.after (t ++ [c]) = (s.after t).step c := by
  rw [after_append, after_cons, after_nil]

/-- A character is escaped if and only if an odd number of backslashes stands before it. -/
theorem escaped_after_start (t : Text) :
    (start.after t).escaped = true ↔ trailingBackslashes t % 2 = 1 := by
  induction t using List.reverseRecOn with
  | nil => simp [start, trailingBackslashes]
  | append_singleton t c ih =>
      rw [after_concat]
      by_cases hc : c = '\\'
      · subst hc
        have hcount : trailingBackslashes (t ++ ['\\']) = trailingBackslashes t + 1 := by
          simp [trailingBackslashes]
        cases he : (start.after t).escaped <;> simp [step, he, hcount] at ih ⊢ <;> omega
      · rw [trailingBackslashes_concat_ne hc]
        cases he : (start.after t).escaped with
        | true => simp [step, he]
        | false =>
            simp only [step, he, hc, Bool.false_eq_true, if_false]
            split
            · simp
            · split <;> simp

theorem separates_iff {s : Scan} {c : Char} :
    s.separates c = true ↔ (isBlank c = true ∨ c = ',') ∧ s.escaped = false ∧ s.quote = none := by
  simp only [separates, Bool.and_eq_true, Bool.not_eq_true', Option.isNone_iff_eq_none,
    Bool.or_eq_true, decide_eq_true_eq]
  tauto

/-- After a separator a scan is where it started. -/
theorem step_of_separates {s : Scan} {c : Char} (h : s.separates c = true) : s.step c = start := by
  obtain ⟨hc, hescaped, hquote⟩ := separates_iff.1 h
  have hne : ∀ d, isBlank d = false → d ≠ ',' → c ≠ d := by
    rintro d hblank hcomma rfl
    rcases hc with hc | hc
    · rw [hblank] at hc
      cases hc
    · exact hcomma hc
  have hmark : Quote.ofChar? c = none := by
    simp [Quote.ofChar?, hne '"' (by decide) (by decide), hne '\'' (by decide) (by decide),
      hne '\x60' (by decide) (by decide)]
  simp [step, hescaped, hquote, hne '\\' (by decide) (by decide), hmark, start]

end Scan

theorem unclosedQuote?_eq_none_iff {t : Text} :
    unclosedQuote? t = none ↔ (Scan.start.after t).quote = none := by
  rw [← Scan.map_fst_unclosed .start 0 0, Option.map_eq_none_iff]
  rfl

/-- A character separates tokens if it is a blank or a comma, no backslash escapes it and no quote
is open before it. -/
theorem separates_after_iff {t : Text} {c : Char} :
    (Scan.start.after t).separates c = true ↔ (isBlank c = true ∨ c = ',') ∧
      trailingBackslashes t % 2 = 0 ∧ unclosedQuote? t = none := by
  have hescaped : (Scan.start.after t).escaped = false ↔ trailingBackslashes t % 2 = 0 := by
    rw [← Bool.not_eq_true, Scan.escaped_after_start, Nat.mod_two_not_eq_one]
  rw [Scan.separates_iff, unclosedQuote?_eq_none_iff, hescaped]

/-! ### Where tokens are cut out -/

namespace Token

def Covers (tok : Token) (i : Nat) : Prop := tok.start ≤ i ∧ i < tok.stop

instance (tok : Token) (i : Nat) : Decidable (tok.Covers i) := inferInstanceAs (Decidable (_ ∧ _))

/-- The token stands in a text, which begins at position `pos`, between `before` and `after`. A scan
that enters the text in state `s` comes to it outside quotes and meets no separator in it. -/
structure Between (s : Scan) (pos : Nat) (t before : Text) (tok : Token) (after : Text) : Prop where
  text_eq : t = before ++ (tok.text ++ after)
  start_eq : tok.start = pos + before.length
  ne_nil : tok.text ≠ []
  entered : s.after before = .start
  keeps : Scan.start.Keeps tok.text

theorem Between.cons {s : Scan} {pos : Nat} {t before after : Text} {tok : Token} {c : Char}
    (h : Between (s.step c) (pos + 1) t before tok after) :
    Between s pos (c :: t) (c :: before) tok after where
  text_eq := by rw [h.text_eq, List.cons_append]
  start_eq := by rw [h.start_eq, List.length_cons]; omega
  ne_nil := h.ne_nil
  entered := h.entered
  keeps := h.keeps

end Token

variable {s : Scan} {pos : Nat} {t : Text} {tok : Token}

/-- The first word is kept, and each token stands somewhere after it. -/
theorem between_cutTokens (s : Scan) (pos : Nat) (t : Text) :
    (∃ after, t = (cutTokens s pos t).1 ++ after ∧ s.Keeps (cutTokens s pos t).1) ∧
      ∀ tok ∈ (cutTokens s pos t).2, ∃ before after, tok.Between s pos t before after := by
  induction t generalizing s pos with
  | nil => exact ⟨⟨[], rfl, trivial⟩, nofun⟩
  | cons c t ih =>
      obtain ⟨⟨after, ht, hkeeps⟩, htokens⟩ := ih (s.step c) (pos + 1)
      simp only [cutTokens]
      split
      · next hc =>
          rw [Scan.step_of_separates hc] at ht hkeeps htokens ⊢
          refine ⟨⟨c :: t, rfl, trivial⟩, fun tok htok => ?_⟩
          unfold consToken at htok
          split at htok
          · obtain ⟨before, after, h⟩ := htokens tok htok
            rw [← Scan.step_of_separates hc] at h
            exact ⟨c :: before, after, h.cons⟩
          · next hne =>
              rcases List.mem_cons.mp htok with rfl | htok
              · exact ⟨[c], after, congrArg (c :: ·) ht, rfl, by simpa using hne,
                  Scan.step_of_separates hc, hkeeps⟩
              · obtain ⟨before, after, h⟩ := htokens tok htok
                rw [← Scan.step_of_separates hc] at h
                exact ⟨c :: before, after, h.cons⟩
      · next hc =>
          refine ⟨⟨after, congrArg (c :: ·) ht, by simpa using hc, hkeeps⟩, fun tok htok => ?_⟩
          obtain ⟨before, after, h⟩ := htokens tok htok
          exact ⟨c :: before, after, h.cons⟩

theorem between_tokens (h : tok ∈ tokens t) :
    ∃ before after, tok.Between .start 0 t before after := by
  obtain ⟨⟨after, ht, hkeeps⟩, htokens⟩ := between_cutTokens .start 0 t
  simp only [tokens, consToken] at h
  split at h
  · exact htokens tok h
  · next hne =>
      rcases List.mem_cons.mp h with rfl | h
      · exact ⟨[], after, ht, rfl, by simpa using hne, rfl, hkeeps⟩
      · exact htokens tok h

/-- A text in which nothing separates is one token. -/
theorem tokens_of_keeps (h : Scan.start.Keeps t) (hne : t ≠ []) : tokens t = [⟨t, 0⟩] := by
  have hcut := cutTokens_append h 0 []
  rw [List.append_nil] at hcut
  rw [tokens, hcut]
  simp [cutTokens, consToken, hne]

/-! ### Their order -/

def Apart (ts : List Token) : Prop := ts.Pairwise fun a b => a.stop < b.start

theorem apart_cutTokens (s : Scan) (pos : Nat) (t : Text) :
    (∀ tok ∈ (cutTokens s pos t).2, pos + (cutTokens s pos t).1.length < tok.start) ∧
      Apart (cutTokens s pos t).2 := by
  induction t generalizing s pos with
  | nil => exact ⟨nofun, .nil⟩
  | cons c t ih =>
      obtain ⟨hstart, hapart⟩ := ih (s.step c) (pos + 1)
      simp only [cutTokens]
      split
      · unfold consToken
        split
        · exact ⟨fun tok htok => by have := hstart tok htok; simp; omega, hapart⟩
        · refine ⟨fun tok htok => ?_, List.pairwise_cons.2 ⟨hstart, hapart⟩⟩
          rcases List.mem_cons.mp htok with rfl | htok
          · exact Nat.lt_succ_self pos
          · have := hstart tok htok
            simp
            omega
      · refine ⟨fun tok htok => ?_, hapart⟩
        have := hstart tok htok
        simp only [List.length_cons]
        omega

theorem apart_tokens (t : Text) : Apart (tokens t) := by
  obtain ⟨hstart, hapart⟩ := apart_cutTokens .start 0 t
  simp only [tokens, consToken]
  split
  · exact hapart
  · exact List.pairwise_cons.2 ⟨hstart, hapart⟩

/-- No two tokens of a text are the same: they start in different places. -/
theorem nodup_tokens (t : Text) : (tokens t).Nodup := by
  refine (apart_tokens t).imp ?_
  rintro a b hlt rfl
  rw [Token.stop] at hlt
  omega

/-! ### What lies outside of them -/

theorem exists_covers_consToken {word : Text} {ts : List Token} {i : Nat} :
    (∃ tok ∈ consToken word pos ts, tok.Covers i) ↔
      (pos ≤ i ∧ i < pos + word.length) ∨ ∃ tok ∈ ts, tok.Covers i := by
  unfold consToken
  split
  · next hempty =>
      have hnil : word = [] := by simpa using hempty
      have hno : ¬ (pos ≤ i ∧ i < pos + word.length) := by
        rw [hnil, List.length_nil]
        omega
      rw [or_iff_right hno]
  · simp only [List.mem_cons, exists_eq_or_imp]
    rfl

/-- Exactly the characters that do not separate, where the scan meets them, are in a token. -/
theorem covers_cutTokens_iff (s : Scan) (pos : Nat) {t : Text} {i : Nat} (hi : i < t.length) :
    (i < (cutTokens s pos t).1.length ∨ ∃ tok ∈ (cutTokens s pos t).2, tok.Covers (pos + i)) ↔
      (s.after (t.take i)).separates t[i] = false := by
  induction t generalizing s pos i with
  | nil => cases hi
  | cons c t ih =>
      have hstart := (apart_cutTokens s pos (c :: t)).1
      have hfirst : ¬ ∃ tok ∈ (cutTokens s pos (c :: t)).2, tok.Covers pos := by
        rintro ⟨tok, htok, hcovers⟩
        have := hstart tok htok
        have := hcovers.1
        omega
      cases i with
      | zero =>
          rw [Nat.add_zero, or_iff_left hfirst, cutTokens]
          cases hc : s.separates c <;> simp [hc]
      | succ i =>
          have hi : i < t.length := Nat.lt_of_succ_lt_succ hi
          have hpos : pos + (i + 1) = pos + 1 + i := by omega
          rw [List.take_succ_cons, Scan.after_cons, List.getElem_cons_succ, ← ih _ (pos + 1) hi,
            cutTokens, hpos]
          cases s.separates c with
          | true =>
              simp only [if_true, exists_covers_consToken, List.length_nil, Nat.not_lt_zero,
                false_or]
              exact or_congr_left (by omega)
          | false =>
              simp only [Bool.false_eq_true, if_false, List.length_cons]
              exact or_congr_left Nat.succ_lt_succ_iff

theorem covers_tokens_iff {i : Nat} (hi : i < t.length) :
    (∃ tok ∈ tokens t, tok.Covers i) ↔ (Scan.start.after (t.take i)).separates t[i] = false := by
  have hcovers := covers_cutTokens_iff .start 0 hi
  rw [Nat.zero_add] at hcovers
  rw [← hcovers]
  simp only [tokens, exists_covers_consToken]
  exact or_congr_left (by omega)

/-! ### The spans -/

/-- What the tokens of a text are as spans of it. -/
structure IsCut (t : Text) (ts : List Token) : Prop where
  /-- The spans come one after the other, and none touches the next. -/
  apart : Apart ts
  span : ∀ tok ∈ ts, tok.start < tok.stop ∧ tok.stop ≤ t.length
  slice : ∀ tok ∈ ts, (t.take tok.stop).drop tok.start = tok.text
  /-- What lies outside of them are blanks and commas that no backslash escapes and before which no
  quote is open. -/
  outside : ∀ (i : Nat) (hi : i < t.length), (∀ tok ∈ ts, ¬ tok.Covers i) ↔
    (isBlank t[i] = true ∨ t[i] = ',') ∧ trailingBackslashes (t.take i) % 2 = 0 ∧
      unclosedQuote? (t.take i) = none
  /-- A token that stands alone is cut out as a whole. -/
  alone : ∀ tok ∈ ts, tokens tok.text = [⟨tok.text, 0⟩]

theorem Token.Between.stop_eq {before after : Text} (h : tok.Between s pos t before after) :
    tok.stop = pos + (before.length + tok.text.length) := by
  rw [Token.stop, h.start_eq, Nat.add_assoc]

/-- The tokens of a text lose nothing of it but the separators between them. -/
theorem isCut_tokens (t : Text) : IsCut t (tokens t) where
  apart := apart_tokens t
  span := by
    intro tok htok
    obtain ⟨before, after, h⟩ := between_tokens htok
    have hlength := congrArg List.length h.text_eq
    have hpos := List.length_pos_iff.2 h.ne_nil
    simp only [List.length_append] at hlength
    rw [h.stop_eq, h.start_eq]
    omega
  slice := by
    intro tok htok
    obtain ⟨before, after, h⟩ := between_tokens htok
    rw [h.stop_eq, h.start_eq, h.text_eq, ← List.append_assoc, Nat.zero_add, Nat.zero_add,
      List.take_left' (List.length_append), List.drop_left]
  outside := by
    intro i hi
    rw [← separates_after_iff, ← not_iff_not, Bool.not_eq_true, ← covers_tokens_iff hi]
    push Not
    rfl
  alone := by
    intro tok htok
    obtain ⟨before, after, h⟩ := between_tokens htok
    exact tokens_of_keeps h.keeps h.ne_nil

/-- A blank after a backslash, and one in quotes that are opened inside of a token, separate
nothing; nor does anything after a quote that is never closed. -/
example : tokens "a\\ b, c\"d, 'e\" 'f, g" =
    [⟨"a\\ b", 0⟩, ⟨"c\"d, 'e\"", 6⟩, ⟨"'f, g", 15⟩] := by decide

end Agenda
