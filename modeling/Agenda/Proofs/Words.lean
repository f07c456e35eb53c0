import Agenda.Proofs.Text
import Agenda.Query.Spelling

/-!
The words of a query are read back from its text. Outside of strings a blank ends a word and an
operator is one; inside of a string nothing has a meaning of its own but the backslash and the
quote, which is written twice. So the words that are written with something between them are the
words that are read, and blanks around them do not matter.
-/

namespace Agenda

namespace Text

/-- What is stripped from a text are blanks on both sides. -/
theorem exists_strip (t : Text) : ∃ before after, (∀ c ∈ before, isBlank c = true) ∧
    (∀ c ∈ after, isBlank c = true) ∧ t = before ++ (strip t ++ after) := by
  refine ⟨t.takeWhile isBlank, ((stripStart t).reverse.takeWhile isBlank).reverse,
    fun c hc => List.mem_takeWhile_imp hc,
    fun c hc => List.mem_takeWhile_imp (List.mem_reverse.1 hc), ?_⟩
  rw [strip, stripEnd, dropEndWhile, ← List.reverse_append, List.takeWhile_append_dropWhile,
    List.reverse_reverse, stripStart, List.takeWhile_append_dropWhile]

end Text

namespace Query

variable {t body comma : Text} {c : Char} {w : Word}

/-! ### Characters outside of strings -/

theorem cutOutside_of_isBlank (hc : isBlank c = true) (next : Mode → Cut) :
    cutOutside c next = (next .outside).map fun p => ([], consWord p.1 p.2) := by
  have hquote : (c = '\'' || c = '"') = false := by
    rw [Bool.or_eq_false_iff]
    constructor <;> rw [decide_eq_false_iff_not] <;> rintro rfl <;> cases hc
  rw [cutOutside, if_neg (by rw [hquote]; exact Bool.false_ne_true), if_pos hc]

theorem cutOutside_of_isOperator (hc : isOperator c = true) (next : Mode → Cut) :
    cutOutside c next = (next .outside).map fun p => ([], ⟨[c], false⟩ :: consWord p.1 p.2) := by
  simp only [isOperator, Bool.or_eq_true, decide_eq_true_eq] at hc
  rcases hc with ((rfl | rfl) | rfl) | rfl <;> rfl

structure IsWordChar (c : Char) : Prop where
  not_quote : (c = '\'' || c = '"') = false
  not_blank : isBlank c = false
  not_operator : isOperator c = false

theorem cutOutside_of_isWordChar (hc : IsWordChar c) (next : Mode → Cut) :
    cutOutside c next = (next .outside).map fun p => (c :: p.1, p.2) := by
  simp only [cutOutside, hc.not_quote, hc.not_blank, hc.not_operator, Bool.false_eq_true, if_false]

/-! ### Blanks around a query -/

theorem words_append_of_isBlank {blanks : Text} (h : ∀ c ∈ blanks, isBlank c = true) (t : Text) :
    words (blanks ++ t) = words t := by
  induction blanks with
  | nil => rfl
  | cons c cs ih =>
      rw [List.forall_mem_cons] at h
      rw [← ih h.2, List.cons_append, words, cutWords, cutOutside_of_isBlank h.1, words]
      cases cutWords (cs ++ t) .outside <;> rfl

def Mode.Quotes : Mode → Prop
  | .outside => True
  | .inside mark | .escaped mark | .closing mark => isBlank mark = false

theorem cutOutside_congr {next next' : Mode → Cut}
    (h : ∀ mode : Mode, mode.Quotes → next mode = next' mode) (c : Char) :
    cutOutside c next = cutOutside c next' := by
  unfold cutOutside
  split
  · next hquote =>
      have hinside : (Mode.inside c).Quotes := by
        simp only [Bool.or_eq_true, decide_eq_true_eq] at hquote
        rcases hquote with rfl | rfl <;> rfl
      rw [h _ hinside]
  · rw [h .outside trivial]

/-- A blank at the end is read in every mode as if it were not there. -/
theorem cutWords_concat_of_isBlank (hc : isBlank c = true) (t : Text) {mode : Mode}
    (hmode : mode.Quotes) : cutWords (t ++ [c]) mode = cutWords t mode := by
  have hne : ∀ {mark : Char}, isBlank mark = false → c ≠ mark := by
    rintro mark hmark rfl
    rw [hc] at hmark
    cases hmark
  induction t generalizing mode with
  | nil =>
      have hbackslash : c ≠ '\\' := hne rfl
      cases mode with
      | outside => exact cutOutside_of_isBlank hc _
      | inside mark =>
          simp only [List.nil_append, cutWords, hbackslash, hne hmode, if_false]
          rfl
      | escaped mark => rfl
      | closing mark =>
          simp only [List.nil_append, cutWords, hne hmode, cutOutside_of_isBlank hc, if_false]
          rfl
  | cons d t ih =>
      have houtside := cutOutside_congr (fun mode hmode => ih hmode) d
      cases mode with
      | outside => exact houtside
      | inside mark =>
          have hinside : cutWords (t ++ [c]) (.inside mark) = cutWords t (.inside mark) := ih hmode
          have hescaped : cutWords (t ++ [c]) (.escaped mark) = cutWords t (.escaped mark) :=
            ih hmode
          have hclosing : cutWords (t ++ [c]) (.closing mark) = cutWords t (.closing mark) :=
            ih hmode
          simp only [List.cons_append, cutWords, hinside, hescaped, hclosing]
      | escaped mark =>
          have hinside : cutWords (t ++ [c]) (.inside mark) = cutWords t (.inside mark) := ih hmode
          simp only [List.cons_append, cutWords, hinside]
      | closing mark =>
          have hinside : cutWords (t ++ [c]) (.inside mark) = cutWords t (.inside mark) := ih hmode
          simp only [List.cons_append, cutWords, hinside, houtside]

theorem words_concat_blanks {blanks : Text} (h : ∀ c ∈ blanks, isBlank c = true) (t : Text) :
    words (t ++ blanks) = words t := by
  induction blanks generalizing t with
  | nil => rw [List.append_nil]
  | cons c cs ih =>
      rw [List.forall_mem_cons] at h
      have houtside : Mode.outside.Quotes := trivial
      rw [← List.singleton_append, ← List.append_assoc, ih h.2, words,
        cutWords_concat_of_isBlank h.1 t houtside, words]

@[simp] theorem words_strip (t : Text) : words (Text.strip t) = words t := by
  obtain ⟨before, after, hbefore, hafter, ht⟩ := Text.exists_strip t
  conv => rhs; rw [ht]
  rw [words_append_of_isBlank hbefore, words_concat_blanks hafter]

/-! ### Words with something after them -/

def Separated (t : Text) : Prop := ∀ c ∈ t.head?, isBlank c = true ∨ c = ','

theorem cutWords_of_separated (ht : Separated t) :
    cutWords t .outside = (words t).map fun ws => ([], ws) := by
  cases t with
  | nil => rfl
  | cons c cs =>
      rw [words, cutWords]
      rcases ht c rfl with hc | rfl
      · rw [cutOutside_of_isBlank hc]
        cases cutWords cs .outside <;> rfl
      · rw [cutOutside_of_isOperator rfl]
        cases cutWords cs .outside <;> rfl

theorem cutWords_bare {text : Text} (h : ∀ c ∈ text, IsWordChar c) (t : Text) :
    cutWords (text ++ t) .outside = (cutWords t .outside).map fun p => (text ++ p.1, p.2) := by
  induction text with
  | nil => cases h : cutWords t .outside <;> simp [h, Except.map]
  | cons c cs ih =>
      rw [List.forall_mem_cons] at h
      rw [List.cons_append, cutWords, cutOutside_of_isWordChar h.1, ih h.2]
      cases cutWords t .outside <;> rfl

/-- A text in which every backslash stands before some other character of its own, but not before
the quote. -/
inductive Paired : Text → Prop
  | nil : Paired []
  | plain {c : Char} {t : Text} (hc : c ≠ '\\') (ht : Paired t) : Paired (c :: t)
  | pair {c : Char} {t : Text} (hc : c ≠ '\'') (ht : Paired t) : Paired ('\\' :: c :: t)

theorem paired_of_not_mem (h : '\\' ∉ t) : Paired t := by
  induction t with
  | nil => exact .nil
  | cons c t ih =>
      rw [List.mem_cons, not_or] at h
      exact .plain (Ne.symm h.1) (ih h.2)

theorem cutWords_inside (hbody : Paired body) (ht : Separated t) :
    cutWords (Text.replaceChar '\'' ['\'', '\''] body ++ '\'' :: t) (.inside '\'') =
      (words t).map fun ws => (body, ws) := by
  induction hbody with
  | nil =>
      cases t with
      | nil => rfl
      | cons c cs =>
          have hc : c ≠ '\'' := by
            rintro rfl
            rcases ht '\'' rfl with h | h <;> cases h
          have hclosing : cutWords ('\'' :: c :: cs) (.inside '\'') =
              (cutOutside c (cutWords cs)).map fun p => ([], consWord p.1 p.2) := if_neg hc
          rw [Text.replaceChar, List.flatMap_nil, List.nil_append, hclosing, words, cutWords]
          cases cutOutside c (cutWords cs) <;> rfl
  | @plain b body hb _ ih =>
      rw [Text.replaceChar] at ih
      by_cases hquote : b = '\''
      · -- The quote and the one after it are read as one.
        subst hquote
        have hdouble : ∀ u, cutWords ('\'' :: '\'' :: u) (.inside '\'') =
            (cutWords u (.inside '\'')).map fun p => ('\'' :: p.1, p.2) := fun _ => rfl
        rw [Text.replaceChar, List.flatMap_cons, if_pos rfl, List.cons_append, List.cons_append,
          List.singleton_append, List.cons_append, hdouble, ih]
        cases words t <;> rfl
      · rw [Text.replaceChar, List.flatMap_cons, if_neg hquote, List.singleton_append,
          List.cons_append, cutWords, if_neg hb, if_neg hquote, ih]
        cases words t <;> rfl
  | @pair c body hc _ ih =>
      -- The backslash and the character after it are kept, whatever that is.
      rw [Text.replaceChar] at ih
      have hpair : ∀ u, cutWords ('\\' :: c :: u) (.inside '\'') =
          (cutWords u (.inside '\'')).map fun p => ('\\' :: c :: p.1, p.2) := by
        intro u
        simp only [cutWords, if_true, hc, if_false]
      rw [Text.replaceChar, List.flatMap_cons, if_neg (by decide), List.flatMap_cons, if_neg hc,
        List.singleton_append, List.singleton_append, List.cons_append, List.cons_append, hpair, ih]
      cases words t <;> rfl

/-- A word that can be written so that it is read back: any text in quotes whose backslashes are
paired, an operator or a comma, or characters that can stand without quotes. -/
inductive Word.Legible : Word → Prop
  | quoted {text : Text} (h : Paired text) : Legible ⟨text, true⟩
  | operator {c : Char} (h : isOperator c = true) : Legible ⟨[c], false⟩
  | bare {text : Text} (hne : text ≠ []) (h : ∀ c ∈ text, IsWordChar c) : Legible ⟨text, false⟩

theorem Word.legible_quote (h : '\\' ∉ t) : (Word.quote t).Legible := .quoted (paired_of_not_mem h)

theorem exists_comma (hcomma : Text.strip comma = [',']) : ∃ before after,
    (∀ c ∈ before, isBlank c = true) ∧ (∀ c ∈ after, isBlank c = true) ∧
      comma = before ++ ',' :: after := by
  obtain ⟨before, after, hbefore, hafter, heq⟩ := Text.exists_strip comma
  rw [hcomma] at heq
  exact ⟨before, after, hbefore, hafter, heq⟩

theorem separated_comma (hcomma : Text.strip comma = [',']) (t : Text) :
    Separated (comma ++ t) := by
  obtain ⟨before, after, hbefore, -, rfl⟩ := exists_comma hcomma
  intro c hc
  cases before with
  | nil => exact .inr (Option.some.inj hc).symm
  | cons b before =>
      obtain rfl : b = c := Option.some.inj hc
      exact .inl (hbefore b List.mem_cons_self)

theorem words_cons_of_isOperator (hc : isOperator c = true) (t : Text) :
    words (c :: t) = (words t).map (⟨[c], false⟩ :: ·) := by
  rw [words, cutWords, cutOutside_of_isOperator hc, words]
  cases cutWords t .outside <;> rfl

theorem words_spell (hcomma : Text.strip comma = [',']) (hw : w.Legible)
    (ht : w.isComma = false → Separated t) :
    words (w.spell comma ++ t) = (words t).map (w :: ·) := by
  cases hw with
  | quoted hbody =>
      have hopen : ∀ u, words ('\'' :: u) =
          (cutWords u (.inside '\'')).map fun p => ⟨p.1, true⟩ :: p.2 := by
        intro u
        rw [words, cutWords, cutOutside]
        cases cutWords u (.inside '\'') <;> rfl
      rw [Word.spell, if_pos rfl, List.cons_append, List.append_assoc, List.singleton_append, hopen,
        cutWords_inside hbody (ht rfl)]
      cases words t <;> rfl
  | @operator c hc =>
      rw [Word.spell, if_neg Bool.false_ne_true]
      by_cases hcc : [c] = [',']
      · obtain ⟨before, after, hbefore, hafter, rfl⟩ := exists_comma hcomma
        rw [if_pos hcc, List.append_assoc, words_append_of_isBlank hbefore, List.cons_append,
          words_cons_of_isOperator rfl, words_append_of_isBlank hafter, hcc]
      · rw [if_neg hcc, List.singleton_append, words_cons_of_isOperator hc]
  | @bare text hne htext =>
      have hnot : text ≠ [','] := by
        rintro rfl
        cases (htext ',' List.mem_cons_self).not_operator
      rw [Word.spell, if_neg Bool.false_ne_true, if_neg hnot, words, cutWords_bare htext,
        cutWords_of_separated (ht (by simp [Word.isComma, hnot]))]
      cases words t with
      | error e => rfl
      | ok ws => simp [Except.map, consWord, hne]

theorem separated_spellAll (hcomma : Text.strip comma = [',']) {v w : Word}
    (hv : v.isComma = false) (ws : List Word) :
    Separated ((if v.isComma || w.isComma then [] else [' ']) ++ spellAll comma (w :: ws)) := by
  cases hw : w.isComma with
  | false =>
      rw [hv, Bool.or_false, if_neg Bool.false_ne_true]
      exact fun c hc => .inl (Option.some.inj hc ▸ rfl)
  | true =>
      have hspell : w.spell comma = comma := by
        rw [Word.isComma, Bool.and_eq_true, Bool.not_eq_true', decide_eq_true_eq] at hw
        rw [Word.spell, hw.1, if_neg Bool.false_ne_true, if_pos hw.2]
      rw [Bool.or_true, if_pos rfl, List.nil_append]
      cases ws with
      | nil =>
          rw [spellAll, hspell, ← List.append_nil comma]
          exact separated_comma hcomma []
      | cons u us =>
          rw [spellAll, hspell, List.append_assoc]
          exact separated_comma hcomma _

/-- The words of a query are read back, whatever blanks are written around the commas. -/
theorem words_spellAll (hcomma : Text.strip comma = [',']) {ws : List Word}
    (h : ∀ w ∈ ws, w.Legible) : words (spellAll comma ws) = .ok ws := by
  induction ws using spellAll.induct with
  | case1 => rfl
  | case2 w =>
      have hend : w.isComma = false → Separated [] := fun _ => nofun
      rw [spellAll, ← List.append_nil (w.spell comma),
        words_spell hcomma (h w List.mem_cons_self) hend]
      rfl
  | case3 v w ws ih =>
      rw [List.forall_mem_cons] at h
      have hgap : ∀ c ∈ (if v.isComma || w.isComma then [] else [' '] : Text),
          isBlank c = true := by
        split
        · exact nofun
        · exact fun c hc => List.mem_singleton.1 hc ▸ rfl
      rw [spellAll, List.append_assoc,
        words_spell hcomma h.1 fun hv => separated_spellAll hcomma hv ws,
        words_append_of_isBlank hgap, ih h.2]
      rfl

end Query

end Agenda
