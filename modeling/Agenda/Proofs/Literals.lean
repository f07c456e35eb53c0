import Agenda.Proofs.FieldNames
import Agenda.Proofs.Grammar
import Agenda.Query.Change

/-!
Texts as literals of queries. With its backslashes and its single quotes written twice a text is the
literal of one word that stands for it, although the quotes are read back by one function and the
backslashes by another. What the literal gives to a title is the text, unless what it spells is an
integer that is not read.
-/

namespace Agenda.Query

def doubled (s : Text) : Text := Text.replaceChar '\\' ['\\', '\\'] s

/-- The literal of a text: in single quotes, with every backslash and every single quote written
twice. -/
def literal (s : Text) : Text := '\'' :: (Text.replaceChar '\'' ['\'', '\''] (doubled s) ++ ['\''])

def insertWords (title : Word) : List Word :=
  [Word.bare "INSERT", Word.bare "INTO", Word.bare "f", Word.bare "SET", Word.bare "title",
    Word.bare "=", title]

variable {c : Char}

theorem doubled_backslash (s : Text) : doubled ('\\' :: s) = '\\' :: '\\' :: doubled s := rfl

theorem doubled_cons_of_ne (hc : c ≠ '\\') (s : Text) : doubled (c :: s) = c :: doubled s := by
  rw [doubled, Text.replaceChar, List.flatMap_cons, if_neg hc]
  rfl

/-- The backslashes of a doubled text are pairs, so none of them is taken together with a quote. -/
theorem paired_doubled (s : Text) : Paired (doubled s) := by
  induction s with
  | nil => exact .nil
  | cons c s ih =>
      by_cases hc : c = '\\'
      · subst hc
        exact .pair (by decide) ih
      · rw [doubled_cons_of_ne hc]
        exact .plain hc ih

theorem resolveEscapes_cons_of_ne (hc : c ≠ '\\') (t : Text) :
    resolveEscapes (c :: t) = c :: resolveEscapes t := by
  cases t with
  | nil => rfl
  | cons d t => rw [resolveEscapes, if_neg hc]

/-- Each pair of backslashes is resolved to one, before what follows it is looked at. -/
theorem resolveEscapes_doubled (s : Text) : resolveEscapes (doubled s) = s := by
  induction s with
  | nil => rfl
  | cons c s ih =>
      by_cases hc : c = '\\'
      · subst hc
        have hpair : ∀ t, resolveEscapes ('\\' :: '\\' :: t) = '\\' :: resolveEscapes t :=
          fun _ => rfl
        rw [doubled_backslash, hpair, ih]
      · rw [doubled_cons_of_ne hc, resolveEscapes_cons_of_ne hc, ih]

theorem doubled_of_not_mem {s : Text} (h : '\\' ∉ s) : doubled s = s := by
  induction s with
  | nil => rfl
  | cons c s ih =>
      rw [List.mem_cons, not_or] at h
      rw [doubled_cons_of_ne (Ne.symm h.1), ih h.2]

/-- A text with a backslash is no integer, and without one nothing is doubled. -/
theorem isOversize_doubled (s : Text) :
    Number.IsOversize (Text.dropFinalNewline (doubled s)) ↔
      Number.IsOversize (Text.dropFinalNewline s) := by
  have hnot : ∀ t : Text, '\\' ∈ t → ¬ Number.IsOversize (Text.dropFinalNewline t) := fun t ht h =>
    h.not_mem (by decide) (by decide) (by decide) (Text.mem_dropFinalNewline (by decide) ht)
  by_cases hs : '\\' ∈ s
  · have hdoubled : '\\' ∈ doubled s := List.mem_flatMap.2 ⟨_, hs, by simp⟩
    exact iff_of_false (hnot _ hdoubled) (hnot s hs)
  · rw [doubled_of_not_mem hs]

/-! ### Literals in queries -/

theorem words_literal (s : Text) : words (literal s) = .ok [Word.quote (doubled s)] := by
  have hlegible : ∀ w ∈ [Word.quote (doubled s)], w.Legible :=
    List.forall_mem_singleton.2 (.quoted (paired_doubled s))
  have hcomma : Text.strip [','] = [','] := rfl
  exact words_spellAll hcomma hlegible

/-- The query that inserts a task with the literal of a text as its title. -/
theorem read_insert (s : Text) : read ("INSERT INTO f SET title = ".toList ++ literal s) =
    .ok (.insert "f" [⟨Key.title, Word.quote (doubled s)⟩]) := by
  have hkeywords : ∀ k ∈ (["INSERT", "INTO", "f", "SET", "title"] : List Text),
      (Word.bare k).Legible := by
    have hchars : ∀ k ∈ (["INSERT", "INTO", "f", "SET", "title"] : List Text),
        k ≠ [] ∧ ∀ c ∈ k, IsWordChar c := by decide
    exact fun k hk => .bare (hchars k hk).1 (hchars k hk).2
  have hlegible : ∀ w ∈ insertWords (Word.quote (doubled s)), w.Legible := by
    simp only [insertWords, List.forall_mem_cons]
    exact ⟨hkeywords _ (by simp), hkeywords _ (by simp), hkeywords _ (by simp),
      hkeywords _ (by simp), hkeywords _ (by simp), .operator rfl, .quoted (paired_doubled s),
      nofun⟩
  have hcomma : Text.strip [','] = [','] := rfl
  have hwords : words ("INSERT INTO f SET title = ".toList ++ literal s) =
      .ok (insertWords (Word.quote (doubled s))) := words_spellAll hcomma hlegible
  rw [read, words_strip, hwords]
  rfl

theorem value_quote (t : Text) : (Word.quote t).value = (Number.read? t).map fun
    | some n => .number n
    | none => .text (resolveEscapes t) := rfl

/-- A title is the text that its literal stands for, whatever the value of the literal is. -/
theorem change_title (t : Text) {v : Value} (hv : v.isNull = false) :
    (⟨Key.title, Word.quote t⟩ : Assignment).change v = (.text (resolveEscapes t), []) := by
  unfold Assignment.change
  rw [hv]
  rfl

theorem readChanges_title_iff (t : Text) :
    readChanges true [⟨Key.title, Word.quote t⟩] = .ok [(Key.title, .text (resolveEscapes t))] ↔
      ∀ e, Number.read? t ≠ .error e := by
  have hvalue := value_quote t
  cases hread : Number.read? t with
  | error e =>
      rw [hread] at hvalue
      refine iff_of_false (fun h => ?_) fun h => h e rfl
      rw [readChanges, gatherChanges, hvalue] at h
      cases h
  | ok n =>
      refine iff_of_true ?_ fun e he => by cases he
      obtain ⟨v, hv, hnull⟩ : ∃ v, (Word.quote t).value = .ok v ∧ v.isNull = false := by
        rw [hvalue, hread]
        cases n with
        | none => exact ⟨_, rfl, rfl⟩
        | some n => exact ⟨_, rfl, rfl⟩
      rw [readChanges, gatherChanges, hv]
      simp only
      rw [change_title t hnull]
      rfl

/-- The literal of a text is one word that stands for the text. It gives a title that text if and
only if what it spells is no integer with more digits than are read. -/
theorem literal_exact (s : Text) :
    (∃ w, words (literal s) = .ok [w] ∧ w.quoted = true ∧ w.plain = s) ∧
      ∃ q, read ("INSERT INTO f SET title = ".toList ++ literal s) = .ok q ∧
        (readChanges true q.assignments = .ok [(Key.title, .text s)] ↔
          ¬ Number.IsOversize (Text.dropFinalNewline s)) := by
  refine ⟨⟨_, words_literal s, rfl, resolveEscapes_doubled s⟩, _, read_insert s, ?_⟩
  have hchanges := readChanges_title_iff (doubled s)
  rw [resolveEscapes_doubled] at hchanges
  simp only [ne_eq, Number.read?_eq_error_iff, isOversize_doubled] at hchanges
  exact hchanges.trans ⟨fun h => h .integer, fun h _ => h⟩

/-- A letter after a backslash and a quote after another one are taken as they stand. -/
example : literal "a\\n\\'b" = "'a\\\\n\\\\''b'" := by rfl

/-- Too many digits with a line feed after them are no integer, but they are not taken for a title
either. -/
theorem literal_exact_newline :
    let s : Text := List.replicate 4301 '1' ++ ['\n']
    ¬ Number.IsOversize s ∧ ∃ q, read ("INSERT INTO f SET title = ".toList ++ literal s) = .ok q ∧
      readChanges true q.assignments ≠ .ok [(Key.title, .text s)] := by
  intro s
  have hdigits : ∀ n, Number.maxDigits < n → Number.IsOversize (List.replicate n '1') := by
    refine fun n hn => ⟨[], _, .inl rfl, fun c hc => ?_, ?_, rfl⟩
    · rw [List.eq_of_mem_replicate hc]
      decide
    · rwa [List.length_replicate]
  have hoversize : Number.IsOversize (Text.dropFinalNewline s) := by
    rw [Text.dropFinalNewline_concat]
    exact hdigits _ (by decide)
  obtain ⟨-, q, hq, hchanges⟩ := literal_exact s
  refine ⟨fun h => ?_, q, hq, fun h => hchanges.1 h hoversize⟩
  exact h.not_mem (by decide) (by decide) (by decide) (List.mem_append_right _ List.mem_cons_self)

end Agenda.Query
