import Agenda.Proofs.Number
import Agenda.Proofs.TaskLines
import Agenda.Proofs.Token
import Agenda.Proofs.Words
import Mathlib.Data.List.TakeDrop

/-!
Queries are read back from their text. Names, files and literals are in quotes, and a word in quotes
is no keyword, no operator and no comma; so a scan for the next clause stops at its keyword,
whatever the names before it are, and each clause reads its own words.
-/

namespace Agenda

/-! ### Keywords -/

/-- What comes before the small letters has no other form in upper case. -/
theorem Text.upper_eq_self {t : Text} (h : ∀ c ∈ t, c.toNat < 0x61) : Text.upper t = t := by
  -- The tables of the case map start at the small letters.
  have hshifts : ∀ s ∈ upperMap.shifts, 0x61 ≤ s.first := by decide +kernel
  have hexpansions : ∀ p ∈ upperMap.expansions, 0x61 ≤ p.1 := by decide +kernel
  have hchar : ∀ c ∈ t, upperMap.applyChar c = [c] := by
    intro c hc
    have hlow := h c hc
    have hlookup : upperMap.expansions.lookup c.toNat = none := by
      refine List.lookup_eq_none_iff.2 fun p hp => ?_
      have hp := hexpansions p hp
      rw [bne_iff_ne]
      omega
    have hfind : upperMap.shifts.findSome? (·.target? c.toNat) = none := by
      refine List.findSome?_eq_none_iff.2 fun s hs => ?_
      have hs := hshifts s hs
      have hbefore : ¬ s.first ≤ c.toNat := by omega
      simp [CaseShift.target?, hbefore]
    rw [CaseMap.applyChar, hlookup, hfind]
    rfl
  rw [upper, CaseMap.apply, List.flatMap_congr hchar, List.flatMap_singleton']

namespace Query

variable {w : Word} {ws own rest : List Word} {k kw : Text} {kws : List Text}

/-- What stands without quotes in a condition. -/
def operators : List Text := ["=", ">", "<", "CONTAINS", "IS", "NOT", "NULL"]

/-- What stands without quotes inside of a clause, but for a number. -/
def inner : List Text := operators ++ (["AND", "OR", "BY", "ASC", "DESC", ","] : List Text)

/-- What a command or a clause starts with. -/
def outer : List Text :=
  ["SELECT", "UPDATE", "DELETE", "INSERT", "FROM", "SET", "WHERE", "ORDER", "LIMIT", "INTO"]

theorem operators_subset : operators ⊆ inner ++ outer := fun _ h =>
  List.mem_append_left _ (List.mem_append_left _ h)

theorem inner_subset : inner ⊆ inner ++ outer := fun _ h => List.mem_append_left _ h

theorem outer_subset : outer ⊆ inner ++ outer := fun _ h => List.mem_append_right _ h

namespace Word

theorem isKeyword_of_quoted (h : w.quoted = true) (kw : Text) : w.isKeyword kw = false := by
  simp [isKeyword, keyword?, h]

theorem isKeyword_bare (hk : k ∈ inner ++ outer) (kw : Text) :
    (bare k).isKeyword kw = decide (k = kw) := by
  have hcapitals : ∀ k ∈ inner ++ outer, ∀ c ∈ k, c.toNat < 0x61 := by decide
  have hupper := Text.upper_eq_self (hcapitals k hk)
  simp [isKeyword, keyword?, bare, hupper]

theorem isKeyword_self (hk : k ∈ inner ++ outer) : (bare k).isKeyword k = true := by
  rw [isKeyword_bare hk, decide_eq_true rfl]

def IsLiteral (w : Word) : Prop := w.quoted = true ∧ '\\' ∉ w.text

def Among (kws : List Text) (w : Word) : Prop := w.IsLiteral ∨ ∃ k ∈ kws, w = bare k

theorem among_quote {t : Text} (h : '\\' ∉ t) : (quote t).Among kws := .inl ⟨rfl, h⟩

theorem among_bare (h : k ∈ kws) : (bare k).Among kws := .inr ⟨k, h, rfl⟩

theorem Among.mono {kws' : List Text} (h : w.Among kws) (hsub : kws ⊆ kws') : w.Among kws' :=
  h.imp_right fun ⟨k, hk, hw⟩ => ⟨k, hsub hk, hw⟩

theorem Among.isKeyword (h : w.Among kws) (hsub : kws ⊆ inner ++ outer) (hkw : kw ∉ kws) :
    w.isKeyword kw = false := by
  rcases h with h | ⟨k, hk, rfl⟩
  · exact isKeyword_of_quoted h.1 kw
  · rw [isKeyword_bare (hsub hk), decide_eq_false_iff_not]
    rintro rfl
    exact hkw hk

theorem Among.isComma (h : w.Among kws) (hcomma : [','] ∉ kws) : w.isComma = false := by
  rcases h with h | ⟨k, hk, rfl⟩
  · rw [Word.isComma, h.1]
    rfl
  · refine decide_eq_false ?_
    rintro rfl
    exact hcomma hk

instance (c : Char) : Decidable (IsWordChar c) :=
  decidable_of_iff ((c = '\'' || c = '"') = false ∧ isBlank c = false ∧ isOperator c = false)
    ⟨fun h => ⟨h.1, h.2.1, h.2.2⟩, fun h => ⟨h.1, h.2, h.3⟩⟩

theorem Among.legible (h : w.Among kws) (hsub : kws ⊆ inner ++ outer) : w.Legible := by
  have hbare : ∀ k ∈ inner ++ outer, (k.length = 1 ∧ ∀ c ∈ k, isOperator c = true) ∨
      (k ≠ [] ∧ ∀ c ∈ k, IsWordChar c) := by decide
  rcases h with h | ⟨k, hk, rfl⟩
  · obtain ⟨text, quoted⟩ := w
    obtain ⟨rfl, htext⟩ := h
    exact legible_quote htext
  · rcases hbare k (hsub hk) with ⟨hlength, hchars⟩ | ⟨hne, hchars⟩
    · obtain ⟨c, rfl⟩ := List.length_eq_one_iff.1 hlength
      exact .operator (hchars c List.mem_cons_self)
    · exact .bare hne hchars

end Word

/-! ### Clauses -/

theorem span_append {p : Word → Bool} (hown : ∀ w ∈ own, p w = true)
    (hrest : ∀ w ∈ rest.head?, p w = false) : (own ++ rest).span p = (own, rest) := by
  rw [List.span_eq_takeWhile_dropWhile, List.takeWhile_append_of_pos hown,
    List.dropWhile_append_of_pos hown]
  cases rest with
  | nil => rw [List.takeWhile_nil, List.dropWhile_nil, List.append_nil]
  | cons w ws =>
      have hw : ¬ p w = true := by simp [hrest w rfl]
      rw [List.takeWhile_cons_of_neg hw, List.dropWhile_cons_of_neg hw, List.append_nil]

def Starts (kws : List Text) (ws : List Word) : Prop :=
  ∀ w ∈ ws.head?, ∃ k ∈ kws, w = Word.bare k

theorem starts_clause (h : Starts kws rest) (k : Text) (own : Option (List Word)) :
    Starts (k :: kws) (clause k own ++ rest) := by
  cases own with
  | none => exact fun w hw => (h w hw).imp fun _ hk => ⟨List.mem_cons_of_mem _ hk.1, hk.2⟩
  | some own => exact fun w hw => ⟨k, List.mem_cons_self, (Option.some.inj hw).symm⟩

theorem Starts.after?_eq_none (h : Starts kws ws) (hkws : kws ⊆ outer) (hkw : kw ∉ kws) :
    after? kw ws = none := by
  cases ws with
  | nil => rfl
  | cons w ws =>
      obtain ⟨k, hk, rfl⟩ := h w rfl
      have hother := (Word.among_bare hk).isKeyword (List.Subset.trans hkws outer_subset) hkw
      rw [after?, hother, if_neg Bool.false_ne_true]

theorem after?_bare (hk : k ∈ outer) (ws : List Word) : after? k (Word.bare k :: ws) = some ws := by
  rw [after?, Word.isKeyword_self (outer_subset hk), if_pos rfl]

theorem skip_bare (hk : k ∈ inner ++ outer) (ws : List Word) :
    skip k (Word.bare k :: ws) = .ok ws := by
  rw [skip, Word.isKeyword_self hk, if_pos rfl]

/-- A scan for the next clause takes the words of this one. -/
theorem splitAtKeyword_append (hkws : kws ⊆ outer) (hown : ∀ w ∈ own, w.Among inner)
    (hrest : Starts kws rest) : splitAtKeyword kws (own ++ rest) = (own, rest) := by
  have hdisjoint : ∀ k ∈ outer, k ∉ inner := by decide
  refine span_append (fun w hw => ?_) fun w hw => ?_
  · rw [Bool.not_eq_true', List.any_eq_false]
    intro k hk
    rw [(hown w hw).isKeyword inner_subset (hdisjoint k (hkws hk))]
    exact Bool.false_ne_true
  · obtain ⟨k, hk, rfl⟩ := hrest w hw
    rw [Bool.not_eq_false', List.any_eq_true]
    exact ⟨k, hk, Word.isKeyword_self (outer_subset (hkws hk))⟩

/-! ### Commas -/

theorem withCommas_singleton (g : List Word) : withCommas [g] = g :=
  List.intercalate_singleton

theorem withCommas_cons_cons (g h : List Word) (gs : List (List Word)) :
    withCommas (g :: h :: gs) = g ++ Word.bare [','] :: withCommas (h :: gs) := by
  rw [withCommas, List.intercalate_cons_cons, List.append_assoc]
  rfl

theorem forall_mem_withCommas {P : Word → Prop} (hcomma : P (Word.bare [',']))
    {groups : List (List Word)} (h : ∀ g ∈ groups, ∀ w ∈ g, P w) :
    ∀ w ∈ withCommas groups, P w := by
  induction groups with
  | nil => exact nofun
  | cons g groups ih =>
      rw [List.forall_mem_cons] at h
      cases groups with
      | nil =>
          rw [withCommas_singleton]
          exact h.1
      | cons g' groups =>
          rw [withCommas_cons_cons, List.forall_mem_append, List.forall_mem_cons]
          exact ⟨h.1, hcomma, ih h.2⟩

theorem commaGroups_of_not_comma (h : ∀ w ∈ ws, w.isComma = false) : commaGroups ws = [ws] := by
  induction ws with
  | nil => rfl
  | cons w ws ih =>
      rw [List.forall_mem_cons] at h
      rw [commaGroups, h.1, if_neg Bool.false_ne_true, ih h.2]

theorem commaGroups_append (h : ∀ w ∈ own, w.isComma = false) (rest : List Word) :
    commaGroups (own ++ Word.bare [','] :: rest) = own :: commaGroups rest := by
  induction own with
  | nil => rfl
  | cons w own ih =>
      rw [List.forall_mem_cons] at h
      rw [List.cons_append, commaGroups, h.1, if_neg Bool.false_ne_true, ih h.2]

theorem commaGroups_withCommas {groups : List (List Word)} (hne : groups ≠ [])
    (h : ∀ g ∈ groups, ∀ w ∈ g, w.isComma = false) : commaGroups (withCommas groups) = groups := by
  induction groups with
  | nil => exact absurd rfl hne
  | cons g groups ih =>
      rw [List.forall_mem_cons] at h
      cases groups with
      | nil => rw [withCommas_singleton, commaGroups_of_not_comma h.1]
      | cons g' groups =>
          rw [withCommas_cons_cons, commaGroups_append h.1, ih (List.cons_ne_nil _ _) h.2]

/-- What is written for each of a list, with commas between, is read one after the other. -/
theorem mapM_commaGroups {α : Type} {read : List Word → Except Error α} {spell : α → List Word}
    {as : List α} (hne : as ≠ []) (hcomma : ∀ a ∈ as, ∀ w ∈ spell a, w.isComma = false)
    (hread : ∀ a ∈ as, read (spell a) = .ok a) :
    (commaGroups (withCommas (as.map spell))).mapM read = .ok as := by
  rw [commaGroups_withCommas (by simpa using hne) (List.forall_mem_map.2 hcomma), mapM_eq_ok,
    List.forall₂_map_left_iff, List.forall₂_same]
  exact hread

/-! ### Conditions -/

def Condition.Legible (c : Condition) : Prop :=
  '\\' ∉ c.key ∧ ∀ w ∈ c.test.literal?, w.IsLiteral

def Filter.Legible : Filter → Prop
  | .single c => c.Legible
  | .pair left _ right => left.Legible ∧ right.Legible

theorem Comparison.symbol_mem (op : Comparison) : op.symbol ∈ operators := by
  cases op <;> decide

theorem Combinator.keyword_mem (c : Combinator) : c.keyword ∈ inner := by
  cases c <;> decide

theorem Condition.among_toWords {c : Condition} (hc : c.Legible) :
    ∀ w ∈ c.toWords, w.Among operators := by
  obtain ⟨key, test⟩ := c
  refine List.forall_mem_cons.2 ⟨Word.among_quote hc.1, ?_⟩
  cases test with
  | compare op literal =>
      refine List.forall_mem_cons.2 ⟨Word.among_bare op.symbol_mem, ?_⟩
      exact List.forall_mem_singleton.2 (.inl (hc.2 literal rfl))
  | isNull =>
      have hbare : ∀ k ∈ (["IS", "NULL"] : List Text), k ∈ operators := by decide
      exact List.forall_mem_map.2 fun k hk => Word.among_bare (hbare k hk)
  | isNotNull =>
      have hbare : ∀ k ∈ (["IS", "NOT", "NULL"] : List Text), k ∈ operators := by decide
      exact List.forall_mem_map.2 fun k hk => Word.among_bare (hbare k hk)

theorem Filter.among_toWords {f : Filter} (hf : f.Legible) : ∀ w ∈ f.toWords, w.Among inner := by
  have hinner : ∀ {c : Condition}, c.Legible → ∀ w ∈ c.toWords, w.Among inner := fun hc w hw =>
    (Condition.among_toWords hc w hw).mono fun _ h => List.mem_append_left _ h
  cases f with
  | single c => exact hinner hf
  | pair left combinator right =>
      refine List.forall_mem_append.2 ⟨hinner hf.1, List.forall_mem_cons.2 ⟨?_, hinner hf.2⟩⟩
      exact Word.among_bare combinator.keyword_mem

theorem comparison?_symbol (op : Comparison) : comparison? (.bare op.symbol) = some op := by
  have hmem := operators_subset op.symbol_mem
  simp only [comparison?, Word.isKeyword_bare hmem]
  cases op <;> rfl

theorem combinator?_keyword (c : Combinator) : combinator? (.bare c.keyword) = some c := by
  have hmem := inner_subset c.keyword_mem
  simp only [combinator?, Word.isKeyword_bare hmem]
  cases c <;> rfl

theorem combinator?_of_among (h : w.Among operators) : combinator? w = none := by
  rw [combinator?, h.isKeyword operators_subset (by decide),
    h.isKeyword operators_subset (by decide)]
  rfl

theorem readCondition_toWords (c : Condition) : readCondition c.toWords = .ok c := by
  have hself : ∀ k ∈ operators, (Word.bare k).isKeyword k = true := fun k hk =>
    Word.isKeyword_self (operators_subset hk)
  obtain ⟨key, test⟩ := c
  cases test with
  | compare op literal =>
      have hop : (Word.bare op.symbol).isKeyword "IS" = false := by
        rw [Word.isKeyword_bare (operators_subset op.symbol_mem)]
        cases op <;> rfl
      rw [Condition.toWords, Test.toWords, readCondition, hop, if_neg Bool.false_ne_true,
        if_neg (by simp), comparison?_symbol]
      rfl
  | isNull =>
      rw [Condition.toWords, Test.toWords, readCondition, if_pos (hself "IS" (by decide)), readIs,
        if_pos (hself "NULL" (by decide))]
      rfl
  | isNotNull =>
      rw [Condition.toWords, Test.toWords, readCondition, if_pos (hself "IS" (by decide)), readIs,
        hself "NOT" (by decide), hself "NULL" (by decide)]
      rfl

theorem readFilter_toWords {f : Filter} (hf : f.Legible) : readFilter f.toWords = .ok f := by
  -- No word of a condition combines two of them: a name `AND` is in quotes.
  have hnone : ∀ {c : Condition}, c.Legible → ∀ w ∈ c.toWords, (combinator? w).isNone = true := by
    intro c hc w hw
    rw [combinator?_of_among (Condition.among_toWords hc w hw)]
    rfl
  have hcount : ∀ {c : Condition}, c.Legible →
      c.toWords.countP (fun w => (combinator? w).isSome) = 0 := by
    intro c hc
    rw [List.countP_eq_zero]
    intro w hw
    rw [combinator?_of_among (Condition.among_toWords hc w hw)]
    exact Bool.false_ne_true
  cases f with
  | single c =>
      have hspan := span_append (hnone hf) (show ∀ w ∈ ([] : List Word).head?, _ from nofun)
      rw [List.append_nil] at hspan
      rw [readFilter, Filter.toWords, if_neg (by simp [Condition.toWords]),
        if_neg (by rw [hcount hf]; omega), hspan]
      simp only [readCondition_toWords]
  | pair left combinator right =>
      have hkeyword := combinator?_keyword combinator
      have hstop : ∀ w ∈ (Word.bare combinator.keyword :: right.toWords).head?,
          (combinator? w).isNone = false := by
        intro w hw
        rw [← Option.some.inj hw, hkeyword]
        rfl
      have hone : (Filter.pair left combinator right).toWords.countP
          (fun w => (combinator? w).isSome) = 1 := by
        rw [Filter.toWords, List.countP_append, List.countP_cons, hcount hf.1, hcount hf.2,
          hkeyword]
        rfl
      rw [readFilter, if_neg (by simp [Filter.toWords]), if_neg (by rw [hone]; omega),
        Filter.toWords, span_append (hnone hf.1) hstop]
      simp only [readCondition_toWords, hkeyword]
      rfl

/-! ### Lists of names and assignments -/

def Assignment.Legible (a : Assignment) : Prop := IsKey a.key ∧ a.literal.IsLiteral

theorem isKeyName_of_isKey {key : Text} (h : IsKey key) : isKeyName key = true := by
  have hnl : '\n' ∉ key := fun hm => by cases h.isKeyChar _ hm
  rw [isKeyName, Text.dropFinalNewline_of_not_mem hnl]
  cases key with
  | nil => exact h.elim
  | cons c cs => exact Bool.and_eq_true_iff.2 ⟨h.1, List.all_eq_true.2 h.2⟩

theorem SortKey.among_toWords {k : SortKey} (hk : '\\' ∉ k.key) :
    ∀ w ∈ k.toWords, w.Among ["ASC", "DESC"] := by
  have hmem : k.direction.keyword ∈ (["ASC", "DESC"] : List Text) := by
    cases k.direction <;> decide
  exact List.forall_mem_cons.2 ⟨Word.among_quote hk,
    List.forall_mem_singleton.2 (Word.among_bare hmem)⟩

theorem Assignment.among_toWords {a : Assignment} (ha : a.Legible) :
    ∀ w ∈ a.toWords, w.Among ["="] := by
  have hkey : '\\' ∉ a.key := fun hm => by cases ha.1.isKeyChar _ hm
  exact List.forall_mem_cons.2 ⟨Word.among_quote hkey, List.forall_mem_cons.2
    ⟨Word.among_bare List.mem_cons_self, List.forall_mem_singleton.2 (.inl ha.2)⟩⟩

theorem SortKey.among_withCommas {ks : List SortKey} (hks : ∀ k ∈ ks, '\\' ∉ k.key) :
    ∀ w ∈ withCommas (ks.map toWords), w.Among inner := by
  refine forall_mem_withCommas (Word.among_bare (by decide)) (List.forall_mem_map.2 ?_)
  exact fun k hk w hw => (among_toWords (hks k hk) w hw).mono (by decide)

theorem Assignment.among_withCommas {as : List Assignment} (has : ∀ a ∈ as, a.Legible) :
    ∀ w ∈ withCommas (as.map toWords), w.Among inner := by
  refine forall_mem_withCommas (Word.among_bare (by decide)) (List.forall_mem_map.2 ?_)
  exact fun a ha w hw => (among_toWords (has a ha) w hw).mono (by decide)

theorem among_columns {columns : List Text} (h : ∀ c ∈ columns, '\\' ∉ c) :
    ∀ w ∈ withCommas (columns.map fun c => [Word.quote c]), w.Among inner := by
  refine forall_mem_withCommas (Word.among_bare (by decide)) (List.forall_mem_map.2 ?_)
  exact fun c hc => List.forall_mem_singleton.2 (Word.among_quote (h c hc))

theorem readSortKey_toWords (k : SortKey) : readSortKey k.toWords = .ok k := by
  have hmem : ∀ d : Direction, d.keyword ∈ inner ++ outer := by
    intro d
    cases d <;> decide
  obtain ⟨key, direction⟩ := k
  simp only [SortKey.toWords, readSortKey, Word.isKeyword_bare (hmem direction)]
  cases direction <;> rfl

theorem readAssignment_toWords {a : Assignment} (ha : a.Legible) :
    readAssignment a.toWords = .ok a := by
  have hname : isKeyName (Word.quote a.key).text = true := isKeyName_of_isKey ha.1
  rw [Assignment.toWords, readAssignment, if_neg (by decide), if_pos hname]
  rfl

theorem withCommas_ne_nil {groups : List (List Word)} (hne : groups ≠ [])
    (h : ∀ g ∈ groups, g ≠ []) : withCommas groups ≠ [] := by
  cases groups with
  | nil => exact absurd rfl hne
  | cons g groups =>
      cases groups with
      | nil =>
          rw [withCommas_singleton]
          exact h g List.mem_cons_self
      | cons g' groups =>
          rw [withCommas_cons_cons]
          exact List.append_ne_nil_of_right_ne_nil _ (List.cons_ne_nil _ _)

theorem readAssignments_withCommas {as : List Assignment} (hne : as ≠ [])
    (has : ∀ a ∈ as, a.Legible) :
    readAssignments (withCommas (as.map Assignment.toWords)) = .ok as := by
  have hwords : withCommas (as.map Assignment.toWords) ≠ [] :=
    withCommas_ne_nil (by simpa using hne) (List.forall_mem_map.2 fun _ _ => List.cons_ne_nil _ _)
  rw [readAssignments, if_neg (by simpa using hwords)]
  refine mapM_commaGroups hne (fun a ha w hw => ?_) fun a ha => readAssignment_toWords (has a ha)
  exact (Assignment.among_toWords (has a ha) w hw).isComma (by decide)

theorem readOrder_withCommas {ks : List SortKey} (hne : ks ≠ []) (hks : ∀ k ∈ ks, '\\' ∉ k.key) :
    readOrder (withCommas (ks.map SortKey.toWords)) = .ok ks := by
  refine mapM_commaGroups hne (fun k hk w hw => ?_) fun k _ => readSortKey_toWords k
  exact (SortKey.among_toWords (hks k hk) w hw).isComma (by decide)

theorem filter_withCommas {p : Text → Bool} (hp : p [','] = false) (groups : List (List Word)) :
    ((withCommas groups).map (·.text)).filter p =
      groups.flatMap fun g => (g.map (·.text)).filter p := by
  induction groups with
  | nil => rfl
  | cons g groups ih =>
      cases groups with
      | nil => rw [withCommas_singleton, List.flatMap_singleton]
      | cons g' groups =>
          have hcomma : ¬ p (Word.bare [',']).text = true := by
            rw [Word.bare, hp]
            exact Bool.false_ne_true
          rw [withCommas_cons_cons, List.map_append, List.filter_append, List.map_cons,
            List.filter_cons_of_neg hcomma, ih]
          rfl

/-- The names of columns are the words that are no commas. -/
theorem filter_columns {columns : List Text} (h : ∀ c ∈ columns, c ≠ [',']) :
    ((withCommas (columns.map fun c => [Word.quote c])).map (·.text)).filter (· ≠ [',']) =
      columns := by
  have hcolumn : ∀ c ∈ columns, ([Word.quote c].map (·.text)).filter (· ≠ [',']) = [c] :=
    fun c hc => List.filter_cons_of_pos (decide_eq_true (h c hc))
  rw [filter_withCommas rfl, List.flatMap_map, List.flatMap_congr hcolumn,
    List.flatMap_singleton']

/-! ### Queries -/

/-- A selection that can be written: it names a column, no column is a comma, names and literals
are without backslashes, and the limit is not too long for a number. -/
structure Selection.Legible (s : Selection) : Prop where
  columns_ne : s.columns ≠ []
  columns : ∀ c ∈ s.columns, c ≠ [','] ∧ '\\' ∉ c
  file : '\\' ∉ s.file
  filter : ∀ f ∈ s.filter, f.Legible
  order : ∀ k ∈ s.order, '\\' ∉ k.key
  limit : ∀ n ∈ s.limit, (Text.ofNat n).length ≤ Number.maxDigits
  target : ∀ t ∈ s.target, '\\' ∉ t

def Legible : Query → Prop
  | .select s => s.Legible
  | .update file assignments filter =>
    '\\' ∉ file ∧ (assignments ≠ [] ∧ ∀ a ∈ assignments, a.Legible) ∧ ∀ f ∈ filter, f.Legible
  | .delete file filter => '\\' ∉ file ∧ ∀ f ∈ filter, f.Legible
  | .insert file assignments =>
    '\\' ∉ file ∧ assignments ≠ [] ∧ ∀ a ∈ assignments, a.Legible

theorem readLimit_ofNat {n : Nat} (h : (Text.ofNat n).length ≤ Number.maxDigits) :
    readLimit (Text.ofNat n) = .ok n := by
  have hdigit : (Text.ofNat n).all Text.isDigit = true :=
    List.all_eq_true.2 fun c hc => Text.isDigit_of_mem_ofNat hc
  have hlike : (Text.ofNat n).all Text.isDigitLike = true :=
    List.all_eq_true.2 fun c hc => by rw [Text.isDigitLike, Text.isDigit_of_mem_ofNat hc]; rfl
  have hne : (Text.ofNat n).isEmpty = false := by
    simpa using Text.ofNat_ne_nil n
  rw [readLimit, hlike, hne, if_neg (by decide), hdigit, decide_eq_true h,
    Text.natOfDigits_ofNat]
  rfl

theorem whereClause_clause {filter : Option Filter} (hf : ∀ f ∈ filter, f.Legible)
    (hrest : Starts ["ORDER", "LIMIT", "INTO"] rest) :
    whereClause (clause "WHERE" (filter.map Filter.toWords) ++ rest) = .ok (filter, rest) := by
  cases filter with
  | none =>
      have hnone : after? "WHERE" rest = none := hrest.after?_eq_none (by decide) (by decide)
      rw [Option.map_none, clause, List.nil_append, whereClause, hnone]
  | some f =>
      have hsplit := splitAtKeyword_append (by decide) (Filter.among_toWords (hf f rfl)) hrest
      rw [Option.map_some, clause, List.cons_append, whereClause, after?_bare (by decide)]
      simp only [hsplit, readFilter_toWords (hf f rfl)]
      rfl

theorem orderClause_clause {ks : List SortKey} (hks : ∀ k ∈ ks, '\\' ∉ k.key)
    (hrest : Starts ["LIMIT", "INTO"] rest) :
    orderClause (clause "ORDER" (orderWords? ks) ++ rest) = .ok (ks, rest) := by
  cases ks with
  | nil =>
      have hnone : after? "ORDER" rest = none := hrest.after?_eq_none (by decide) (by decide)
      rw [orderWords?, clause, List.nil_append, orderClause, hnone]
  | cons k ks =>
      have hsplit := splitAtKeyword_append (by decide) (SortKey.among_withCommas hks) hrest
      rw [orderWords?, clause, List.cons_append, List.cons_append, orderClause,
        after?_bare (by decide)]
      have hskip : ∀ ws, skip "BY" (Word.bare "BY" :: ws) = .ok ws := skip_bare (by decide)
      simp only [hskip, hsplit, bind, Except.bind, readOrder_withCommas (List.cons_ne_nil k ks) hks]
      rfl

theorem limitClause_clause {limit : Option Nat}
    (hlimit : ∀ n ∈ limit, (Text.ofNat n).length ≤ Number.maxDigits)
    (hrest : Starts ["INTO"] rest) :
    limitClause (clause "LIMIT" (limit.map fun n => [Word.bare (Text.ofNat n)]) ++ rest) =
      .ok (limit, rest) := by
  cases limit with
  | none =>
      have hnone : after? "LIMIT" rest = none := hrest.after?_eq_none (by decide) (by decide)
      rw [Option.map_none, clause, List.nil_append, limitClause, hnone]
  | some n =>
      rw [Option.map_some, clause, List.cons_append, limitClause, after?_bare (by decide)]
      simp only [List.singleton_append, first, bind, Except.bind, Word.bare,
        readLimit_ofNat (hlimit n rfl)]
      rfl

theorem intoClause_clause (target : Option Text) :
    intoClause (clause "INTO" (target.map fun t => [Word.quote t])) = .ok (target, []) := by
  cases target with
  | none => rfl
  | some t =>
      rw [Option.map_some, clause, intoClause, after?_bare (by decide)]
      rfl

theorem readLastFilter_clause {filter : Option Filter} (hf : ∀ f ∈ filter, f.Legible) :
    readLastFilter (clause "WHERE" (filter.map Filter.toWords)) = .ok filter := by
  cases filter with
  | none => rfl
  | some f =>
      rw [Option.map_some, clause, readLastFilter, after?_bare (by decide)]
      simp only [readFilter_toWords (hf f rfl)]
      rfl

theorem readSelect_toWords {s : Selection} (hs : s.Legible) :
    readSelect (withCommas (s.columns.map fun c => [Word.quote c]) ++
      Word.bare "FROM" :: Word.quote s.file :: s.clauses) = .ok (.select s) := by
  have hcolumns := among_columns fun c hc => (hs.columns c hc).2
  have hfrom : Starts ["FROM"] (Word.bare "FROM" :: Word.quote s.file :: s.clauses) :=
    fun w hw => ⟨_, List.mem_cons_self, (Option.some.inj hw).symm⟩
  have hsplit := splitAtKeyword_append (by decide) hcolumns hfrom
  have hskip : ∀ ws, skip "FROM" (Word.bare "FROM" :: ws) = .ok ws := skip_bare (by decide)
  have hnames := filter_columns fun c hc => (hs.columns c hc).1
  have hne : s.columns.isEmpty = false := by simpa using hs.columns_ne
  -- Each clause is followed by those after it, so the last ones come first here.
  have hinto : Starts ["INTO"] (clause "INTO" (s.target.map fun t => [Word.quote t])) := by
    have hnil : Starts [] [] := nofun
    have hlast := starts_clause hnil "INTO" (s.target.map fun t => [Word.quote t])
    rwa [List.append_nil] at hlast
  have hlimit := starts_clause hinto "LIMIT" (s.limit.map fun n => [Word.bare (Text.ofNat n)])
  have horder := starts_clause hlimit "ORDER" (orderWords? s.order)
  have hwhere : whereClause s.clauses = .ok (s.filter, _) := whereClause_clause hs.filter horder
  simp only [readSelect, hsplit, hnames, hne, hskip, first, hwhere,
    orderClause_clause hs.order hlimit, limitClause_clause hs.limit hinto, intoClause_clause, bind,
    Except.bind]
  rfl

theorem readUpdate_toWords {file : Text} {assignments : List Assignment} {filter : Option Filter}
    (hne : assignments ≠ []) (hassignments : ∀ a ∈ assignments, a.Legible)
    (hfilter : ∀ f ∈ filter, f.Legible) :
    readUpdate (Word.quote file :: Word.bare "SET" ::
      (withCommas (assignments.map Assignment.toWords) ++
        clause "WHERE" (filter.map Filter.toWords))) = .ok (.update file assignments filter) := by
  have hwhere : Starts ["WHERE"] (clause "WHERE" (filter.map Filter.toWords)) := by
    have hnil : Starts [] [] := nofun
    have hlast := starts_clause hnil "WHERE" (filter.map Filter.toWords)
    rwa [List.append_nil] at hlast
  have hsplit := splitAtKeyword_append (by decide) (Assignment.among_withCommas hassignments) hwhere
  have hskip : ∀ ws, skip "SET" (Word.bare "SET" :: ws) = .ok ws := skip_bare (by decide)
  simp only [readUpdate, first, bind, Except.bind, hskip, hsplit,
    readAssignments_withCommas hne hassignments, readLastFilter_clause hfilter]
  rfl

theorem readDelete_toWords {file : Text} {filter : Option Filter}
    (hfilter : ∀ f ∈ filter, f.Legible) :
    readDelete (Word.bare "FROM" :: Word.quote file :: clause "WHERE" (filter.map Filter.toWords)) =
      .ok (.delete file filter) := by
  have hskip : ∀ ws, skip "FROM" (Word.bare "FROM" :: ws) = .ok ws := skip_bare (by decide)
  cases filter with
  | none =>
      simp only [readDelete, first, bind, Except.bind, hskip]
      rfl
  | some f =>
      have hafter : ∀ ws, after? "WHERE" (Word.bare "WHERE" :: ws) = some ws :=
        after?_bare (by decide)
      simp only [readDelete, first, bind, Except.bind, hskip, Option.map_some, clause, hafter,
        readFilter_toWords (hfilter f rfl)]
      rfl

theorem readInsert_toWords {file : Text} {assignments : List Assignment} (hne : assignments ≠ [])
    (hassignments : ∀ a ∈ assignments, a.Legible) :
    readInsert (Word.bare "INTO" :: Word.quote file :: Word.bare "SET" ::
      withCommas (assignments.map Assignment.toWords)) = .ok (.insert file assignments) := by
  have hinto : ∀ ws, skip "INTO" (Word.bare "INTO" :: ws) = .ok ws := skip_bare (by decide)
  have hset : ∀ ws, skip "SET" (Word.bare "SET" :: ws) = .ok ws := skip_bare (by decide)
  simp only [readInsert, first, bind, Except.bind, hinto, hset,
    readAssignments_withCommas hne hassignments]
  rfl

/-- The words of a query are read as the query. -/
theorem ofWords_toWords {q : Query} (hq : q.Legible) : ofWords q.toWords = .ok q := by
  have hcommand : ∀ k ∈ outer, ∀ kw, (Word.bare k).isKeyword kw = decide (k = kw) := fun k hk =>
    Word.isKeyword_bare (outer_subset hk)
  cases q with
  | select s =>
      have hselect := hcommand "SELECT" (by decide)
      simp only [toWords, ofWords, first, bind, Except.bind, hselect, readSelect_toWords hq]
      rfl
  | update file assignments filter =>
      have hupdate := hcommand "UPDATE" (by decide)
      simp only [toWords, ofWords, first, bind, Except.bind, hupdate,
        readUpdate_toWords hq.2.1.1 hq.2.1.2 hq.2.2]
      rfl
  | delete file filter =>
      have hdelete := hcommand "DELETE" (by decide)
      simp only [toWords, ofWords, first, bind, Except.bind, hdelete, readDelete_toWords hq.2]
      rfl
  | insert file assignments =>
      have hinsert := hcommand "INSERT" (by decide)
      simp only [toWords, ofWords, first, bind, Except.bind, hinsert,
        readInsert_toWords hq.2.1 hq.2.2]
      rfl

theorem forall_mem_clause {P : Word → Prop} (hk : P (Word.bare k)) {own : Option (List Word)}
    (h : ∀ ws ∈ own, ∀ w ∈ ws, P w) : ∀ w ∈ clause k own, P w := by
  cases own with
  | none => exact nofun
  | some ws => exact List.forall_mem_cons.2 ⟨hk, h ws rfl⟩

theorem legible_ofNat (n : Nat) : (Word.bare (Text.ofNat n)).Legible := by
  refine .bare (Text.ofNat_ne_nil n) fun c hc => ?_
  have hrange := Text.range_of_mem_ofNat hc
  have hne : ∀ d : Char, d.toNat < 48 ∨ 57 < d.toNat → c ≠ d := by
    rintro d hd rfl
    omega
  refine ⟨?_, ?_, ?_⟩
  · simp [hne '\'' (by decide), hne '"' (by decide)]
  · simp only [isBlank, Bool.or_eq_false_iff, Bool.and_eq_false_iff, decide_eq_false_iff_not,
      beq_eq_false_iff_ne]
    omega
  · simp [isOperator, hne '=' (by decide), hne '<' (by decide), hne '>' (by decide),
      hne ',' (by decide)]

theorem legible_outer {k : Text} (hk : k ∈ outer) : (Word.bare k).Legible :=
  (Word.among_bare hk).legible outer_subset

theorem legible_of_among_inner {ws : List Word} (h : ∀ w ∈ ws, w.Among inner) :
    ∀ w ∈ ws, w.Legible :=
  fun w hw => (h w hw).legible inner_subset

theorem legible_where {filter : Option Filter} (hfilter : ∀ f ∈ filter, f.Legible) :
    ∀ w ∈ clause "WHERE" (filter.map Filter.toWords), w.Legible := by
  refine forall_mem_clause (legible_outer (by decide)) fun ws hws => ?_
  obtain ⟨f, hf, rfl⟩ := Option.map_eq_some_iff.1 hws
  exact legible_of_among_inner (Filter.among_toWords (hfilter f hf))

theorem legible_order {order : List SortKey} (h : ∀ k ∈ order, '\\' ∉ k.key) :
    ∀ w ∈ clause "ORDER" (orderWords? order), w.Legible := by
  refine forall_mem_clause (legible_outer (by decide)) fun ws hws => ?_
  have hsorted := SortKey.among_withCommas h
  cases order with
  | nil => cases hws
  | cons k ks =>
      obtain rfl := Option.some.inj hws
      exact legible_of_among_inner
        (List.forall_mem_cons.2 ⟨Word.among_bare (by decide), hsorted⟩)

theorem legible_clauses {s : Selection} (hs : s.Legible) : ∀ w ∈ s.clauses, w.Legible := by
  have hlimit : ∀ w ∈ clause "LIMIT" (s.limit.map fun n => [Word.bare (Text.ofNat n)]),
      w.Legible := by
    refine forall_mem_clause (legible_outer (by decide)) fun ws hws => ?_
    obtain ⟨n, -, rfl⟩ := Option.map_eq_some_iff.1 hws
    exact List.forall_mem_singleton.2 (legible_ofNat n)
  have hinto : ∀ w ∈ clause "INTO" (s.target.map fun t => [Word.quote t]), w.Legible := by
    refine forall_mem_clause (legible_outer (by decide)) fun ws hws => ?_
    obtain ⟨t, ht, rfl⟩ := Option.map_eq_some_iff.1 hws
    exact List.forall_mem_singleton.2 (Word.legible_quote (hs.target t ht))
  simp only [Selection.clauses, List.forall_mem_append]
  exact ⟨legible_where hs.filter, legible_order hs.order, hlimit, hinto⟩

/-- Every word that is written can be told from its neighbours. -/
theorem legible_toWords {q : Query} (hq : q.Legible) : ∀ w ∈ q.toWords, w.Legible := by
  cases q with
  | select s =>
      have hs : s.Legible := hq
      simp only [toWords, List.forall_mem_cons, List.forall_mem_append]
      exact ⟨legible_outer (by decide),
        legible_of_among_inner (among_columns fun c hc => (hs.columns c hc).2),
        legible_outer (by decide), Word.legible_quote hs.file, legible_clauses hs⟩
  | update file assignments filter =>
      obtain ⟨hfile, ⟨-, has⟩, hfilter⟩ := hq
      simp only [toWords, List.forall_mem_cons, List.forall_mem_append]
      exact ⟨legible_outer (by decide), Word.legible_quote hfile, legible_outer (by decide),
        legible_of_among_inner (Assignment.among_withCommas has), legible_where hfilter⟩
  | delete file filter =>
      simp only [toWords, List.forall_mem_cons]
      exact ⟨legible_outer (by decide), legible_outer (by decide), Word.legible_quote hq.1,
        legible_where hq.2⟩
  | insert file assignments =>
      simp only [toWords, List.forall_mem_cons]
      exact ⟨legible_outer (by decide), legible_outer (by decide), Word.legible_quote hq.1,
        legible_outer (by decide), legible_of_among_inner (Assignment.among_withCommas hq.2.2)⟩

/-- Every query is read back from its text, whatever the names, files and literals in it are, but
for backslashes, and however the commas are spaced. -/
theorem read_text {comma : Text} (hcomma : Text.strip comma = [',']) {q : Query}
    (hq : q.Legible) : read (q.text comma) = .ok q := by
  rw [read, words_strip, text, words_spellAll hcomma (legible_toWords hq)]
  exact ofWords_toWords hq

/-- A keyword, a comma with a quote and an empty text as names, and a literal that looks like a
condition. -/
theorem read_text_quoted :
    let q : Query := .select
      { columns := ["FROM", "it's, so", []], file := "a b",
        filter := some (.pair ⟨"AND", .isNotNull⟩ .either
          ⟨"k", .compare .equal (Word.quote "x' OR y = 1")⟩),
        order := [⟨"DESC", .ascending⟩, ⟨",", .descending⟩], limit := some 120,
        target := some "INTO" }
    Text.strip ", " = [','] ∧ q.Legible ∧
      q.text ", " = Text.concat ["SELECT 'FROM', 'it''s, so', '' FROM 'a b' ",
        "WHERE 'AND' IS NOT NULL OR 'k' = 'x'' OR y = 1' ",
        "ORDER BY 'DESC' ASC, ',' DESC LIMIT 120 INTO 'INTO'"] ∧
      read (q.text ", ") = .ok q := by
  intro q
  have hcomma : Text.strip ", " = [','] := by decide
  have hliteral : ∀ w ∈ some (Word.quote "x' OR y = 1"), w.IsLiteral := fun w hw =>
    Option.some.inj hw ▸ ⟨rfl, by decide⟩
  have hq : q.Legible := {
    columns_ne := List.cons_ne_nil _ _
    columns := by decide
    file := by decide
    filter := fun f hf => Option.some.inj hf ▸ ⟨⟨by decide, nofun⟩, ⟨by decide, hliteral⟩⟩
    order := by decide
    limit := by decide
    target := by decide }
  exact ⟨hcomma, hq, by decide +kernel, read_text hcomma hq⟩

end Query

end Agenda
