import Agenda.Proofs.Grammar

/-!
The parts of queries. What the words of a condition, of a filter, of a list of sort keys or
assignments and of a limit are is said apart from the readers, and each reader takes exactly these.
-/

namespace Agenda.Query

variable {α : Type} {w : Word} {ws own rest : List Word} {k : Text} {kws : List Text}

/-! ### Keywords -/

namespace Word

/-- A word is one keyword at most. -/
theorem isKeyword_eq (h : w.isKeyword k = true) (kw : Text) : w.isKeyword kw = decide (k = kw) := by
  rw [isKeyword, decide_eq_true_eq] at h
  simp [isKeyword, h]

theorem isComma_iff : w.isComma = true ↔ w = bare [','] := by
  obtain ⟨text, quoted⟩ := w
  cases quoted <;> simp [isComma, bare]

end Word

theorem comparison?_eq_some_iff {op : Comparison} :
    comparison? w = some op ↔ w.isKeyword op.symbol = true := by
  constructor
  · intro h
    unfold comparison? at h
    repeat' split at h
    all_goals cases h
    all_goals assumption
  · intro h
    simp only [comparison?, Word.isKeyword_eq h]
    cases op <;> rfl

theorem combinator?_eq_some_iff {c : Combinator} :
    combinator? w = some c ↔ w.isKeyword c.keyword = true := by
  constructor
  · intro h
    unfold combinator? at h
    repeat' split at h
    all_goals cases h
    all_goals assumption
  · intro h
    simp only [combinator?, Word.isKeyword_eq h]
    cases c <;> rfl

def Avoid (kws : List Text) (ws : List Word) : Prop :=
  ∀ w ∈ ws, ∀ k ∈ kws, w.isKeyword k = false

def Opens (kws : List Text) (ws : List Word) : Prop :=
  ∀ w ∈ ws.head?, ∃ k ∈ kws, w.isKeyword k = true

theorem opens_nil (kws : List Text) : Opens kws [] := nofun

theorem span_eq_iff {p : Word → Bool} : ws.span p = (own, rest) ↔
    ws = own ++ rest ∧ (∀ w ∈ own, p w = true) ∧ ∀ w ∈ rest.head?, p w = false := by
  constructor
  · intro h
    rw [List.span_eq_takeWhile_dropWhile] at h
    obtain ⟨rfl, rfl⟩ := Prod.mk.inj h
    refine ⟨List.takeWhile_append_dropWhile.symm, fun w hw => List.mem_takeWhile_imp hw,
      fun w hw => ?_⟩
    have hhead := List.head?_dropWhile_not p ws
    rw [Option.mem_def.1 hw] at hhead
    exact hhead
  · rintro ⟨rfl, hown, hrest⟩
    exact span_append hown hrest

theorem splitAtKeyword_eq_iff : splitAtKeyword kws ws = (own, rest) ↔
    ws = own ++ rest ∧ Avoid kws own ∧ Opens kws rest := by
  simp only [splitAtKeyword, span_eq_iff, Bool.not_eq_true', Bool.not_eq_false', List.any_eq_false,
    List.any_eq_true, Bool.not_eq_true, Avoid, Opens]

theorem exists_splitAtKeyword (kws : List Text) (ws : List Word) : ∃ own rest,
    splitAtKeyword kws ws = (own, rest) ∧ ws = own ++ rest ∧ Avoid kws own ∧ Opens kws rest :=
  ⟨_, _, rfl, splitAtKeyword_eq_iff.1 rfl⟩

theorem first_eq_ok_iff {what : Text} : first what ws = .ok (w, rest) ↔ ws = w :: rest := by
  cases ws with
  | nil => simp [first]
  | cons v ws => simp [first]

theorem skip_eq_ok_iff : skip k ws = .ok rest ↔ ∃ w, ws = w :: rest ∧ w.isKeyword k = true := by
  cases ws with
  | nil => simp [skip]
  | cons v ws =>
      rw [skip]
      split
      · next hv => simp [hv]
      · next hv => simp [hv]

theorem after?_eq_some_iff : after? k ws = some rest ↔
    ∃ w, ws = w :: rest ∧ w.isKeyword k = true := by
  cases ws with
  | nil => simp [after?]
  | cons v ws =>
      rw [after?]
      split
      · next hv => simp [hv]
      · next hv => simp [hv]

theorem skip_cons (h : w.isKeyword k = true) (ws : List Word) : skip k (w :: ws) = .ok ws :=
  skip_eq_ok_iff.2 ⟨w, rfl, h⟩

theorem after?_cons (h : w.isKeyword k = true) (ws : List Word) : after? k (w :: ws) = some ws :=
  after?_eq_some_iff.2 ⟨w, rfl, h⟩

/-! ### Conditions -/

inductive IsCondition : List Word → Condition → Prop
  | compare {key op literal : Word} {c : Comparison} (hop : op.isKeyword c.symbol = true) :
      IsCondition [key, op, literal] ⟨key.text, .compare c literal⟩
  | isNull {key is null : Word} (his : is.isKeyword "IS" = true)
      (hnull : null.isKeyword "NULL" = true) : IsCondition [key, is, null] ⟨key.text, .isNull⟩
  | isNotNull {key is not null : Word} (his : is.isKeyword "IS" = true)
      (hnot : not.isKeyword "NOT" = true) (hnull : null.isKeyword "NULL" = true) :
      IsCondition [key, is, not, null] ⟨key.text, .isNotNull⟩

theorem isCondition_of_readIs {key is : Word} {all : List Word} {c : Condition}
    (his : is.isKeyword "IS" = true) (h : readIs all key.text rest = .ok c) :
    IsCondition (key :: is :: rest) c := by
  unfold readIs at h
  split at h
  · split at h
    · next hnull =>
        obtain rfl := Except.ok.inj h
        exact .isNull his hnull
    · cases h
  · split at h
    · next hwords =>
        obtain rfl := Except.ok.inj h
        obtain ⟨hnot, hnull⟩ := Bool.and_eq_true_iff.1 hwords
        exact .isNotNull his hnot hnull
    · cases h
  · cases h

theorem readCondition_eq_ok_iff {c : Condition} :
    readCondition ws = .ok c ↔ IsCondition ws c := by
  constructor
  · intro h
    unfold readCondition at h
    split at h
    · next key op literal rest =>
        split at h
        · next his => exact isCondition_of_readIs his h
        · split at h
          · cases h
          · next hrest =>
              split at h
              · next c hop =>
                  obtain rfl := Except.ok.inj h
                  obtain rfl : rest = [] := by simpa using hrest
                  exact .compare (comparison?_eq_some_iff.1 hop)
              · cases h
    · cases h
  · intro h
    cases h with
    | @compare key op literal c hop =>
        have his : op.isKeyword "IS" = false := by
          rw [Word.isKeyword_eq hop]
          cases c <;> rfl
        simp only [readCondition, his, comparison?_eq_some_iff.2 hop]
        rfl
    | isNull his hnull => simp only [readCondition, readIs, his, hnull, if_true]
    | isNotNull his hnot hnull =>
        simp only [readCondition, readIs, his, hnot, hnull, if_true, Bool.and_self]

def combinators : List Text := ["AND", "OR"]

theorem combinator?_eq_none_iff :
    combinator? w = none ↔ ∀ k ∈ combinators, w.isKeyword k = false := by
  rw [← Option.not_isSome_iff_eq_none, Option.isSome_iff_exists, not_exists]
  simp only [combinator?_eq_some_iff, combinators, List.forall_mem_cons, List.not_mem_nil,
    false_imp_iff, implies_true, and_true, Bool.not_eq_true]
  constructor
  · exact fun h => ⟨h .both, h .either⟩
  · rintro ⟨hand, hor⟩ c
    cases c with
    | both => exact hand
    | either => exact hor

inductive IsFilter : List Word → Filter → Prop
  | single {ws : List Word} {c : Condition} (h : IsCondition ws c) (hws : Avoid combinators ws) :
      IsFilter ws (.single c)
  | pair {w : Word} {ls rs : List Word} {left right : Condition} {c : Combinator}
      (hleft : IsCondition ls left) (hls : Avoid combinators ls)
      (hword : w.isKeyword c.keyword = true)
      (hright : IsCondition rs right) (hrs : Avoid combinators rs) :
      IsFilter (ls ++ w :: rs) (.pair left c right)

theorem countP_combinator?_eq_zero_iff :
    ws.countP (fun w => (combinator? w).isSome) = 0 ↔ Avoid combinators ws := by
  rw [List.countP_eq_zero]
  refine forall₂_congr fun w _ => ?_
  rw [Option.not_isSome_iff_eq_none, combinator?_eq_none_iff]

theorem IsCondition.ne_nil {c : Condition} (h : IsCondition ws c) : ws ≠ [] := by
  cases h <;> exact List.cons_ne_nil _ _

/-- What the reader of a filter finds: the words up to a combinator, and those after it if there is
one. -/
theorem isFilter_of_readFilter {f : Filter} (h : readFilter ws = .ok f) : IsFilter ws f := by
  obtain ⟨⟨ls, rs⟩, hspan⟩ : ∃ parts, ws.span (fun w => (combinator? w).isNone) = parts := ⟨_, rfl⟩
  obtain ⟨hws, hnone, hsome⟩ := span_eq_iff.1 hspan
  have hls : Avoid combinators ls := fun w hw =>
    combinator?_eq_none_iff.1 (Option.isNone_iff_eq_none.1 (hnone w hw))
  unfold readFilter at h
  rw [hspan] at h
  split at h
  · cases h
  · split at h
    · cases h
    · next hcount =>
        simp only at h
        cases hread : readCondition ls with
        | error e => simp [hread] at h
        | ok left =>
            have hleft := readCondition_eq_ok_iff.1 hread
            cases rs with
            | nil =>
                simp only [hread] at h
                obtain rfl := Except.ok.inj h
                rw [hws, List.append_nil]
                exact .single hleft hls
            | cons w rs =>
                obtain ⟨c, hc⟩ : ∃ c, combinator? w = some c := by
                  rw [← Option.isSome_iff_exists, ← Option.not_isNone, hsome w rfl]
                  rfl
                simp only [hread, hc] at h
                obtain ⟨right, hright, rfl⟩ := map_eq_ok.1 h
                have hrs : Avoid combinators rs := by
                  rw [← countP_combinator?_eq_zero_iff]
                  -- The combinator is the only one.
                  rw [hws, List.countP_append, List.countP_cons, hc] at hcount
                  simp only [Option.isSome_some, if_true] at hcount
                  omega
                rw [hws]
                exact .pair hleft hls (combinator?_eq_some_iff.1 hc)
                  (readCondition_eq_ok_iff.1 hright) hrs

theorem readFilter_eq_ok_iff {f : Filter} : readFilter ws = .ok f ↔ IsFilter ws f := by
  constructor
  · exact isFilter_of_readFilter
  · have hnone : ∀ {ws : List Word}, Avoid combinators ws →
        ∀ w ∈ ws, (combinator? w).isNone = true := fun h w hw =>
      Option.isNone_iff_eq_none.2 (combinator?_eq_none_iff.2 (h w hw))
    intro h
    cases h with
    | single h hws =>
        have hspan : ws.span (fun w => (combinator? w).isNone) = (ws, []) :=
          span_eq_iff.2 ⟨(List.append_nil ws).symm, hnone hws, nofun⟩
        simp only [readFilter, List.isEmpty_eq_false_iff.2 h.ne_nil,
          countP_combinator?_eq_zero_iff.2 hws, hspan, readCondition_eq_ok_iff.2 h]
        rfl
    | @pair w ls rs left right c hleft hls hword hright hrs =>
        have hc := combinator?_eq_some_iff.2 hword
        have hspan : (ls ++ w :: rs).span (fun w => (combinator? w).isNone) = (ls, w :: rs) := by
          refine span_append (hnone hls) fun v hv => ?_
          rw [← Option.some.inj hv, hc]
          rfl
        have hcount : (ls ++ w :: rs).countP (fun w => (combinator? w).isSome) = 1 := by
          rw [List.countP_append, List.countP_cons, hc, countP_combinator?_eq_zero_iff.2 hls,
            countP_combinator?_eq_zero_iff.2 hrs]
          rfl
        have hne : (ls ++ w :: rs).isEmpty = false := by simp
        simp only [readFilter, hne, hcount, hspan, readCondition_eq_ok_iff.2 hleft, hc,
          readCondition_eq_ok_iff.2 hright]
        rfl

/-! ### Lists -/

theorem commaGroups_ne_nil (ws : List Word) : commaGroups ws ≠ [] := by
  cases ws with
  | nil => exact List.cons_ne_nil _ _
  | cons w ws =>
      rw [commaGroups]
      split
      · exact List.cons_ne_nil _ _
      · split <;> exact List.cons_ne_nil _ _

theorem withCommas_commaGroups (ws : List Word) : withCommas (commaGroups ws) = ws := by
  induction ws with
  | nil => rfl
  | cons w ws ih =>
      obtain ⟨g, gs, hgroups⟩ := List.exists_cons_of_ne_nil (commaGroups_ne_nil ws)
      rw [hgroups] at ih
      rw [commaGroups, hgroups]
      split
      · next hcomma =>
          obtain rfl := Word.isComma_iff.1 hcomma
          rw [withCommas_cons_cons, ih, List.nil_append]
      · cases gs with
        | nil =>
            rw [withCommas_singleton] at ih ⊢
            rw [ih]
        | cons g' gs =>
            rw [withCommas_cons_cons] at ih ⊢
            rw [List.cons_append, ih]

theorem isComma_of_mem_commaGroups : ∀ g ∈ commaGroups ws, ∀ w ∈ g, w.isComma = false := by
  induction ws with
  | nil => exact List.forall_mem_singleton.2 nofun
  | cons w ws ih =>
      obtain ⟨g, gs, hgroups⟩ := List.exists_cons_of_ne_nil (commaGroups_ne_nil ws)
      rw [hgroups] at ih
      rw [commaGroups, hgroups]
      split
      · exact List.forall_mem_cons.2 ⟨nofun, ih⟩
      · next hcomma =>
          rw [List.forall_mem_cons] at ih ⊢
          exact ⟨List.forall_mem_cons.2 ⟨by simpa using hcomma, ih.1⟩, ih.2⟩

/-- The words are a list with commas between its parts, which are related one by one. -/
def IsListOf (R : List Word → α → Prop) (ws : List Word) (as : List α) : Prop :=
  ∃ groups, groups ≠ [] ∧ ws = withCommas groups ∧ (∀ g ∈ groups, ∀ w ∈ g, w.isComma = false) ∧
    List.Forall₂ R groups as

theorem mapM_commaGroups_eq_ok_iff {read : List Word → Except Error α} {R : List Word → α → Prop}
    (hread : ∀ {g a}, read g = .ok a ↔ R g a) {as : List α} :
    (commaGroups ws).mapM read = .ok as ↔ IsListOf R ws as := by
  have hsame : (fun g a => read g = .ok a) = R := by
    funext g a
    exact propext hread
  rw [mapM_eq_ok, hsame]
  constructor
  · intro h
    exact ⟨_, commaGroups_ne_nil ws, (withCommas_commaGroups ws).symm, isComma_of_mem_commaGroups,
      h⟩
  · rintro ⟨groups, hne, rfl, hcomma, h⟩
    rwa [commaGroups_withCommas hne hcomma]

inductive IsAssignment : List Word → Assignment → Prop
  | mk {key literal : Word} (hkey : isKeyName key.text = true) :
      IsAssignment [key, .bare "=", literal] ⟨key.text, literal⟩

theorem readAssignment_eq_ok_iff {a : Assignment} :
    readAssignment ws = .ok a ↔ IsAssignment ws a := by
  constructor
  · intro h
    unfold readAssignment at h
    split at h
    · next key op literal =>
        split at h
        · cases h
        · next hop =>
            split at h
            · next hkey =>
                obtain rfl := Except.ok.inj h
                obtain ⟨text, quoted⟩ := op
                obtain ⟨rfl, rfl⟩ : quoted = false ∧ text = ['='] := by simpa using hop
                exact .mk hkey
            · cases h
    · cases h
  · rintro ⟨hkey⟩
    simp [readAssignment, Word.bare, hkey]

theorem readAssignments_eq_ok_iff {as : List Assignment} :
    readAssignments ws = .ok as ↔ IsListOf IsAssignment ws as := by
  rw [readAssignments, ← mapM_commaGroups_eq_ok_iff readAssignment_eq_ok_iff]
  split
  · next hempty =>
      obtain rfl : ws = [] := by simpa using hempty
      exact iff_of_false (by simp) (by simp [commaGroups, readAssignment])
  · rfl

inductive IsSortKey : List Word → SortKey → Prop
  | plain {key : Word} : IsSortKey [key] ⟨key.text, .ascending⟩
  | directed {key direction : Word} {d : Direction}
      (hdirection : direction.isKeyword d.keyword = true) :
      IsSortKey [key, direction] ⟨key.text, d⟩

theorem readSortKey_eq_ok_iff {k : SortKey} : readSortKey ws = .ok k ↔ IsSortKey ws k := by
  constructor
  · intro h
    unfold readSortKey at h
    split at h
    · obtain rfl := Except.ok.inj h
      exact .plain
    · split at h
      · next hasc =>
          obtain rfl := Except.ok.inj h
          exact .directed hasc
      · split at h
        · next hdesc =>
            obtain rfl := Except.ok.inj h
            exact .directed hdesc
        · cases h
    · cases h
  · intro h
    cases h with
    | plain => rfl
    | @directed key direction d hdirection =>
        simp only [readSortKey, Word.isKeyword_eq hdirection]
        cases d <;> rfl

/-! ### Limits -/

structure IsLimit (t : Text) (n : Nat) : Prop where
  ne_nil : t ≠ []
  digits : ∀ c ∈ t, Text.isDigit c = true
  short : t.length ≤ Number.maxDigits
  value : Text.natOfDigits t = n

/-- The text is made of digits, but it is no limit. -/
structure IsUnreadable (t : Text) : Prop where
  ne_nil : t ≠ []
  digits : ∀ c ∈ t, Text.isDigitLike c = true
  unreadable : (∃ c ∈ t, Text.isDigit c = false) ∨ Number.maxDigits < t.length

theorem readLimit_eq_ok_iff {t : Text} {n : Nat} : readLimit t = .ok n ↔ IsLimit t n := by
  unfold readLimit
  split
  · next hwrong =>
      refine iff_of_false (by simp) fun h => ?_
      have hlike : t.all Text.isDigitLike = true :=
        List.all_eq_true.2 fun c hc => by rw [Text.isDigitLike, h.digits c hc]; rfl
      simp [h.ne_nil, hlike] at hwrong
  · next hright =>
      have hne : t ≠ [] := by
        rintro rfl
        exact hright rfl
      split
      · next hdigits =>
          simp only [Bool.and_eq_true, decide_eq_true_eq, List.all_eq_true] at hdigits
          rw [Except.ok.injEq]
          exact ⟨fun h => ⟨hne, hdigits.1, hdigits.2, h⟩, fun h => h.value⟩
      · next hdigits =>
          refine iff_of_false (by simp) fun h => hdigits ?_
          simp only [Bool.and_eq_true, decide_eq_true_eq, List.all_eq_true]
          exact ⟨h.digits, h.short⟩

theorem readLimit_eq_unreadableLimit_iff {t : Text} :
    readLimit t = .error .unreadableLimit ↔ IsUnreadable t := by
  unfold readLimit
  split
  · next hwrong =>
      refine iff_of_false (by simp) fun h => ?_
      have hlike : t.all Text.isDigitLike = true := List.all_eq_true.2 h.digits
      simp [h.ne_nil, hlike] at hwrong
  · next hright =>
      obtain ⟨hne, hlike⟩ : t ≠ [] ∧ ∀ c ∈ t, Text.isDigitLike c = true := by simpa using hright
      split
      · next hdigits =>
          simp only [Bool.and_eq_true, decide_eq_true_eq, List.all_eq_true] at hdigits
          refine iff_of_false (by simp) fun h => ?_
          rcases h.unreadable with ⟨c, hc, hfalse⟩ | hlong
          · rw [hdigits.1 c hc] at hfalse
            cases hfalse
          · omega
      · next hdigits =>
          refine iff_of_true rfl ⟨hne, hlike, ?_⟩
          by_contra hno
          push Not at hno
          refine hdigits ?_
          simp only [Bool.and_eq_true, decide_eq_true_eq, List.all_eq_true]
          exact ⟨fun c hc => by simpa using hno.1 c hc, hno.2⟩

end Agenda.Query
