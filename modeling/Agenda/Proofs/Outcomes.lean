import Agenda.Proofs.Language

/-!
What comes of a text that is read as a query. A query that is read names a column or assigns to a
field, and a text that is refused is refused with a message. One text is neither read nor refused: a
selection that is in order up to its limit, which is made of digits but not of decimal ones, or of
too many.
-/

namespace Agenda.Query

variable {α β : Type} {ws : List Word} {q : Query} {R : List Word → α → Prop}

/-! ### What is read -/

/-- A condition has a literal if and only if its operator is one of the four comparisons. -/
theorem Test.isSome_literal?_iff (t : Test) :
    t.literal?.isSome = true ↔ t.symbol ∈ (["=", "<", ">", "CONTAINS"] : List Text) := by
  cases t with
  | compare op literal =>
      have hop : op.symbol ∈ (["=", "<", ">", "CONTAINS"] : List Text) := by cases op <;> decide
      exact iff_of_true rfl hop
  | isNull => decide
  | isNotNull => decide

structure Filter.WellFormed (f : Filter) : Prop where
  literal : ∀ c ∈ f.left :: f.right?.toList, c.test.literal?.isSome = true ↔
    c.test.symbol ∈ (["=", "<", ">", "CONTAINS"] : List Text)
  right : f.right?.isSome = f.combinator?.isSome

theorem Filter.wellFormed (f : Filter) : f.WellFormed where
  literal c _ := c.test.isSome_literal?_iff
  right := by cases f <;> rfl

/-- What every query that is read has: a column that is no comma, or an assignment to a name, and
filters, sort keys and a limit that make sense. -/
def WellFormed : Query → Prop
  | .select s => (s.columns ≠ [] ∧ [','] ∉ s.columns) ∧ (∀ f ∈ s.filter, f.WellFormed) ∧
      (∀ k ∈ s.order, k.direction.keyword = "ASC" ∨ k.direction.keyword = "DESC") ∧
        ∀ n ∈ s.limit, 0 ≤ n ∧ n < 10 ^ Number.maxDigits
  | .update _ as filter => (as ≠ [] ∧ ∀ a ∈ as, isKeyName a.key = true) ∧
      ∀ f ∈ filter, f.WellFormed
  | .delete _ filter => ∀ f ∈ filter, f.WellFormed
  | .insert _ as => as ≠ [] ∧ ∀ a ∈ as, isKeyName a.key = true

theorem IsListOf.ne_nil {as : List α} (h : IsListOf R ws as) : as ≠ [] := by
  obtain ⟨groups, hne, -, -, hgroups⟩ := h
  rintro rfl
  exact hne (List.forall₂_nil_right_iff.1 hgroups)

theorem IsListOf.isKeyName {as : List Assignment} (h : IsListOf IsAssignment ws as) :
    ∀ a ∈ as, isKeyName a.key = true := by
  obtain ⟨groups, -, -, -, hgroups⟩ := h
  intro a ha
  obtain ⟨g, -, ⟨hkey⟩⟩ := exists_of_mem_forall₂ hgroups ha
  exact hkey

theorem IsLimit.lt {t : Text} {n : Nat} (h : IsLimit t n) : n < 10 ^ Number.maxDigits := by
  rw [← h.value]
  exact (Text.natOfDigits_lt t).trans_le (Nat.pow_le_pow_right (by decide) h.short)

theorem IsQuery.wellFormed (h : IsQuery ws q) : q.WellFormed := by
  cases h with
  | select _ h =>
      obtain ⟨⟨hown, hcolumns, hfrom, hwhere, horder⟩, hlimit, htarget⟩ := h
      refine ⟨⟨hcolumns, fun hm => ?_⟩, fun f _ => f.wellFormed, fun k _ => ?_, fun n hn => ?_⟩
      · simpa using (List.mem_filter.1 hm).2
      · cases k.direction with
        | ascending => exact .inl rfl
        | descending => exact .inr rfl
      · cases hlimit with
        | absent => cases hn
        | present _ h =>
            obtain ⟨w, -, hlimit⟩ := h
            obtain rfl := Option.some.inj hn
            exact ⟨Nat.zero_le _, hlimit.lt⟩
  | update _ h =>
      obtain ⟨-, has, -, -⟩ := h
      exact ⟨⟨has.ne_nil, has.isKeyName⟩, fun f _ => f.wellFormed⟩
  | delete _ h =>
      obtain ⟨-, -⟩ := h
      exact fun f _ => f.wellFormed
  | insert _ h =>
      obtain ⟨-, -, has⟩ := h
      exact ⟨has.ne_nil, has.isKeyName⟩

/-! ### What is refused -/

/-- Every error but one has a message. -/
theorem Error.message_ne_nil {e : Error} (h : e ≠ .unreadableLimit) : e.message ≠ [] := by
  have hconcat : ∀ {t : Text} (ts : List Text), t ≠ [] → Text.concat (t :: ts) ≠ [] :=
    fun ts ht hnil => ht (List.append_eq_nil_iff.1 hnil).1
  cases e with
  | unreadableLimit => exact absurd rfl h
  | noColumns | noAssignments | notASortKey | noCondition | severalCombinators =>
      exact List.cons_ne_nil _ _
  | _ => exact hconcat _ (List.cons_ne_nil _ _)

/-- If the reader fails, then with a message. -/
def Explains (x : Except Error α) : Prop := x ≠ .error .unreadableLimit

@[simp] theorem explains_ok (a : α) : Explains (.ok a) := by
  simp [Explains]

@[simp] theorem explains_error_iff {e : Error} :
    Explains (.error e : Except Error α) ↔ e ≠ .unreadableLimit := by
  simp [Explains]

theorem Explains.bind {x : Except Error α} {f : α → Except Error β} (hx : Explains x)
    (hf : ∀ a, Explains (f a)) : Explains (x.bind f) := by
  cases x with
  | ok a => exact hf a
  | error e => exact fun h => hx (congrArg _ (Except.error.inj h))

theorem Explains.map {x : Except Error α} (hx : Explains x) (f : α → β) : Explains (x.map f) := by
  cases x with
  | ok a => exact explains_ok _
  | error e => exact fun h => hx (congrArg _ (Except.error.inj h))

theorem explains_mapM {f : α → Except Error β} (hf : ∀ a, Explains (f a)) (as : List α) :
    Explains (as.mapM f) := by
  induction as with
  | nil => exact explains_ok []
  | cons a as ih =>
      rw [List.mapM_cons]
      exact (hf a).bind fun b => ih.bind fun bs => explains_ok _

theorem explains_first (what : Text) (ws : List Word) : Explains (first what ws) := by
  cases ws <;> simp [first]

theorem explains_skip (k : Text) (ws : List Word) : Explains (skip k ws) := by
  cases ws with
  | nil => simp [skip]
  | cons w ws => rw [skip]; split <;> simp

theorem explains_finish (ws : List Word) : Explains (finish ws) := by
  cases ws <;> simp [finish]

theorem explains_readCondition (ws : List Word) : Explains (readCondition ws) := by
  unfold readCondition readIs
  repeat' split
  all_goals simp

theorem explains_readFilter (ws : List Word) : Explains (readFilter ws) := by
  unfold readFilter
  split
  · simp
  · split
    · simp
    · simp only
      have hleft := explains_readCondition (ws.span fun w => (combinator? w).isNone).1
      split
      · next hread =>
          rw [hread] at hleft
          exact fun h => hleft (congrArg _ (Except.error.inj h))
      · simp
      · split
        · exact (explains_readCondition _).map _
        · simp

theorem explains_readAssignments (ws : List Word) : Explains (readAssignments ws) := by
  unfold readAssignments
  split
  · simp
  · refine explains_mapM (fun g => ?_) _
    unfold readAssignment
    repeat' split
    all_goals simp

theorem explains_readOrder (ws : List Word) : Explains (readOrder ws) := by
  refine explains_mapM (fun g => ?_) _
  unfold readSortKey
  repeat' split
  all_goals simp

theorem explains_whereClause (ws : List Word) : Explains (whereClause ws) := by
  unfold whereClause
  split
  · simp
  · exact (explains_readFilter _).map _

theorem explains_orderClause (ws : List Word) : Explains (orderClause ws) := by
  unfold orderClause
  split
  · simp
  · exact (explains_skip _ _).bind fun _ => (explains_readOrder _).bind fun _ => explains_ok _

theorem explains_readOpening (ws : List Word) : Explains (readOpening ws) := by
  unfold readOpening
  simp only
  split
  · exact explains_error_iff.2 (by simp)
  · exact (explains_skip _ _).bind fun _ => (explains_first _ _).bind fun _ =>
      (explains_whereClause _).bind fun _ => (explains_orderClause _).bind fun _ => explains_ok _

theorem explains_intoClause (ws : List Word) : Explains (intoClause ws) := by
  unfold intoClause
  split
  · simp
  · exact (explains_first _ _).map _

theorem explains_readLastFilter (ws : List Word) : Explains (readLastFilter ws) := by
  unfold readLastFilter
  split
  · exact (explains_readFilter _).map _
  · simp

theorem explains_readUpdate (ws : List Word) : Explains (readUpdate ws) :=
  (explains_first _ _).bind fun _ => (explains_skip _ _).bind fun _ =>
    (explains_readAssignments _).bind fun _ =>
      (explains_readLastFilter _).bind fun _ => explains_ok _

theorem explains_readDelete (ws : List Word) : Explains (readDelete ws) := by
  refine (explains_skip _ _).bind fun _ => (explains_first _ _).bind fun _ => ?_
  simp only
  split
  · exact (explains_readFilter _).bind fun _ => explains_ok _
  · exact (explains_finish _).bind fun _ => explains_ok _

theorem explains_readInsert (ws : List Word) : Explains (readInsert ws) :=
  (explains_skip _ _).bind fun _ => (explains_first _ _).bind fun _ =>
    (explains_skip _ _).bind fun _ => (explains_readAssignments _).bind fun _ => explains_ok _

theorem explains_cutWords (t : Text) (mode : Mode) : Explains (cutWords t mode) := by
  have houtside : ∀ (c : Char) {next : Mode → Cut}, (∀ mode, Explains (next mode)) →
      Explains (cutOutside c next) := by
    intro c next hnext
    unfold cutOutside
    repeat' split
    all_goals exact (hnext _).map _
  induction t generalizing mode with
  | nil => cases mode <;> simp [cutWords]
  | cons c t ih =>
      cases mode with
      | outside => exact houtside c ih
      | inside mark =>
          rw [cutWords]
          repeat' split
          · exact ih _
          · exact ih _
          · exact (ih _).map _
      | escaped mark => exact (ih _).map _
      | closing mark =>
          rw [cutWords]
          split
          · exact (ih _).map _
          · exact (houtside c ih).map _

/-- The words of a selection that is in order up to a limit that is not read. -/
inductive StopsAtLimit : List Word → Prop
  | mk {command limit number : Word} {own after : List Word} {s : Selection}
      (hcommand : command.isKeyword "SELECT" = true) (h : IsOpening own s)
      (hlimit : limit.isKeyword "LIMIT" = true) (hnumber : IsUnreadable number.text) :
      StopsAtLimit (command :: (own ++ limit :: number :: after))

theorem bind_eq_unreadableLimit_iff {x : Except Error α} {f : α → Except Error β}
    (hx : Explains x) : x.bind f = .error .unreadableLimit ↔
      ∃ a, x = .ok a ∧ f a = .error .unreadableLimit := by
  cases x with
  | ok a => simp [Except.bind]
  | error e =>
      refine iff_of_false (fun h => hx (congrArg _ (Except.error.inj h))) ?_
      rintro ⟨a, ⟨⟩, -⟩

theorem limitClause_eq_unreadableLimit_iff : limitClause ws = .error .unreadableLimit ↔
    ∃ limit number after, ws = limit :: number :: after ∧ limit.isKeyword "LIMIT" = true ∧
      IsUnreadable number.text := by
  unfold limitClause
  constructor
  · intro h
    split at h
    · cases h
    · next own hown =>
        obtain ⟨limit, rfl, hlimit⟩ := after?_eq_some_iff.1 hown
        obtain ⟨⟨number, after⟩, hfirst, hread⟩ :=
          (bind_eq_unreadableLimit_iff (explains_first _ _)).1 h
        refine ⟨limit, number, after, congrArg (limit :: ·) (first_eq_ok_iff.1 hfirst), hlimit, ?_⟩
        rw [← readLimit_eq_unreadableLimit_iff]
        by_contra hlimit
        exact absurd hread (Explains.bind hlimit fun _ => explains_ok _)
  · rintro ⟨limit, number, after, rfl, hlimit, hnumber⟩
    rw [after?_cons hlimit]
    simp only [first, readLimit_eq_unreadableLimit_iff.2 hnumber, bind, Except.bind]

theorem readSelect_eq_unreadableLimit_iff : readSelect ws = .error .unreadableLimit ↔
    ∃ own s limit number after, ws = own ++ limit :: number :: after ∧ IsOpening own s ∧
      limit.isKeyword "LIMIT" = true ∧ IsUnreadable number.text := by
  rw [readSelect_eq]
  constructor
  · intro h
    obtain ⟨⟨s, rest⟩, hread, hclauses⟩ :=
      (bind_eq_unreadableLimit_iff (explains_readOpening ws)).1 h
    have hlimit : limitClause rest = .error .unreadableLimit := by
      by_contra hlimit
      refine absurd hclauses (Explains.bind hlimit fun _ => ?_)
      exact (explains_intoClause _).bind fun _ => (explains_finish _).bind fun _ => explains_ok _
    obtain ⟨limit, number, after, rfl, hlimit, hnumber⟩ :=
      limitClause_eq_unreadableLimit_iff.1 hlimit
    obtain ⟨own, rfl, hopening⟩ := isOpening_of_readOpening hread
    exact ⟨own, s, limit, number, after, rfl, hopening, hlimit, hnumber⟩
  · rintro ⟨own, s, limit, number, after, rfl, hopening, hlimit, hnumber⟩
    have hopens : Opens ["LIMIT", "INTO"] (limit :: number :: after) := fun w hw =>
      ⟨"LIMIT", List.mem_cons_self, Option.some.inj hw ▸ hlimit⟩
    have hread := limitClause_eq_unreadableLimit_iff.2 ⟨limit, number, after, rfl, hlimit, hnumber⟩
    simp only [readOpening_of_isOpening hopening hopens, hread, bind, Except.bind]

theorem ofWords_eq_unreadableLimit_iff :
    ofWords ws = .error .unreadableLimit ↔ StopsAtLimit ws := by
  constructor
  · intro h
    obtain ⟨⟨command, rest⟩, hfirst, h⟩ := (bind_eq_unreadableLimit_iff (explains_first _ _)).1 h
    rw [first_eq_ok_iff.1 hfirst]
    simp only at h
    split at h
    · next hcommand =>
        obtain ⟨own, s, limit, number, after, rfl, hopening, hlimit, hnumber⟩ :=
          readSelect_eq_unreadableLimit_iff.1 h
        exact .mk hcommand hopening hlimit hnumber
    · split at h
      · exact absurd h (explains_readUpdate _)
      · split at h
        · exact absurd h (explains_readDelete _)
        · split at h
          · exact absurd h (explains_readInsert _)
          · cases h
  · intro h
    cases h with
    | @mk command limit number own after s hcommand hopening hlimit hnumber =>
        have hread := readSelect_eq_unreadableLimit_iff.2
          ⟨own, s, limit, number, after, rfl, hopening, hlimit, hnumber⟩
        simp only [ofWords, first, bind, Except.bind, hcommand, if_true, hread]

/-- What comes of a text: a query, a message, or neither. It is a query if and only if the words are
those of one, and the query is well-formed. It is neither if and only if the words are those of a
selection that is in order up to a limit made of digits that are not all decimal ones, or are too
many. -/
theorem read_outcomes (t : Text) :
    ((∃ q, read t = .ok q) ∨ (∃ e, read t = .error e ∧ e.message ≠ []) ∨
      read t = .error .unreadableLimit) ∧
      (∀ q, read t = .ok q ↔ ∃ ws, words (Text.strip t) = .ok ws ∧ IsQuery ws q) ∧
      (∀ q, read t = .ok q → q.WellFormed) ∧
      (read t = .error .unreadableLimit ↔
        ∃ ws, words (Text.strip t) = .ok ws ∧ StopsAtLimit ws) := by
  have hread : ∀ q, read t = .ok q ↔ ∃ ws, words (Text.strip t) = .ok ws ∧ IsQuery ws q := by
    intro q
    unfold read
    cases words (Text.strip t) with
    | error e => simp
    | ok ws => simp [ofWords_eq_ok_iff]
  refine ⟨?_, hread, fun q hq => ?_, ?_⟩
  · cases h : read t with
    | ok q => exact .inl ⟨q, rfl⟩
    | error e =>
        by_cases he : e = .unreadableLimit
        · exact .inr (.inr (congrArg _ he))
        · exact .inr (.inl ⟨e, rfl, Error.message_ne_nil he⟩)
  · obtain ⟨ws, -, hws⟩ := (hread q).1 hq
    exact hws.wellFormed
  · have hwords : Explains (words (Text.strip t)) := (explains_cutWords _ _).map _
    unfold read
    cases hws : words (Text.strip t) with
    | error e =>
        refine iff_of_false (fun h => hwords ?_) (by simp)
        rw [hws, Except.error.inj h]
    | ok ws => simp [ofWords_eq_unreadableLimit_iff]

/-- A power is a digit, but no decimal one; a limit below zero is refused with a message. -/
example : read "select a from f limit ²" = .error .unreadableLimit ∧
    read "select a from f limit -2" = .error (.notALimit "-2") := ⟨rfl, rfl⟩

end Agenda.Query
