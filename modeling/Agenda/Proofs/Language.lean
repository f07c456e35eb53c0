import Agenda.Proofs.Phrases

/-!
The language of queries. Its clauses come in a fixed order and each of them ends where the next may
begin, so a sequence of words is one query at most. The reader takes exactly the words of queries.
-/

namespace Agenda.Query

variable {α : Type} {ws own rest : List Word} {kw : Text} {kws : List Text}

/-! ### Clauses -/

/-- A clause that need not be there: its keyword and what follows it. -/
inductive IsClause (kw : Text) (R : List Word → α → Prop) : List Word → Option α → Prop
  | absent : IsClause kw R [] none
  | present {w : Word} {own : List Word} {a : α} (hw : w.isKeyword kw = true) (h : R own a) :
      IsClause kw R (w :: own) (some a)

variable {R : List Word → α → Prop} {a? : Option α}

/-- With a clause in front the words begin with its keyword, or as they did without. -/
theorem IsClause.opens (h : IsClause kw R own a?) (hrest : Opens kws rest) :
    Opens (kw :: kws) (own ++ rest) := by
  cases h with
  | absent => exact fun w hw => (hrest w hw).imp fun _ hk => ⟨List.mem_cons_of_mem _ hk.1, hk.2⟩
  | present hw => exact fun v hv => ⟨kw, List.mem_cons_self, Option.some.inj hv ▸ hw⟩

theorem IsClause.opens_self (h : IsClause kw R own a?) : Opens [kw] own := by
  have hopens := h.opens (opens_nil [])
  rwa [List.append_nil] at hopens

theorem Opens.after?_eq_none (h : Opens kws ws) (hkw : kw ∉ kws) : after? kw ws = none := by
  cases ws with
  | nil => rfl
  | cons w ws =>
      obtain ⟨k, hk, hw⟩ := h w rfl
      have hne : k ≠ kw := by
        rintro rfl
        exact hkw hk
      rw [after?, Word.isKeyword_eq hw, decide_eq_false hne, if_neg Bool.false_ne_true]

def IsWhere (ws : List Word) (f : Filter) : Prop :=
  IsFilter ws f ∧ Avoid ["ORDER", "LIMIT", "INTO"] ws

def IsOrder (ws : List Word) (ks : List SortKey) : Prop :=
  ∃ v own, ws = v :: own ∧ v.isKeyword "BY" = true ∧ IsListOf IsSortKey own ks ∧
    Avoid ["LIMIT", "INTO"] own

theorem whereClause_of_isClause {filter : Option Filter} (h : IsClause "WHERE" IsWhere own filter)
    (hrest : Opens ["ORDER", "LIMIT", "INTO"] rest) :
    whereClause (own ++ rest) = .ok (filter, rest) := by
  cases h with
  | absent =>
      have hnone : after? "WHERE" rest = none := hrest.after?_eq_none (by decide)
      rw [List.nil_append, whereClause, hnone]
  | @present w own f hw hf =>
      have hsplit := splitAtKeyword_eq_iff.2 ⟨rfl, hf.2, hrest⟩
      rw [List.cons_append, whereClause, after?_cons hw]
      simp only [hsplit, readFilter_eq_ok_iff.2 hf.1]
      rfl

theorem isClause_of_whereClause {filter : Option Filter} (h : whereClause ws = .ok (filter, rest)) :
    ∃ own, ws = own ++ rest ∧ IsClause "WHERE" IsWhere own filter := by
  unfold whereClause at h
  split at h
  · cases h
    exact ⟨[], rfl, .absent⟩
  · next after hafter =>
      obtain ⟨w, rfl, hw⟩ := after?_eq_some_iff.1 hafter
      obtain ⟨own, rest, hsplit, rfl, havoid, -⟩ :=
        exists_splitAtKeyword ["ORDER", "LIMIT", "INTO"] after
      rw [hsplit] at h
      obtain ⟨f, hf, hpair⟩ := map_eq_ok.1 h
      obtain ⟨rfl, rfl⟩ := Prod.mk.inj hpair
      exact ⟨w :: own, rfl, .present hw ⟨readFilter_eq_ok_iff.1 hf, havoid⟩⟩

theorem orderClause_of_isClause {order : Option (List SortKey)}
    (h : IsClause "ORDER" IsOrder own order) (hrest : Opens ["LIMIT", "INTO"] rest) :
    orderClause (own ++ rest) = .ok (order.getD [], rest) := by
  cases h with
  | absent =>
      have hnone : after? "ORDER" rest = none := hrest.after?_eq_none (by decide)
      rw [List.nil_append, orderClause, hnone]
      rfl
  | @present w own ks hw hks =>
      obtain ⟨v, own, rfl, hv, hks, havoid⟩ := hks
      have hsplit := splitAtKeyword_eq_iff.2 ⟨rfl, havoid, hrest⟩
      have hread : readOrder own = .ok ks :=
        (mapM_commaGroups_eq_ok_iff readSortKey_eq_ok_iff).2 hks
      rw [List.cons_append, orderClause, after?_cons hw, List.cons_append]
      simp only [skip_cons hv, hsplit, hread, bind, Except.bind]
      rfl

theorem isClause_of_orderClause {ks : List SortKey} (h : orderClause ws = .ok (ks, rest)) :
    ∃ own order, ws = own ++ rest ∧ IsClause "ORDER" IsOrder own order ∧ ks = order.getD [] := by
  unfold orderClause at h
  split at h
  · cases h
    exact ⟨[], none, rfl, .absent, rfl⟩
  · next after hafter =>
      obtain ⟨w, rfl, hw⟩ := after?_eq_some_iff.1 hafter
      obtain ⟨afterBy, hskip, hrest⟩ := bind_eq_ok.1 h
      obtain ⟨own, rest, hsplit, rfl, havoid, -⟩ := exists_splitAtKeyword ["LIMIT", "INTO"] afterBy
      rw [hsplit] at hrest
      obtain ⟨ks, hread, hpair⟩ := bind_eq_ok.1 hrest
      obtain ⟨rfl, rfl⟩ := Prod.mk.inj (Except.ok.inj hpair)
      obtain ⟨v, rfl, hv⟩ := skip_eq_ok_iff.1 hskip
      have hks := (mapM_commaGroups_eq_ok_iff readSortKey_eq_ok_iff).1 hread
      exact ⟨w :: v :: own, some ks, rfl, .present hw ⟨v, own, rfl, hv, hks, havoid⟩, rfl⟩

/-! ### Selections -/

/-- What a selection says before its limit: the columns, the file, the filter and the order, and the
words that are left. -/
def readOpening (ws : List Word) : Except Error (Selection × List Word) := do
  let (own, ws) := splitAtKeyword ["FROM"] ws
  let columns := (own.map (·.text)).filter (· ≠ [','])
  if columns.isEmpty then throw .noColumns
  let (file, ws) ← first "a file name" (← skip "FROM" ws)
  let (filter, ws) ← whereClause ws
  let (order, ws) ← orderClause ws
  return ({ columns, file := file.text, filter, order }, ws)

theorem readSelect_eq (ws : List Word) : readSelect ws = (do
    let (s, ws) ← readOpening ws
    let (limit, ws) ← limitClause ws
    let (target, ws) ← intoClause ws
    finish ws
    return .select { s with limit, target }) := by
  simp only [readSelect, readOpening]
  split
  · rfl
  · simp only [bind_assoc, pure_bind]

/-- The columns that words name: all of them but commas, in quotes or not. -/
def columnsIn (ws : List Word) : List Text := (ws.map (·.text)).filter (· ≠ [','])

inductive IsOpening : List Word → Selection → Prop
  | mk {own wheres orders : List Word} {fromWord file : Word} {filter : Option Filter}
      {order : Option (List SortKey)} (hown : Avoid ["FROM"] own) (hcolumns : columnsIn own ≠ [])
      (hfrom : fromWord.isKeyword "FROM" = true) (hwhere : IsClause "WHERE" IsWhere wheres filter)
      (horder : IsClause "ORDER" IsOrder orders order) :
      IsOpening (own ++ fromWord :: file :: (wheres ++ orders))
        { columns := columnsIn own, file := file.text, filter, order := order.getD [] }

theorem readOpening_of_isOpening {s : Selection} (h : IsOpening own s)
    (hrest : Opens ["LIMIT", "INTO"] rest) : readOpening (own ++ rest) = .ok (s, rest) := by
  cases h with
  | @mk own wheres orders fromWord file filter order hown hcolumns hfrom hwhere horder =>
      have hsplit :
          splitAtKeyword ["FROM"] (own ++ fromWord :: file :: (wheres ++ orders) ++ rest) =
          (own, fromWord :: file :: (wheres ++ (orders ++ rest))) := by
        refine splitAtKeyword_eq_iff.2 ⟨by simp, hown, ?_⟩
        exact fun w hw => ⟨"FROM", List.mem_cons_self, Option.some.inj hw ▸ hfrom⟩
      have hne : ((own.map (·.text)).filter (· ≠ [','])).isEmpty = false :=
        List.isEmpty_eq_false_iff.2 hcolumns
      simp only [readOpening, hsplit, hne, skip_cons hfrom, first, whereClause_of_isClause hwhere
        (horder.opens hrest), orderClause_of_isClause horder hrest, bind, Except.bind]
      rfl

theorem isOpening_of_readOpening {s : Selection} (h : readOpening ws = .ok (s, rest)) :
    ∃ own, ws = own ++ rest ∧ IsOpening own s := by
  obtain ⟨own, after, hsplit, rfl, hown, -⟩ := exists_splitAtKeyword ["FROM"] ws
  unfold readOpening at h
  rw [hsplit] at h
  simp only at h
  split at h
  · cases h
  · next hcolumns =>
      obtain ⟨afterFrom, hskip, h⟩ := bind_eq_ok.1 h
      obtain ⟨⟨file, afterFile⟩, hfirst, h⟩ := bind_eq_ok.1 h
      obtain ⟨⟨filter, afterWhere⟩, hreadWhere, h⟩ := bind_eq_ok.1 h
      obtain ⟨⟨order, afterOrder⟩, hreadOrder, h⟩ := bind_eq_ok.1 h
      obtain ⟨rfl, rfl⟩ := Prod.mk.inj (Except.ok.inj h)
      obtain ⟨fromWord, rfl, hfrom⟩ := skip_eq_ok_iff.1 hskip
      obtain rfl := first_eq_ok_iff.1 hfirst
      obtain ⟨wheres, rfl, hwhere⟩ := isClause_of_whereClause hreadWhere
      obtain ⟨orders, order, rfl, horder, rfl⟩ := isClause_of_orderClause hreadOrder
      have hne : columnsIn own ≠ [] := fun hnil => hcolumns (List.isEmpty_iff.2 hnil)
      exact ⟨_, by simp, .mk hown hne hfrom hwhere horder⟩

def IsLimitWord (ws : List Word) (n : Nat) : Prop := ∃ w, ws = [w] ∧ IsLimit w.text n

def IsTargetWord (ws : List Word) (t : Text) : Prop := ∃ w, ws = [w] ∧ w.text = t

theorem limitClause_of_isClause {limit : Option Nat} (h : IsClause "LIMIT" IsLimitWord own limit)
    (hrest : Opens ["INTO"] rest) : limitClause (own ++ rest) = .ok (limit, rest) := by
  cases h with
  | absent =>
      have hnone : after? "LIMIT" rest = none := hrest.after?_eq_none (by decide)
      rw [List.nil_append, limitClause, hnone]
  | @present w own n hw hn =>
      obtain ⟨number, rfl, hn⟩ := hn
      rw [List.cons_append, limitClause, after?_cons hw]
      simp only [List.cons_append, first, readLimit_eq_ok_iff.2 hn, bind, Except.bind]
      rfl

theorem isClause_of_limitClause {limit : Option Nat} (h : limitClause ws = .ok (limit, rest)) :
    ∃ own, ws = own ++ rest ∧ IsClause "LIMIT" IsLimitWord own limit := by
  unfold limitClause at h
  split at h
  · cases h
    exact ⟨[], rfl, .absent⟩
  · next after hafter =>
      obtain ⟨w, rfl, hw⟩ := after?_eq_some_iff.1 hafter
      obtain ⟨⟨number, rest⟩, hfirst, h⟩ := bind_eq_ok.1 h
      obtain ⟨n, hn, h⟩ := bind_eq_ok.1 h
      obtain ⟨rfl, rfl⟩ := Prod.mk.inj (Except.ok.inj h)
      obtain rfl := first_eq_ok_iff.1 hfirst
      exact ⟨[w, number], rfl, .present hw ⟨number, rfl, readLimit_eq_ok_iff.1 hn⟩⟩

theorem intoClause_of_isClause {target : Option Text}
    (h : IsClause "INTO" IsTargetWord own target) :
    intoClause own = .ok (target, []) := by
  cases h with
  | absent => rfl
  | @present w own t hw ht =>
      obtain ⟨v, rfl, rfl⟩ := ht
      rw [intoClause, after?_cons hw]
      rfl

theorem isClause_of_intoClause {target : Option Text} (h : intoClause ws = .ok (target, rest)) :
    ∃ own, ws = own ++ rest ∧ IsClause "INTO" IsTargetWord own target := by
  unfold intoClause at h
  split at h
  · cases h
    exact ⟨[], rfl, .absent⟩
  · next after hafter =>
      obtain ⟨w, rfl, hw⟩ := after?_eq_some_iff.1 hafter
      obtain ⟨⟨v, rest⟩, hfirst, hpair⟩ := map_eq_ok.1 h
      obtain rfl := first_eq_ok_iff.1 hfirst
      obtain ⟨rfl, rfl⟩ := Prod.mk.inj hpair
      exact ⟨[w, v], rfl, .present hw ⟨v, rfl, rfl⟩⟩

theorem finish_eq_ok_iff : finish ws = .ok () ↔ ws = [] := by
  cases ws with
  | nil => exact iff_of_true rfl rfl
  | cons w ws => simp [finish]

/-! ### Queries -/

inductive IsSelect : List Word → Query → Prop
  | mk {own limits targets : List Word} {s : Selection} {limit : Option Nat} {target : Option Text}
      (h : IsOpening own s) (hlimit : IsClause "LIMIT" IsLimitWord limits limit)
      (htarget : IsClause "INTO" IsTargetWord targets target) :
      IsSelect (own ++ (limits ++ targets)) (.select { s with limit, target })

inductive IsUpdate : List Word → Query → Prop
  | mk {file set : Word} {own wheres : List Word} {as : List Assignment} {filter : Option Filter}
      (hset : set.isKeyword "SET" = true) (has : IsListOf IsAssignment own as)
      (hown : Avoid ["WHERE"] own) (hwhere : IsClause "WHERE" IsFilter wheres filter) :
      IsUpdate (file :: set :: (own ++ wheres)) (.update file.text as filter)

inductive IsDelete : List Word → Query → Prop
  | mk {fromWord file : Word} {wheres : List Word} {filter : Option Filter}
      (hfrom : fromWord.isKeyword "FROM" = true)
      (hwhere : IsClause "WHERE" IsFilter wheres filter) :
      IsDelete (fromWord :: file :: wheres) (.delete file.text filter)

inductive IsInsert : List Word → Query → Prop
  | mk {into file set : Word} {own : List Word} {as : List Assignment}
      (hinto : into.isKeyword "INTO" = true) (hset : set.isKeyword "SET" = true)
      (has : IsListOf IsAssignment own as) :
      IsInsert (into :: file :: set :: own) (.insert file.text as)

inductive IsQuery : List Word → Query → Prop
  | select {command : Word} {ws : List Word} {q : Query}
      (hcommand : command.isKeyword "SELECT" = true) (h : IsSelect ws q) : IsQuery (command :: ws) q
  | update {command : Word} {ws : List Word} {q : Query}
      (hcommand : command.isKeyword "UPDATE" = true) (h : IsUpdate ws q) : IsQuery (command :: ws) q
  | delete {command : Word} {ws : List Word} {q : Query}
      (hcommand : command.isKeyword "DELETE" = true) (h : IsDelete ws q) : IsQuery (command :: ws) q
  | insert {command : Word} {ws : List Word} {q : Query}
      (hcommand : command.isKeyword "INSERT" = true) (h : IsInsert ws q) : IsQuery (command :: ws) q

variable {q : Query}

theorem readSelect_eq_ok_iff : readSelect ws = .ok q ↔ IsSelect ws q := by
  rw [readSelect_eq]
  constructor
  · intro h
    obtain ⟨⟨s, afterOpening⟩, hreadOpening, h⟩ := bind_eq_ok.1 h
    obtain ⟨⟨limit, afterLimit⟩, hreadLimit, h⟩ := bind_eq_ok.1 h
    obtain ⟨⟨target, afterInto⟩, hreadInto, h⟩ := bind_eq_ok.1 h
    obtain ⟨⟨⟩, hfinish, h⟩ := bind_eq_ok.1 h
    obtain rfl := Except.ok.inj h
    obtain rfl := finish_eq_ok_iff.1 hfinish
    obtain ⟨own, rfl, hopening⟩ := isOpening_of_readOpening hreadOpening
    obtain ⟨limits, rfl, hlimit⟩ := isClause_of_limitClause hreadLimit
    obtain ⟨targets, rfl, htarget⟩ := isClause_of_intoClause hreadInto
    rw [List.append_nil]
    exact .mk hopening hlimit htarget
  · intro h
    cases h with
    | @mk own limits targets s limit target hopening hlimit htarget =>
        have hinto : Opens ["INTO"] targets := htarget.opens_self
        simp only [readOpening_of_isOpening hopening (hlimit.opens hinto),
          limitClause_of_isClause hlimit hinto, intoClause_of_isClause htarget, finish, bind,
          Except.bind]
        rfl

theorem readLastFilter_eq_ok_iff {filter : Option Filter} (h : Opens ["WHERE"] ws) :
    readLastFilter ws = .ok filter ↔ IsClause "WHERE" IsFilter ws filter := by
  constructor
  · intro hread
    unfold readLastFilter at hread
    split at hread
    · next own hown =>
        obtain ⟨w, rfl, hw⟩ := after?_eq_some_iff.1 hown
        obtain ⟨f, hf, rfl⟩ := map_eq_ok.1 hread
        exact .present hw (readFilter_eq_ok_iff.1 hf)
    · next hnone =>
        cases ws with
        | nil => cases hread; exact .absent
        | cons w ws =>
            obtain ⟨k, hk, hw⟩ := h w rfl
            obtain rfl := List.mem_singleton.1 hk
            rw [after?, if_pos hw] at hnone
            cases hnone
  · intro hclause
    cases hclause with
    | absent => rfl
    | present hw hf =>
        rw [readLastFilter, after?_cons hw]
        simp only [readFilter_eq_ok_iff.2 hf]
        rfl

theorem readUpdate_eq_ok_iff : readUpdate ws = .ok q ↔ IsUpdate ws q := by
  constructor
  · intro h
    obtain ⟨⟨file, afterFile⟩, hfirst, h⟩ := bind_eq_ok.1 h
    obtain ⟨afterSet, hskip, h⟩ := bind_eq_ok.1 h
    obtain ⟨own, wheres, hsplit, rfl, hown, hopens⟩ := exists_splitAtKeyword ["WHERE"] afterSet
    rw [hsplit] at h
    obtain ⟨as, has, h⟩ := bind_eq_ok.1 h
    obtain ⟨filter, hfilter, h⟩ := bind_eq_ok.1 h
    obtain rfl := Except.ok.inj h
    obtain rfl := first_eq_ok_iff.1 hfirst
    obtain ⟨set, rfl, hset⟩ := skip_eq_ok_iff.1 hskip
    exact .mk hset (readAssignments_eq_ok_iff.1 has) hown
      ((readLastFilter_eq_ok_iff hopens).1 hfilter)
  · intro h
    cases h with
    | @mk file set own wheres as filter hset has hown hwhere =>
        have hopens : Opens ["WHERE"] wheres := hwhere.opens_self
        simp only [readUpdate, first, skip_cons hset, splitAtKeyword_eq_iff.2 ⟨rfl, hown, hopens⟩,
          readAssignments_eq_ok_iff.2 has, (readLastFilter_eq_ok_iff hopens).2 hwhere, bind,
          Except.bind]
        rfl

theorem readDelete_eq_ok_iff : readDelete ws = .ok q ↔ IsDelete ws q := by
  constructor
  · intro h
    obtain ⟨afterFrom, hskip, h⟩ := bind_eq_ok.1 h
    obtain ⟨⟨file, wheres⟩, hfirst, h⟩ := bind_eq_ok.1 h
    obtain ⟨fromWord, hws, hfrom⟩ := skip_eq_ok_iff.1 hskip
    rw [hws, first_eq_ok_iff.1 hfirst]
    simp only at h
    split at h
    · next own hown =>
        obtain ⟨f, hf, h⟩ := bind_eq_ok.1 h
        obtain rfl := Except.ok.inj h
        obtain ⟨w, rfl, hw⟩ := after?_eq_some_iff.1 hown
        exact .mk hfrom (.present hw (readFilter_eq_ok_iff.1 hf))
    · obtain ⟨⟨⟩, hfinish, h⟩ := bind_eq_ok.1 h
      obtain rfl := Except.ok.inj h
      obtain rfl := finish_eq_ok_iff.1 hfinish
      exact .mk hfrom .absent
  · intro h
    cases h with
    | @mk fromWord file wheres filter hfrom hwhere =>
        cases hwhere with
        | absent =>
            simp only [readDelete, skip_cons hfrom, first, after?, finish, bind, Except.bind]
            rfl
        | @present w own f hw hf =>
            simp only [readDelete, skip_cons hfrom, first, after?_cons hw,
              readFilter_eq_ok_iff.2 hf, bind, Except.bind]
            rfl

theorem readInsert_eq_ok_iff : readInsert ws = .ok q ↔ IsInsert ws q := by
  constructor
  · intro h
    obtain ⟨afterInto, hskipInto, h⟩ := bind_eq_ok.1 h
    obtain ⟨⟨file, afterFile⟩, hfirst, h⟩ := bind_eq_ok.1 h
    obtain ⟨own, hskipSet, h⟩ := bind_eq_ok.1 h
    obtain ⟨as, has, h⟩ := bind_eq_ok.1 h
    obtain rfl := Except.ok.inj h
    obtain ⟨set, rfl, hset⟩ := skip_eq_ok_iff.1 hskipSet
    obtain rfl := first_eq_ok_iff.1 hfirst
    obtain ⟨into, rfl, hinto⟩ := skip_eq_ok_iff.1 hskipInto
    exact .mk hinto hset (readAssignments_eq_ok_iff.1 has)
  · intro h
    cases h with
    | @mk into file set own as hinto hset has =>
        simp only [readInsert, skip_cons hinto, first, skip_cons hset,
          readAssignments_eq_ok_iff.2 has, bind, Except.bind]
        rfl

/-- The reader takes exactly the words of queries. -/
theorem ofWords_eq_ok_iff : ofWords ws = .ok q ↔ IsQuery ws q := by
  constructor
  · intro h
    obtain ⟨⟨command, rest⟩, hfirst, h⟩ := bind_eq_ok.1 h
    rw [first_eq_ok_iff.1 hfirst]
    simp only at h
    split at h
    · next hcommand => exact .select hcommand (readSelect_eq_ok_iff.1 h)
    · split at h
      · next hcommand => exact .update hcommand (readUpdate_eq_ok_iff.1 h)
      · split at h
        · next hcommand => exact .delete hcommand (readDelete_eq_ok_iff.1 h)
        · split at h
          · next hcommand => exact .insert hcommand (readInsert_eq_ok_iff.1 h)
          · cases h
  · intro h
    cases h with
    | select hcommand h =>
        simp only [ofWords, first, bind, Except.bind, Word.isKeyword_eq hcommand,
          readSelect_eq_ok_iff.2 h]
        rfl
    | update hcommand h =>
        simp only [ofWords, first, bind, Except.bind, Word.isKeyword_eq hcommand,
          readUpdate_eq_ok_iff.2 h]
        rfl
    | delete hcommand h =>
        simp only [ofWords, first, bind, Except.bind, Word.isKeyword_eq hcommand,
          readDelete_eq_ok_iff.2 h]
        rfl
    | insert hcommand h =>
        simp only [ofWords, first, bind, Except.bind, Word.isKeyword_eq hcommand,
          readInsert_eq_ok_iff.2 h]
        rfl

/-- Words are those of one query at most. -/
theorem IsQuery.unique {q' : Query} (h : IsQuery ws q) (h' : IsQuery ws q') : q = q' :=
  Except.ok.inj ((ofWords_eq_ok_iff.2 h).symm.trans (ofWords_eq_ok_iff.2 h'))

end Agenda.Query
