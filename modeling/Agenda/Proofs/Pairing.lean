import Agenda.Proofs.UniqueIds

/-!
Two ways to pair keys with values. The reader takes pairs off the front of the tokens, starting at
the first key; the linter starts after the words of a title, gives a use to each token, and skips
those that are values. Keys that are the value of another key, values attached to their key, and a
key at the end lead both to the same pairs, whether or not there are issues.
-/

namespace Agenda

/-! ### The ids that are checked -/

namespace Lint

def idChecks (offset : Nat) (us : List (Token × Use)) : List (Text × Nat) :=
  us.filterMap fun (t, use) =>
    match use with
    | .key key raw => if key = Key.id then some (raw, offset + t.start) else none
    | _ => none

def noteIds (l : Line) (seen : List Text) : List (Text × Nat) → List Text × List Issue
  | [] => (seen, [])
  | (raw, start) :: rest =>
    let (seen, found) := noteId l seen raw start
    let (seen, more) := noteIds l seen rest
    (seen, found ++ more)

def Issue.isDuplicate (i : Issue) : Bool :=
  match i.finding with
  | .duplicateId _ => true
  | _ => false

variable {l : Line} {offset : Nat}

theorem isDuplicate_of_noteId (l : Line) (seen : List Text) (raw : Text) (start : Nat) :
    ∀ i ∈ (noteId l seen raw start).2, i.isDuplicate = true := by
  unfold noteId
  simp only
  split
  · nofun
  · split
    · simp [Issue.isDuplicate, Issue.toEnd]
    · nofun

/-- Of all that is found in the tokens after the title, what is about ids comes from the checks of
ids, and so do the ids seen so far. -/
theorem checkUses_noteIds (l : Line) (offset : Nat) (seen : List Text) (last : Option Text)
    (us : List (Token × Use)) :
    (checkUses l offset seen last us).1 = (noteIds l seen (idChecks offset us)).1 ∧
      (checkUses l offset seen last us).2.filter (·.isDuplicate) =
        (noteIds l seen (idChecks offset us)).2 := by
  induction us generalizing seen last with
  | nil => exact ⟨rfl, rfl⟩
  | cons p us ih =>
      obtain ⟨t, use⟩ := p
      cases use with
      | key key raw =>
          by_cases hkey : key = Key.id
          · have hall := isDuplicate_of_noteId l seen raw (offset + t.start)
            simp [checkUses, idChecks, noteIds, hkey, ih, List.filter_eq_self.2 hall]
          · simpa [checkUses, idChecks, hkey] using ih seen (some key)
      | value => exact ih seen last
      | quoted => exact ih seen last
      | shorthand kind =>
          simpa [checkUses, idChecks, Issue.at, Issue.isDuplicate] using ih seen last
      | bare =>
          -- Whatever is found about the word, it is not about an id.
          cases last with
          | some key =>
              simpa [checkUses, idChecks, Issue.at, Issue.isDuplicate] using ih seen (some key)
          | none =>
              by_cases hany : us.any (·.1.isKey) = true
              · simpa [checkUses, idChecks, Issue.at, Issue.isDuplicate, hany] using ih seen none
              · simpa [checkUses, idChecks, hany] using ih seen none

/-- The checks of quotes, priorities and the title find nothing about ids. -/
theorem not_isDuplicate_of_mem {t : Text} {lead title rest : List Token} {i : Issue}
    (h : i ∈ checkQuotes l offset t ++ checkPriorities l offset lead ++
      checkTitle l offset title rest) : i.isDuplicate = false := by
  rcases List.mem_append.1 h with h | h
  · rcases List.mem_append.1 h with h | h
    · unfold checkQuotes at h
      split at h
      · rw [List.mem_singleton.1 h]
        rfl
      · cases h
    · unfold checkPriorities at h
      split at h
      · split at h
        · rw [List.mem_singleton.1 h]
          rfl
        · cases h
      · cases h
  · unfold checkTitle at h
    split at h
    · split at h
      · rw [List.mem_singleton.1 h]
        rfl
      · cases h
    · cases h

/-- What the linter knows and finds about ids on a bullet comes from checking the values of the keys
of ids, one after the other. -/
theorem checkContent_noteIds (l : Line) (seen : List Text) :
    let checks := idChecks l.contentColumn (uses (afterTitle (tokens l.content)))
    (checkContent l seen).1 = (noteIds l seen checks).1 ∧
      (checkContent l seen).2.filter (·.isDuplicate) = (noteIds l seen checks).2 := by
  obtain ⟨hseen, hfound⟩ :=
    checkUses_noteIds l l.contentColumn seen none (uses (afterTitle (tokens l.content)))
  simp only [checkContent, usesAt_valuePositions]
  refine ⟨hseen, ?_⟩
  rw [← hfound, List.filter_append, List.filter_eq_nil_iff.2, List.nil_append]
  · rfl
  · intro i hi
    rw [not_isDuplicate_of_mem hi]
    exact Bool.false_ne_true

theorem map_fst_idChecks (offset : Nat) (us : List (Token × Use)) :
    (idChecks offset us).map (·.1) =
      ((us.filterMap (·.2.keyed?)).filter (·.1 = Key.id)).map (·.2) := by
  induction us with
  | nil => rfl
  | cons p us ih =>
      obtain ⟨t, use⟩ := p
      cases use with
      | key key raw =>
          by_cases hkey : key = Key.id
          · simpa [idChecks, Use.keyed?, hkey] using ih
          · simpa [idChecks, Use.keyed?, hkey] using ih
      | _ => exact ih

/-- The values that are checked for ids are those that the reader takes for them. -/
theorem idValues_written (offset : Nat) (ts : List Token) :
    idValues (Bullet.written ts) =
      (idChecks offset (uses (afterTitle ts))).map fun c => .inline c.1 := by
  have hchecks := congrArg (List.map Written.inline)
    (map_fst_idChecks offset (uses (afterTitle ts)))
  rw [keyed_uses, List.filter_map, List.map_map, List.map_map, List.map_map] at hchecks
  rw [idValues, Bullet.written, pairs_after_title, List.filter_map, List.map_map]
  exact hchecks.symm

end Lint

/-! ### The positions of values -/

section Positions

variable {α β : Type} [DecidableEq α] {xs : List α}

/-- In a list without repetitions, the places in its tail end are those in the whole list. -/
theorem zipIdx_eq_idxOf {ps : List (α × β)} (hn : xs.Nodup) (h : ps.map (·.1) <:+ xs) :
    ps.zipIdx (xs.length - ps.length) = ps.map fun p => (p, xs.idxOf p.1) := by
  obtain ⟨front, rfl⟩ := h
  have hstart : (front ++ ps.map (·.1)).length - ps.length = front.length := by simp
  rw [hstart]
  refine List.ext_getElem (by simp) fun i hi hi' => ?_
  have hlt : front.length + i < (front ++ ps.map (·.1)).length := by simpa using hi
  have hidx := hn.idxOf_getElem (front.length + i) hlt
  simpa using hidx.symm

theorem idxOf_next {a b : α} (hn : xs.Nodup) (h : [a, b] <:+: xs) :
    xs.idxOf a + 1 = xs.idxOf b := by
  obtain ⟨front, back, rfl⟩ := h
  have ha := hn.idxOf_getElem front.length (by simp)
  have hb := hn.idxOf_getElem (front.length + 1) (by simp)
  simp only [List.append_assoc, List.cons_append, List.nil_append, Nat.le_refl, Nat.le_add_right,
    List.getElem_append_right, Nat.sub_self, Nat.add_sub_cancel_left, List.getElem_cons_zero,
    List.getElem_cons_succ] at ha hb ⊢
  rw [ha, hb]

end Positions

namespace Pair

def value? : Pair → Option Token
  | .detached _ _ value => some value
  | _ => none

/-- The positions of the key and of the value, if that is a token of its own. -/
def positions? (ts : List Token) : Pair → Option (Nat × Nat)
  | .detached _ token value => some (ts.idxOf token, ts.idxOf value)
  | _ => none

end Pair

/-- The tokens of a pair stand next to each other. -/
theorem parts_isInfix {ts : List Token} {p : Pair} (h : p ∈ pairs ts) : p.parts <:+: ts := by
  fun_induction pairs ts with
  | case1 => cases h
  | case2 t hk => cases h
  | case3 t key raw hk hraw =>
      rw [List.mem_singleton.mp h]
      exact List.infix_refl _
  | case4 t key raw hk hraw =>
      rw [List.mem_singleton.mp h]
      exact List.infix_refl _
  | case5 t u ts hk ih => exact (ih h).trans (List.suffix_cons _ _).isInfix
  | case6 t u ts key raw hk hraw ih =>
      rcases List.mem_cons.mp h with rfl | h
      · exact (List.prefix_append [t, u] ts).isInfix
      · exact (ih h).trans (List.suffix_append [t, u] ts).isInfix
  | case7 t u ts key raw hk hraw ih =>
      rcases List.mem_cons.mp h with rfl | h
      · exact (List.prefix_append [t] (u :: ts)).isInfix
      · exact (ih h).trans (List.suffix_cons _ _).isInfix

namespace Bullet

/-- The positions of keys whose values are tokens of their own, each with that of the value. -/
def detached (ts : List Token) : List (Nat × Nat) :=
  (pairs ((shorthand ts).2.dropWhile (!·.isKey))).filterMap (Pair.positions? ts)

end Bullet

namespace Lint

/-- The positions of the tokens that are skipped because they are values. -/
def skipped (ts : List Token) : List Nat :=
  valuePositions (ts.length - (afterTitle ts).length) (afterTitle ts)

theorem looseUse_ne_value (t : Token) : looseUse t ≠ .value := fun h => by
  have hloose := isLoose_looseUse t
  rw [h] at hloose
  cases hloose

/-- The positions of values are those of the tokens that are used as values. -/
theorem valuePositions_eq (i : Nat) (ts : List Token) :
    valuePositions i ts = (((uses ts).zipIdx i).filter (·.1.2 = .value)).map (·.2) := by
  fun_induction uses ts generalizing i with
  | case1 => rfl
  | case2 t key raw hk => rfl
  | case3 t hk => simp [valuePositions, looseUse_ne_value]
  | case4 t u ts key hk ih => simp [valuePositions, hk, ih]
  | case5 t u ts key raw hraw hk ih =>
      cases raw with
      | nil => exact absurd rfl hraw
      | cons c raw => simp [valuePositions, hk, ih]
  | case6 t u ts hk ih => simp [valuePositions, hk, ih, looseUse_ne_value]

/-- The tokens that are used as values are the values of pairs that are tokens of their own. -/
theorem values_uses (ts : List Token) :
    ((uses ts).filter (·.2 = .value)).map (·.1) = (pairs ts).filterMap Pair.value? := by
  fun_induction uses ts with
  | case1 => rfl
  | case2 t key raw hk =>
      simp only [pairs, hk]
      cases raw <;> rfl
  | case3 t hk => simp [pairs, hk, looseUse_ne_value]
  | case4 t u ts key hk ih => simp [pairs, hk, Pair.value?, ih]
  | case5 t u ts key raw hraw hk ih =>
      have hne : raw.isEmpty = false := by simpa using hraw
      simp only [pairs, hk, hne, Bool.false_eq_true, if_false]
      exact ih
  | case6 t u ts hk ih => simp [pairs, hk, looseUse_ne_value, ih]

theorem skipped_eq {ts : List Token} (hn : ts.Nodup) :
    skipped ts = ((pairs (afterTitle ts)).filterMap Pair.value?).map ts.idxOf := by
  have hsuffix : (uses (afterTitle ts)).map (·.1) <:+ ts := by
    rw [map_fst_uses]
    exact afterTitle_suffix ts
  have hlength : (uses (afterTitle ts)).length = (afterTitle ts).length := by
    rw [← List.length_map, map_fst_uses]
  have hplaced := zipIdx_eq_idxOf hn hsuffix
  rw [hlength] at hplaced
  rw [skipped, valuePositions_eq, hplaced, ← values_uses, List.filter_map, List.map_map,
    List.map_map]
  rfl

/-- The reader uses as values of their own the tokens that the linter skips. -/
theorem map_snd_detached {ts : List Token} (hn : ts.Nodup) :
    (Bullet.detached ts).map (·.2) = skipped ts := by
  have hvalue (p : Pair) : (p.positions? ts).map (·.2) = p.value?.map ts.idxOf := by
    cases p <;> rfl
  rw [skipped_eq hn, Bullet.detached, pairs_after_title, afterTitle, List.map_filterMap,
    List.map_filterMap]
  simp only [hvalue]

/-- The key of such a value is the token before it. -/
theorem map_fst_detached {ts : List Token} (hn : ts.Nodup) :
    (Bullet.detached ts).map (·.1 + 1) = (Bullet.detached ts).map (·.2) := by
  rw [Bullet.detached, pairs_after_title, List.map_filterMap, List.map_filterMap]
  refine List.filterMap_congr fun p hp => ?_
  have hinfix : p.parts <:+: ts := (parts_isInfix hp).trans (afterTitle_suffix ts).isInfix
  cases p with
  | detached key token value => exact congrArg some (idxOf_next hn hinfix)
  | _ => rfl

/-- The linter and the reader pair keys with values in the same way. On a bullet the linter checks
for ids exactly the values that the reader takes for ids, in the same order; it skips exactly the
tokens that the reader uses up as the value of the key before them. -/
theorem pairs_agree (l : Line) (seen : List Text) :
    let ts := tokens l.content
    let checks := idChecks l.contentColumn (uses (afterTitle ts))
    ((checkContent l seen).1 = (noteIds l seen checks).1 ∧
        (checkContent l seen).2.filter (·.isDuplicate) = (noteIds l seen checks).2) ∧
      idValues (Bullet.written ts) = checks.map (fun c => .inline c.1) ∧
      (Bullet.detached ts).map (·.2) = skipped ts ∧
      (Bullet.detached ts).map (·.1 + 1) = skipped ts := by
  intro ts checks
  have hn : ts.Nodup := nodup_tokens _
  exact ⟨checkContent_noteIds l seen, idValues_written _ ts, map_snd_detached hn,
    (map_fst_detached hn).trans (map_snd_detached hn)⟩

/-- A key as the value of a key, a value attached to its key, and a key at the end. -/
example :
    let ts := tokens "A t id: due: 2025 id:x id:"
    (idChecks 0 (uses (afterTitle ts))).map (·.1) = ["due:", "x", ""] ∧
      skipped ts = [3] ∧ Bullet.detached ts = [(2, 3)] := by
  decide

end Lint

end Agenda
