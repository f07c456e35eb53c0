import Agenda.Bullet
import Agenda.Lint
import Agenda.Proofs.Spans
import Mathlib.Data.List.Nodup
import Mathlib.Data.List.TakeWhile

/-!
What becomes of the tokens of a bullet. The reader uses the shorthand at the front, the title, and
the keys with their values; it drops the rest. The linter finds the positions of the values first
and then skips them, and it lets some of the tokens that are dropped pass. This module says which:
on a bullet without an error, exactly the tokens that `Bullet.overlooked` gives are dropped.
-/

namespace Agenda

/-! ### What the reader uses -/

namespace Bullet

def titleTokens (rest : List Token) : List Token :=
  let head := rest.takeWhile (!·.isKey)
  match head with
  | [] => []
  | first :: _ =>
    if head.length == rest.length && !first.quoted then head
    else (head.find? (·.quoted)).toList

/-- The tokens that the reader uses: shorthand, title, keys and values. -/
def used (ts : List Token) : List Token :=
  let (found, rest) := shorthand ts
  ts.take found.length ++ titleTokens rest ++
    (pairs (rest.dropWhile (!·.isKey))).flatMap Pair.parts

/-- The title is made of the tokens that are said to make it up. -/
theorem title?_eq_titleTokens (content : Text) (rest : List Token) :
    title? content rest = (titleTokens rest).head?.map fun first =>
      if first.quoted then dequote first.text else Text.strip (content.drop first.start) := by
  unfold title? titleTokens
  cases hh : rest.takeWhile (!·.isKey) with
  | nil => rfl
  | cons first others =>
      simp only
      split
      · next h =>
          have hq : first.quoted = false := by simpa using (Bool.and_eq_true_iff.1 h).2
          simp [hq]
      · cases hf : (first :: others).find? (·.quoted) with
        | none => rfl
        | some t =>
            have hq : t.quoted = true := by simpa using List.find?_some hf
            simp [hq]

theorem shorthand_eq (ts : List Token) :
    (shorthand ts).2 = ts.dropWhile Lint.isShorthand ∧
      ts.take (shorthand ts).1.length = ts.takeWhile Lint.isShorthand := by
  induction ts with
  | nil => exact ⟨rfl, rfl⟩
  | cons t ts ih =>
      unfold shorthand
      cases hr : Shorthand.read? t.text with
      | none =>
          have ht : Lint.isShorthand t = false := by simp [Lint.isShorthand, hr]
          simp [ht]
      | some s =>
          have ht : Lint.isShorthand t = true := by simp [Lint.isShorthand, hr]
          simp [ht, ih.1, ih.2]

end Bullet

theorem Token.isKey_eq_false_iff {t : Token} : t.isKey = false ↔ t.key? = none := by
  rw [Token.isKey, Option.isSome_eq_false_iff, Option.isNone_iff_eq_none]

/-- Tokens in front that are no keys make no pair. -/
theorem pairs_dropWhile_of_no_key {q : Token → Bool} (hq : ∀ t, q t = true → t.isKey = false)
    (ts : List Token) : pairs (ts.dropWhile q) = pairs ts := by
  induction ts with
  | nil => rfl
  | cons t ts ih =>
      cases ht : q t with
      | false => rw [List.dropWhile_cons_of_neg (by simp [ht])]
      | true =>
          have hk : t.key? = none := Token.isKey_eq_false_iff.1 (hq t ht)
          rw [List.dropWhile_cons_of_pos ht, ih]
          cases ts with
          | nil => simp [pairs, hk]
          | cons u ts => simp [pairs, hk]

/-- Tokens before the first key make no pair. -/
theorem pairs_dropWhile (ts : List Token) : pairs (ts.dropWhile (!·.isKey)) = pairs ts :=
  pairs_dropWhile_of_no_key (by simp) ts

namespace Lint

def Use.isLoose : Use → Bool
  | .key _ _ => false
  | .value => false
  | _ => true

theorem isLoose_looseUse (t : Token) : (looseUse t).isLoose = true := by
  unfold looseUse
  split
  · rfl
  · split <;> rfl

def afterTitle (ts : List Token) : List Token := (ts.dropWhile isShorthand).dropWhile isPlainWord

theorem afterTitle_suffix (ts : List Token) : afterTitle ts <:+ ts :=
  (List.dropWhile_suffix _).trans (List.dropWhile_suffix _)

def uses : List Token → List (Token × Use)
  | [] => []
  | [t] =>
    match t.key? with
    | some (key, raw) => [(t, .key key raw)]
    | none => [(t, looseUse t)]
  | t :: u :: ts =>
    match t.key? with
    | some (key, []) => (t, .key key u.text) :: (u, .value) :: uses ts
    | some (key, raw) => (t, .key key raw) :: uses (u :: ts)
    | none => (t, looseUse t) :: uses (u :: ts)

/-- Values stand behind the position at which the search for them starts. -/
theorem lt_of_mem_valuePositions {i j : Nat} {ts : List Token} (h : j ∈ valuePositions i ts) :
    i < j := by
  fun_induction valuePositions i ts with
  | case1 => cases h
  | case2 => cases h
  | case3 i t u ts key hk ih =>
      rcases List.mem_cons.1 h with rfl | h
      · exact Nat.lt_succ_self i
      · have := ih h
        omega
  | case4 i t u ts hk ih => exact Nat.lt_of_succ_lt (ih h)

/-- Only the positions from `i` on matter. -/
theorem usesAt_congr {values values' : List Nat} {i : Nat}
    (h : ∀ j, i ≤ j → (j ∈ values ↔ j ∈ values')) (ts : List Token) :
    usesAt values i ts = usesAt values' i ts := by
  induction ts generalizing i with
  | nil => rfl
  | cons t ts ih =>
      have hi : values.contains i = values'.contains i := by
        rw [Bool.eq_iff_iff, List.contains_iff_mem, List.contains_iff_mem]
        exact h i (Nat.le_refl i)
      rw [usesAt, usesAt, hi, ih fun j hj => h j (Nat.le_of_succ_le hj)]

/-- The token at which the search for values starts is none. -/
theorem usesAt_cons (i : Nat) (us ts : List Token) (t : Token) :
    usesAt (valuePositions i us) i (t :: ts) =
      (t, useBefore ts t) :: usesAt (valuePositions i us) (i + 1) ts := by
  have hi : ¬ i ∈ valuePositions i us := fun h => Nat.lt_irrefl i (lt_of_mem_valuePositions h)
  rw [usesAt, if_neg (by simpa using hi)]

/-- To look for the values first and to skip them then is to go through the tokens once. -/
theorem usesAt_valuePositions (i : Nat) (ts : List Token) :
    usesAt (valuePositions i ts) i ts = uses ts := by
  fun_induction uses ts generalizing i with
  | case1 => rfl
  | case2 t key raw hk =>
      rw [usesAt_cons]
      simp +contextual [usesAt, useBefore, hk]
  | case3 t hk =>
      rw [usesAt_cons]
      simp [usesAt, useBefore, hk]
  | case4 t u ts key hk ih =>
      have hpositions : valuePositions i (t :: u :: ts) = (i + 1) :: valuePositions (i + 2) ts := by
        simp only [valuePositions, hk]
      have hrest : usesAt ((i + 1) :: valuePositions (i + 2) ts) (i + 2) ts = uses ts := by
        rw [← ih (i + 2)]
        refine usesAt_congr (fun j hj => ?_) ts
        rw [List.mem_cons, or_iff_right (by omega)]
      rw [usesAt_cons, hpositions, usesAt, if_pos (by simp), hrest]
      simp [useBefore, hk]
  | case5 t u ts key raw hraw hk ih =>
      have hpositions : valuePositions i (t :: u :: ts) = valuePositions (i + 1) (u :: ts) := by
        cases raw <;> simp_all [valuePositions]
      rw [usesAt_cons, hpositions, ih]
      have hne : raw.isEmpty = false := by simpa using hraw
      simp [useBefore, hk, hne]
  | case6 t u ts hk ih =>
      have hpositions : valuePositions i (t :: u :: ts) = valuePositions (i + 1) (u :: ts) := by
        simp only [valuePositions, hk]
      rw [usesAt_cons, hpositions, ih]
      simp only [useBefore, hk]

theorem map_fst_uses (ts : List Token) : (uses ts).map (·.1) = ts := by
  fun_induction uses ts <;> simp_all

/-- The pairs of a bullet are made of the tokens that are not loose. -/
theorem parts_pairs (ts : List Token) :
    (pairs ts).flatMap Pair.parts = ((uses ts).filter (!·.2.isLoose)).map (·.1) := by
  fun_induction uses ts with
  | case1 => rfl
  | case2 t key raw hk =>
      simp only [pairs, hk]
      split <;> rfl
  | case3 t hk => simp [pairs, hk, isLoose_looseUse]
  | case4 t u ts key hk ih =>
      simp only [pairs, hk, List.isEmpty_nil, if_true, List.flatMap_cons, ih]
      rfl
  | case5 t u ts key raw hraw hk ih =>
      have hne : raw.isEmpty = false := by simpa using hraw
      simp only [pairs, hk, hne, Bool.false_eq_true, if_false, List.flatMap_cons, ih]
      rfl
  | case6 t u ts hk ih => simp [pairs, hk, isLoose_looseUse, ih]

def Use.keyed? : Use → Option (Text × Text)
  | .key name raw => some (name, raw)
  | _ => none

theorem keyed?_looseUse (t : Token) : (looseUse t).keyed? = none := by
  unfold looseUse
  split
  · rfl
  · split <;> rfl

/-- The keys have the values that they have in the pairs, in the same order. -/
theorem keyed_uses (ts : List Token) :
    (uses ts).filterMap (·.2.keyed?) = (pairs ts).map fun p => (p.key, p.raw) := by
  fun_induction uses ts with
  | case1 => rfl
  | case2 t key raw hk =>
      simp only [pairs, hk]
      cases raw <;> rfl
  | case3 t hk => simp [pairs, hk, keyed?_looseUse]
  | case4 t u ts key hk ih =>
      simp only [pairs, hk, List.isEmpty_nil, if_true, List.map_cons, ← ih]
      rfl
  | case5 t u ts key raw hraw hk ih =>
      have hne : raw.isEmpty = false := by simpa using hraw
      simp only [pairs, hk, hne, Bool.false_eq_true, if_false, List.map_cons, ← ih]
      rfl
  | case6 t u ts hk ih => simp [pairs, hk, keyed?_looseUse, ih]

/-- The linter skips the words of a title, the reader everything before the first key. Neither skips
a key, so the same pairs are left. -/
theorem pairs_after_title (ts : List Token) :
    pairs ((Bullet.shorthand ts).2.dropWhile (!·.isKey)) =
      pairs ((ts.dropWhile isShorthand).dropWhile isPlainWord) := by
  rw [(Bullet.shorthand_eq _).1, pairs_dropWhile,
    pairs_dropWhile_of_no_key (q := isPlainWord) (by simp [isPlainWord])]

theorem isKey_of_loose {ts : List Token} {p : Token × Use} (h : p ∈ uses ts)
    (hloose : p.2.isLoose = true) : p.1.isKey = false := by
  fun_induction uses ts with
  | case1 => cases h
  | case2 t key raw hk =>
      obtain rfl := List.mem_singleton.mp h
      cases hloose
  | case3 t hk =>
      obtain rfl := List.mem_singleton.mp h
      exact Token.isKey_eq_false_iff.2 hk
  | case4 t u ts key hk ih =>
      rcases List.mem_cons.mp h with rfl | h
      · cases hloose
      · rcases List.mem_cons.mp h with rfl | h
        · cases hloose
        · exact ih h
  | case5 t u ts key raw hraw hk ih =>
      rcases List.mem_cons.mp h with rfl | h
      · cases hloose
      · exact ih h
  | case6 t u ts hk ih =>
      rcases List.mem_cons.mp h with rfl | h
      · exact Token.isKey_eq_false_iff.2 hk
      · exact ih h

/-! ### What the linter lets pass -/

def Accepts (issues : List Issue) : Prop := ∀ i ∈ issues, i.isError = false

theorem accepts_append {is js : List Issue} : Accepts (is ++ js) ↔ Accepts is ∧ Accepts js :=
  List.forall_mem_append

variable {l : Line} {offset : Nat}

theorem checkUses_cons (l : Line) (offset : Nat) (seen : List Text) (last : Option Text)
    (p : Token × Use) (rest : List (Token × Use)) :
    ∃ seen' last' found, (checkUses l offset seen last (p :: rest)).2 =
        found ++ (checkUses l offset seen' last' rest).2 ∧
      (p.2.isLoose = true → last' = last) ∧ (∀ key raw, p.2 = .key key raw → last' = some key) ∧
      (p.2 = .value → last' = last) ∧
      (∀ kind, p.2 = .shorthand kind → ¬ Accepts found) ∧
      (p.2 = .bare → Accepts found → last = none ∧ rest.any (·.1.isKey) = false) := by
  obtain ⟨t, use⟩ := p
  cases use with
  | key key raw =>
      refine ⟨_, some key, _, rfl, nofun, ?_, nofun, nofun, nofun⟩
      rintro _ _ ⟨⟩
      rfl
  | value => exact ⟨_, last, _, rfl, nofun, nofun, fun _ => rfl, nofun, nofun⟩
  | quoted => exact ⟨_, last, _, rfl, fun _ => rfl, nofun, nofun, nofun, nofun⟩
  | shorthand kind =>
      refine ⟨_, last, _, rfl, fun _ => rfl, nofun, nofun, ?_, nofun⟩
      intro _ _ h
      have := h _ (List.mem_singleton.2 rfl)
      cases kind <;> cases this
  | bare =>
      refine ⟨_, last, _, rfl, fun _ => rfl, nofun, nofun, nofun, ?_⟩
      intro _ h
      cases last with
      | some key =>
          have := h _ (List.mem_singleton.2 rfl)
          cases this
      | none =>
          refine ⟨rfl, ?_⟩
          by_contra hany
          simp only [Bool.not_eq_false] at hany
          simp only [hany, if_true] at h
          have := h _ (List.mem_singleton.2 rfl)
          cases this

theorem Use.loose_cases {use : Use} (h : use.isLoose = true) :
    use = .quoted ∨ use = .bare ∨ ∃ kind, use = .shorthand kind := by
  cases use with
  | key key raw => cases h
  | value => cases h
  | quoted => exact .inl rfl
  | shorthand kind => exact .inr (.inr ⟨kind, rfl⟩)
  | bare => exact .inr (.inl rfl)

theorem head_of_accepts {seen : List Text} {last : Option Text} {p : Token × Use}
    {rest : List (Token × Use)} (h : Accepts (checkUses l offset seen last (p :: rest)).2)
    (hloose : p.2.isLoose = true) :
    p.2 = .quoted ∨ (p.2 = .bare ∧ last = none ∧ rest.any (·.1.isKey) = false) := by
  obtain ⟨_, _, found, heq, -, -, -, hshorthand, hbare⟩ :=
    checkUses_cons l offset seen last p rest
  rw [heq, accepts_append] at h
  rcases Use.loose_cases hloose with hq | hb | ⟨kind, hs⟩
  · exact .inl hq
  · exact .inr ⟨hb, hbare hb h.1⟩
  · exact absurd h.1 (hshorthand kind hs)

theorem any_isKey_uses (ts : List Token) :
    (uses ts).any (·.1.isKey) = ts.any (·.isKey) := by
  have h := congrArg (List.any · (·.isKey)) (map_fst_uses ts)
  simpa [List.any_map, Function.comp_def] using h

/-- On a bullet without an error no shorthand is loose, and bare words are loose only if there is
no key. -/
theorem of_accepts_checkUses {ts : List Token} {seen : List Text} {last : Option Text}
    (h : Accepts (checkUses l offset seen last (uses ts)).2) {p : Token × Use} (hp : p ∈ uses ts)
    (hloose : p.2.isLoose = true) :
    p.2 = .quoted ∨ (p.2 = .bare ∧ last = none ∧ ts.any (·.isKey) = false) := by
  fun_induction uses ts generalizing seen last with
  | case1 => cases hp
  | case2 t key raw hk =>
      obtain rfl := List.mem_singleton.mp hp
      cases hloose
  | case3 t hk =>
      obtain rfl := List.mem_singleton.mp hp
      refine (head_of_accepts h hloose).imp_right fun ⟨hb, hlast, _⟩ => ⟨hb, hlast, ?_⟩
      rw [List.any_cons, Token.isKey_eq_false_iff.2 hk]
      rfl
  | case4 t u ts key hk ih =>
      -- After a key every loose word is reported, so only quoted strings are left.
      obtain ⟨seen₁, last₁, _, heq, -, hkey, -⟩ :=
        checkUses_cons l offset seen last (t, .key key u.text)
          ((u, .value) :: uses ts)
      obtain ⟨seen₂, last₂, _, heq', -, -, hvalue, -⟩ :=
        checkUses_cons l offset seen₁ last₁ (u, .value) (uses ts)
      rw [heq, accepts_append, heq', accepts_append] at h
      have hlast : last₂ = some key := (hvalue rfl).trans (hkey key u.text rfl)
      rcases List.mem_cons.mp hp with rfl | hp
      · cases hloose
      · rcases List.mem_cons.mp hp with rfl | hp
        · cases hloose
        · refine (ih h.2.2 hp).imp_right fun ⟨_, hnone, _⟩ => ?_
          rw [hlast] at hnone
          cases hnone
  | case5 t u ts key raw hraw hk ih =>
      obtain ⟨seen₁, last₁, _, heq, -, hkey, -⟩ :=
        checkUses_cons l offset seen last (t, .key key raw) (uses (u :: ts))
      rw [heq, accepts_append] at h
      rcases List.mem_cons.mp hp with rfl | hp
      · cases hloose
      · refine (ih h.2 hp).imp_right fun ⟨_, hnone, _⟩ => ?_
        rw [hkey key raw rfl] at hnone
        cases hnone
  | case6 t u ts hk ih =>
      have ht := Token.isKey_eq_false_iff.2 hk
      rcases List.mem_cons.mp hp with rfl | hp
      · refine (head_of_accepts h hloose).imp_right fun ⟨hb, hlast, hany⟩ => ⟨hb, hlast, ?_⟩
        rw [any_isKey_uses] at hany
        rw [List.any_cons, ht, hany]
        rfl
      · obtain ⟨seen₁, last₁, _, heq, hsame, -⟩ :=
          checkUses_cons l offset seen last (t, looseUse t) (uses (u :: ts))
        rw [heq, accepts_append] at h
        refine (ih h.2 hp).imp_right fun ⟨hb, hnone, hany⟩ => ⟨hb, ?_, ?_⟩
        · rw [← hnone, hsame (isLoose_looseUse t)]
        · rw [List.any_cons, ht, hany]
          rfl

end Lint

/-! ### Dropped tokens -/

namespace Bullet

open Lint

/-- The tokens that the reader drops although the linter lets them pass: after a quoted title or a
key, a quoted string that is no value, and any word if there is no key at all. -/
def overlooked (ts : List Token) : List Token :=
  match (shorthand ts).2 with
  | [] => []
  | first :: others =>
    if isPlainWord first then []
    else
      let passed (p : Token × Use) : Bool :=
        p.2 = .quoted || (p.2 = .bare && !(first :: others).any (·.isKey))
      ((uses (first :: others)).tail.filter passed).map (·.1)

theorem mem_used {ts : List Token} {t : Token} :
    t ∈ used ts ↔ t ∈ ts.takeWhile isShorthand ∨ t ∈ titleTokens (ts.dropWhile isShorthand) ∨
      ∃ p ∈ uses (ts.dropWhile isShorthand), p.2.isLoose = false ∧ p.1 = t := by
  obtain ⟨hrest, hlead⟩ := shorthand_eq ts
  simp only [used, hlead, hrest, pairs_dropWhile, parts_pairs, List.mem_append, List.mem_map,
    List.mem_filter, Bool.not_eq_true', or_assoc, and_assoc]

/-- A title without quotes takes all that follows the shorthand, if there is no key. -/
theorem titleTokens_of_no_key {first : Token} {others : List Token}
    (h : (first :: others).any (·.isKey) = false) (hq : first.quoted = false) :
    titleTokens (first :: others) = first :: others := by
  have htake : (first :: others).takeWhile (!·.isKey) = first :: others := by
    rw [List.takeWhile_eq_self_iff]
    intro t ht
    simpa using List.any_eq_false.1 h t ht
  simp [titleTokens, htake, hq]

/-- A quoted title is one token. -/
theorem titleTokens_of_quoted {first : Token} {others : List Token} (hq : first.quoted = true) :
    titleTokens (first :: others) = [first] := by
  have hkey : first.isKey = false := by simp [Token.isKey, Token.key?, hq]
  have htake : (first :: others).takeWhile (!·.isKey) =
      first :: others.takeWhile (!·.isKey) := List.takeWhile_cons_of_pos (by simp [hkey])
  simp [titleTokens, htake, hq]

theorem titleTokens_of_key {first : Token} {others : List Token} (hk : first.isKey = true) :
    titleTokens (first :: others) = [] := by
  have htake : (first :: others).takeWhile (!·.isKey) = [] :=
    List.takeWhile_cons_of_neg (by simp [hk])
  simp [titleTokens, htake]

theorem uses_cons (first : Token) (others : List Token) :
    ∃ use, ∃ rest, uses (first :: others) = (first, use) :: rest ∧ rest.map (·.1) = others := by
  cases hu : uses (first :: others) with
  | nil =>
      have := map_fst_uses (first :: others)
      rw [hu] at this
      cases this
  | cons p rest =>
      have := map_fst_uses (first :: others)
      rw [hu, List.map_cons, List.cons.injEq] at this
      exact ⟨p.2, rest, by rw [← this.1], this.2⟩

theorem eq_of_mem_uses {ts : List Token} (hn : ts.Nodup) {p q : Token × Use} (hp : p ∈ uses ts)
    (hq : q ∈ uses ts) (h : p.1 = q.1) : p = q := by
  rw [← map_fst_uses ts] at hn
  exact List.inj_on_of_nodup_map hn hp hq h

/-- An unquoted title is accepted only if no key follows it. -/
theorem no_key_of_checkTitle {l : Line} {offset : Nat} {title rest : List Token}
    (hne : title ≠ []) (h : Accepts (checkTitle l offset title rest)) :
    rest.any (·.isKey) = false := by
  unfold checkTitle at h
  rw [List.head?_eq_some_head hne, List.getLast?_eq_some_getLast hne] at h
  by_contra hany
  simp only [Bool.not_eq_false] at hany
  simp only [hany, if_true] at h
  have := h _ (List.mem_singleton.2 rfl)
  cases this

theorem quoted_or_isKey {t : Token} (h : isPlainWord t = false) :
    t.quoted = true ∨ t.isKey = true := by
  simp only [isPlainWord, Bool.and_eq_false_iff, Bool.not_eq_false'] at h
  exact h

theorem mem_of_mem_overlooked {ts : List Token} {t : Token} (h : t ∈ overlooked ts) : t ∈ ts := by
  have hsuffix : ∀ u ∈ ts.dropWhile isShorthand, u ∈ ts := fun u hu =>
    (List.dropWhile_suffix _).subset hu
  unfold overlooked at h
  rw [(shorthand_eq ts).1] at h
  split at h
  · cases h
  · next first others hrest =>
      split at h
      · cases h
      · obtain ⟨p, hp, rfl⟩ := List.mem_map.mp h
        apply hsuffix
        rw [hrest, ← map_fst_uses (first :: others)]
        exact List.mem_map.2 ⟨p, List.mem_of_mem_tail (List.mem_filter.mp hp).1, rfl⟩

/-- A title without quotes is accepted only if it takes all that follows the shorthand. -/
theorem titleTokens_of_plain {l : Line} {offset : Nat} {first : Token} {others : List Token}
    (hplain : isPlainWord first = true)
    (htitle : Accepts (checkTitle l offset ((first :: others).takeWhile isPlainWord)
      ((first :: others).dropWhile isPlainWord))) :
    titleTokens (first :: others) = first :: others := by
  have hquoted : first.quoted = false := by
    simp only [isPlainWord, Bool.and_eq_true, Bool.not_eq_true'] at hplain
    exact hplain.1
  have hrun : (first :: others).takeWhile isPlainWord ≠ [] := by simp [hplain]
  have hwords : ((first :: others).takeWhile isPlainWord).any (·.isKey) = false := by
    rw [List.any_eq_false]
    intro u hu
    have hword := List.mem_takeWhile_imp hu
    simp only [isPlainWord, Bool.and_eq_true, Bool.not_eq_true'] at hword
    simp [hword.2]
  apply titleTokens_of_no_key _ hquoted
  rw [← List.takeWhile_append_dropWhile (p := isPlainWord) (l := first :: others),
    List.any_append, hwords, no_key_of_checkTitle hrun htitle]
  rfl

theorem eq_of_mem_titleTokens {first : Token} {others : List Token}
    (hplain : isPlainWord first = false) {t : Token} (h : t ∈ titleTokens (first :: others)) :
    t = first := by
  rcases quoted_or_isKey hplain with hq | hk
  · rw [titleTokens_of_quoted hq] at h
    exact List.mem_singleton.mp h
  · rw [titleTokens_of_key hk] at h
    cases h

/-- What follows the shorthand is the title or a key, unless it is a plain word. -/
theorem first_used {first : Token} {others : List Token} (hplain : isPlainWord first = false)
    {use : Use} (hmem : (first, use) ∈ uses (first :: others)) :
    first ∈ titleTokens (first :: others) ∨ use.isLoose = false := by
  rcases quoted_or_isKey hplain with hq | hk
  · rw [titleTokens_of_quoted hq]
    exact .inl (List.mem_singleton.2 rfl)
  · right
    by_contra hloose
    rw [Bool.not_eq_false] at hloose
    rw [isKey_of_loose hmem hloose] at hk
    cases hk

/-- On a bullet without an error, the loose tokens are those that the linter lets pass. -/
theorem passes_iff_isLoose {l : Line} {offset : Nat} {seen : List Text} {ts : List Token}
    (h : Accepts (checkUses l offset seen none (uses ts)).2) {p : Token × Use} (hp : p ∈ uses ts) :
    (p.2 = .quoted || (p.2 = .bare && !ts.any (·.isKey))) = true ↔ p.2.isLoose = true := by
  simp only [Bool.or_eq_true, decide_eq_true_eq, Bool.and_eq_true, Bool.not_eq_true']
  constructor
  · rintro (hq | ⟨hb, -⟩)
    · rw [hq]
      rfl
    · rw [hb]
      rfl
  · intro hloose
    exact (of_accepts_checkUses h hp hloose).imp_right fun ⟨hb, _, hany⟩ => ⟨hb, hany⟩

/-- On a bullet without an error the loose tokens after the first one are overlooked. -/
theorem mem_overlooked {l : Line} {offset : Nat} {seen : List Text} {ts : List Token}
    {first : Token} {others : List Token} (hrest : ts.dropWhile isShorthand = first :: others)
    (hplain : isPlainWord first = false)
    (huses : Accepts (checkUses l offset seen none (uses (first :: others))).2) {t : Token} :
    t ∈ overlooked ts ↔
      ∃ p ∈ (uses (first :: others)).tail, p.2.isLoose = true ∧ p.1 = t := by
  simp only [overlooked, (shorthand_eq ts).1, hrest, hplain, Bool.false_eq_true, if_false,
    List.mem_map, List.mem_filter, and_assoc]
  exact exists_congr fun p => and_congr_right fun hp => and_congr_left fun _ =>
    passes_iff_isLoose huses (List.mem_of_mem_tail hp)

/-- A token has one use. -/
theorem exists_use_iff {ts : List Token} (hn : ts.Nodup) {us : List (Token × Use)}
    (hsub : ∀ q ∈ us, q ∈ uses ts) {p : Token × Use} (hp : p ∈ us) {P : Use → Prop} :
    (∃ q ∈ us, P q.2 ∧ q.1 = p.1) ↔ P p.2 := by
  constructor
  · rintro ⟨q, hq, h, heq⟩
    rwa [eq_of_mem_uses hn (hsub q hq) (hsub p hp) heq] at h
  · intro h
    exact ⟨p, hp, h, rfl⟩

/-- On a bullet that is accepted, the tokens that are not used are those that were overlooked. -/
theorem mem_used_iff {ts : List Token} (hn : ts.Nodup) {l : Line} {offset : Nat}
    {seen : List Text}
    (htitle : Accepts (checkTitle l offset ((ts.dropWhile isShorthand).takeWhile isPlainWord)
      ((ts.dropWhile isShorthand).dropWhile isPlainWord)))
    (huses : Accepts (checkUses l offset seen none
      (uses ((ts.dropWhile isShorthand).dropWhile isPlainWord))).2) {t : Token} (ht : t ∈ ts) :
    t ∈ used ts ↔ t ∉ overlooked ts := by
  rw [mem_used]
  rw [← List.takeWhile_append_dropWhile (p := isShorthand) (l := ts)] at hn ht
  obtain ⟨-, hafter, hdisj⟩ := List.nodup_append.mp hn
  cases hrest : ts.dropWhile isShorthand with
  | nil =>
      rw [hrest, List.append_nil] at ht
      simp [overlooked, (shorthand_eq ts).1, hrest, ht]
  | cons first others =>
      rw [hrest] at ht htitle huses hafter hdisj
      by_cases hplain : isPlainWord first = true
      · rw [titleTokens_of_plain hplain htitle]
        simp only [overlooked, (shorthand_eq ts).1, hrest, hplain, if_true, List.not_mem_nil,
          not_false_eq_true, iff_true]
        exact (List.mem_append.mp ht).imp_right .inl
      · simp only [Bool.not_eq_true] at hplain
        rw [List.dropWhile_cons_of_neg (by simp [hplain])] at huses
        rw [mem_overlooked hrest hplain huses]
        obtain ⟨use, rest, hu, hothers⟩ := uses_cons first others
        have hfirst : first ∉ others := (List.nodup_cons.mp hafter).1
        have hsub : ∀ p ∈ rest, p ∈ uses (first :: others) := fun p hp => by simp [hu, hp]
        have hlater : ∀ u, (∃ p ∈ rest, p.2.isLoose = true ∧ p.1 = u) → u ∈ others := by
          rintro u ⟨p, hp, -, rfl⟩
          rw [← hothers]
          exact List.mem_map_of_mem hp
        rw [hu, List.tail_cons, ← hu]
        rcases List.mem_append.mp ht with hlead | ht
        · refine iff_of_true (.inl hlead) fun h => ?_
          exact hdisj t hlead t (List.mem_cons_of_mem _ (hlater t h)) rfl
        · have hnotLead : t ∉ ts.takeWhile isShorthand := fun h => hdisj t h t ht rfl
          rcases List.mem_cons.mp ht with rfl | ht
          · have hmem : (t, use) ∈ uses (t :: others) := by simp [hu]
            refine iff_of_true (.inr ?_) fun h => hfirst (hlater t h)
            exact (first_used hplain hmem).imp_right fun htight => ⟨(t, use), hmem, htight, rfl⟩
          · have hnotTitle : t ∉ titleTokens (first :: others) := fun h =>
              hfirst (eq_of_mem_titleTokens hplain h ▸ ht)
            rw [← hothers] at ht
            obtain ⟨p, hp, rfl⟩ := List.mem_map.mp ht
            simp only [hnotLead, hnotTitle, false_or]
            rw [exists_use_iff hafter (fun _ hq => hq) (hsub p hp) (P := (·.isLoose = false)),
              exists_use_iff hafter hsub hp (P := (·.isLoose = true)), Bool.not_eq_true]

end Bullet

namespace Lint

theorem line_of_mem_noteId {l : Line} {seen : List Text} {raw : Text} {start : Nat} {i : Issue}
    (h : i ∈ (noteId l seen raw start).2) : i.line = l.index + 1 := by
  simp only [noteId] at h
  split at h
  · cases h
  · simp only at h
    split at h
    · rw [List.mem_singleton.mp h]
      rfl
    · cases h

theorem line_of_mem_checkUses {l : Line} {offset : Nat} {seen : List Text} {last : Option Text}
    {us : List (Token × Use)} {i : Issue} (h : i ∈ (checkUses l offset seen last us).2) :
    i.line = l.index + 1 := by
  induction us generalizing seen last with
  | nil => cases h
  | cons p us ih =>
      obtain ⟨t, use⟩ := p
      simp only [checkUses, List.mem_append] at h
      rcases h with h | h
      · cases use with
        | key key raw =>
            simp only at h
            split at h
            · exact line_of_mem_noteId h
            · cases h
        | value => cases h
        | quoted => cases h
        | shorthand kind =>
            rw [List.mem_singleton.mp h]
            rfl
        | bare =>
            simp only at h
            split at h
            · rw [List.mem_singleton.mp h]
              rfl
            · split at h
              · rw [List.mem_singleton.mp h]
                rfl
              · cases h
      · exact ih h

theorem line_of_mem_checkTitle {l : Line} {offset : Nat} {title rest : List Token} {i : Issue}
    (h : i ∈ checkTitle l offset title rest) : i.line = l.index + 1 := by
  unfold checkTitle at h
  split at h
  · split at h
    · rw [List.mem_singleton.mp h]
      rfl
    · cases h
  · cases h

theorem Pass.issues_cons (size : Nat) (p : Pass) (l : Line) (ls : List Line) :
    p.issues size (l :: ls) = (p.visit size l ls).2 ++ (p.visit size l ls).1.issues size ls := rfl

/-- The issues of a bullet that has content are among those of the pass. -/
theorem exists_checkContent_subset {size : Nat} {p after : Pass} {ls : List Line} {l : Line}
    (h : (l, after) ∈ p.bullets size ls) (hne : l.content ≠ []) :
    ∃ seen, ∀ i ∈ (checkContent l seen).2, i ∈ p.issues size ls := by
  induction ls generalizing p with
  | nil => cases h
  | cons m ls ih =>
      rw [Pass.bullets] at h
      rw [Pass.issues_cons]
      rcases List.mem_append.mp h with h | h
      · split at h
        · next hchecked =>
            obtain rfl : l = m := (Prod.mk.inj (List.mem_singleton.mp h)).1
            simp only [Bool.and_eq_true, Bool.not_eq_true'] at hchecked
            obtain ⟨⟨hblank, hblock⟩, hbullet⟩ := hchecked
            refine ⟨p.seen, fun i hi => List.mem_append_left _ ?_⟩
            have hempty : l.content.isEmpty = false := by simpa using hne
            have hvisit : p.visit size l ls =
                ({ p with block := none } : Pass).visitBullet size l := by
              simp [Pass.visit, Pass.visitOpen, hblank, hblock, hbullet]
            rw [hvisit]
            simp only [Pass.visitBullet, hempty, Bool.false_eq_true, if_false]
            exact List.mem_append_left _ (List.mem_append_right _ hi)
        · cases h
      · obtain ⟨seen, hsub⟩ := ih h
        exact ⟨seen, fun i hi => List.mem_append_right _ (hsub i hi)⟩

/-- On a bullet line without an error the reader drops exactly the tokens that are overlooked; so
it drops nothing if and only if there are none of these. -/
theorem bullet_uses_tokens_iff (size : Nat) (heading : Option Text) (lines : List Text) {l : Line}
    {after : Pass}
    (hl : (l, after) ∈ ({} : Pass).bullets size ((Section.region heading lines).lines size lines))
    (hok : ∀ i ∈ run size heading lines, i.line = l.index + 1 → i.isError = false) :
    (∀ t ∈ tokens l.content, t ∈ Bullet.used (tokens l.content) ↔
        t ∉ Bullet.overlooked (tokens l.content)) ∧
      ((∀ t ∈ tokens l.content, t ∈ Bullet.used (tokens l.content)) ↔
        Bullet.overlooked (tokens l.content) = []) := by
  have hmem : ∀ t ∈ tokens l.content, t ∈ Bullet.used (tokens l.content) ↔
      t ∉ Bullet.overlooked (tokens l.content) := by
    intro t ht
    have hne : l.content ≠ [] := by
      intro hnil
      rw [hnil] at ht
      cases ht
    obtain ⟨seen, hsub⟩ := exists_checkContent_subset hl hne
    simp only [checkContent, usesAt_valuePositions, List.mem_append] at hsub
    apply Bullet.mem_used_iff (nodup_tokens l.content) _ _ ht
    · exact l
    · exact l.contentColumn
    · exact seen
    · intro i hi
      exact hok i (hsub i (.inl (.inr hi))) (line_of_mem_checkTitle hi)
    · intro i hi
      exact hok i (hsub i (.inr hi)) (line_of_mem_checkUses hi)
  refine ⟨hmem, ?_⟩
  constructor
  · intro hall
    rw [List.eq_nil_iff_forall_not_mem]
    intro t ht
    exact (hmem t (Bullet.mem_of_mem_overlooked ht)).1 (hall t (Bullet.mem_of_mem_overlooked ht)) ht
  · intro hnil t ht
    rw [hmem t ht, hnil]
    exact List.not_mem_nil

/-- A word after a quoted title is dropped, and nothing is reported. -/
theorem bullet_drops_word :
    let lines : List Text := ["- \"a\" b"]
    let l : Line := ⟨0, "- \"a\" b", 0, "- \"a\" b"⟩
    let after : Pass := { columns := [0], bullet := some 0 }
    (l, after) ∈ ({} : Pass).bullets 2 ((Section.region (some "## TODO") lines).lines 2 lines) ∧
      run 2 (some "## TODO") lines = [] ∧
      Bullet.overlooked (tokens l.content) = [⟨['b'], 4⟩] ∧
      ¬ ∀ t ∈ tokens l.content, t ∈ Bullet.used (tokens l.content) := by
  intro lines l after
  have hl : (l, after) ∈
      ({} : Pass).bullets 2 ((Section.region (some "## TODO") lines).lines 2 lines) := by decide
  have hrun : run 2 (some "## TODO") lines = [] := by decide
  have hdropped : Bullet.overlooked (tokens l.content) = [⟨['b'], 4⟩] := by decide
  refine ⟨hl, hrun, hdropped, ?_⟩
  rw [(bullet_uses_tokens_iff 2 (some "## TODO") lines hl (by rw [hrun]; nofun)).2, hdropped]
  exact nofun

end Lint

end Agenda
