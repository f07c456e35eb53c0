import Agenda.Proofs.Reading
import Agenda.Proofs.Uses

/-!
What the shorthand at the front of a bullet sets, however long it is. Each shorthand is about one
field and looks at no other one, so a field depends only on the shorthand about it: a task is done
if any of it says so, the first priority counts, and names are listed in the order in which they
are first met. Therefore the order of the shorthand matters only among priorities, among
stakeholders and among tags.
-/

namespace Agenda

/-! ### One field at a time -/

namespace Shorthand

def key : Shorthand → Text
  | .priority _ => Key.priority
  | .completed _ => Key.completed
  | .skipped => Key.skipped
  | .stakeholder _ => Key.stakeholders
  | .tag _ => Key.tags

def namesBefore : Option Value → List Text
  | some (.names xs) => xs
  | _ => []

def after (before : Option Value) : Shorthand → Option Value
  | .priority letter => before.or (some (.text letter))
  | .completed done => if done then some (.flag true) else before.or (some (.flag false))
  | .skipped => some (.flag true)
  | .stakeholder name => some (.names (addName (namesBefore before) name))
  | .tag name => some (.names (addName (namesBefore before) name))

theorem key_mem (s : Shorthand) : s.key ∈ Layout.leadKeys := by
  cases s <;> simp [key, Layout.leadKeys]

def letter? : Shorthand → Option Text
  | .priority letter => some letter
  | _ => none

def name? (key : Text) : Shorthand → Option Text
  | .stakeholder name => if key = Key.stakeholders then some name else none
  | .tag name => if key = Key.tags then some name else none
  | _ => none

variable {s : Shorthand}

theorem completed_eq_key : Key.completed = s.key ↔ ∃ done, s = .completed done := by
  cases s <;> simp [key] <;> decide

theorem skipped_eq_key : Key.skipped = s.key ↔ s = .skipped := by
  cases s <;> simp [key] <;> decide

theorem isSome_letter? : s.letter?.isSome = true ↔ Key.priority = s.key := by
  cases s <;> simp [key, letter?] <;> decide

theorem isSome_name? {key : Text} (hkey : Key.isList key = true) :
    (s.name? key).isSome = true ↔ key = s.key := by
  rcases Layout.isList_cases hkey with rfl | rfl <;>
    cases s <;> simp [Shorthand.key, name?] <;> decide

theorem after_of_letter? {letter : Text} (h : s.letter? = some letter) (before : Option Value) :
    s.after before = before.or (some (.text letter)) := by
  cases s <;> cases h
  rfl

theorem after_of_name? {key name : Text} (h : s.name? key = some name) (before : Option Value) :
    s.after before = some (.names (addName (namesBefore before) name)) := by
  cases s <;> simp_all [name?, after]

end Shorthand

namespace Fields

theorem names_eq_namesBefore (fs : Fields) (key : Text) :
    fs.names key = Shorthand.namesBefore (fs.lookup key) := by
  rw [names, get]
  cases fs.lookup key with
  | none => rfl
  | some v => cases v <;> rfl

/-- A shorthand leaves the fields as they are, or it sets the one it is about. -/
theorem addShorthand_eq (fs : Fields) (s : Shorthand) :
    fs.addShorthand s = fs ∨ ∃ v, fs.addShorthand s = fs.set s.key v := by
  cases s with
  | priority letter =>
      rw [addShorthand]
      split
      · exact .inl rfl
      · exact .inr ⟨_, rfl⟩
  | completed done =>
      rw [addShorthand]
      split
      · exact .inr ⟨_, rfl⟩
      · exact .inl rfl
  | skipped => exact .inr ⟨_, rfl⟩
  | stakeholder name => exact .inr ⟨_, rfl⟩
  | tag name => exact .inr ⟨_, rfl⟩

theorem nodup_keys_addShorthand {fs : Fields} (h : fs.keys.Nodup) (s : Shorthand) :
    (fs.addShorthand s).keys.Nodup := by
  obtain heq | ⟨v, heq⟩ := fs.addShorthand_eq s <;> rw [heq]
  · exact h
  · exact nodup_keys_set h s.key v

theorem lookup_addShorthand_of_ne (fs : Fields) {s : Shorthand} {key : Text} (h : key ≠ s.key) :
    (fs.addShorthand s).lookup key = fs.lookup key := by
  obtain heq | ⟨v, heq⟩ := fs.addShorthand_eq s <;> rw [heq]
  rw [lookup_set, if_neg h]

theorem lookup_addShorthand_self (fs : Fields) (s : Shorthand) :
    (fs.addShorthand s).lookup s.key = s.after (fs.lookup s.key) := by
  have hset (key : Text) (v : Value) : (fs.set key v).lookup key = some v := by
    rw [lookup_set, if_pos rfl]
  cases s with
  | priority letter =>
      simp only [addShorthand, has_eq_isSome_lookup, Shorthand.key, Shorthand.after]
      cases hold : fs.lookup Key.priority with
      | none => exact hset _ _
      | some v => exact hold
  | completed done =>
      simp only [addShorthand, has_eq_isSome_lookup, Shorthand.key, Shorthand.after]
      cases done with
      | true => exact hset _ _
      | false =>
          cases hold : fs.lookup Key.completed with
          | none => exact hset _ _
          | some v => exact hold
  | skipped => exact hset _ _
  | stakeholder name =>
      simp only [addShorthand, names_eq_namesBefore]
      exact hset _ _
  | tag name =>
      simp only [addShorthand, names_eq_namesBefore]
      exact hset _ _

theorem nodup_keys_foldl_addShorthand {fs : Fields} (h : fs.keys.Nodup) (found : List Shorthand) :
    (found.foldl addShorthand fs).keys.Nodup := by
  induction found generalizing fs with
  | nil => exact h
  | cons s found ih => exact ih (nodup_keys_addShorthand h s)

theorem lookup_foldl_of_ne {found : List Shorthand} {key : Text} (h : ∀ s ∈ found, key ≠ s.key)
    (fs : Fields) : (found.foldl addShorthand fs).lookup key = fs.lookup key := by
  induction found generalizing fs with
  | nil => rfl
  | cons s found ih =>
      rw [List.forall_mem_cons] at h
      rw [List.foldl_cons, ih h.2, lookup_addShorthand_of_ne fs h.1]

/-- A task is done if any mark says so; that it is not done counts only without such a mark. -/
theorem lookup_foldl_completed (found : List Shorthand) (fs : Fields) :
    (found.foldl addShorthand fs).lookup Key.completed =
      if .completed true ∈ found then some (.flag true)
      else (fs.lookup Key.completed).or
        (if .completed false ∈ found then some (.flag false) else none) := by
  induction found generalizing fs with
  | nil => simp
  | cons s found ih =>
      rw [List.foldl_cons, ih]
      by_cases hs : Key.completed = s.key
      · obtain ⟨done, rfl⟩ := Shorthand.completed_eq_key.1 hs
        rw [hs, lookup_addShorthand_self]
        cases done with
        | true => simp [Shorthand.after]
        | false =>
            cases hold : fs.lookup Key.completed <;> simp [Shorthand.after, Shorthand.key, hold]
      · have hne : ∀ done, .completed done ≠ s := fun done h => hs (h ▸ rfl)
        simp [lookup_addShorthand_of_ne fs hs, hne]

theorem lookup_foldl_skipped (found : List Shorthand) (fs : Fields) :
    (found.foldl addShorthand fs).lookup Key.skipped =
      if .skipped ∈ found then some (.flag true) else fs.lookup Key.skipped := by
  induction found generalizing fs with
  | nil => simp
  | cons s found ih =>
      rw [List.foldl_cons, ih]
      by_cases hs : Key.skipped = s.key
      · obtain rfl := Shorthand.skipped_eq_key.1 hs
        rw [hs, lookup_addShorthand_self]
        simp [Shorthand.after]
      · have hne : .skipped ≠ s := fun h => hs (h ▸ rfl)
        simp [lookup_addShorthand_of_ne fs hs, hne]

/-- The first priority counts. -/
theorem lookup_foldl_priority (found : List Shorthand) (fs : Fields) :
    (found.foldl addShorthand fs).lookup Key.priority =
      (fs.lookup Key.priority).or ((found.findSome? Shorthand.letter?).map .text) := by
  induction found generalizing fs with
  | nil => simp
  | cons s found ih =>
      rw [List.foldl_cons, ih, List.findSome?_cons]
      cases hletter : s.letter? with
      | some letter =>
          have hs : Key.priority = s.key := Shorthand.isSome_letter?.1 (by rw [hletter]; rfl)
          rw [hs, lookup_addShorthand_self, Shorthand.after_of_letter? hletter, Option.or_assoc]
          rfl
      | none =>
          have hs : Key.priority ≠ s.key := fun h => by
            have := Shorthand.isSome_letter?.2 h
            rw [hletter] at this
            cases this
          rw [lookup_addShorthand_of_ne fs hs]

/-- Names are added in the order in which they are met. -/
theorem lookup_foldl_names {key : Text} (hkey : Key.isList key = true) (found : List Shorthand)
    (fs : Fields) :
    (found.foldl addShorthand fs).lookup key =
      if found.filterMap (Shorthand.name? key) = [] then fs.lookup key
      else some (.names (addNames (Shorthand.namesBefore (fs.lookup key))
        (found.filterMap (Shorthand.name? key)))) := by
  induction found generalizing fs with
  | nil => rfl
  | cons s found ih =>
      rw [List.foldl_cons, ih, List.filterMap_cons]
      cases hname : s.name? key with
      | some name =>
          have hs : key = s.key := (Shorthand.isSome_name? hkey).1 (by rw [hname]; rfl)
          have hself : (fs.addShorthand s).lookup key =
              some (.names (addName (Shorthand.namesBefore (fs.lookup key)) name)) := by
            rw [hs, lookup_addShorthand_self, Shorthand.after_of_name? hname]
          rw [hself, if_neg (List.cons_ne_nil _ _)]
          split
          · next hnil => rw [hnil]; rfl
          · rfl
      | none =>
          have hs : key ≠ s.key := fun h => by
            have := (Shorthand.isSome_name? hkey).2 h
            rw [hname] at this
            cases this
          rw [lookup_addShorthand_of_ne fs hs]

end Fields

/-! ### How shorthand is spelled -/

namespace Shorthand

variable {w : Text} {s : Shorthand}

def doneMarks : List Text := ["x", "X", "[x]", "[X]"]

def skipMarks : List Text := ["-", "[-]"]

def Spells (w : Text) : Shorthand → Prop
  | .priority letter => letter = w ∧ isPriority w = true
  | .completed true => w ∈ doneMarks
  | .completed false => w = "[_]"
  | .skipped => w ∈ skipMarks
  | .stakeholder name => w = '@' :: name
  | .tag name => w = '#' :: name

theorem spells_of_readName? (h : readName? w = some s) : s.Spells w := by
  unfold readName? at h
  split at h
  · next marker c cs =>
      split at h
      · cases h
      · split at h
        · next hmarker =>
            obtain rfl := Option.some.inj h
            rw [hmarker]
            rfl
        · split at h
          · next hmarker =>
              obtain rfl := Option.some.inj h
              rw [hmarker]
              rfl
          · cases h
  · cases h

theorem spells_of_read? (h : read? w = some s) : s.Spells w := by
  unfold read? at h
  split at h
  · next hletter =>
      obtain rfl := Option.some.inj h
      exact ⟨rfl, hletter⟩
  · split at h
    · next hdone =>
        obtain rfl := Option.some.inj h
        simpa [Spells, doneMarks, or_assoc] using hdone
    · split at h
      · next hundone =>
          obtain rfl := Option.some.inj h
          exact hundone
      · split at h
        · next hskip =>
            obtain rfl := Option.some.inj h
            simpa [Spells, skipMarks] using hskip
        · exact spells_of_readName? h

theorem read?_eq_done : read? w = some (.completed true) ↔ w ∈ doneMarks := by
  have hall : ∀ w ∈ doneMarks, read? w = some (.completed true) := by decide
  exact ⟨spells_of_read?, hall w⟩

theorem read?_eq_notDone : read? w = some (.completed false) ↔ w = "[_]" := by
  have hmark : read? "[_]" = some (.completed false) := by decide
  exact ⟨spells_of_read?, fun h => h ▸ hmark⟩

theorem read?_eq_skipped : read? w = some .skipped ↔ w ∈ skipMarks := by
  have hall : ∀ w ∈ skipMarks, read? w = some .skipped := by decide
  exact ⟨spells_of_read?, hall w⟩

/-- A priority is a letter, and nothing but a line feed may follow it. -/
theorem eq_of_isPriority (h : isPriority w = true) :
    ∃ c ∈ ['A', 'B', 'C', 'D'], w = [c] ∨ w = [c, '\n'] := by
  unfold isPriority at h
  split at h
  · next c hc =>
      have hletter : c ∈ ['A', 'B', 'C', 'D'] := by
        simp only [Bool.and_eq_true, decide_eq_true_eq] at h
        have hlow : 65 ≤ c.toNat := h.1
        have hhigh : c.toNat ≤ 68 := h.2
        have hcode : c.toNat = 65 ∨ c.toNat = 66 ∨ c.toNat = 67 ∨ c.toNat = 68 := by omega
        rw [← Char.ofNat_toNat c]
        rcases hcode with hcode | hcode | hcode | hcode <;> rw [hcode] <;> decide
      refine ⟨c, hletter, ?_⟩
      unfold Text.dropFinalNewline at hc
      split at hc
      · next hlast =>
          right
          rw [← List.dropLast_append_getLast? '\n' hlast, hc]
          rfl
      · exact .inl hc
  · cases h

/-- Only names begin with a marker. -/
theorem head?_ne_of_read? (h : read? w = some s)
    (hs : ∀ name, s ≠ .stakeholder name ∧ s ≠ .tag name) :
    w.head? ≠ some '@' ∧ w.head? ≠ some '#' := by
  have hspells := spells_of_read? h
  cases s with
  | priority letter =>
      obtain ⟨c, hc, hw⟩ := eq_of_isPriority hspells.2
      have hne : ∀ c ∈ ['A', 'B', 'C', 'D'], c ≠ '@' ∧ c ≠ '#' := by decide
      rcases hw with rfl | rfl <;> simpa using hne c hc
  | completed done =>
      cases done with
      | true =>
          have hall : ∀ w ∈ doneMarks, w.head? ≠ some '@' ∧ w.head? ≠ some '#' := by decide
          exact hall w hspells
      | false =>
          rw [show w = "[_]" from hspells]
          decide
  | skipped =>
      have hall : ∀ w ∈ skipMarks, w.head? ≠ some '@' ∧ w.head? ≠ some '#' := by decide
      exact hall w hspells
  | stakeholder name => exact absurd rfl (hs name).1
  | tag name => exact absurd rfl (hs name).2

theorem letter?_of_read? (h : read? w = some s) :
    s.letter? = if isPriority w then some w else none := by
  cases hw : isPriority w with
  | true =>
      have hletter : read? w = some (.priority w) := if_pos hw
      obtain rfl := Option.some.inj (h.symm.trans hletter)
      rfl
  | false =>
      have hspells := spells_of_read? h
      cases s with
      | priority letter =>
          rw [Spells, hw] at hspells
          cases hspells.2
      | _ => rfl

/-- A name is spelled after the marker of its list. -/
def IsMarker (key : Text) (marker : Char) : Prop :=
  (key = Key.stakeholders ∧ marker = '@') ∨ (key = Key.tags ∧ marker = '#')

theorem name?_of_read? {key : Text} {marker : Char} (hm : IsMarker key marker)
    (h : read? w = some s) :
    s.name? key = if w.head? = some marker then some w.tail else none := by
  have hspells := spells_of_read? h
  rcases hm with ⟨rfl, rfl⟩ | ⟨rfl, rfl⟩
  · cases s with
    | stakeholder name =>
        rw [show w = '@' :: name from hspells]
        rfl
    | tag name =>
        rw [show w = '#' :: name from hspells]
        rfl
    | _ => rw [if_neg (head?_ne_of_read? h (by simp)).1]; rfl
  · cases s with
    | stakeholder name =>
        rw [show w = '@' :: name from hspells]
        rfl
    | tag name =>
        rw [show w = '#' :: name from hspells]
        rfl
    | _ => rw [if_neg (head?_ne_of_read? h (by simp)).2]; rfl

end Shorthand

/-! ### The front of a bullet -/

namespace Bullet

open Shorthand

/-- The words that a bullet starts with, as far as they are shorthand. -/
def leadWords (content : Text) : List Text :=
  ((tokens content).takeWhile Lint.isShorthand).map (·.text)

def leadFields (content : Text) : Fields :=
  (shorthand (tokens content)).1.foldl Fields.addShorthand []

theorem headFields_eq (content : Text) : headFields content (tokens content) =
    withTitle (leadFields content)
      (title? content ((tokens content).dropWhile Lint.isShorthand)) := by
  rw [← (shorthand_eq _).1]
  rfl

/-- Shorthand sets no other fields. -/
theorem lookup_leadFields_of_ne {key : Text} (h : key ∉ Layout.leadKeys) (found : List Shorthand) :
    (found.foldl Fields.addShorthand []).lookup key = none := by
  refine Fields.lookup_foldl_of_ne (fun s _ heq => h ?_) []
  rw [heq]
  exact s.key_mem

theorem lookup_headFields_of_ne {key : Text} (hlead : key ∉ Layout.leadKeys)
    (htitle : key ≠ Key.title) (content : Text) (ts : List Token) :
    (headFields content ts).lookup key = none := by
  unfold headFields
  simp only
  split
  · rw [Fields.lookup_set, if_neg htitle, lookup_leadFields_of_ne hlead]
  · exact lookup_leadFields_of_ne hlead _

theorem shorthand_eq_filterMap (ts : List Token) :
    (shorthand ts).1 = ((ts.takeWhile Lint.isShorthand).map (·.text)).filterMap read? := by
  induction ts with
  | nil => rfl
  | cons t ts ih =>
      unfold shorthand
      cases hr : read? t.text with
      | none =>
          have ht : Lint.isShorthand t = false := by simp [Lint.isShorthand, hr]
          simp [ht]
      | some s =>
          have ht : Lint.isShorthand t = true := by simp [Lint.isShorthand, hr]
          simp [ht, hr, ih]

theorem isSome_read?_of_mem {content w : Text} (h : w ∈ leadWords content) :
    (read? w).isSome = true := by
  obtain ⟨t, ht, rfl⟩ := List.mem_map.1 h
  have hshorthand : Lint.isShorthand t = true := List.mem_takeWhile_imp ht
  exact hshorthand

/-- A token ends before a line feed, so a priority is nothing but its letter. -/
theorem isPriority_iff_of_mem {content w : Text} (h : w ∈ leadWords content) :
    isPriority w = true ↔ w ∈ priorities := by
  have hall : ∀ w ∈ priorities, isPriority w = true := by decide
  refine ⟨fun hw => ?_, hall w⟩
  obtain ⟨t, ht, rfl⟩ := List.mem_map.1 h
  obtain ⟨_, _, hbetween⟩ := between_tokens (List.takeWhile_subset _ ht)
  obtain ⟨c, hc, hw⟩ := eq_of_isPriority hw
  rcases hw with hw | hw
  · rw [hw]
    have hletters : ∀ c ∈ ['A', 'B', 'C', 'D'], [c] ∈ priorities := by decide
    exact hletters c hc
  · -- The line feed would have ended the token.
    have hkeeps := hbetween.keeps
    have hends : ∀ c ∈ ['A', 'B', 'C', 'D'],
        (Scan.start.step c).separates '\n' = true := by decide
    rw [hw, Scan.Keeps, Scan.Keeps, hends c hc] at hkeeps
    cases hkeeps.2.1

def namesAfter (marker : Char) (words : List Text) : List Text :=
  (words.filter (·.head? = some marker)).map List.tail

/-- A field with a list of names, each of them once; it is not there if there are none. -/
def listed (names : List Text) : Option Value :=
  if names = [] then none else some (.names names.eraseDups)

/-- The fields that words at the front of a bullet set. -/
structure IsLead (words : List Text) (fs : Fields) : Prop where
  completed : fs.lookup Key.completed =
    if ∃ w ∈ words, w ∈ doneMarks then some (.flag true)
    else if ("[_]" : Text) ∈ words then some (.flag false) else none
  skipped : fs.lookup Key.skipped =
    if ∃ w ∈ words, w ∈ skipMarks then some (.flag true) else none
  priority : fs.lookup Key.priority = (words.find? (· ∈ priorities)).map .text
  stakeholders : fs.lookup Key.stakeholders = listed (namesAfter '@' words)
  tags : fs.lookup Key.tags = listed (namesAfter '#' words)
  others : ∀ key, key ∉ Layout.leadKeys → fs.lookup key = none
  nodup : fs.keys.Nodup

theorem mem_found {content : Text} {s : Shorthand} :
    s ∈ (shorthand (tokens content)).1 ↔ ∃ w ∈ leadWords content, read? w = some s := by
  rw [shorthand_eq_filterMap, List.mem_filterMap]
  rfl

theorem filterMap_name?_found {key : Text} {marker : Char} (hm : IsMarker key marker)
    (content : Text) :
    (shorthand (tokens content)).1.filterMap (name? key) =
      namesAfter marker (leadWords content) := by
  have hwords : ∀ words : List Text, (∀ w ∈ words, (read? w).isSome = true) →
      (words.filterMap read?).filterMap (name? key) = namesAfter marker words := by
    intro words hread
    induction words with
    | nil => rfl
    | cons w words ih =>
        rw [List.forall_mem_cons] at hread
        obtain ⟨s, hs⟩ := Option.isSome_iff_exists.1 hread.1
        rw [List.filterMap_cons_some hs, List.filterMap_cons, ih hread.2, name?_of_read? hm hs]
        by_cases hmarked : w.head? = some marker
        · simp [hmarked, namesAfter]
        · simp [hmarked, namesAfter]
  rw [shorthand_eq_filterMap]
  exact hwords _ fun w => isSome_read?_of_mem

theorem findSome?_letter?_found (content : Text) :
    (shorthand (tokens content)).1.findSome? letter? =
      (leadWords content).find? (· ∈ priorities) := by
  have hwords : ∀ words : List Text, words ⊆ leadWords content →
      (words.filterMap read?).findSome? letter? = words.find? (· ∈ priorities) := by
    intro words hsub
    induction words with
    | nil => rfl
    | cons w words ih =>
        obtain ⟨hw, hwords⟩ := List.cons_subset.1 hsub
        obtain ⟨s, hs⟩ := Option.isSome_iff_exists.1 (isSome_read?_of_mem hw)
        rw [List.filterMap_cons_some hs, List.findSome?_cons, ih hwords, letter?_of_read? hs,
          List.find?_cons]
        by_cases hletter : w ∈ priorities
        · simp [(isPriority_iff_of_mem hw).2 hletter, hletter]
        · simp [mt (isPriority_iff_of_mem hw).1 hletter, hletter]
  rw [shorthand_eq_filterMap]
  exact hwords _ (List.Subset.refl _)

theorem lookup_names_leadFields {key : Text} {marker : Char} (hm : IsMarker key marker)
    (content : Text) :
    (leadFields content).lookup key = listed (namesAfter marker (leadWords content)) := by
  have hkey : Key.isList key = true := by
    rcases hm with ⟨rfl, -⟩ | ⟨rfl, -⟩ <;> rfl
  have hnames := addNames_eq [] (namesAfter marker (leadWords content))
  rw [leadFields, Fields.lookup_foldl_names hkey, filterMap_name?_found hm, listed]
  simp only [List.not_mem_nil, not_false_eq_true, decide_true, List.filter_true,
    List.nil_append] at hnames
  rw [← hnames]
  rfl

/-- The fields that the shorthand at the front of a bullet sets, in closed form. -/
theorem isLead_leadFields (content : Text) : IsLead (leadWords content) (leadFields content) where
  completed := by
    rw [leadFields, Fields.lookup_foldl_completed]
    simp only [mem_found, read?_eq_done, read?_eq_notDone]
    simp
  skipped := by
    rw [leadFields, Fields.lookup_foldl_skipped]
    simp only [mem_found, read?_eq_skipped]
    rfl
  priority := by
    rw [leadFields, Fields.lookup_foldl_priority, findSome?_letter?_found]
    rfl
  stakeholders := lookup_names_leadFields (.inl ⟨rfl, rfl⟩) content
  tags := lookup_names_leadFields (.inr ⟨rfl, rfl⟩) content
  others := fun key hkey => lookup_leadFields_of_ne hkey _
  nodup := Fields.nodup_keys_foldl_addShorthand (show (Fields.keys []).Nodup from List.nodup_nil) _

/-- Words in another order, where priorities, stakeholders and tags keep theirs. -/
structure IsReordering (words others : List Text) : Prop where
  perm : words.Perm others
  priorities_eq : words.filter (· ∈ priorities) = others.filter (· ∈ priorities)
  stakeholders_eq : words.filter (·.head? = some '@') = others.filter (·.head? = some '@')
  tags_eq : words.filter (·.head? = some '#') = others.filter (·.head? = some '#')

theorem IsLead.perm {words others : List Text} {fs gs : Fields} (hfs : IsLead words fs)
    (hgs : IsLead others gs) (h : IsReordering words others) : fs.Perm gs := by
  rw [Fields.perm_iff_lookup_eq hfs.nodup hgs.nodup]
  intro key
  by_cases hkey : key ∈ Layout.leadKeys
  · simp only [Layout.leadKeys, List.mem_cons, List.not_mem_nil, or_false] at hkey
    rcases hkey with rfl | rfl | rfl | rfl | rfl
    · simp only [hfs.completed, hgs.completed, h.perm.mem_iff]
    · simp only [hfs.skipped, hgs.skipped, h.perm.mem_iff]
    · rw [hfs.priority, hgs.priority, ← List.head?_filter, ← List.head?_filter, h.priorities_eq]
    · rw [hfs.stakeholders, hgs.stakeholders, namesAfter, namesAfter, h.stakeholders_eq]
    · rw [hfs.tags, hgs.tags, namesAfter, namesAfter, h.tags_eq]
  · rw [hfs.others key hkey, hgs.others key hkey]

/-- The fields that a bullet sets before its title are those of the shorthand at its front: `true`
for a task that any mark calls done, `false` for one that a mark calls not done and no mark done; a
flag for one that is skipped; the first priority; and each stakeholder and tag once, in the order in
which they are first met. So they are the same, apart from their order, when the shorthand is
reordered and priorities, stakeholders and tags keep their order. -/
theorem lead_closed_form (content : Text) :
    headFields content (tokens content) = withTitle (leadFields content)
        (title? content ((tokens content).dropWhile Lint.isShorthand)) ∧
      IsLead (leadWords content) (leadFields content) ∧
      ∀ other, IsReordering (leadWords content) (leadWords other) →
        (leadFields content).Perm (leadFields other) :=
  ⟨headFields_eq content, isLead_leadFields content,
    fun other => (isLead_leadFields content).perm (isLead_leadFields other)⟩

/-- A task that is called done after it was called not done, two priorities, and a tag twice. -/
theorem lead_closed_form_mixed :
    let content : Text := "[_] #b A @u x #a B #b - t"
    let other : Text := "A - #b @u #a x B #b [_] t"
    IsReordering (leadWords content) (leadWords other) ∧
      leadFields content =
        [(Key.completed, .flag true), (Key.tags, .names ["b", "a"]), (Key.priority, .text "A"),
          (Key.stakeholders, .names ["u"]), (Key.skipped, .flag true)] ∧
      (leadFields content).Perm (leadFields other) := by
  intro content other
  have horder : IsReordering (leadWords content) (leadWords other) :=
    ⟨by decide, by decide, by decide, by decide⟩
  exact ⟨horder, by decide, (lead_closed_form content).2.2 other horder⟩

end Bullet

end Agenda
