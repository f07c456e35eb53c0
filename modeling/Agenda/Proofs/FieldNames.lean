import Agenda.Proofs.Codec
import Agenda.Query.Grammar

/-!
The names of fields in queries and in documents. A query takes a name also with a line feed at its
end, which no field of a document has: its value would be on another line. Any other name that a
query assigns to is a key of the document format, on a bullet and on a line of its own.
-/

namespace Agenda

/-! ### Fields as they are written -/

def fieldText (key w : Text) : Text := Text.concat [key, ": ", w]

/-- What is written for a field is one line. Wherever it stands on a line of its own it is a key
with that value, and on a bullet it is one pair. -/
structure IsField (key w : Text) : Prop where
  one_line : '\n' ∉ fieldText key w
  keyed : ∀ size index column : Nat,
    (Line.ofText size index (Text.spaces column ++ fieldText key w)).keyed? = some (key, w)
  paired : (pairs (tokens (fieldText key w))).map (fun p => (p.key, p.raw)) = [(key, w)]

variable {key w : Text}

theorem fieldText_eq (key w : Text) : fieldText key w = key ++ ':' :: ' ' :: w := by
  simp [fieldText, Text.concat]

theorem tokens_fieldText (hkey : IsKey key) (hw : IsWord w) :
    tokens (fieldText key w) = [⟨keyWord key, 0⟩, ⟨w, key.length + 2⟩] := by
  have hjoin : fieldText key w = Text.join [' '] [keyWord key, w] := by
    simp [fieldText_eq, Text.join, keyWord]
  have hword : IsWord (keyWord key) := isWord_plain (by simp [keyWord]) (mem_keyWord hkey)
  have hwords : ∀ v ∈ [keyWord key, w], IsWord v :=
    List.forall_mem_cons.2 ⟨hword, List.forall_mem_singleton.2 hw⟩
  rw [hjoin, tokens_join hwords]
  simp [wordTokens, keyWord]

/-- A key and a value are a field. -/
theorem isField_of_form (hkey : IsKey key) (hw : Scalar.Form w) : IsField key w where
  one_line := by
    rw [fieldText_eq]
    intro hm
    rcases List.mem_append.mp hm with hm | hm
    · exact absurd (hkey.isKeyChar _ hm) (by decide)
    · simp only [List.mem_cons, Char.reduceEq, false_or] at hm
      exact (hw.mem hm).1 rfl
  keyed := by
    intro size index column
    have hmem : ∀ c ∈ w, c ≠ '\n' ∧ c ≠ '\t' := fun c hc => ⟨(hw.mem hc).1, (hw.mem hc).2.2⟩
    rw [fieldText_eq, Layout.ofText_keyLine size index column hkey hw.ne_nil hw.trimmed hmem]
    exact Line.keyed?_field rfl hkey hw.trimmed.1 fun hm => (hmem _ hm).1 rfl
  paired := by
    rw [tokens_fieldText hkey hw.isWord, pairs_key hkey rfl]
    rfl

/-! ### Names in queries -/

/-- A name without a line feed at its end is a key. -/
theorem isKey_of_isKeyName (h : isKeyName key = true) (hlast : key.getLast? ≠ some '\n') :
    IsKey key := by
  rw [isKeyName, Text.dropFinalNewline, if_neg hlast] at h
  cases key with
  | nil => cases h
  | cons c cs => simpa [IsKey] using h

namespace Query

def assignments : Query → List Assignment
  | .update _ assignments _ => assignments
  | .insert _ assignments => assignments
  | .select _ | .delete _ _ => []

theorem isKeyName_of_readAssignment {group : List Word} {a : Assignment}
    (h : readAssignment group = .ok a) : isKeyName a.key = true := by
  unfold readAssignment at h
  split at h
  · split at h
    · cases h
    · split at h
      · next hname =>
          obtain rfl := Except.ok.inj h
          exact hname
      · cases h
  · cases h

theorem isKeyName_of_readAssignments {ws : List Word} {as : List Assignment}
    (h : readAssignments ws = .ok as) : ∀ a ∈ as, isKeyName a.key = true := by
  unfold readAssignments at h
  split at h
  · cases h
  · intro a ha
    obtain ⟨group, -, hgroup⟩ := exists_of_mem_forall₂ (mapM_eq_ok.1 h) ha
    exact isKeyName_of_readAssignment hgroup

theorem assignments_of_readSelect {ws : List Word} {q : Query} (h : readSelect ws = .ok q) :
    q.assignments = [] := by
  unfold readSelect at h
  simp only at h
  split at h
  · cases h
  · obtain ⟨afterFrom, -, h⟩ := bind_eq_ok.1 h
    obtain ⟨⟨file, rest⟩, -, h⟩ := bind_eq_ok.1 h
    obtain ⟨⟨filter, rest⟩, -, h⟩ := bind_eq_ok.1 h
    obtain ⟨⟨order, rest⟩, -, h⟩ := bind_eq_ok.1 h
    obtain ⟨⟨limit, rest⟩, -, h⟩ := bind_eq_ok.1 h
    obtain ⟨⟨target, rest⟩, -, h⟩ := bind_eq_ok.1 h
    obtain ⟨-, -, h⟩ := bind_eq_ok.1 h
    obtain rfl := Except.ok.inj h
    rfl

theorem assignments_of_readDelete {ws : List Word} {q : Query} (h : readDelete ws = .ok q) :
    q.assignments = [] := by
  obtain ⟨afterFrom, -, h⟩ := bind_eq_ok.1 h
  obtain ⟨⟨file, rest⟩, -, h⟩ := bind_eq_ok.1 h
  simp only at h
  split at h
  · obtain ⟨filter, -, h⟩ := bind_eq_ok.1 h
    obtain rfl := Except.ok.inj h
    rfl
  · obtain ⟨-, -, h⟩ := bind_eq_ok.1 h
    obtain rfl := Except.ok.inj h
    rfl

theorem assignments_of_readUpdate {ws : List Word} {q : Query} (h : readUpdate ws = .ok q) :
    ∃ own, readAssignments own = .ok q.assignments := by
  obtain ⟨⟨file, rest⟩, -, h⟩ := bind_eq_ok.1 h
  obtain ⟨afterSet, -, h⟩ := bind_eq_ok.1 h
  obtain ⟨as, has, h⟩ := bind_eq_ok.1 h
  obtain ⟨filter, -, h⟩ := bind_eq_ok.1 h
  obtain rfl := Except.ok.inj h
  exact ⟨_, has⟩

theorem assignments_of_readInsert {ws : List Word} {q : Query} (h : readInsert ws = .ok q) :
    ∃ own, readAssignments own = .ok q.assignments := by
  obtain ⟨afterInto, -, h⟩ := bind_eq_ok.1 h
  obtain ⟨⟨file, rest⟩, -, h⟩ := bind_eq_ok.1 h
  obtain ⟨afterSet, -, h⟩ := bind_eq_ok.1 h
  obtain ⟨as, has, h⟩ := bind_eq_ok.1 h
  obtain rfl := Except.ok.inj h
  exact ⟨_, has⟩

/-- A query assigns to names only. -/
theorem isKeyName_of_ofWords {ws : List Word} {q : Query} (h : ofWords ws = .ok q) :
    ∀ a ∈ q.assignments, isKeyName a.key = true := by
  have hnone : q.assignments = [] → ∀ a ∈ q.assignments, isKeyName a.key = true := by
    intro hnil a ha
    rw [hnil] at ha
    cases ha
  obtain ⟨⟨command, rest⟩, -, h⟩ := bind_eq_ok.1 h
  simp only at h
  split at h
  · exact hnone (assignments_of_readSelect h)
  · split at h
    · obtain ⟨own, hown⟩ := assignments_of_readUpdate h
      exact isKeyName_of_readAssignments hown
    · split at h
      · exact hnone (assignments_of_readDelete h)
      · split at h
        · obtain ⟨own, hown⟩ := assignments_of_readInsert h
          exact isKeyName_of_readAssignments hown
        · cases h

theorem isKeyName_of_read {t : Text} {q : Query} (h : read t = .ok q) :
    ∀ a ∈ q.assignments, isKeyName a.key = true := by
  unfold read at h
  split at h
  · cases h
  · exact isKeyName_of_ofWords h

/-- A flag or an integer that a query gives to a name is a field of a document if and only if the
name does not end with a line feed. -/
theorem assigned_isField_iff {t : Text} {q : Query} {a : Assignment} {v : Value}
    (hq : read t = .ok q) (ha : a ∈ q.assignments)
    (hv : (∃ b, v = .flag b) ∨ ∃ n : Int, n.natAbs < 10 ^ Number.maxDigits ∧ v = .number (.int n)) :
    (∃ w, Scalar.write v = .ok w ∧ IsField a.key w) ↔ a.key.getLast? ≠ some '\n' := by
  have hname := isKeyName_of_read hq a ha
  constructor
  · rintro ⟨w, -, hfield⟩ hlast
    refine hfield.one_line ?_
    rw [fieldText_eq, List.mem_append]
    exact .inl (List.mem_of_getLast? hlast)
  · intro hlast
    obtain ⟨w, hw⟩ : ∃ w, Scalar.write v = .ok w := by
      rcases hv with ⟨b, rfl⟩ | ⟨n, hn, rfl⟩
      · exact ⟨_, rfl⟩
      · exact ⟨_, Scalar.write_number.2 ⟨Number.isWritable_int_iff.2 hn, rfl⟩⟩
    exact ⟨w, hw, isField_of_form (isKey_of_isKeyName hname hlast) (Scalar.form_of_write hw).1⟩

/-- A name with a line feed at its end is taken, and its value is on another line. -/
theorem assigned_isField_iff_newline :
    let t : Text := "update f set due-2 = 1, 'k\n' = true where a = b"
    let as : List Assignment := [⟨"due-2", ⟨"1", false⟩⟩, ⟨"k\n", ⟨"true", false⟩⟩]
    (∃ q, read t = .ok q ∧ q.assignments = as) ∧
      (∃ w, Scalar.write (.number (.int (-40))) = .ok w ∧ IsField "due-2" w) ∧
        ¬ ∃ w, Scalar.write (.flag true) = .ok w ∧ IsField "k\n" w := by
  intro t as
  obtain ⟨q, hq, has⟩ : ∃ q, read t = .ok q ∧ q.assignments = as := ⟨_, rfl, rfl⟩
  have hdue : (⟨"due-2", ⟨"1", false⟩⟩ : Assignment) ∈ q.assignments := by simp [has, as]
  have hk : (⟨"k\n", ⟨"true", false⟩⟩ : Assignment) ∈ q.assignments := by simp [has, as]
  refine ⟨⟨q, hq, has⟩, ?_, ?_⟩
  · exact (assigned_isField_iff hq hdue (.inr ⟨-40, Nat.lt_of_lt_of_le (by decide)
      (Nat.pow_le_pow_right (by decide) (by decide : 2 ≤ Number.maxDigits)), rfl⟩)).2 (by decide)
  · exact fun h => (assigned_isField_iff hq hk (.inl ⟨true, rfl⟩)).1 h (by decide)

end Query

end Agenda
