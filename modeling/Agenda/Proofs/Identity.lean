import Agenda.Identity
import Agenda.Proofs.Digest
import Agenda.Proofs.Except
import Agenda.Proofs.Number
import Mathlib.Data.List.Perm.Subperm
import Mathlib.Data.Nat.Find

/-!
The search for an id. It tries the occurrences of an identity in order, and stops at the first one
whose id is not taken. An occurrence has an id unless an integer of the identity, or the counter,
has more digits than are written. The ids of one length are finitely many, so the search need not
end: if all the ids that the occurrences give are taken, none is left.
-/

namespace Agenda

theorem Json.exists_compact {fs : Fields} :
    (∃ t, compact fs = .ok t) ↔ ∀ f ∈ fs, f.2.isWritable = true := by
  rw [← List.all_eq_true, compact]
  cases fs.all (·.2.isWritable) <;> simp

namespace Identity

/-! ### The texts that are hashed -/

/-- No integer that identifies the task has more digits than are written. -/
structure IsWritable (i : Identity) : Prop where
  title : i.title.isWritable = true
  priority : i.priority.isWritable = true
  due : i.due.isWritable = true

variable {i : Identity} {taken : List Text} {length tries first n : Nat} {id : Text}

def entries (i : Identity) (occurrence : Nat) : Fields :=
  (Key.due, i.due) ::
    (if occurrence = 0 then [] else [("occurrence".toList, .number (.int occurrence))]) ++
    [(Key.priority, i.priority), (Key.stakeholders, .names i.stakeholders),
      (Key.tags, .names i.tags), (Key.title, i.title)]

theorem forall_mem_entries {p : Text × Value → Prop} :
    (∀ f ∈ i.entries n, p f) ↔
      p (Key.due, i.due) ∧ (n ≠ 0 → p ("occurrence".toList, .number (.int n))) ∧
        p (Key.priority, i.priority) ∧ p (Key.stakeholders, .names i.stakeholders) ∧
        p (Key.tags, .names i.tags) ∧ p (Key.title, i.title) := by
  have hcounter : (∀ f ∈ (if n = 0 then [] else
      [("occurrence".toList, Value.number (.int n))]), p f) ↔
      (n ≠ 0 → p ("occurrence".toList, .number (.int n))) := by
    by_cases hn : n = 0
    · rw [if_pos hn]
      exact iff_of_true (fun _ h => absurd h List.not_mem_nil) fun h => absurd hn h
    · rw [if_neg hn, List.forall_mem_singleton]
      exact ⟨fun h _ => h, fun h => h hn⟩
  simp only [entries, List.forall_mem_append, List.forall_mem_cons, hcounter, List.not_mem_nil,
    false_implies, implies_true, and_true, and_assoc]

theorem exists_canonical :
    (∃ t, i.canonical n = .ok t) ↔ i.IsWritable ∧ n < 10 ^ Number.maxDigits := by
  have hcanonical : i.canonical n = Json.compact (i.entries n) := rfl
  have hcounter : (Value.number (.int n)).isWritable = true ↔ n < 10 ^ Number.maxDigits :=
    Number.isWritable_int_iff
  rw [hcanonical, Json.exists_compact, forall_mem_entries]
  constructor
  · rintro ⟨hdue, hn, hpriority, -, -, htitle⟩
    refine ⟨⟨htitle, hpriority, hdue⟩, ?_⟩
    by_cases hzero : n = 0
    · rw [hzero]
      exact Nat.pow_pos (by decide)
    · exact hcounter.1 (hn hzero)
  · rintro ⟨h, hn⟩
    exact ⟨h.due, fun _ => hcounter.2 hn, h.priority, rfl, rfl, h.title⟩

theorem exists_hash :
    (∃ id, i.hash length n = .ok id) ↔ i.IsWritable ∧ n < 10 ^ Number.maxDigits :=
  exists_map_eq_ok.trans exists_canonical

theorem exists_hash_of_le (h : i.hash length n = .ok id) {m : Nat} (hm : m ≤ n) :
    ∃ id, i.hash length m = .ok id := by
  obtain ⟨hi, hn⟩ := exists_hash.1 ⟨id, h⟩
  exact exists_hash.2 ⟨hi, Nat.lt_of_le_of_lt hm hn⟩

theorem isHex_hash (hlength : length ≤ 40) (h : i.hash length n = .ok id) :
    Digest.IsHex length id := by
  obtain ⟨t, -, rfl⟩ := map_eq_ok.1 h
  exact (Digest.isHex_sha1 _).take hlength

theorem hash_ne_nil (hlength : 0 < length) (h : i.hash length n = .ok id) : id ≠ [] := by
  obtain ⟨t, -, rfl⟩ := map_eq_ok.1 h
  refine List.ne_nil_of_length_pos ?_
  rw [List.length_take, (Digest.isHex_sha1 _).length_eq]
  omega

/-! ### The search -/

def IsTaken (i : Identity) (taken : List Text) (length occurrence : Nat) : Prop :=
  ∃ id ∈ taken, i.hash length occurrence = .ok id

/-- An occurrence whose id is taken is passed over. -/
theorem free?_succ_of_isTaken (h : i.IsTaken taken length first) :
    i.free? taken length (tries + 1) first = i.free? taken length tries (first + 1) := by
  obtain ⟨id, hid, hhash⟩ := h
  simp only [free?, hhash, List.contains_iff_mem.2 hid, if_true]

/-- The search ends at an occurrence if its id is not taken, and goes on if it is. -/
theorem free?_succ_eq_some_iff :
    i.free? taken length (tries + 1) first = .ok (some id) ↔
      (i.hash length first = .ok id ∧ id ∉ taken) ∨
        (i.IsTaken taken length first ∧
          i.free? taken length tries (first + 1) = .ok (some id)) := by
  by_cases htaken : i.IsTaken taken length first
  · have hnot : ¬ (i.hash length first = .ok id ∧ id ∉ taken) := by
      rintro ⟨hid, hfree⟩
      obtain ⟨other, hother, hhash⟩ := htaken
      obtain rfl := Except.ok.inj (hhash.symm.trans hid)
      exact hfree hother
    rw [free?_succ_of_isTaken htaken, or_iff_right hnot, and_iff_right htaken]
  · rw [or_iff_left fun h => htaken h.1, free?]
    cases hhash : i.hash length first with
    | error e => simp
    | ok candidate =>
        have hcandidate : candidate ∉ taken := fun hmem => htaken ⟨candidate, hmem, hhash⟩
        simp only [List.contains_iff_mem, hcandidate, if_false, Except.ok.injEq, Option.some.injEq]
        exact ⟨fun h => ⟨h, h ▸ hcandidate⟩, fun h => h.1⟩

/-- The search goes through the occurrences in order, past those whose ids are taken. -/
theorem free?_eq_some_iff :
    i.free? taken length tries first = .ok (some id) ↔
      ∃ n < tries, i.hash length (first + n) = .ok id ∧ id ∉ taken ∧
        ∀ m < n, i.IsTaken taken length (first + m) := by
  induction tries generalizing first with
  | zero => simp [free?]
  | succ tries ih =>
      have hrest := @ih (first + 1)
      simp only [Nat.add_right_comm first 1, Nat.add_assoc first _ 1] at hrest
      rw [free?_succ_eq_some_iff, hrest]
      constructor
      · rintro (⟨hid, hfree⟩ | ⟨htaken, n, hn, hid, hfree, hbefore⟩)
        · exact ⟨0, Nat.succ_pos _, hid, hfree, fun m hm => absurd hm (Nat.not_lt_zero m)⟩
        · refine ⟨n + 1, Nat.succ_lt_succ hn, hid, hfree, fun m hm => ?_⟩
          cases m with
          | zero => exact htaken
          | succ m => exact hbefore m (Nat.lt_of_succ_lt_succ hm)
      · rintro ⟨n, hn, hid, hfree, hbefore⟩
        cases n with
        | zero => exact .inl ⟨hid, hfree⟩
        | succ n =>
            exact .inr ⟨hbefore 0 (Nat.succ_pos n), n, Nat.lt_of_succ_lt_succ hn, hid, hfree,
              fun m hm => hbefore (m + 1) (Nat.succ_lt_succ hm)⟩

theorem free?_eq_some (h : i.free? taken length tries first = .ok (some id)) :
    id ∉ taken ∧ ∃ n, i.hash length n = .ok id := by
  obtain ⟨n, -, hhash, hfree, -⟩ := free?_eq_some_iff.1 h
  exact ⟨hfree, _, hhash⟩

/-- As long as every id is taken, nothing is found. -/
theorem free?_eq_none (h : ∀ m < tries, i.IsTaken taken length (first + m)) :
    i.free? taken length tries first = .ok none := by
  induction tries generalizing first with
  | zero => rfl
  | succ tries ih =>
      have hfirst : i.IsTaken taken length first := h 0 (Nat.succ_pos tries)
      rw [free?_succ_of_isTaken hfirst]
      refine ih fun m hm => ?_
      rw [Nat.add_assoc, Nat.add_comm 1]
      exact h (m + 1) (Nat.succ_lt_succ hm)

/-- Where an occurrence has an id that is not taken, the search ends there or before. -/
theorem exists_free? (h : i.hash length n = .ok id) (hfree : id ∉ taken) (hn : n < tries) :
    ∃ id, i.free? taken length tries 0 = .ok (some id) := by
  classical
  have hex : ∃ m id, i.hash length m = .ok id ∧ id ∉ taken := ⟨n, id, h, hfree⟩
  obtain ⟨other, hhash, hother⟩ := Nat.find_spec hex
  have hle : Nat.find hex ≤ n := Nat.find_min' hex ⟨id, h, hfree⟩
  refine ⟨other, free?_eq_some_iff.2 ⟨Nat.find hex, by omega, ?_, hother, fun m hm => ?_⟩⟩
  · rwa [Nat.zero_add]
  · rw [Nat.zero_add]
    obtain ⟨before, hbefore⟩ := exists_hash_of_le hhash (Nat.le_of_lt hm)
    refine ⟨before, ?_, hbefore⟩
    by_contra hnot
    exact Nat.find_min hex hm ⟨before, hbefore, hnot⟩

/-- The search ends: it finds an id, given enough tries. -/
def Ends (i : Identity) (taken : List Text) (length : Nat) : Prop :=
  ∃ tries id, i.free? taken length tries 0 = .ok (some id)

theorem ends_iff_exists :
    i.Ends taken length ↔ ∃ n id, i.hash length n = .ok id ∧ id ∉ taken := by
  constructor
  · rintro ⟨tries, id, hid⟩
    obtain ⟨hfree, n, hhash⟩ := free?_eq_some hid
    exact ⟨n, id, hhash, hfree⟩
  · rintro ⟨n, id, hhash, hfree⟩
    exact ⟨n + 1, exists_free? hhash hfree n.lt_succ_self⟩

/-- Occurrences that give more ids than are taken give one that is not. -/
theorem exists_free_of_nodup {occurrences : List Nat} {ids : List Text}
    (hids : List.Forall₂ (fun n id => i.hash length n = .ok id) occurrences ids)
    (hnodup : ids.Nodup) (hmore : taken.length < ids.length) :
    ∃ n ∈ occurrences, ∃ id, i.hash length n = .ok id ∧ id ∉ taken := by
  have hsub : ¬ ids ⊆ taken := fun hsub =>
    Nat.not_le.2 hmore (hnodup.subperm hsub).length_le
  simp only [List.subset_def, not_forall] at hsub
  obtain ⟨id, hid, hfree⟩ := hsub
  obtain ⟨n, hn, hhash⟩ := exists_of_mem_forall₂ hids hid
  exact ⟨n, hn, id, hhash, hfree⟩

/-- The search for an id ends if and only if some occurrence of the task has an id that is not
taken, and it ends with the first of those. An occurrence has an id unless an integer is too large
to be written. Where some of the first occurrences have more ids than are taken, the search ends
with one of the first. Where every text of so many hexadecimal digits is taken, it does not end: it
is still going on when all occurrences that have an id are tried. -/
theorem search_ends_iff (i : Identity) (taken : List Text) {length : Nat} (hlength : length ≤ 40) :
    (i.Ends taken length ↔ ∃ n id, i.hash length n = .ok id ∧ id ∉ taken) ∧
      (∀ n, (∃ id, i.hash length n = .ok id) ↔ i.IsWritable ∧ n < 10 ^ Number.maxDigits) ∧
      (∀ tries id, i.free? taken length tries 0 = .ok (some id) ↔
        ∃ n < tries, i.hash length n = .ok id ∧ id ∉ taken ∧
          ∀ m < n, i.IsTaken taken length m) ∧
      (∀ tries, ∀ occurrences ⊆ List.range tries, ∀ ids,
        List.Forall₂ (fun n id => i.hash length n = .ok id) occurrences ids → ids.Nodup →
          taken.length < ids.length → ∃ id, i.free? taken length tries 0 = .ok (some id)) ∧
      ((∀ id, Digest.IsHex length id → id ∈ taken) → ¬ i.Ends taken length ∧
        (i.IsWritable → ∀ tries ≤ 10 ^ Number.maxDigits,
          i.free? taken length tries 0 = .ok none)) := by
  refine ⟨ends_iff_exists, fun _ => exists_hash, fun tries id => ?_, ?_, fun hall => ⟨?_, ?_⟩⟩
  · rw [free?_eq_some_iff]
    simp only [Nat.zero_add]
  · intro tries occurrences hsub ids hids hnodup hmore
    obtain ⟨n, hn, id, hhash, hfree⟩ := exists_free_of_nodup hids hnodup hmore
    exact exists_free? hhash hfree (List.mem_range.1 (hsub hn))
  · rw [ends_iff_exists]
    rintro ⟨n, id, hhash, hfree⟩
    exact hfree (hall id (isHex_hash hlength hhash))
  · intro hi tries htries
    refine free?_eq_none fun m hm => ?_
    obtain ⟨id, hhash⟩ := exists_hash.2 ⟨hi, Nat.lt_of_lt_of_le hm htries⟩
    rw [Nat.zero_add]
    exact ⟨id, hall id (isHex_hash hlength hhash), hhash⟩

/-- The search does not end if the 65536 ids of four digits are taken. -/
theorem search_ends_iff_full :
    let i : Identity := ofFields [(Key.title, .text "t")]
    (Digest.hexTexts 4).length = 65536 ∧ ¬ i.Ends (Digest.hexTexts 4) 4 ∧
      ∀ tries ≤ 10 ^ Number.maxDigits, i.free? (Digest.hexTexts 4) 4 tries 0 = .ok none := by
  intro i
  have hi : i.IsWritable := ⟨by decide, by decide, by decide⟩
  obtain ⟨hnot, hgoes⟩ := (search_ends_iff i (Digest.hexTexts 4) (by decide)).2.2.2.2
    fun _ => Digest.mem_hexTexts
  exact ⟨Digest.length_hexTexts 4, hnot, hgoes hi⟩

end Identity

end Agenda
