import Agenda.Proofs.Line

/-!
Lists of names that are joined by commas. The names come back if and only if none of them is
empty, has a comma, or has whitespace at an end.
-/

namespace Agenda

/-- A name that stays one name between commas. -/
structure IsListed (name : Text) : Prop where
  ne_nil : name ≠ []
  no_comma : ',' ∉ name
  trimmed : name.Trimmed

instance (name : Text) : Decidable (IsListed name) :=
  decidable_of_iff (name ≠ [] ∧ ',' ∉ name ∧ name.strip = name)
    ⟨fun ⟨h₁, h₂, h₃⟩ => ⟨h₁, h₂, Text.strip_eq_self.1 h₃⟩,
      fun ⟨h₁, h₂, h₃⟩ => ⟨h₁, h₂, Text.strip_eq_self.2 h₃⟩⟩

theorem isListed_of_mem_namesIn {t name : Text} (h : name ∈ namesIn t) : IsListed name := by
  obtain ⟨hm, hne⟩ := List.mem_filter.mp h
  obtain ⟨piece, hp, rfl⟩ := List.mem_map.mp hm
  refine ⟨by simpa using hne, ?_, Text.trimmed_strip piece⟩
  exact fun hc => Text.not_mem_of_mem_split hp (Text.mem_of_mem_strip hc)

theorem namesIn_join {xs : List Text} (h : ∀ x ∈ xs, IsListed x) :
    namesIn (Text.join [','] xs) = xs := by
  cases hxs : xs with
  | nil => rfl
  | cons x rest =>
      have hsplit := @Text.split_join ',' xs (by simp [hxs]) fun x hx => (h x hx).no_comma
      rw [← hxs, namesIn, hsplit]
      have hmap : xs.map Text.strip = xs := by
        conv_rhs => rw [← List.map_id xs]
        exact List.map_congr_left fun x hx => (h x hx).trimmed.strip_eq
      rw [hmap, List.filter_eq_self]
      intro x hx
      simpa using (h x hx).ne_nil

/-! ### Growing a list -/

theorem addName_of_not_mem {xs : List Text} {x : Text} (h : x ∉ xs) :
    addName xs x = xs ++ [x] := by
  simp [addName, h]

theorem addName_of_mem {xs : List Text} {x : Text} (h : x ∈ xs) : addName xs x = xs := by
  simp [addName, h]

theorem addNames_of_nodup {xs ys : List Text} (h : (xs ++ ys).Nodup) :
    addNames xs ys = xs ++ ys := by
  induction ys generalizing xs with
  | nil => simp [addNames]
  | cons y ys ih =>
      have hy : y ∉ xs := fun hm =>
        (List.nodup_append.mp h).2.2 y hm y (by simp) rfl
      rw [addNames, List.foldl_cons, addName_of_not_mem hy]
      have := @ih (xs ++ [y]) (by simpa using h)
      simpa [addNames] using this

theorem mem_addNames {xs ys : List Text} {x : Text} : x ∈ addNames xs ys ↔ x ∈ xs ∨ x ∈ ys := by
  induction ys generalizing xs with
  | nil => simp [addNames]
  | cons y ys ih =>
      have hstep : addNames xs (y :: ys) = addNames (addName xs y) ys := rfl
      rw [hstep, ih, addName]
      split
      · next hc =>
          have : y ∈ xs := by simpa using hc
          grind
      · grind

theorem nodup_addNames {xs ys : List Text} (h : xs.Nodup) : (addNames xs ys).Nodup := by
  induction ys generalizing xs with
  | nil => exact h
  | cons y ys ih =>
      apply ih
      by_cases hy : y ∈ xs
      · rw [addName_of_mem hy]
        exact h
      · rw [addName_of_not_mem hy]
        grind

/-- Names that are added are listed in the order in which they are first met. -/
theorem addNames_eq (xs ys : List Text) :
    addNames xs ys = xs ++ (ys.filter (· ∉ xs)).eraseDups := by
  induction ys generalizing xs with
  | nil => simp [addNames]
  | cons y ys ih =>
      have hstep : addNames xs (y :: ys) = addNames (addName xs y) ys := rfl
      rw [hstep, ih]
      by_cases hy : y ∈ xs
      · rw [addName_of_mem hy, List.filter_cons_of_neg (by simpa using hy)]
      · have hrest : ys.filter (· ∉ xs ++ [y]) = (ys.filter (· ∉ xs)).filter (!· == y) := by
          rw [List.filter_filter]
          refine List.filter_congr fun x _ => ?_
          simp [and_comm, beq_eq_decide]
        rw [addName_of_not_mem hy, List.filter_cons_of_pos (by simpa using hy),
          List.eraseDups_cons, List.append_assoc, List.singleton_append, hrest]

/-- Names that are joined and read again are the same if each of them stays one name, and only
then. -/
theorem addNames_namesIn_join {xs : List Text} (hx : xs.Nodup) :
    addNames [] (namesIn (Text.join [','] xs)) = xs ↔ ∀ x ∈ xs, IsListed x := by
  constructor
  · intro h x hxs
    rw [← h, mem_addNames] at hxs
    exact isListed_of_mem_namesIn (hxs.resolve_left (by simp))
  · intro h
    rw [namesIn_join h, addNames_of_nodup (by simpa using hx), List.nil_append]

/-! ### Proper names -/

/-- A proper name that does not end with a line feed has only characters that keys may have. -/
theorem isName_iff {name : Text} (h : name.getLast? ≠ some '\n') :
    isName name = true ↔ name ≠ [] ∧ ∀ c ∈ name, isKeyChar c = true := by
  simp [isName, Text.dropFinalNewline, h]

end Agenda
