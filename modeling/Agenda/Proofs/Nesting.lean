import Agenda.Proofs.Forest

/-!
Depths in a forest that columns make up. Whoever walks along the elements from first to last can
keep the columns of the elements that are still open, the innermost first: an element closes those
that stand as deep as it does or deeper, and is opened itself. As many columns as it leaves open,
so deep it is in the forest.
-/

namespace Agenda.Forest

variable {α β : Type} {column : α → Nat}

/-- The number of open columns that each column finds around it, where `opened` are the columns
that are open at the start. -/
def depths (opened : List Nat) : List Nat → List Nat
  | [] => []
  | c :: cs =>
    let around := opened.dropWhile (c ≤ ·)
    around.length :: depths (c :: around) cs

def openAfter (opened cs : List Nat) : List Nat :=
  cs.foldl (fun opened c => c :: opened.dropWhile (c ≤ ·)) opened

theorem depths_append (opened cs ds : List Nat) :
    depths opened (cs ++ ds) = depths opened cs ++ depths (openAfter opened cs) ds := by
  induction cs generalizing opened with
  | nil => rfl
  | cons c cs ih => simp [depths, openAfter, ih]

/-- Columns that are deeper than an open one leave it open, and all those around it. -/
theorem exists_openAfter {n : Nat} {inner cs : List Nat} (base : List Nat)
    (hinner : ∀ c ∈ inner, n < c) (hcs : ∀ c ∈ cs, n < c) :
    ∃ inner', (∀ c ∈ inner', n < c) ∧
      openAfter (inner ++ n :: base) cs = inner' ++ n :: base := by
  induction cs generalizing inner with
  | nil => exact ⟨inner, hinner, rfl⟩
  | cons c cs ih =>
      have hc : n < c := hcs c (by simp)
      have hstay : (n :: base).dropWhile (c ≤ ·) = n :: base :=
        List.dropWhile_cons_of_neg (by simpa using hc)
      have hdrop : (inner ++ n :: base).dropWhile (c ≤ ·) =
          inner.dropWhile (c ≤ ·) ++ n :: base := by
        rw [List.dropWhile_append]
        split
        · next hempty => rw [List.isEmpty_iff.1 hempty, hstay, List.nil_append]
        · rfl
      have hsub : ∀ d ∈ c :: inner.dropWhile (c ≤ ·), n < d :=
        List.forall_mem_cons.2 ⟨hc, fun d hd => hinner d ((List.dropWhile_suffix _).subset hd)⟩
      obtain ⟨inner', hinner', heq⟩ := ih hsub fun d hd => hcs d (List.mem_cons_of_mem _ hd)
      refine ⟨inner', hinner', ?_⟩
      rw [← heq, openAfter, List.foldl_cons, hdrop]
      rfl

/-- Every element stands deeper than the one it belongs to, and no tree starts deeper than the one
before it. -/
def Nested (column : α → Nat) : Forest α → Prop
  | .nil => True
  | .cons a children rest =>
    (∀ b ∈ children.toList, column a < column b) ∧ rest.StartsBy column (column a) ∧
      children.Nested column ∧ rest.Nested column

/-- The leading trees with roots in larger columns, and the trees after them. -/
theorem Nested.spanRoots {f : Forest α} (h : f.Nested column) (n : Nat) :
    (f.spanRoots (n < column ·)).1.Nested column ∧
      (∀ b ∈ (f.spanRoots (n < column ·)).1.toList, n < column b) ∧
      (f.spanRoots (n < column ·)).2.Nested column ∧
      (f.spanRoots (n < column ·)).2.StartsBy column n := by
  induction f with
  | nil => simp [Forest.spanRoots, Nested, toList, StartsBy]
  | cons a children rest _ ih =>
      obtain ⟨hchildren, hstarts, hc, hr⟩ := h
      rw [Forest.spanRoots]
      by_cases ha : n < column a
      · obtain ⟨htaken, hdeeper, hleft, hleftStarts⟩ := ih hr
        simp only [ha, decide_true, if_true]
        refine ⟨⟨hchildren, ?_, hc, htaken⟩, ?_, hleft, hleftStarts⟩
        · -- What is taken of the rest starts as the rest does, or is empty.
          cases rest with
          | nil => trivial
          | cons b bc br =>
              rw [Forest.spanRoots]
              split
              · exact hstarts
              · trivial
        · simp only [toList, List.forall_mem_cons, List.forall_mem_append]
          exact ⟨ha, fun b hb => Nat.lt_trans ha (hchildren b hb), hdeeper⟩
      · simp only [ha, decide_false, Bool.false_eq_true, if_false]
        exact ⟨trivial, by simp [toList], ⟨hchildren, hstarts, hc, hr⟩, Nat.not_lt.1 ha⟩

theorem nested_ofColumns (column : α → Nat) (xs : List α) :
    (ofColumns column xs).Nested column := by
  induction xs with
  | nil => trivial
  | cons a xs ih =>
      obtain ⟨htaken, hdeeper, hleft, hstarts⟩ := Nested.spanRoots ih (column a)
      exact ⟨hdeeper, hstarts, htaken, hleft⟩

/-- In a nested forest the open columns around an element are those that were open around the
forest, and one more for each level. `inner` are the columns that the first root closes. -/
theorem Nested.depths_toList {f : Forest α} (h : f.Nested column) (inner base : List Nat)
    (hinner : ∀ c ∈ inner, f.StartsBy column c) (hbase : ∀ b ∈ f.toList, ∀ c ∈ base, c < column b) :
    depths (inner ++ base) (f.toList.map column) = (f.outline base.length).map (·.1) := by
  induction f generalizing inner base with
  | nil => rfl
  | cons a children rest ihc ihr =>
      obtain ⟨hchildren, hstarts, hc, hr⟩ := h
      simp only [toList, List.forall_mem_cons, List.forall_mem_append] at hbase
      obtain ⟨ha, hbasec, hbaser⟩ := hbase
      have haround : (inner ++ base).dropWhile (column a ≤ ·) = base := by
        rw [List.dropWhile_append_of_pos (by simpa [StartsBy] using hinner)]
        cases base with
        | nil => rfl
        | cons c base => exact List.dropWhile_cons_of_neg (by simpa using ha c (by simp))
      obtain ⟨inner', hinner', hafter⟩ :=
        exists_openAfter base (by simp : ∀ c ∈ ([] : List Nat), column a < c)
          (List.forall_mem_map.2 hchildren)
      have hdeep := ihc hc [] (column a :: base) (by simp) fun b hb c hcol => by
        rcases List.mem_cons.1 hcol with rfl | hcol
        · exact hchildren b hb
        · exact hbasec b hb c hcol
      have hflat := ihr hr (inner' ++ [column a]) base
        (fun c hcol => by
          rcases List.mem_append.1 hcol with hcol | hcol
          · exact hstarts.mono (Nat.le_of_lt (hinner' c hcol))
          · rw [List.mem_singleton.1 hcol]
            exact hstarts) hbaser
      rw [List.append_assoc, List.singleton_append] at hflat
      rw [List.nil_append] at hafter hdeep
      simp only [toList, List.map_cons, List.map_append, depths, haround, depths_append, hafter,
        hdeep, hflat, outline, List.length_cons]

/-- The depths of the elements are the numbers of the columns that are open around them. -/
theorem map_fst_outline_ofColumns (column : α → Nat) (xs : List α) :
    ((ofColumns column xs).outline 0).map (·.1) = depths [] (xs.map column) := by
  have h := (nested_ofColumns column xs).depths_toList [] [] (by simp) (by simp)
  rw [toList_ofColumns] at h
  exact h.symm

theorem map_fst_outline_map (k : α → β) (f : Forest α) (depth : Nat) :
    ((f.map k).outline depth).map (·.1) = (f.outline depth).map (·.1) := by
  induction f generalizing depth with
  | nil => rfl
  | cons a children rest ihc ihr => simp [map, outline, ihc, ihr]

end Agenda.Forest
