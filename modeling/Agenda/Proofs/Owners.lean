import Agenda.Proofs.Nesting

/-!
Owners and siblings. In a forest that columns make up, every element belongs to the last one before
it that stands in a smaller column, and of two siblings the later one stands no deeper.
-/

namespace Agenda.Forest

variable {α : Type} {column : α → Nat}

def roots : Forest α → List α
  | .nil => []
  | .cons a _ rest => a :: rest.roots

/-- The groups of siblings: the roots, and the children of each element. -/
def siblings (f : Forest α) : List (List α) := f.roots :: f.subtrees.map (·.2.roots)

/-- The elements in order, each after the one it is a child of; `owner` is that of the roots. -/
def owned (owner : Option α) : Forest α → List (Option α × α)
  | .nil => []
  | .cons a children rest => (owner, a) :: (children.owned (some a) ++ rest.owned owner)

def lastBelow (column : α → Nat) (n : Nat) (before : List α) : Option α :=
  (before.filter (column · < n)).getLast?

@[simp] theorem map_snd_owned (owner : Option α) (f : Forest α) :
    (f.owned owner).map (·.2) = f.toList := by
  induction f generalizing owner with
  | nil => rfl
  | cons a children rest ihc ihr => simp [owned, toList, ihc, ihr]

theorem roots_subset (f : Forest α) : f.roots ⊆ f.toList := by
  induction f with
  | nil => exact fun _ h => h
  | cons a children rest _ ihr =>
      intro b hb
      rcases List.mem_cons.mp hb with rfl | hb
      · exact List.mem_cons_self
      · exact List.mem_cons_of_mem _ (List.mem_append_right _ (ihr hb))

/-! ### Siblings -/

/-- A forest that starts no deeper than `n` has no root that is deeper. -/
theorem Nested.roots {f : Forest α} (h : f.Nested column) :
    f.roots.Pairwise (fun a b => column b ≤ column a) ∧
      ∀ n, f.StartsBy column n → ∀ b ∈ f.roots, column b ≤ n := by
  induction f with
  | nil => exact ⟨.nil, fun _ _ => nofun⟩
  | cons a children rest _ ihr =>
      obtain ⟨-, hstarts, -, hr⟩ := h
      obtain ⟨hpair, hle⟩ := ihr hr
      refine ⟨.cons (hle _ hstarts) hpair, fun n hn b hb => ?_⟩
      rcases List.mem_cons.mp hb with rfl | hb
      · exact hn
      · exact Nat.le_trans (hle _ hstarts b hb) hn

theorem Nested.subtrees {f : Forest α} (h : f.Nested column) :
    ∀ p ∈ f.subtrees, p.2.Nested column := by
  induction f with
  | nil => exact nofun
  | cons a children rest ihc ihr =>
      obtain ⟨-, -, hc, hr⟩ := h
      simp only [Forest.subtrees, List.forall_mem_cons, List.forall_mem_append]
      exact ⟨hc, ihc hc, ihr hr⟩

theorem Nested.siblings {f : Forest α} (h : f.Nested column) :
    ∀ group ∈ f.siblings, group.Pairwise fun a b => column b ≤ column a := by
  refine List.forall_mem_cons.2 ⟨h.roots.1, List.forall_mem_map.2 fun p hp => ?_⟩
  exact (h.subtrees p hp).roots.1

/-! ### Owners -/

theorem lastBelow_concat {n : Nat} {a : α} (h : column a < n) (before : List α) :
    lastBelow column n (before ++ [a]) = some a := by
  rw [lastBelow, List.filter_append, List.filter_cons_of_pos (by simpa using h)]
  exact List.getLast?_concat

theorem lastBelow_append_of_le {n : Nat} (before : List α) {deep : List α}
    (h : ∀ b ∈ deep, n ≤ column b) :
    lastBelow column n (before ++ deep) = lastBelow column n before := by
  have hnone : deep.filter (column · < n) = [] := by
    simpa [List.filter_eq_nil_iff] using h
  rw [lastBelow, List.filter_append, hnone, List.append_nil, lastBelow]

/-- Every element of a nested forest belongs to the last one before it that stands in a smaller
column, if that holds of the roots, which come after the elements `before`. -/
theorem Nested.exists_of_mem_owned {f : Forest α} (h : f.Nested column) {before : List α}
    {owner : Option α} (hroots : ∀ b ∈ f.roots, lastBelow column (column b) before = owner)
    {p : Option α × α} (hp : p ∈ f.owned owner) :
    ∃ earlier later, f.toList = earlier ++ p.2 :: later ∧
      p.1 = lastBelow column (column p.2) (before ++ earlier) := by
  induction f generalizing before owner with
  | nil => cases hp
  | cons a children rest ihc ihr =>
      have hsiblings := h.roots.1
      obtain ⟨hdeeper, -, hc, hr⟩ := h
      rcases List.mem_cons.mp hp with rfl | hp
      · refine ⟨[], _, rfl, ?_⟩
        rw [List.append_nil]
        exact (hroots a List.mem_cons_self).symm
      · rcases List.mem_append.mp hp with hp | hp
        · -- The root is the last element before its children, and stands in a smaller column.
          have howner : ∀ b ∈ children.roots,
              lastBelow column (column b) (before ++ [a]) = some a := fun b hb =>
            lastBelow_concat (hdeeper b (roots_subset children hb)) before
          obtain ⟨earlier, later, heq, hlast⟩ := ihc hc howner hp
          refine ⟨a :: earlier, later ++ rest.toList, by simp [toList, heq], ?_⟩
          rwa [List.append_assoc] at hlast
        · -- No element of the first tree stands in a smaller column than the later roots.
          have howner : ∀ b ∈ rest.roots,
              lastBelow column (column b) (before ++ a :: children.toList) = owner := by
            intro b hb
            have hba : column b ≤ column a := (List.pairwise_cons.1 hsiblings).1 b hb
            rw [lastBelow_append_of_le, hroots b (List.mem_cons_of_mem _ hb)]
            refine List.forall_mem_cons.2 ⟨hba, fun d hd => ?_⟩
            exact Nat.le_trans hba (Nat.le_of_lt (hdeeper d hd))
          obtain ⟨earlier, later, heq, hlast⟩ := ihr hr howner hp
          refine ⟨a :: (children.toList ++ earlier), later, by simp [toList, heq], ?_⟩
          rwa [List.append_assoc] at hlast

/-! ### Columns of what the elements become -/

theorem Nested.congr {column' : α → Nat} {f : Forest α} (h : f.Nested column)
    (heq : ∀ a ∈ f.toList, column' a = column a) : f.Nested column' := by
  induction f with
  | nil => trivial
  | cons a children rest ihc ihr =>
      obtain ⟨hdeeper, hstarts, hc, hr⟩ := h
      simp only [toList, List.forall_mem_cons, List.forall_mem_append] at heq
      obtain ⟨ha, hchildren, hrest⟩ := heq
      refine ⟨fun b hb => ?_, ?_, ihc hc hchildren, ihr hr hrest⟩
      · rw [ha, hchildren b hb]
        exact hdeeper b hb
      · cases rest with
        | nil => trivial
        | cons b bc br =>
            rw [StartsBy, ha, hrest b List.mem_cons_self]
            exact hstarts

theorem nested_map {β : Type} {k : β → α} {f : Forest β} :
    (f.map k).Nested column ↔ f.Nested fun b => column (k b) := by
  induction f with
  | nil => exact Iff.rfl
  | cons b children rest ihc ihr =>
      have hstarts : (rest.map k).StartsBy column (column (k b)) ↔
          rest.StartsBy (fun b => column (k b)) (column (k b)) := by
        cases rest <;> exact Iff.rfl
      simp only [Forest.map, Nested, toList_map, List.forall_mem_map, hstarts, ihc, ihr]

end Agenda.Forest
