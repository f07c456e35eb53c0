import Agenda.Proofs.Owners

/-!
Forests that grow element by element. What is put in after some point hangs on the elements that are
open there: each of them takes the leading trees that stand deeper, the innermost first. So a forest
that grows is the one that its columns make up, and the owner of an element is the one that was the
innermost open element when it was put in.
-/

namespace Agenda

namespace Growth

variable {α : Type} {column : α → Nat}

/-! ### What comes after -/

/-- The forest with the trees of elements that are put in later. -/
def hang (column : α → Nat) : List (α × Forest α) → Forest α → Forest α → Forest α
  | [], finished, f => finished.revAppend f
  | (a, before) :: opened, finished, f =>
    let (children, rest) := f.spanRoots (column a < column ·)
    hang column opened (.cons a (finished.revAppend children) before) rest

theorem hang_nil (opened : List (α × Forest α)) (finished : Forest α) :
    hang column opened finished .nil = close opened finished := by
  induction opened generalizing finished with
  | nil => rfl
  | cons p opened ih => exact ih _

/-- An element that is put in takes the leading trees of what comes after it as its children. -/
theorem hang_push (g : Growth α) (a : α) (f : Forest α) :
    hang column (g.push column a).opened (g.push column a).finished f =
      hang column g.opened g.finished (.nest column a f) := by
  obtain ⟨opened, finished⟩ := g
  induction opened generalizing finished with
  | nil => rfl
  | cons p opened ih =>
      obtain ⟨b, before⟩ := p
      by_cases hb : column a ≤ column b
      · -- The element closes `b`, which takes none of the later trees.
        have hpush : push column ⟨(b, before) :: opened, finished⟩ a =
            push column ⟨opened, .cons b (finished.revAppend .nil) before⟩ a := by
          simp only [push, closeTo, if_pos hb]
        rw [hpush, ih]
        simp [hang, Forest.nest, Forest.spanRoots, Nat.not_lt.2 hb]
      · have hdeeper : column b < column a := Nat.not_le.1 hb
        have hpush : push column ⟨(b, before) :: opened, finished⟩ a =
            ⟨(a, finished) :: (b, before) :: opened, .nil⟩ := by
          simp only [push, closeTo, if_neg hb]
        rw [hpush]
        simp [hang, Forest.nest, Forest.spanRoots, Forest.revAppend, hdeeper]

theorem toForest_foldl_push (g : Growth α) (xs : List α) :
    (xs.foldl (push column) g).toForest =
      hang column g.opened g.finished (.ofColumns column xs) := by
  induction xs generalizing g with
  | nil => exact (hang_nil _ _).symm
  | cons a xs ih =>
      rw [List.foldl_cons, ih, hang_push]
      rfl

end Growth

theorem Forest.grow_eq_ofColumns {α : Type} (column : α → Nat) (xs : List α) :
    grow column xs = ofColumns column xs := Growth.toForest_foldl_push {} xs

/-! ### Owners -/

namespace Growth

variable {α : Type} {column : α → Nat}

def around? (g : Growth α) : Option α := g.opened[1]?.map (·.1)

/-- The elements that are put in, each after the one that is open around it then. -/
def owners (column : α → Nat) (g : Growth α) : List α → List (Option α × α)
  | [] => []
  | a :: xs => ((g.push column a).around?, a) :: owners column (g.push column a) xs

theorem owned_revAppend (owner : Option α) (f g : Forest α) :
    (f.revAppend g).owned owner = (f.revAppend .nil).owned owner ++ g.owned owner := by
  induction f generalizing g with
  | nil => rfl
  | cons a children rest _ ihr =>
      rw [Forest.revAppend, Forest.revAppend, ihr, ihr (.cons a children .nil), List.append_assoc]
      simp [Forest.owned]

/-- The children of the innermost open element come last. -/
theorem exists_owned_close (opened : List (α × Forest α)) (a : α) (before : Forest α) :
    ∃ earlier, ∀ children : Forest α,
      (close opened (.cons a children before)).owned none =
        earlier ++ children.owned (some a) := by
  induction opened generalizing a before with
  | nil =>
      refine ⟨(before.revAppend .nil).owned none ++ [(none, a)], fun children => ?_⟩
      rw [close, Forest.revAppend, owned_revAppend]
      simp [Forest.owned]
  | cons p opened ih =>
      obtain ⟨b, outer⟩ := p
      obtain ⟨earlier, hearlier⟩ := ih b outer
      refine ⟨earlier ++ (before.revAppend .nil).owned (some b) ++ [(some b, a)],
        fun children => ?_⟩
      rw [close, hearlier, Forest.revAppend, owned_revAppend]
      simp [Forest.owned]

/-- Closing an element leaves the forest as it is. -/
theorem toForest_closeTo (column : α → Nat) (n : Nat) (opened : List (α × Forest α))
    (finished : Forest α) :
    (closeTo column n opened finished).toForest = close opened finished := by
  induction opened generalizing finished with
  | nil => rfl
  | cons p opened ih =>
      rw [closeTo]
      split
      · exact ih _
      · rfl

/-- An element that is opened comes last, below the innermost one that was open before. -/
theorem owned_close_cons (opened : List (α × Forest α)) (finished : Forest α) (a : α) :
    (close ((a, finished) :: opened) .nil).owned none =
      (close opened finished).owned none ++ [(opened.head?.map (·.1), a)] := by
  have hlast (owner : Option α) : ((Forest.cons a .nil finished).revAppend .nil).owned owner =
      (finished.revAppend .nil).owned owner ++ [(owner, a)] := owned_revAppend owner finished _
  cases opened with
  | nil => exact hlast none
  | cons p opened =>
      obtain ⟨b, before⟩ := p
      obtain ⟨earlier, hearlier⟩ := exists_owned_close opened b before
      calc (close opened (.cons b ((Forest.cons a .nil finished).revAppend .nil) before)).owned none
          = earlier ++ ((finished.revAppend .nil).owned (some b) ++ [(some b, a)]) := by
            rw [hearlier, hlast]
        _ = _ := by
            rw [← List.append_assoc, ← hearlier]
            rfl

theorem owned_push (g : Growth α) (a : α) :
    (g.push column a).toForest.owned none =
      g.toForest.owned none ++ [((g.push column a).around?, a)] := by
  have hclosed := toForest_closeTo column (column a) g.opened g.finished
  rw [toForest] at hclosed
  rw [push, toForest, owned_close_cons, hclosed, around?, List.getElem?_cons_succ,
    List.head?_eq_getElem?]
  rfl

theorem owned_foldl_push (g : Growth α) (xs : List α) :
    (xs.foldl (push column) g).toForest.owned none =
      g.toForest.owned none ++ g.owners column xs := by
  induction xs generalizing g with
  | nil => exact (List.append_nil _).symm
  | cons a xs ih =>
      rw [List.foldl_cons, ih, owned_push, owners, List.append_assoc]
      rfl

end Growth

/-- Every element belongs to the one that was open around it when it was put in. -/
theorem Forest.owned_grow {α : Type} (column : α → Nat) (xs : List α) :
    (grow column xs).owned none = ({} : Growth α).owners column xs :=
  Growth.owned_foldl_push {} xs

end Agenda
