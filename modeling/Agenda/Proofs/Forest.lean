import Agenda.Forest
import Mathlib.Data.List.Forall2

/-!
Forests and their outlines. A forest is recovered from the columns of its elements if each stands
in the column that is its depth times a positive step, whatever else has become of the elements.
-/

namespace Agenda.Forest

variable {α β : Type}

/-! ### Forests of one shape -/

/-- Two forests of one shape whose elements are related place by place. -/
inductive Rel (R : α → β → Prop) : Forest α → Forest β → Prop
  | nil : Rel R .nil .nil
  | cons {a b c c' r r'} (root : R a b) (children : Rel R c c') (rest : Rel R r r') :
      Rel R (.cons a c r) (.cons b c' r')

theorem Rel.imp {R Q : α → β → Prop} {f : Forest α} {g : Forest β}
    (h : ∀ a b, R a b → Q a b) (hr : Rel R f g) : Rel Q f g := by
  induction hr with
  | nil => exact .nil
  | cons root _ _ ihc ihr => exact .cons (h _ _ root) ihc ihr

/-- What holds of every element on the left holds of every related pair. -/
theorem Rel.and_left {R : α → β → Prop} {P : α → Prop} {f : Forest α} {g : Forest β}
    (h : Rel R f g) (hf : ∀ a ∈ f.toList, P a) : Rel (fun a b => P a ∧ R a b) f g := by
  induction h with
  | nil => exact .nil
  | cons root _ _ ihc ihr =>
      simp only [Forest.toList, List.forall_mem_cons, List.forall_mem_append] at hf
      exact .cons ⟨hf.1, root⟩ (ihc hf.2.1) (ihr hf.2.2)

theorem Rel.toList {R : α → β → Prop} {f : Forest α} {g : Forest β} (h : Rel R f g) :
    List.Forall₂ R f.toList g.toList := by
  induction h with
  | nil => exact .nil
  | cons root _ _ ihc ihr => exact .cons root (List.rel_append ihc ihr)

theorem same_iff_rel {eq : α → α → Bool} {f g : Forest α} :
    f.same eq g = true ↔ Rel (fun a b => eq a b = true) f g := by
  induction f generalizing g with
  | nil =>
      cases g with
      | nil => exact ⟨fun _ => .nil, fun _ => rfl⟩
      | cons b children rest =>
          refine ⟨fun h => ?_, fun h => ?_⟩ <;> cases h
  | cons a children rest ihc ihr =>
      cases g with
      | nil => refine ⟨fun h => ?_, fun h => ?_⟩ <;> cases h
      | cons b children' rest' =>
          rw [same, Bool.and_eq_true, Bool.and_eq_true, ihc, ihr]
          refine ⟨fun ⟨⟨hroot, hc⟩, hr⟩ => .cons hroot hc hr, fun h => ?_⟩
          cases h with
          | cons hroot hc hr => exact ⟨⟨hroot, hc⟩, hr⟩

theorem Rel.map {γ : Type} {R : α → γ → Prop} {k : β → γ} {f : Forest α} {g : Forest β}
    (h : Rel (fun a b => R a (k b)) f g) : Rel R f (g.map k) := by
  induction h with
  | nil => exact .nil
  | cons root _ _ ihc ihr => exact .cons root ihc ihr

theorem rel_map {R : α → β → Prop} {k : α → β} {f : Forest α} (h : ∀ a ∈ f.toList, R a (k a)) :
    Rel R f (f.map k) := by
  induction f with
  | nil => exact .nil
  | cons a children rest ihc ihr =>
      simp only [Forest.toList, List.forall_mem_cons, List.forall_mem_append] at h
      exact .cons h.1 (ihc h.2.1) (ihr h.2.2)

/-! ### Outlines and columns -/

def spanRoots (p : α → Bool) : Forest α → Forest α × Forest α
  | .nil => (.nil, .nil)
  | .cons a children rest =>
    if p a then
      let (taken, left) := rest.spanRoots p
      (.cons a children taken, left)
    else (.nil, .cons a children rest)

/-- Puts an element in front. The leading trees that stand in a larger column become its
children. -/
def nest (column : α → Nat) (a : α) (f : Forest α) : Forest α :=
  let (children, rest) := f.spanRoots (column a < column ·)
  .cons a children rest

/-- The forest that is made of elements from the last one to the first. -/
def ofColumns (column : α → Nat) (xs : List α) : Forest α := xs.foldr (nest column) .nil

theorem map_snd_outline (f : Forest α) (depth : Nat) :
    (f.outline depth).map (·.2) = f.toList := by
  induction f generalizing depth with
  | nil => rfl
  | cons a children rest ihc ihr => simp [outline, toList, ihc, ihr]

theorem toList_append (f g : Forest α) : (f ++ g).toList = f.toList ++ g.toList := by
  induction f with
  | nil => rfl
  | cons a children rest _ ih =>
      change a :: (children.toList ++ (rest ++ g).toList) = _
      rw [ih]
      simp [toList]

theorem length_toList (f : Forest α) : f.toList.length = f.size := by
  induction f with
  | nil => rfl
  | cons a children rest ihc ihr =>
      rw [toList, List.length_cons, List.length_append, ihc, ihr, size]
      omega

theorem toList_map (k : α → β) (f : Forest α) : (f.map k).toList = f.toList.map k := by
  induction f with
  | nil => rfl
  | cons a children rest ihc ihr => simp [map, toList, ihc, ihr]

theorem toList_spanRoots (p : α → Bool) (f : Forest α) :
    (f.spanRoots p).1.toList ++ (f.spanRoots p).2.toList = f.toList := by
  induction f with
  | nil => rfl
  | cons a children rest _ ihr =>
      rw [spanRoots]
      split
      · simp [toList, ihr]
      · rfl

/-- Nesting keeps the elements in their order. -/
theorem toList_ofColumns (column : α → Nat) (xs : List α) :
    (ofColumns column xs).toList = xs := by
  induction xs with
  | nil => rfl
  | cons a xs ih =>
      have hcons : ofColumns column (a :: xs) = nest column a (ofColumns column xs) := rfl
      rw [hcons, nest]
      simp only [toList, toList_spanRoots, ih]

@[simp] theorem append_nil (f : Forest α) : f ++ .nil = f := by
  change f.append .nil = f
  induction f with
  | nil => rfl
  | cons a children rest _ ihr => rw [append, ihr]

def RootsAt (column : α → Nat) (n : Nat) : Forest α → Prop
  | .nil => True
  | .cons a _ rest => column a = n ∧ rest.RootsAt column n

/-- The first root, if there is one, stands in the given column or before it. -/
def StartsBy (column : α → Nat) (n : Nat) : Forest α → Prop
  | .nil => True
  | .cons a _ _ => column a ≤ n

theorem StartsBy.mono {column : α → Nat} {m n : Nat} {f : Forest α}
    (h : f.StartsBy column m) (hmn : m ≤ n) : f.StartsBy column n := by
  cases f with
  | nil => trivial
  | cons a children rest => exact Nat.le_trans h hmn

theorem RootsAt.startsBy_append {column : α → Nat} {n : Nat} {f g : Forest α}
    (hf : f.RootsAt column n) (hg : g.StartsBy column n) : (f ++ g).StartsBy column n := by
  cases f with
  | nil => exact hg
  | cons a children rest => exact Nat.le_of_eq hf.1

/-- An element takes the roots in larger columns as its children, up to one that is in no larger
column. -/
theorem nest_append {column : α → Nat} {a : α} {n : Nat} {f g : Forest α}
    (hf : f.RootsAt column n) (hn : column a < n) (hg : g.StartsBy column (column a)) :
    nest column a (f ++ g) = .cons a f g := by
  have hspan : (f ++ g).spanRoots (column a < column ·) = (f, g) := by
    change (f.append g).spanRoots _ = _
    induction f with
    | nil =>
        cases g with
        | nil => rfl
        | cons b children rest =>
            have hb : ¬ column a < column b := Nat.not_lt.2 hg
            rw [append, spanRoots, if_neg (by simpa using hb)]
    | cons b children rest _ ihr =>
        have hb : column a < column b := by rw [hf.1]; exact hn
        rw [append, spanRoots, if_pos (by simpa using hb), ihr hf.2]
  rw [nest, hspan]

theorem exists_append_of_forall₂ {R : α → β → Prop} {as bs : List α} {xs : List β}
    (h : List.Forall₂ R (as ++ bs) xs) :
    ∃ ys zs, List.Forall₂ R as ys ∧ List.Forall₂ R bs zs ∧ xs = ys ++ zs := by
  induction as generalizing xs with
  | nil => exact ⟨[], xs, .nil, h, rfl⟩
  | cons a as ih =>
      cases h with
      | @cons _ x _ _ hx h =>
          obtain ⟨ys, zs, hys, hzs, rfl⟩ := ih h
          exact ⟨x :: ys, zs, .cons hx hys, hzs, rfl⟩

/-- Elements that stand in the columns of an outline, before a forest that starts no deeper, are
nested as the outline says. -/
theorem foldr_nest_outline {R : α → β → Prop} {column : β → Nat} {step : Nat} (hstep : 0 < step)
    {f : Forest α} {depth : Nat} {xs : List β} {g : Forest β}
    (hxs : List.Forall₂ (fun p b => column b = p.1 * step ∧ R p.2 b) (f.outline depth) xs)
    (hg : g.StartsBy column (depth * step)) :
    ∃ f', xs.foldr (nest column) g = f' ++ g ∧ f'.RootsAt column (depth * step) ∧ Rel R f f' := by
  induction f generalizing depth xs g with
  | nil =>
      cases hxs
      exact ⟨.nil, rfl, trivial, .nil⟩
  | cons a children rest ihc ihr =>
      cases hxs with
      | @cons _ b _ xs hroot hxs =>
          obtain ⟨xc, xr, hc, hr, rfl⟩ := exists_append_of_forall₂ hxs
          obtain ⟨r', hr', hrat, hrrel⟩ := ihr hr hg
          have hdeep : (r' ++ g).StartsBy column (depth * step) := hrat.startsBy_append hg
          have hle : depth * step ≤ (depth + 1) * step := Nat.mul_le_mul_right _ (by omega)
          obtain ⟨c', hc', hcat, hcrel⟩ := ihc hc (hdeep.mono hle)
          have hlt : column b < (depth + 1) * step := by
            rw [hroot.1, Nat.add_mul, Nat.one_mul]
            exact Nat.lt_add_of_pos_right hstep
          refine ⟨.cons b c' r', ?_, ⟨hroot.1, hrat⟩, .cons hroot.2 hcrel hrrel⟩
          rw [List.foldr_cons, List.foldr_append, hr', hc',
            nest_append hcat hlt (by rw [hroot.1]; exact hdeep)]
          rfl

/-- A forest is recovered from the columns that its outline gives. -/
theorem rel_ofColumns {R : α → β → Prop} {column : β → Nat} {step : Nat} (hstep : 0 < step)
    {f : Forest α} {xs : List β}
    (hxs : List.Forall₂ (fun p b => column b = p.1 * step ∧ R p.2 b) (f.outline 0) xs) :
    Rel R f (ofColumns column xs) := by
  obtain ⟨f', hf', -, hrel⟩ := foldr_nest_outline hstep hxs (g := .nil) trivial
  rw [ofColumns, hf', append_nil]
  exact hrel

/-! ### Forests one after the other -/

theorem map_append (k : α → β) (f g : Forest α) : (f ++ g).map k = f.map k ++ g.map k := by
  induction f with
  | nil => rfl
  | cons a children rest _ ihr =>
      change Forest.cons (k a) (children.map k) ((rest ++ g).map k) = _
      rw [ihr]
      rfl

theorem map_map {γ : Type} (k : α → β) (j : β → γ) (f : Forest α) :
    (f.map k).map j = f.map fun a => j (k a) := by
  induction f with
  | nil => rfl
  | cons a children rest ihc ihr => rw [map, map, map, ihc, ihr]

theorem spanRoots_map (k : α → β) (p : β → Bool) (f : Forest α) :
    (f.map k).spanRoots p =
      ((f.spanRoots fun a => p (k a)).1.map k, (f.spanRoots fun a => p (k a)).2.map k) := by
  induction f with
  | nil => rfl
  | cons a children rest _ ihr =>
      rw [map, spanRoots, spanRoots]
      split
      · rw [ihr]
        rfl
      · rfl

theorem ofColumns_map (column : β → Nat) (k : α → β) (xs : List α) :
    ofColumns column (xs.map k) = (ofColumns (fun a => column (k a)) xs).map k := by
  induction xs with
  | nil => rfl
  | cons a xs ih =>
      have hcons : ofColumns column ((a :: xs).map k) =
          nest column (k a) (ofColumns column (xs.map k)) := rfl
      rw [hcons, ih, nest, spanRoots_map]
      rfl

/-- A forest that starts at the margin takes no part in the nesting of what comes before it. -/
theorem nest_append_margin {column : α → Nat} (a : α) (f : Forest α) {g : Forest α}
    (hg : g.StartsBy column 0) : nest column a (f ++ g) = nest column a f ++ g := by
  have hspan : (f ++ g).spanRoots (column a < column ·) =
      ((f.spanRoots (column a < column ·)).1, (f.spanRoots (column a < column ·)).2 ++ g) := by
    induction f with
    | nil =>
        cases g with
        | nil => rfl
        | cons b children rest =>
            have hb : ¬ column a < column b := by
              rw [Nat.le_zero.1 hg]
              exact Nat.not_lt_zero _
            change (Forest.cons b children rest).spanRoots _ = (.nil, .cons b children rest)
            rw [spanRoots, if_neg (by simpa using hb)]
    | cons b children rest _ ihr =>
        change (Forest.cons b children (rest ++ g)).spanRoots _ = _
        rw [spanRoots, spanRoots]
        split
        · rw [ihr]
        · rfl
  rw [nest, nest, hspan]
  rfl

/-- From an element at the margin on, the elements make up a forest of their own. -/
theorem ofColumns_append {column : α → Nat} (xs : List α) {ys : List α}
    (h : ∀ y ∈ ys.head?, column y = 0) :
    ofColumns column (xs ++ ys) = ofColumns column xs ++ ofColumns column ys := by
  have hstarts : (ofColumns column ys).StartsBy column 0 := by
    cases ys with
    | nil => trivial
    | cons y ys => exact Nat.le_of_eq (h y rfl)
  induction xs with
  | nil => rfl
  | cons x xs ih =>
      change nest column x (ofColumns column (xs ++ ys)) = _
      rw [ih, nest_append_margin x _ hstarts]
      rfl

/-! ### Subtrees taken out -/

/-- Takes out the elements that satisfy `p`, with everything below them. -/
def prune (p : α → Bool) : Forest α → Forest α
  | .nil => .nil
  | .cons a children rest =>
    if p a then rest.prune p else .cons a (children.prune p) (rest.prune p)

theorem toList_prune_sublist (p : α → Bool) (f : Forest α) :
    (f.prune p).toList.Sublist f.toList := by
  induction f with
  | nil => exact .slnil
  | cons a children rest ihc ihr =>
      rw [prune]
      split
      · exact (ihr.trans (List.sublist_append_right _ _)).cons a
      · exact (ihc.append ihr).cons_cons a

/-- What is left does not satisfy `p`. -/
theorem of_mem_prune {p : α → Bool} {f : Forest α} {a : α} (h : a ∈ (f.prune p).toList) :
    p a = false := by
  induction f with
  | nil => cases h
  | cons b children rest ihc ihr =>
      rw [prune] at h
      split at h
      · exact ihr h
      · next hb =>
          simp only [toList, List.mem_cons, List.mem_append] at h
          rcases h with rfl | h | h
          · exact Bool.eq_false_iff.2 hb
          · exact ihc h
          · exact ihr h

theorem prune_eq_self {p : α → Bool} {f : Forest α} (h : ∀ a ∈ f.toList, p a = false) :
    f.prune p = f := by
  induction f with
  | nil => rfl
  | cons a children rest ihc ihr =>
      simp only [toList, List.forall_mem_cons, List.forall_mem_append] at h
      obtain ⟨ha, hc, hr⟩ := h
      rw [prune, if_neg (Bool.eq_false_iff.1 ha), ihc hc, ihr hr]

end Agenda.Forest
