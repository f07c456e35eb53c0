/-!
Forests: sequences of trees. A forest is empty, or it has a first tree, with a root and the
forest of its children, and the trees after that one. A forest grows along its last branch, element
by element; the columns of the elements say how far down each of them hangs.
-/

namespace Agenda

inductive Forest (α : Type) where
  | nil
  | cons (root : α) (children rest : Forest α)
deriving DecidableEq, Repr

namespace Forest

variable {α β : Type}

/-- The elements, each before its descendants and these before its later siblings. -/
def toList : Forest α → List α
  | .nil => []
  | .cons a children rest => a :: (children.toList ++ rest.toList)

/-- The elements in the same order, with their depths from `depth` on. -/
def outline (depth : Nat) : Forest α → List (Nat × α)
  | .nil => []
  | .cons a children rest => (depth, a) :: (children.outline (depth + 1) ++ rest.outline depth)

def size : Forest α → Nat
  | .nil => 0
  | .cons _ children rest => 1 + children.size + rest.size

def isEmpty : Forest α → Bool
  | .nil => true
  | .cons .. => false

def map (f : α → β) : Forest α → Forest β
  | .nil => .nil
  | .cons a children rest => .cons (f a) (children.map f) (rest.map f)

def append : Forest α → Forest α → Forest α
  | .nil, g => g
  | .cons a children rest, g => .cons a children (rest.append g)

instance : Append (Forest α) := ⟨append⟩

/-- The trees the other way round, in front of another forest. -/
def revAppend : Forest α → Forest α → Forest α
  | .nil, g => g
  | .cons a children rest, g => rest.revAppend (.cons a children g)

/-- The elements, each with its descendants. -/
def subtrees : Forest α → List (α × Forest α)
  | .nil => []
  | .cons a children rest => (a, children) :: (children.subtrees ++ rest.subtrees)

/-- Equality of forests of one shape, up to an equality of their elements. -/
def same (eq : α → α → Bool) : Forest α → Forest α → Bool
  | .nil, .nil => true
  | .cons a children rest, .cons b children' rest' =>
    eq a b && children.same eq children' && rest.same eq rest'
  | _, _ => false

end Forest

/-- A forest that elements are put into one after the other. An element is open as long as it can
get children: the last root, its last child, and so on. -/
structure Growth (α : Type) where
  /-- The open elements, the innermost first, each with the finished trees before it on its level,
  the last of them first. -/
  opened : List (α × Forest α) := []
  /-- The finished trees below the innermost open element. -/
  finished : Forest α := .nil
deriving DecidableEq, Repr

namespace Growth

variable {α : Type}

/-- Closes the elements that stand in column `n` or deeper. A tree that is closed is the last one so
far on its level. -/
def closeTo (column : α → Nat) (n : Nat) : List (α × Forest α) → Forest α → Growth α
  | [], finished => ⟨[], finished⟩
  | (a, before) :: opened, finished =>
    if n ≤ column a then closeTo column n opened (.cons a (finished.revAppend .nil) before)
    else ⟨(a, before) :: opened, finished⟩

/-- Puts an element in: it closes those that stand as deep as it does or deeper, and is opened as
the last child of the one that is then the innermost, or as the last root. -/
def push (column : α → Nat) (g : Growth α) (a : α) : Growth α :=
  let around := closeTo column (column a) g.opened g.finished
  ⟨(a, around.finished) :: around.opened, .nil⟩

def close : List (α × Forest α) → Forest α → Forest α
  | [], finished => finished.revAppend .nil
  | (a, before) :: opened, finished => close opened (.cons a (finished.revAppend .nil) before)

def toForest (g : Growth α) : Forest α := close g.opened g.finished

end Growth

def Forest.grow {α : Type} (column : α → Nat) (xs : List α) : Forest α :=
  (xs.foldl (Growth.push column) {}).toForest

end Agenda
