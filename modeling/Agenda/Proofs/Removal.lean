import Agenda.Proofs.Changes
import Agenda.Proofs.Rebuild

/-!
What a deletion leaves. A task stays if neither it nor any task above it is meant, and it stays as
it was: the tasks above it stay too, so its parent is still the id of its owner. A filter may ask
for the parent of a task; since no parent changes, it has the same answers afterwards, and the same
deletion finds nothing any more.
-/

namespace Agenda

/-! ### Elements and what is above them -/

namespace Forest

variable {α : Type} {p : α → Bool} {above : List α} {f : Forest α}

/-- The elements in their order, each with those above it, the nearest one first. -/
def lineages (above : List α) : Forest α → List (List α × α)
  | .nil => []
  | .cons a children rest => (above, a) :: (children.lineages (a :: above) ++ rest.lineages above)

theorem map_snd_lineages (above : List α) (f : Forest α) :
    (f.lineages above).map (·.2) = f.toList := by
  induction f generalizing above with
  | nil => rfl
  | cons a children rest ihc ihr =>
      rw [lineages, toList, List.map_cons, List.map_append, ihc, ihr]

theorem suffix_of_mem_lineages {q : List α × α} (h : q ∈ f.lineages above) : above <:+ q.1 := by
  induction f generalizing above with
  | nil => cases h
  | cons a children rest ihc ihr =>
      simp only [lineages, List.mem_cons, List.mem_append] at h
      rcases h with rfl | h | h
      · exact List.suffix_rfl
      · exact (List.suffix_cons a above).trans (ihc h)
      · exact ihr h

/-- Whether neither an element nor any of those above it satisfies `p`. -/
def isSpared (p : α → Bool) (q : List α × α) : Bool := (q.2 :: q.1).all fun a => !p a

theorem isSpared_eq_false {q : List α × α} {a : α} (ha : a ∈ q.1) (hp : p a = true) :
    isSpared p q = false := by
  rw [isSpared, List.all_eq_false]
  exact ⟨a, List.mem_cons_of_mem _ ha, by simp [hp]⟩

/-- What is left are the elements that are spared, below the same ones as before. -/
theorem lineages_prune (f : Forest α) (habove : ∀ a ∈ above, p a = false) :
    (f.prune p).lineages above = (f.lineages above).filter (isSpared p) := by
  induction f generalizing above with
  | nil => rfl
  | cons a children rest ihc ihr =>
      rw [prune, lineages]
      cases ha : p a with
      | true =>
          have hroot : isSpared p (above, a) = false := by simp [isSpared, ha]
          have hchildren : (children.lineages (a :: above)).filter (isSpared p) = [] :=
            List.filter_eq_nil_iff.2 fun q hq => Bool.eq_false_iff.1 <|
              isSpared_eq_false ((suffix_of_mem_lineages hq).subset List.mem_cons_self) ha
          rw [if_pos rfl, List.filter_cons_of_neg (Bool.eq_false_iff.1 hroot), List.filter_append,
            hchildren, List.nil_append, ihr habove]
      | false =>
          have hbelow : ∀ b ∈ a :: above, p b = false := List.forall_mem_cons.2 ⟨ha, habove⟩
          have hroot : isSpared p (above, a) = true := by
            rw [isSpared, List.all_eq_true]
            exact fun b hb => by simp [hbelow b hb]
          rw [if_neg Bool.false_ne_true, lineages, ihc hbelow, ihr habove,
            List.filter_cons_of_pos hroot, List.filter_append]

theorem length_lineages (above : List α) (f : Forest α) : (f.lineages above).length = f.size := by
  rw [← length_toList, ← map_snd_lineages above f, List.length_map]

/-- The elements that are gone are those that are not spared. -/
theorem size_sub_prune (p : α → Bool) (f : Forest α) :
    f.size - (f.prune p).size = (f.lineages []).countP fun q => !isSpared p q := by
  have hspared : (f.prune p).lineages [] = (f.lineages []).filter (isSpared p) :=
    lineages_prune f nofun
  have hleft : (f.prune p).size = (f.lineages []).countP (isSpared p) := by
    rw [← length_lineages [], hspared, List.countP_eq_length_filter]
  have hall : (f.lineages []).length =
      (f.lineages []).countP (isSpared p) + (f.lineages []).countP fun q => !isSpared p q := by
    simpa using List.length_eq_countP_add_countP (isSpared p)
  rw [length_lineages] at hall
  omega

end Forest

theorem Task.Linked.prune {owner : Option Text} {f : Forest Task} (h : Linked owner f)
    (p : Task → Bool) : Linked owner (f.prune p) := by
  induction f generalizing owner with
  | nil => trivial
  | cons t children rest ihc ihr =>
      rw [Forest.prune]
      split
      · exact ihr h.2.2
      · exact ⟨h.1, ihc h.2.1, ihr h.2.2⟩

/-! ### Deletions -/

namespace Query

variable {filter : Option Filter} {f : Forest Task}

theorem removeFrom_of_answers (h : Answers filter f.toList) :
    removeFrom filter f = .ok (f.prune (isMeant filter)) := by
  induction f with
  | nil => rfl
  | cons t children rest ihc ihr =>
      simp only [Answers, Forest.toList, List.forall_mem_cons, List.forall_mem_append] at h
      obtain ⟨⟨hit, hmatch⟩, hc, hr⟩ := h
      rw [removeFrom, Forest.prune, hmatch, isMeant_of_isMatch hmatch]
      cases hit with
      | true => exact ihr hr
      | false =>
          rw [ihc hc, ihr hr]
          rfl

theorem removeMatching_of_answers (hf : Task.Linked none f) (h : Answers filter f.toList) :
    removeMatching filter f =
      .ok (f.prune (isMeant filter),
        (f.lineages []).countP fun q => !Forest.isSpared (isMeant filter) q) := by
  rw [removeMatching, removeFrom_of_answers h, ← Forest.size_sub_prune]
  show Except.ok (Task.link none (f.prune (isMeant filter)), _) = _
  rw [(hf.prune _).link_eq]

theorem Answers.prune (h : Answers filter f.toList) (p : Task → Bool) :
    Answers filter (f.prune p).toList :=
  fun t ht => h t ((Forest.toList_prune_sublist p f).subset ht)

/-- A deletion by a filter that has an answer for every task leaves the tasks that are not meant and
are not below one that is, each of them as it was, in the same order and below the same tasks. It
counts those that are gone, and once more it finds none. -/
theorem removeMatching_spares (hf : Task.Linked none f) (hanswers : Answers filter f.toList) :
    ∃ g count, removeMatching filter f = .ok (g, count) ∧
      g.lineages [] = (f.lineages []).filter (Forest.isSpared (isMeant filter)) ∧
      g.toList =
        ((f.lineages []).filter (Forest.isSpared (isMeant filter))).map (·.2) ∧
      g.toList.Sublist f.toList ∧
      count = (f.lineages []).countP (fun q => !Forest.isSpared (isMeant filter) q) ∧
      removeMatching filter g = .ok (g, 0) := by
  have hlineages : (f.prune (isMeant filter)).lineages [] =
      (f.lineages []).filter (Forest.isSpared (isMeant filter)) := Forest.lineages_prune f nofun
  refine ⟨f.prune (isMeant filter), _, removeMatching_of_answers hf hanswers, hlineages, ?_,
    Forest.toList_prune_sublist _ f, rfl, ?_⟩
  · rw [← hlineages, Forest.map_snd_lineages]
  · have hself : (f.prune (isMeant filter)).prune (isMeant filter) = f.prune (isMeant filter) :=
      Forest.prune_eq_self fun t ht => Forest.of_mem_prune ht
    have hcount := Forest.size_sub_prune (isMeant filter) (f.prune (isMeant filter))
    rw [hself, Nat.sub_self] at hcount
    rw [removeMatching_of_answers (hf.prune _) (hanswers.prune _), hself, ← hcount]

/-- A deletion by title or by parent: a subtree of two, and a child of a task that stays. -/
theorem removeMatching_spares_nested :
    let task (id title : Text) (parent : Option Text) : Task :=
      { fields := [(Key.title, .text title), (Key.id, .text id)], parent }
    let a := task "1" "a" none
    let b := task "2" "b" (some "1")
    let c := task "3" "c" (some "2")
    let d := task "4" "d" (some "1")
    let e := task "5" "e" none
    let x := task "6" "x" (some "5")
    let f : Forest Task :=
      .cons a (.cons b (.cons c .nil .nil) (.cons d .nil .nil)) (.cons e (.cons x .nil .nil) .nil)
    let filter : Option Filter :=
      some (.pair ⟨Key.title, .compare .equal ⟨"b", true⟩⟩ .either
        ⟨Key.parent, .compare .equal ⟨"5", false⟩⟩)
    (Task.Linked none f ∧ Answers filter f.toList) ∧
      removeMatching filter f = .ok (.cons a (.cons d .nil .nil) (.cons e .nil .nil), 3) ∧
      ∃ g count, removeMatching filter f = .ok (g, count) ∧
        g.lineages [] = (f.lineages []).filter (Forest.isSpared (isMeant filter)) ∧
        g.toList =
          ((f.lineages []).filter (Forest.isSpared (isMeant filter))).map (·.2) ∧
        g.toList.Sublist f.toList ∧
        count = (f.lineages []).countP (fun q => !Forest.isSpared (isMeant filter) q) ∧
        removeMatching filter g = .ok (g, 0) := by
  intro task a b c d e x f filter
  have hf : Task.Linked none f :=
    ⟨rfl, ⟨rfl, ⟨rfl, trivial, trivial⟩, rfl, trivial, trivial⟩, rfl, ⟨rfl, trivial, trivial⟩,
      trivial⟩
  have hanswers : Answers filter f.toList := by
    have hall : ∀ t ∈ f.toList, isMatch filter t = .ok (isMeant filter t) := by decide
    exact fun t ht => ⟨_, hall t ht⟩
  exact ⟨⟨hf, hanswers⟩, by decide, removeMatching_spares hf hanswers⟩

end Query

end Agenda
