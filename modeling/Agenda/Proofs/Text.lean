import Agenda.Text.Basic
import Mathlib.Data.List.TakeWhile

/-!
How texts are cut and glued. Stripping does nothing to a text that is trimmed, pieces without a
separator are what a joined text is split into, and a text is what its pieces join to.
-/

namespace Agenda.Text

/-! ### Deciding along a text

There are finitely many characters, so a statement about all of them may be decided by going
through all of them. These instances come before that one. -/

instance (priority := 1100) decidableForallMem (p : Char → Prop) [DecidablePred p] (t : Text) :
    Decidable (∀ c ∈ t, p c) :=
  List.decidableBAll p t

instance (priority := 1100) decidableForallMemOption (p : Char → Prop) [DecidablePred p]
    (o : Option Char) : Decidable (∀ c ∈ o, p c) :=
  o.decidableForallMem

/-! ### Dropping from the end -/

theorem dropEndWhile_of_getLast {p : Char → Bool} {t : Text}
    (h : ∀ c, t.getLast? = some c → p c = false) : dropEndWhile p t = t := by
  unfold dropEndWhile
  cases hr : t.reverse with
  | nil => simpa using hr
  | cons c cs =>
      have hlast : t.getLast? = some c := by
        rw [List.getLast?_eq_head?_reverse, hr]
        rfl
      rw [List.dropWhile_cons_of_neg (by simp [h c hlast]), ← hr, List.reverse_reverse]

theorem dropEndWhile_eq_nil {p : Char → Bool} {t : Text} :
    dropEndWhile p t = [] ↔ ∀ c ∈ t, p c = true := by
  simp [dropEndWhile, List.dropWhile_eq_nil_iff]

theorem dropEndWhile_append {p : Char → Bool} (s : Text) {t : Text}
    (h : dropEndWhile p t ≠ []) : dropEndWhile p (s ++ t) = s ++ dropEndWhile p t := by
  unfold dropEndWhile at *
  rw [List.reverse_append, List.dropWhile_append]
  have hne : (t.reverse.dropWhile p).isEmpty = false := by
    simpa using h
  simp [hne]

theorem dropEndWhile_cons_of_neg {p : Char → Bool} {c : Char} (h : p c = false) (t : Text) :
    dropEndWhile p (c :: t) = c :: dropEndWhile p t := by
  unfold dropEndWhile
  rw [List.reverse_cons, List.dropWhile_append]
  split
  · next hempty =>
      rw [List.dropWhile_cons_of_neg (by simp [h]), List.isEmpty_iff.1 hempty]
      rfl
  · rw [List.reverse_append]
    rfl

theorem mem_of_mem_dropEndWhile {p : Char → Bool} {t : Text} {c : Char}
    (h : c ∈ dropEndWhile p t) : c ∈ t :=
  List.mem_reverse.mp ((List.dropWhile_suffix p).subset (List.mem_reverse.mp h))

theorem getLast_dropEndWhile {p : Char → Bool} {t : Text} {c : Char}
    (h : (dropEndWhile p t).getLast? = some c) : p c = false := by
  unfold dropEndWhile at h
  rw [List.getLast?_reverse] at h
  have hne : t.reverse.dropWhile p ≠ [] := by
    intro hnil
    simp [hnil] at h
  have := List.head_dropWhile_not p (l := t.reverse) hne
  rw [List.head?_eq_some_head hne] at h
  simpa [Option.some.inj h] using this

/-! ### Trimmed texts -/

def Trimmed (t : Text) : Prop :=
  (∀ c, t.head? = some c → isBlank c = false) ∧ (∀ c, t.getLast? = some c → isBlank c = false)

theorem stripStart_of_head {t : Text} (h : ∀ c, t.head? = some c → isBlank c = false) :
    stripStart t = t := by
  cases t with
  | nil => rfl
  | cons c cs => exact List.dropWhile_cons_of_neg (by simp [h c rfl])

theorem stripEnd_of_getLast {t : Text} (h : ∀ c, t.getLast? = some c → isBlank c = false) :
    stripEnd t = t := dropEndWhile_of_getLast h

theorem stripEnd_append {s : Text} (h : ∀ c, s.getLast? = some c → isBlank c = false) (t : Text) :
    stripEnd (s ++ t) = s ++ stripEnd t := by
  by_cases hnil : stripEnd t = []
  · have hall : ∀ c ∈ t.reverse, isBlank c = true := fun c hc =>
      dropEndWhile_eq_nil.1 hnil c (List.mem_reverse.mp hc)
    have hs := stripEnd_of_getLast h
    unfold stripEnd dropEndWhile at hs
    rw [hnil, List.append_nil, stripEnd, dropEndWhile, List.reverse_append,
      List.dropWhile_append_of_pos hall, hs]
  · exact dropEndWhile_append s hnil

theorem Trimmed.strip_eq {t : Text} (h : Trimmed t) : strip t = t := by
  rw [strip, stripStart_of_head h.1, stripEnd_of_getLast h.2]

theorem head_stripStart {t : Text} {c : Char} (h : (stripStart t).head? = some c) :
    isBlank c = false := by
  unfold stripStart at h
  have hne : t.dropWhile isBlank ≠ [] := by
    intro hnil
    simp [hnil] at h
  have := List.head_dropWhile_not isBlank (l := t) hne
  rw [List.head?_eq_some_head hne] at h
  simpa [Option.some.inj h] using this

theorem head_dropEndWhile {p : Char → Bool} {t : Text} {c : Char}
    (h : (dropEndWhile p t).head? = some c) : t.head? = some c := by
  have hpre : dropEndWhile p t <+: t := by
    unfold dropEndWhile
    have := List.dropWhile_suffix (l := t.reverse) p
    simpa using List.reverse_prefix.2 this
  obtain ⟨u, hu⟩ := hpre
  cases hd : dropEndWhile p t with
  | nil => simp [hd] at h
  | cons d ds =>
      rw [hd] at h hu
      rw [← hu]
      simpa using h

theorem trimmed_strip (t : Text) : Trimmed (strip t) :=
  ⟨fun _ h => head_stripStart (head_dropEndWhile h), fun _ h => getLast_dropEndWhile h⟩

theorem mem_of_mem_strip {t : Text} {c : Char} (h : c ∈ strip t) : c ∈ t :=
  (List.dropWhile_suffix _).subset (mem_of_mem_dropEndWhile h)

theorem strip_eq_self {t : Text} : strip t = t ↔ Trimmed t := by
  constructor
  · intro h
    rw [← h]
    exact trimmed_strip t
  · exact Trimmed.strip_eq

/-! ### Splitting and joining -/

theorem split_ne_nil (sep : Char) (t : Text) : split sep t ≠ [] := by
  cases t with
  | nil => simp [split]
  | cons c cs =>
      rw [split]
      split
      · simp
      · split <;> simp

theorem not_mem_of_mem_split {sep : Char} {t piece : Text} (h : piece ∈ split sep t) :
    sep ∉ piece := by
  induction t generalizing piece with
  | nil =>
      simp only [split, List.mem_singleton] at h
      simp [h]
  | cons c cs ih =>
      rw [split] at h
      split at h
      · rcases List.mem_cons.mp h with rfl | h
        · simp
        · exact ih h
      · next hc =>
          cases hs : split sep cs with
          | nil => exact absurd hs (split_ne_nil sep cs)
          | cons first others =>
              rw [hs] at h
              rcases List.mem_cons.mp h with rfl | h
              · have := @ih first (by simp [hs])
                simp [this, Ne.symm hc]
              · exact ih (by simp [hs, h])

theorem mem_of_mem_split {sep : Char} {t line : Text} (h : line ∈ split sep t) {c : Char}
    (hc : c ∈ line) : c ∈ t := by
  induction t generalizing line with
  | nil =>
      obtain rfl : line = [] := by simpa [split] using h
      cases hc
  | cons d t ih =>
      rw [split] at h
      split at h
      · rcases List.mem_cons.mp h with rfl | h
        · cases hc
        · exact List.mem_cons_of_mem _ (ih h hc)
      · cases hs : split sep t with
        | nil => exact absurd hs (split_ne_nil sep t)
        | cons first others =>
            rw [hs] at h
            rcases List.mem_cons.mp h with rfl | h
            · rcases List.mem_cons.mp hc with rfl | hc
              · simp
              · exact List.mem_cons_of_mem _ (ih (by simp [hs]) hc)
            · exact List.mem_cons_of_mem _ (ih (by simp [hs, h]) hc)

theorem join_cons_cons (sep piece : Text) (next : Text) (pieces : List Text) :
    join sep (piece :: next :: pieces) = piece ++ sep ++ join sep (next :: pieces) := rfl

theorem join_split (sep : Char) (t : Text) : join [sep] (split sep t) = t := by
  induction t with
  | nil => rfl
  | cons c cs ih =>
      rw [split]
      cases hs : split sep cs with
      | nil => exact absurd hs (split_ne_nil sep cs)
      | cons first others =>
          rw [hs] at ih
          split
          · next hc =>
              rw [join_cons_cons, ih, hc]
              rfl
          · cases others with
            | nil => simpa [join] using ih
            | cons second others =>
                rw [join_cons_cons] at ih ⊢
                simpa using ih

theorem split_append_sep {sep : Char} {s : Text} (t : Text) (h : sep ∉ s) :
    split sep (s ++ sep :: t) = s :: split sep t := by
  induction s with
  | nil => simp [split]
  | cons c cs ih =>
      have hc : c ≠ sep := fun hc => h (by simp [hc])
      have hcs : sep ∉ cs := fun hm => h (by simp [hm])
      rw [List.cons_append, split, if_neg hc, ih hcs]

theorem head?_of_split {sep : Char} {t piece : Text} {pieces : List Text}
    (h : split sep t = piece :: pieces) {c : Char} (hc : piece.head? = some c) :
    t.head? = some c := by
  rw [← join_split sep t, h]
  cases piece with
  | nil => cases hc
  | cons d ds => cases pieces <;> exact hc

/-- What stands before the first separator is put in front of the first piece. -/
theorem split_append {sep : Char} {s t piece : Text} {pieces : List Text} (h : sep ∉ s)
    (ht : split sep t = piece :: pieces) : split sep (s ++ t) = (s ++ piece) :: pieces := by
  induction s with
  | nil => exact ht
  | cons c cs ih =>
      have hc : c ≠ sep := fun hc => h (by simp [hc])
      have hcs : sep ∉ cs := fun hm => h (List.mem_cons_of_mem _ hm)
      rw [List.cons_append, split, if_neg hc, ih hcs]
      rfl

theorem split_of_not_mem {sep : Char} {t : Text} (h : sep ∉ t) : split sep t = [t] := by
  induction t with
  | nil => rfl
  | cons c cs ih =>
      have hc : c ≠ sep := fun hc => h (by simp [hc])
      have hcs : sep ∉ cs := fun hm => h (by simp [hm])
      rw [split, if_neg hc, ih hcs]

theorem split_join {sep : Char} {pieces : List Text} (hne : pieces ≠ [])
    (h : ∀ piece ∈ pieces, sep ∉ piece) : split sep (join [sep] pieces) = pieces := by
  induction pieces with
  | nil => exact absurd rfl hne
  | cons piece pieces ih =>
      cases pieces with
      | nil => exact split_of_not_mem (h piece (by simp))
      | cons next pieces =>
          rw [join_cons_cons, List.append_assoc, List.singleton_append,
            split_append_sep _ (h piece (by simp)),
            ih (by simp) fun p hp => h p (List.mem_cons_of_mem _ hp)]

theorem mem_join {sep : Text} {pieces : List Text} {c : Char} (h : c ∈ join sep pieces) :
    c ∈ sep ∨ ∃ piece ∈ pieces, c ∈ piece := by
  induction pieces with
  | nil => simp [join] at h
  | cons piece pieces ih =>
      cases pieces with
      | nil => exact .inr ⟨piece, by simp, h⟩
      | cons next pieces =>
          rw [join_cons_cons] at h
          rcases List.mem_append.mp h with h | h
          · rcases List.mem_append.mp h with h | h
            · exact .inr ⟨piece, by simp, h⟩
            · exact .inl h
          · rcases ih h with h | ⟨p, hp, h⟩
            · exact .inl h
            · exact .inr ⟨p, List.mem_cons_of_mem _ hp, h⟩

theorem join_append {sep : Text} {as bs : List Text} (ha : as ≠ []) (hb : bs ≠ []) :
    join sep (as ++ bs) = join sep as ++ sep ++ join sep bs := by
  obtain ⟨b, bs, rfl⟩ := List.exists_cons_of_ne_nil hb
  induction as with
  | nil => exact absurd rfl ha
  | cons a as ih =>
      cases as with
      | nil => rfl
      | cons a' as =>
          have hrest := ih (by simp)
          rw [List.cons_append, List.cons_append] at *
          rw [join_cons_cons, hrest, join_cons_cons]
          simp only [List.append_assoc]

theorem join_ne_nil {sep : Text} {pieces : List Text} (hne : pieces ≠ [])
    (h : ∀ piece ∈ pieces, piece ≠ []) : join sep pieces ≠ [] := by
  cases pieces with
  | nil => exact absurd rfl hne
  | cons piece pieces =>
      have hp := h piece (by simp)
      cases pieces with
      | nil => exact hp
      | cons next pieces =>
          rw [join_cons_cons]
          simp [hp]

theorem trimmed_join {sep : Text} {pieces : List Text}
    (h : ∀ piece ∈ pieces, piece ≠ [] ∧ piece.Trimmed) : (join sep pieces).Trimmed := by
  induction pieces with
  | nil => exact ⟨by simp [join], by simp [join]⟩
  | cons piece pieces ih =>
      obtain ⟨hne, hpiece⟩ := h piece (by simp)
      have hrest := ih fun p hp => h p (List.mem_cons_of_mem _ hp)
      cases pieces with
      | nil => exact hpiece
      | cons next pieces =>
          have hjoin : join sep (next :: pieces) ≠ [] :=
            join_ne_nil (by simp) fun p hp => (h p (List.mem_cons_of_mem _ hp)).1
          rw [join_cons_cons]
          constructor
          · intro c hc
            rw [List.append_assoc, List.head?_append, List.head?_eq_some_head hne] at hc
            exact hpiece.1 c (by rw [List.head?_eq_some_head hne]; exact hc)
          · intro c hc
            rw [List.getLast?_append, List.getLast?_eq_some_getLast hjoin] at hc
            exact hrest.2 c (by rw [List.getLast?_eq_some_getLast hjoin]; exact hc)

/-- Joining groups of pieces that are joined themselves is joining all the pieces. -/
theorem join_flatten {sep : Text} {groups : List (List Text)} (h : ∀ g ∈ groups, g ≠ []) :
    join sep (groups.map (join sep)) = join sep groups.flatten := by
  induction groups with
  | nil => rfl
  | cons g groups ih =>
      have hg := h g (by simp)
      have hrest := ih fun g hg => h g (List.mem_cons_of_mem _ hg)
      cases groups with
      | nil => simp [join]
      | cons g' groups =>
          have hne : (g' :: groups).flatten ≠ [] := by
            simp [h g' (by simp)]
          rw [List.flatten_cons, join_append hg hne, ← hrest]
          rfl

/-- Joined texts are split into the pieces of each of them. -/
theorem split_join_flatMap {sep : Char} {ts : List Text} (hne : ts ≠ []) :
    split sep (join [sep] ts) = ts.flatMap (split sep) := by
  have hjoin : join [sep] ts = join [sep] (ts.flatMap (split sep)) := by
    have hgroups : ∀ g ∈ ts.map (split sep), g ≠ [] := by
      intro g hg
      obtain ⟨t, -, rfl⟩ := List.mem_map.mp hg
      exact split_ne_nil sep t
    rw [List.flatMap_def, ← join_flatten hgroups, List.map_map]
    have hid : join [sep] ∘ split sep = id := funext fun t => join_split sep t
    rw [hid, List.map_id]
  rw [hjoin, split_join]
  · obtain ⟨t, ts, rfl⟩ := List.exists_cons_of_ne_nil hne
    simp [split_ne_nil]
  · intro piece hpiece
    obtain ⟨t, -, hpiece⟩ := List.mem_flatMap.mp hpiece
    exact not_mem_of_mem_split hpiece

/-- Split at a separator that is not in them, texts stay as they are. -/
theorem flatMap_split_of_not_mem {sep : Char} {ts : List Text} (h : ∀ t ∈ ts, sep ∉ t) :
    ts.flatMap (split sep) = ts := by
  induction ts with
  | nil => rfl
  | cons t ts ih =>
      obtain ⟨ht, hts⟩ := List.forall_mem_cons.1 h
      rw [List.flatMap_cons, split_of_not_mem ht, ih hts]
      rfl

end Agenda.Text
