import Agenda.Bullet
import Agenda.Proofs.Except
import Agenda.Proofs.Names
import Mathlib.Data.List.Nodup

/-!
Field maps that are built up. A field that is set for the first time goes last, so fields with
keys of their own that are set one after the other are there one after the other; and maps with
the same fields in another order are the same.
-/

namespace Agenda.Fields

/-! ### Looking up -/

theorem lookup_cons (key other : Text) (v : Value) (fs : Fields) :
    List.lookup other ((key, v) :: fs) = if other = key then some v else fs.lookup other := by
  rw [List.lookup_cons]
  by_cases h : other = key
  · rw [if_pos h, beq_iff_eq.2 h]
  · rw [if_neg h, beq_eq_false_iff_ne.2 h]

theorem lookup_of_mem {fs : Fields} (h : fs.keys.Nodup) {key : Text} {v : Value}
    (hm : (key, v) ∈ fs) : fs.lookup key = some v := by
  induction fs with
  | nil => cases hm
  | cons f fs ih =>
      obtain ⟨k, w⟩ := f
      obtain ⟨hk, hrest⟩ := List.nodup_cons.mp h
      rw [lookup_cons]
      rcases List.mem_cons.mp hm with heq | hfs
      · cases heq
        exact if_pos rfl
      · have hne : key ≠ k := by
          intro heq
          exact hk (heq ▸ List.mem_map.mpr ⟨(key, v), hfs, rfl⟩)
        rw [if_neg hne]
        exact ih hrest hfs

theorem mem_of_lookup {fs : Fields} {key : Text} {v : Value} (h : fs.lookup key = some v) :
    (key, v) ∈ fs := by
  induction fs with
  | nil => cases h
  | cons f fs ih =>
      obtain ⟨k, w⟩ := f
      rw [lookup_cons] at h
      split at h
      · next hk =>
          obtain rfl := hk
          cases h
          simp
      · exact List.mem_cons_of_mem _ (ih h)

theorem lookup_eq_none_iff {fs : Fields} {key : Text} : fs.lookup key = none ↔ key ∉ fs.keys := by
  constructor
  · intro hnone hmem
    obtain ⟨f, hf, rfl⟩ := List.mem_map.mp hmem
    have hne := List.lookup_eq_none_iff.mp hnone f hf
    simp at hne
  · intro h
    cases hl : fs.lookup key with
    | none => rfl
    | some v => exact absurd (List.mem_map.mpr ⟨_, mem_of_lookup hl, rfl⟩) h

theorem get_of_mem {fs : Fields} (h : fs.keys.Nodup) {key : Text} {v : Value}
    (hm : (key, v) ∈ fs) : fs.get key = v := by
  rw [get, lookup_of_mem h hm]
  rfl

theorem mem_of_get {fs : Fields} {key : Text} {v : Value} (h : fs.get key = v)
    (hv : v ≠ .null) : (key, v) ∈ fs := by
  unfold get at h
  cases hl : fs.lookup key with
  | none =>
      rw [hl] at h
      exact absurd h.symm hv
  | some w =>
      rw [hl] at h
      obtain rfl : w = v := h
      exact mem_of_lookup hl

theorem get_of_not_mem {fs : Fields} {key : Text} (h : key ∉ fs.keys) : fs.get key = .null := by
  rw [get, lookup_eq_none_iff.mpr h]
  rfl

theorem has_eq_false {fs : Fields} {key : Text} (h : key ∉ fs.keys) : fs.has key = false := by
  simp only [has, List.any_eq_false, decide_eq_true_eq]
  intro f hf hk
  exact h (List.mem_map.mpr ⟨f, hf, hk⟩)

theorem has_eq_isSome_lookup (fs : Fields) (key : Text) : fs.has key = (fs.lookup key).isSome := by
  cases hl : fs.lookup key with
  | none => exact has_eq_false (lookup_eq_none_iff.1 hl)
  | some v => exact List.any_eq_true.2 ⟨(key, v), mem_of_lookup hl, decide_eq_true rfl⟩

theorem names_of_not_mem {fs : Fields} {key : Text} (h : key ∉ fs.keys) : fs.names key = [] := by
  rw [names, get_of_not_mem h]

@[simp] theorem keys_append (fs gs : Fields) : keys (fs ++ gs) = fs.keys ++ gs.keys :=
  List.map_append

@[simp] theorem keys_cons (f : Text × Value) (fs : Fields) : keys (f :: fs) = f.1 :: fs.keys := rfl

@[simp] theorem keys_nil : keys [] = [] := rfl

/-! ### Setting and assigning fields that are not there -/

theorem set_of_not_mem {fs : Fields} {key : Text} (h : key ∉ fs.keys) (v : Value) :
    fs.set key v = fs ++ [(key, v)] := by
  induction fs with
  | nil => rfl
  | cons f fs ih =>
      obtain ⟨k, w⟩ := f
      simp only [keys_cons, List.mem_cons, not_or] at h
      rw [set, if_neg (Ne.symm h.1), ih h.2]
      rfl

theorem names_append_of_not_mem {fs : Fields} {key : Text} (h : key ∉ fs.keys) (xs : List Text) :
    Fields.names (fs ++ [(key, .names xs)]) key = xs := by
  have hlookup : List.lookup key (fs ++ [(key, Value.names xs)]) = some (.names xs) := by
    rw [List.lookup_append, lookup_eq_none_iff.mpr h]
    simp
  rw [names, get, hlookup]
  rfl

/-- A field that is set again keeps its place. -/
theorem set_append_of_not_mem {fs : Fields} {key : Text} (h : key ∉ fs.keys) (v w : Value) :
    set key w (fs ++ [(key, v)]) = fs ++ [(key, w)] := by
  induction fs with
  | nil => simp [set]
  | cons f fs ih =>
      obtain ⟨k, u⟩ := f
      simp only [keys_cons, List.mem_cons, not_or] at h
      rw [List.cons_append, set, if_neg (Ne.symm h.1), ih h.2]
      rfl

/-- The value that a field has when it is assigned for the first time. -/
def assigned (key : Text) (v : Value) : Value :=
  if Key.isList key then .names (addNames [] (namesIn v.plain))
  else if key = Key.id || key = Key.title || key = Key.priority then .text v.plain
  else v

theorem assign_of_not_mem {fs : Fields} {key : Text} (h : key ∉ fs.keys) (v : Value) :
    fs.assign key v = fs ++ [(key, assigned key v)] := by
  unfold assign assigned
  split
  · rw [names_of_not_mem h, set_of_not_mem h]
  · split <;> rw [set_of_not_mem h]

def readWritten (key : Text) : Written → Except Oversize Value
  | .inline raw => if key = Key.id then .ok (.text (dequote raw)) else Scalar.read raw
  | .block t => .ok (.text t)

/-- What a written field is as a field of a map that does not have it yet. -/
def ReadsAs (w : Text × Written) (f : Text × Value) : Prop :=
  ∃ v, readWritten w.1 w.2 = .ok v ∧ f = (w.1, assigned w.1 v)

theorem assignAll_cons (fs : Fields) (w : Text × Written) (ws : List (Text × Written)) :
    fs.assignAll (w :: ws) =
      (readWritten w.1 w.2).bind fun v => (fs.assign w.1 v).assignAll ws := by
  obtain ⟨key, written⟩ := w
  cases written with
  | block t => rfl
  | inline raw =>
      by_cases hk : key = Key.id
      · subst hk
        rfl
      · simp only [assignAll, assignWritten, readWritten, if_neg hk]
        cases Scalar.read raw <;> rfl

/-- What holds of a field map, and still after any of the fields is assigned, holds of the map that
all of them are assigned to. -/
theorem of_assignAll {P : Fields → Prop} {ws : List (Text × Written)}
    (hassign : ∀ w ∈ ws, ∀ v, readWritten w.1 w.2 = .ok v → ∀ fs, P fs → P (fs.assign w.1 v))
    {fs gs : Fields} (h : P fs) (hgs : fs.assignAll ws = .ok gs) : P gs := by
  induction ws generalizing fs with
  | nil =>
      obtain rfl := Except.ok.inj hgs
      exact h
  | cons w ws ih =>
      rw [assignAll_cons] at hgs
      obtain ⟨v, hv, hgs⟩ := bind_eq_ok.1 hgs
      exact ih (fun w hw => hassign w (List.mem_cons_of_mem _ hw))
        (hassign w List.mem_cons_self v hv fs h) hgs

/-- Fields with keys of their own are assigned one after the other. -/
theorem assignAll_of_nodup {fs : Fields} {ws : List (Text × Written)} {gs : Fields}
    (hr : List.Forall₂ ReadsAs ws gs) (h : (fs ++ gs).keys.Nodup) :
    fs.assignAll ws = .ok (fs ++ gs) := by
  induction hr generalizing fs with
  | nil => simp [assignAll]
  | @cons w g ws gs hw _ ih =>
      obtain ⟨v, hv, rfl⟩ := hw
      have hkey : w.1 ∉ fs.keys := by
        intro hm
        simp only [keys_append, keys_cons] at h
        exact (List.nodup_append.mp h).2.2 _ hm _ (by simp) rfl
      rw [assignAll_cons, hv]
      change (fs.assign w.1 v).assignAll ws = _
      rw [assign_of_not_mem hkey, ih (by simpa using h), List.append_assoc, List.singleton_append]

/-! ### Order -/

theorem lookup_eq_of_perm {fs gs : Fields} (hfs : fs.keys.Nodup) (h : fs.Perm gs) (key : Text) :
    fs.lookup key = gs.lookup key := by
  cases hg : gs.lookup key with
  | none =>
      rw [lookup_eq_none_iff] at hg ⊢
      exact fun hmem => hg ((h.map _).mem_iff.1 hmem)
  | some v => exact lookup_of_mem hfs (h.mem_iff.2 (mem_of_lookup hg))

/-- The order of the fields does not matter to what a key has. -/
theorem get_of_perm {fs gs : Fields} (hp : fs.Perm gs) (hn : fs.keys.Nodup) (key : Text) :
    gs.get key = fs.get key := by
  rw [get, get, lookup_eq_of_perm hn hp]

/-- Apart from their order, the fields of a map are what its keys have. -/
theorem perm_iff_lookup_eq {fs gs : Fields} (hfs : fs.keys.Nodup) (hgs : gs.keys.Nodup) :
    fs.Perm gs ↔ ∀ key, fs.lookup key = gs.lookup key := by
  constructor
  · exact fun h => lookup_eq_of_perm hfs h
  · intro h
    refine (List.perm_ext_iff_of_nodup hfs.of_map hgs.of_map).2 fun f =>
      ⟨fun hf => ?_, fun hf => ?_⟩
    · exact mem_of_lookup ((h f.1).symm.trans (lookup_of_mem hfs hf))
    · exact mem_of_lookup ((h f.1).trans (lookup_of_mem hgs hf))

/-! ### Sameness -/

def SameField (f g : Text × Value) : Prop := f.1 = g.1 ∧ f.2.same g.2 = true

theorem keys_of_forall₂ {fs gs : Fields} (h : List.Forall₂ (fun f g => f.1 = g.1) fs gs) :
    fs.keys = gs.keys := by
  induction h with
  | nil => rfl
  | cons hf _ ih => rw [keys_cons, keys_cons, hf, ih]

/-- Maps are the same if the fields of one are those of the other in some order. -/
theorem same_of_perm {fs fs' gs : Fields} (hp : fs.Perm fs')
    (h : List.Forall₂ SameField fs' gs) (hn : fs.keys.Nodup) : fs.same gs = true := by
  have hgs : gs.keys.Nodup := by
    rw [← keys_of_forall₂ (h.imp fun _ _ hf => hf.1)]
    exact (hp.map _).nodup_iff.mp hn
  have hlen : fs.length = gs.length := by rw [hp.length_eq, h.length_eq]
  simp only [same, hlen, beq_self_eq_true, Bool.true_and, List.all_eq_true]
  intro f hf
  obtain ⟨key, v⟩ := f
  obtain ⟨i, hi, hfi⟩ := List.mem_iff_getElem.mp (hp.mem_iff.mp hf)
  have hg : i < gs.length := by rw [← h.length_eq]; exact hi
  obtain ⟨hk, hv⟩ := List.forall₂_iff_get.mp h |>.2 i hi hg
  simp only [List.get_eq_getElem, hfi] at hk hv
  rw [lookup_of_mem hgs (v := gs[i].2) (by rw [hk]; exact List.getElem_mem hg)]
  exact hv

theorem exists_lookup_of_same {fs gs : Fields} (h : fs.same gs = true) {key : Text} {v : Value}
    (hm : (key, v) ∈ fs) : ∃ w, gs.lookup key = some w ∧ v.same w = true := by
  simp only [same, Bool.and_eq_true, List.all_eq_true] at h
  have := h.2 _ hm
  simp only at this
  split at this
  · next w hw => exact ⟨w, hw, this⟩
  · cases this

end Agenda.Fields
