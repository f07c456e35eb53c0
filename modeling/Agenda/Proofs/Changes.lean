import Agenda.Query.Step
import Agenda.Proofs.Reading

/-!
What queries make of tasks. An update sets the fields it names and leaves the others, a deletion
leaves tasks as they are, and an insertion adds one task, which gets an id. So after any of them
every task still has an id, and no name ends with a line feed.
-/

namespace Agenda

/-! ### Fields -/

namespace Fields

theorem keys_erase (key : Text) (fs : Fields) :
    (fs.erase key).keys = fs.keys.filter (· ≠ key) := by
  rw [keys, keys, List.filter_map]
  rfl

theorem lookup_erase (key other : Text) (fs : Fields) :
    (fs.erase key).lookup other = if other = key then none else fs.lookup other := by
  induction fs with
  | nil => simp [erase]
  | cons f fs ih =>
      obtain ⟨k, w⟩ := f
      by_cases hk : k = key
      · have herase : erase key ((k, w) :: fs) = erase key fs := by simp [erase, hk]
        rw [herase, lookup_cons, ih, hk]
        split <;> rfl
      · have herase : erase key ((k, w) :: fs) = (k, w) :: erase key fs := by simp [erase, hk]
        rw [herase, lookup_cons, lookup_cons, ih]
        split
        · next ho => rw [if_neg fun h => hk (ho.symm.trans h)]
        · rfl

theorem get_erase_of_ne {key other : Text} (hne : other ≠ key) (fs : Fields) :
    (fs.erase key).get other = fs.get other := by
  rw [get, get, lookup_erase, if_neg hne]

end Fields

/-- What holds of every value in a document and of every value that is assigned: no name ends with a
line feed, and an id is a text. -/
def Value.Tame (key : Text) (v : Value) : Prop :=
  (∀ xs, v = .names xs → ∀ x ∈ xs, x.getLast? ≠ some '\n') ∧ (key = Key.id → ∃ s, v = .text s)

theorem Value.Fits.tame {key : Text} {v : Value} (h : v.Fits key) : v.Tame key := by
  constructor
  · rintro xs rfl x hx
    exact (h.2.2 x hx).2
  · rintro rfl
    exact Value.text_of_fits h (List.mem_cons_self : Key.id ∈ Key.texts)

/-- A task with an id and tame values is sound, if its keys are keys. -/
theorem Task.sound_of_tame {t : Task} (hkeys : ∀ f ∈ t.fields, IsKey f.1)
    (htame : ∀ f ∈ t.fields, f.2.Tame f.1) (hid : t.id?.isSome = true) : t.Sound where
  isKey := hkeys
  names := fun key xs hm => (htame _ hm).1 xs rfl
  has_id := by
    obtain ⟨id, hid⟩ := Option.isSome_iff_exists.1 hid
    exact ⟨id, (has_id_of_id? (fun v hv => (htame _ hv).2 rfl) hid).1, hid⟩

namespace Query

/-! ### Assignments -/

theorem Word.value_ne_names {w : Word} {v : Value} (h : w.value = .ok v) (xs : List Text) :
    v ≠ .names xs := by
  rintro rfl
  unfold Word.value at h
  split at h
  · cases h
  · split at h
    · cases h
    · split at h
      · cases h
      · obtain ⟨n, -, hn⟩ := map_eq_ok.1 h
        cases n <;> cases hn

/-- What is assigned is tame, unless it is null. -/
theorem Assignment.tame_change {a : Assignment} {v : Value} (h : a.literal.value = .ok v)
    (hnull : (a.change v).1.isNull = false) : (a.change v).1.Tame a.key := by
  have hlist : Key.isList Key.id = false := by decide
  have hflag : Key.isFlag Key.id = false := by decide
  have hread : ∀ xs, v = .names xs → ∀ x ∈ xs, x.getLast? ≠ some '\n' := fun xs hv =>
    absurd hv (Word.value_ne_names h xs)
  unfold change at hnull ⊢
  split at hnull
  · cases hnull
  · next hv =>
      rw [if_neg hv]
      split
      · next hkey =>
          refine ⟨?_, fun hid => absurd hkey (by simp [hid, hlist])⟩
          intro xs hxs x hx
          simp only at hxs
          split at hxs
          · cases hxs
          · obtain rfl := Value.names.inj hxs
            intro hlast
            exact absurd ((isListed_of_mem_namesIn hx).trimmed.2 _ hlast) (by decide)
      · split
        · next hkey => exact ⟨hread, fun hid => absurd hkey (by simp [hid, hflag])⟩
        · split
          · exact ⟨nofun, fun _ => ⟨_, rfl⟩⟩
          · split
            · exact ⟨nofun, fun _ => ⟨_, rfl⟩⟩
            · next hkey => exact ⟨hread, fun hid => absurd hkey (by simp [hid])⟩

/-- What assignments come to: they change only what may be changed, and to tame values or to
nothing. -/
def AreChanges (isNew : Bool) (changes : Fields) : Prop :=
  ∀ f ∈ changes, isAssignable isNew f.1 = true ∧ (f.2.isNull = false → f.2.Tame f.1)

/-- Where there is nothing wrong, an assignment is allowed and sets its field among the changes. -/
theorem of_gatherChanges_cons {isNew : Bool} {a : Assignment} {as : List Assignment}
    {changes changes' : Fields}
    (h : gatherChanges isNew changes (a :: as) = .ok (changes', [])) :
    ∃ v, a.literal.value = .ok v ∧ isAssignable isNew a.key = true ∧
      gatherChanges isNew (changes.set a.key (a.change v).1) as = .ok (changes', []) := by
  rw [gatherChanges] at h
  split at h
  · cases h
  · next v hv =>
      split at h
      · next hassign =>
          obtain ⟨⟨more, rest⟩, hmore, heq⟩ := map_eq_ok.1 h
          obtain ⟨rfl, hproblems⟩ := Prod.mk.inj heq
          obtain ⟨-, rfl⟩ := List.append_eq_nil_iff.1 hproblems
          exact ⟨v, hv, hassign, hmore⟩
      · obtain ⟨_, _, heq⟩ := map_eq_ok.1 h
        cases (Prod.mk.inj heq).2

theorem gatherChanges_of_readChanges {isNew : Bool} {as : List Assignment} {changes : Fields}
    (h : readChanges isNew as = .ok changes) :
    gatherChanges isNew [] as = .ok (changes, []) := by
  unfold readChanges at h
  split at h
  · cases h
  · next hgather =>
      obtain rfl := Except.ok.inj h
      exact hgather
  · cases h

theorem areChanges_gatherChanges {isNew : Bool} {as : List Assignment} {changes changes' : Fields}
    (hc : AreChanges isNew changes) (h : gatherChanges isNew changes as = .ok (changes', [])) :
    AreChanges isNew changes' := by
  induction as generalizing changes with
  | nil =>
      obtain ⟨rfl, -⟩ := Prod.mk.inj (Except.ok.inj h)
      exact hc
  | cons a as ih =>
      obtain ⟨v, hv, hassign, hmore⟩ := of_gatherChanges_cons h
      refine ih (fun f hf => ?_) hmore
      rcases Fields.mem_set hf with rfl | hf
      · exact ⟨hassign, Assignment.tame_change hv⟩
      · exact hc f hf

theorem areChanges_readChanges {isNew : Bool} {as : List Assignment} {changes : Fields}
    (h : readChanges isNew as = .ok changes) : AreChanges isNew changes :=
  areChanges_gatherChanges (List.forall_mem_nil _) (gatherChanges_of_readChanges h)

theorem mem_applyChanges {changes fs : Fields} {f : Text × Value}
    (h : f ∈ applyChanges changes fs) : f ∈ fs ∨ (f ∈ changes ∧ f.2.isNull = false) := by
  induction changes generalizing fs with
  | nil => exact .inl h
  | cons c changes ih =>
      obtain ⟨key, v⟩ := c
      rcases ih h with hf | ⟨hf, hnull⟩
      · simp only at hf
        split at hf
        · exact .inl (List.mem_filter.1 hf).1
        · next hv =>
            rcases Fields.mem_set hf with rfl | hf
            · exact .inr ⟨List.mem_cons_self, by simpa using hv⟩
            · exact .inl hf
      · exact .inr ⟨List.mem_cons_of_mem _ hf, hnull⟩

/-- A field that no change names is left as it is. -/
theorem get_applyChanges_of_not_mem {changes fs : Fields} {key : Text}
    (h : ∀ f ∈ changes, key ≠ f.1) : (applyChanges changes fs).get key = fs.get key := by
  induction changes generalizing fs with
  | nil => rfl
  | cons c changes ih =>
      obtain ⟨k, v⟩ := c
      have hne : key ≠ k := h (k, v) List.mem_cons_self
      refine (ih fun f hf => h f (List.mem_cons_of_mem _ hf)).trans ?_
      simp only
      split
      · exact Fields.get_erase_of_ne hne fs
      · exact Fields.get_set_of_ne hne v fs

/-! ### Tasks -/

end Query

def Task.Tame (t : Task) : Prop := (∀ f ∈ t.fields, f.2.Tame f.1) ∧ t.id?.isSome = true

theorem Task.WellFormed.tame {t : Task} (h : t.WellFormed) : t.Tame := by
  obtain ⟨id, -, hid⟩ := h.sound.has_id
  exact ⟨fun f hf => (h.fits f hf).tame, by rw [hid]; rfl⟩

theorem Task.Tame.of_fields {t u : Task} (h : t.Tame) (hfields : u.fields = t.fields) : u.Tame := by
  unfold Task.Tame id? at h ⊢
  rwa [hfields]

namespace Query

/-- The id of a task that is there is never assigned. -/
theorem id?_applyChanges {changes : Fields} (hc : AreChanges false changes) (t : Task) :
    ({ t with fields := applyChanges changes t.fields } : Task).id? = t.id? := by
  have hid : ∀ f ∈ changes, Key.id ≠ f.1 := by
    intro f hf heq
    have hassign := (hc f hf).1
    rw [← heq] at hassign
    exact absurd hassign (by decide)
  rw [Task.id?, get_applyChanges_of_not_mem hid]
  rfl

theorem tame_applyChanges {changes : Fields} (hc : AreChanges false changes) {t : Task}
    (ht : t.Tame) : ({ t with fields := applyChanges changes t.fields } : Task).Tame := by
  refine ⟨?_, ?_⟩
  · intro f hf
    rcases mem_applyChanges hf with hf | ⟨hf, hnull⟩
    · exact ht.1 f hf
    · exact (hc f hf).2 hnull
  · rw [id?_applyChanges hc]
    exact ht.2

def Answers (filter : Option Filter) (ts : List Task) : Prop :=
  ∀ t ∈ ts, ∃ hit, isMatch filter t = .ok hit

def isMeant (filter : Option Filter) (t : Task) : Bool := decide (isMatch filter t = .ok true)

theorem isMeant_of_isMatch {filter : Option Filter} {t : Task} {hit : Bool}
    (h : isMatch filter t = .ok hit) : isMeant filter t = hit := by
  rw [isMeant, h]
  cases hit <;> rfl

def updated (changes : Fields) (filter : Option Filter) (t : Task) : Task :=
  if isMeant filter t then { t with fields := applyChanges changes t.fields } else t

/-- An update decides about each task on its own, and keeps the shape of the forest. -/
theorem changeFrom_eq_ok {changes : Fields} {filter : Option Filter} {f g : Forest Task}
    {count : Nat} (h : changeFrom changes filter f = .ok (g, count)) :
    g = f.map (updated changes filter) ∧ count = f.toList.countP (isMeant filter) := by
  induction f generalizing g count with
  | nil =>
      obtain ⟨rfl, rfl⟩ := Prod.mk.inj (Except.ok.inj h)
      exact ⟨rfl, rfl⟩
  | cons t children rest ihc ihr =>
      rw [changeFrom] at h
      split at h
      · cases h
      · next hit hmatch =>
          split at h
          · cases h
          · next children' inside hinside =>
              obtain ⟨⟨rest', after⟩, hafter, heq⟩ := map_eq_ok.1 h
              obtain ⟨rfl, rfl⟩ := Prod.mk.inj heq
              obtain ⟨rfl, rfl⟩ := ihc hinside
              obtain ⟨rfl, rfl⟩ := ihr hafter
              rw [Forest.map, updated, Forest.toList, List.countP_cons, List.countP_append,
                isMeant_of_isMatch hmatch]
              exact ⟨rfl, by omega⟩

/-- A deletion decides about each task on its own, and takes out whole subtrees. -/
theorem removeFrom_eq_ok {filter : Option Filter} {f g : Forest Task}
    (h : removeFrom filter f = .ok g) : g = f.prune (isMeant filter) := by
  induction f generalizing g with
  | nil => exact (Except.ok.inj h).symm
  | cons t children rest ihc ihr =>
      rw [removeFrom] at h
      split at h
      · cases h
      · next hmatch =>
          rw [Forest.prune, if_pos (isMeant_of_isMatch hmatch)]
          exact ihr h
      · next hmatch =>
          split at h
          · cases h
          · next children' hc =>
              obtain ⟨rest', hr, rfl⟩ := map_eq_ok.1 h
              rw [Forest.prune, if_neg (Bool.eq_false_iff.1 (isMeant_of_isMatch hmatch)), ihc hc,
                ihr hr]

theorem tame_changeFrom {changes : Fields} (hc : AreChanges false changes)
    {filter : Option Filter} {f f' : Forest Task} {count : Nat} (hf : ∀ t ∈ f.toList, t.Tame)
    (h : changeFrom changes filter f = .ok (f', count)) : ∀ t ∈ f'.toList, t.Tame := by
  obtain ⟨rfl, -⟩ := changeFrom_eq_ok h
  rw [Forest.toList_map, List.forall_mem_map]
  intro t ht
  rw [updated]
  split
  · exact tame_applyChanges hc (hf t ht)
  · exact hf t ht

theorem tame_removeFrom {filter : Option Filter} {f f' : Forest Task}
    (hf : ∀ t ∈ f.toList, t.Tame) (h : removeFrom filter f = .ok f') :
    ∀ t ∈ f'.toList, t.Tame := by
  obtain rfl := removeFrom_eq_ok h
  exact fun t ht => hf t ((Forest.toList_prune_sublist _ f).subset ht)

theorem tame_link {f : Forest Task} (owner : Option Text) (hf : ∀ t ∈ f.toList, t.Tame) :
    ∀ t ∈ (Task.link owner f).toList, t.Tame := by
  intro u hu
  obtain ⟨t, ht, hfields⟩ := exists_of_mem_forall₂ (Task.fields_link owner f) hu
  exact (hf t ht).of_fields hfields

/-- A new task is the last root, and its id is that of no other task. -/
theorem addTask_eq_ok {changes : Fields} {idLength : Nat} {f g : Forest Task} {u : Task}
    (h : addTask changes idLength f = .ok (g, u)) :
    g = Task.link none f ++ .cons u .nil .nil ∧
      ∃ id, id ∉ Task.ids (Task.link none f).toList ∧
        ({ fields := applyChanges changes [] } : Task).withId
          (Task.ids (Task.link none f).toList) idLength = .ok (u, id) := by
  unfold addTask at h
  simp only at h
  split at h
  · cases h
  · next hfree =>
      split at h
      · next new id hnew =>
          obtain ⟨rfl, rfl⟩ := Prod.mk.inj (Except.ok.inj h)
          refine ⟨rfl, id, ?_, hnew⟩
          rcases Task.withId_eq_ok hnew with ⟨hid, -⟩ | ⟨-, hnot, -, -⟩
          · rw [hid] at hfree
            simpa using hfree
          · exact hnot
      · cases h
      · cases h

/-- A task that gets an id if it has none is tame if its fields were. -/
theorem tame_withId {t u : Task} {taken : List Text} {length : Nat} {id : Text}
    (hlength : 0 < length) (hfields : ∀ f ∈ t.fields, f.2.Tame f.1)
    (h : t.withId taken length = .ok (u, id)) : u.Tame := by
  refine ⟨fun f hf => ?_, by rw [Task.id?_withId hlength h]; rfl⟩
  rcases Task.withId_eq_ok h with ⟨-, rfl⟩ | ⟨-, -, -, rfl⟩
  · exact hfields f hf
  · rcases Fields.mem_set hf with rfl | hf
    · exact ⟨nofun, fun _ => ⟨_, rfl⟩⟩
    · exact hfields f hf

theorem tame_addTask {changes : Fields} (hc : AreChanges true changes) {idLength : Nat}
    (hlength : 0 < idLength) {f f' : Forest Task} {u : Task} (hf : ∀ t ∈ f.toList, t.Tame)
    (h : addTask changes idLength f = .ok (f', u)) : ∀ t ∈ f'.toList, t.Tame := by
  obtain ⟨rfl, id, -, hnew⟩ := addTask_eq_ok h
  have hfields : ∀ f ∈ applyChanges changes [], f.2.Tame f.1 := by
    intro f hf
    rcases mem_applyChanges hf with hf | ⟨hf, hnull⟩
    · cases hf
    · exact (hc f hf).2 hnull
  intro t ht
  rw [Forest.toList_append] at ht
  rcases List.mem_append.1 ht with ht | ht
  · exact tame_link none hf t ht
  · rw [List.mem_singleton.1 ht]
    exact tame_withId hlength hfields hnew

/-! ### What a query that is made leaves -/

theorem step_update_eq_ok {idLength : Nat} {file : Text} {assignments : List Assignment}
    {filter : Option Filter} {f g : Forest Task} {effect : Effect}
    (h : step idLength (.update file assignments filter) f = .ok (g, effect)) :
    ∃ changes changed count, readChanges false assignments = .ok changes ∧
      changeFrom changes filter f = .ok (changed, count) ∧
      g = Task.link none changed ∧ effect = .updated changes count := by
  obtain ⟨changes, hchanges, hstep⟩ := bind_eq_ok.1 h
  obtain ⟨⟨linked, count⟩, hlinked, heq⟩ := map_eq_ok.1 hstep
  obtain ⟨rfl, rfl⟩ := Prod.mk.inj heq
  obtain ⟨⟨changed, _⟩, hchanged, heq'⟩ := map_eq_ok.1 (mapError_eq_ok.1 hlinked)
  obtain ⟨rfl, rfl⟩ := Prod.mk.inj heq'
  exact ⟨changes, changed, _, hchanges, hchanged, rfl, rfl⟩

theorem step_delete_eq_ok {idLength : Nat} {file : Text} {filter : Option Filter}
    {f g : Forest Task} {effect : Effect}
    (h : step idLength (.delete file filter) f = .ok (g, effect)) :
    ∃ left, removeFrom filter f = .ok left ∧
      g = Task.link none left ∧ effect = .deleted (f.size - left.size) := by
  obtain ⟨⟨linked, count⟩, hlinked, heq⟩ := map_eq_ok.1 h
  obtain ⟨rfl, rfl⟩ := Prod.mk.inj heq
  obtain ⟨left, hleft, heq'⟩ := map_eq_ok.1 (mapError_eq_ok.1 hlinked)
  obtain ⟨rfl, rfl⟩ := Prod.mk.inj heq'
  exact ⟨left, hleft, rfl, rfl⟩

theorem step_insert_eq_ok {idLength : Nat} {file : Text} {assignments : List Assignment}
    {f g : Forest Task} {effect : Effect}
    (h : step idLength (.insert file assignments) f = .ok (g, effect)) :
    ∃ changes new, readChanges true assignments = .ok changes ∧
      addTask changes idLength f = .ok (g, new) ∧ effect = .inserted changes new.id? := by
  obtain ⟨changes, hchanges, hstep⟩ := bind_eq_ok.1 h
  obtain ⟨⟨added, new⟩, hadded, heq⟩ := map_eq_ok.1 hstep
  obtain ⟨rfl, rfl⟩ := Prod.mk.inj heq
  exact ⟨changes, new, hchanges, hadded, rfl⟩

/-- An update, a deletion or an insertion leaves tame tasks. -/
theorem tame_step {q : Query} (hq : ∀ s, q ≠ .select s) {idLength : Nat} (hlength : 0 < idLength)
    {f f' : Forest Task} {effect : Effect} (hf : ∀ t ∈ f.toList, t.Tame)
    (h : step idLength q f = .ok (f', effect)) : ∀ t ∈ f'.toList, t.Tame := by
  cases q with
  | select s => exact absurd rfl (hq s)
  | update file assignments filter =>
      obtain ⟨changes, changed, _, hchanges, hchanged, rfl, -⟩ := step_update_eq_ok h
      exact tame_link none (tame_changeFrom (areChanges_readChanges hchanges) hf hchanged)
  | delete file filter =>
      obtain ⟨left, hleft, rfl, -⟩ := step_delete_eq_ok h
      exact tame_link none (tame_removeFrom hf hleft)
  | insert file assignments =>
      obtain ⟨changes, new, hchanges, hadded, -⟩ := step_insert_eq_ok h
      exact tame_addTask (areChanges_readChanges hchanges) hlength hf hadded

end Query

end Agenda
