import Agenda.Proofs.Identity
import Agenda.Proofs.RoundTrip

/-!
What is read is well formed. Every key of a task is a key, set once; lists have names that are not
empty, no two alike; and every task has an id, its own or a computed one.
-/

namespace Agenda

/-! ### Tokens and pairs -/

theorem mem_of_mem_cutTokens (s : Scan) (pos : Nat) (t : Text) :
    (∀ c ∈ (cutTokens s pos t).1, c ∈ t) ∧
      ∀ tok ∈ (cutTokens s pos t).2, ∀ c ∈ tok.text, c ∈ t := by
  induction t generalizing s pos with
  | nil => simp [cutTokens]
  | cons d ds ih =>
      obtain ⟨hword, htoks⟩ := ih (s.step d) (pos + 1)
      simp only [cutTokens]
      split
      · refine ⟨by simp, fun tok htok c hc => List.mem_cons_of_mem _ ?_⟩
        rcases mem_consToken htok with htext | htok
        · exact hword c (htext ▸ hc)
        · exact htoks tok htok c hc
      · refine ⟨fun c hc => ?_, fun tok htok c hc => List.mem_cons_of_mem _ (htoks tok htok c hc)⟩
        rcases List.mem_cons.mp hc with rfl | hc
        · simp
        · exact List.mem_cons_of_mem _ (hword c hc)

/-- A token has only characters of its text. -/
theorem mem_of_mem_tokens {t : Text} {tok : Token} (h : tok ∈ tokens t) {c : Char}
    (hc : c ∈ tok.text) : c ∈ t := by
  obtain ⟨hword, htoks⟩ := mem_of_mem_cutTokens .start 0 t
  rcases mem_consToken h with htext | h
  · exact hword c (htext ▸ hc)
  · exact htoks tok h c hc

theorem Token.isKey_of_key? {t : Token} {key raw : Text} (h : t.key? = some (key, raw)) :
    IsKey key := by
  unfold Token.key? at h
  split at h
  · cases h
  · exact (eq_of_splitKey? h).1

theorem isKey_of_mem_pairs {ts : List Token} {p : Pair} (h : p ∈ pairs ts) : IsKey p.key := by
  fun_induction pairs ts with
  | case1 => cases h
  | case2 t hk => cases h
  | case3 t key raw hk hraw =>
      rw [List.mem_singleton.mp h]
      exact Token.isKey_of_key? hk
  | case4 t key raw hk hraw =>
      rw [List.mem_singleton.mp h]
      exact Token.isKey_of_key? hk
  | case5 t u ts hk ih => exact ih h
  | case6 t u ts key raw hk hraw ih =>
      rcases List.mem_cons.mp h with rfl | h
      · exact Token.isKey_of_key? hk
      · exact ih h
  | case7 t u ts key raw hk hraw ih =>
      rcases List.mem_cons.mp h with rfl | h
      · exact Token.isKey_of_key? hk
      · exact ih h

/-! ### Field maps that grow -/

namespace Fields

theorem mem_set {fs : Fields} {key : Text} {v : Value} {f : Text × Value}
    (h : f ∈ fs.set key v) : f = (key, v) ∨ f ∈ fs := by
  induction fs with
  | nil => exact .inl (List.mem_singleton.mp h)
  | cons g fs ih =>
      obtain ⟨k, w⟩ := g
      rw [set] at h
      split at h
      · next hk =>
          rcases List.mem_cons.mp h with rfl | h
          · exact .inl (by rw [hk])
          · exact .inr (List.mem_cons_of_mem _ h)
      · rcases List.mem_cons.mp h with rfl | h
        · exact .inr (by simp)
        · exact (ih h).imp_right (List.mem_cons_of_mem _)

theorem keys_set (fs : Fields) (key : Text) (v : Value) :
    (fs.set key v).keys = if key ∈ fs.keys then fs.keys else fs.keys ++ [key] := by
  induction fs with
  | nil => rfl
  | cons g fs ih =>
      obtain ⟨k, w⟩ := g
      rw [set]
      by_cases hk : k = key
      · simp [hk]
      · have hk' : key ≠ k := Ne.symm hk
        simp only [hk, if_false, keys_cons, ih, List.mem_cons, hk', false_or]
        split <;> rfl

theorem nodup_keys_set {fs : Fields} (h : fs.keys.Nodup) (key : Text) (v : Value) :
    (fs.set key v).keys.Nodup := by
  rw [keys_set]
  split
  · exact h
  · next hnot =>
      rw [← List.concat_eq_append]
      exact h.concat hnot

theorem lookup_set (key other : Text) (v : Value) (fs : Fields) :
    (fs.set key v).lookup other = if other = key then some v else fs.lookup other := by
  induction fs with
  | nil => exact lookup_cons key other v []
  | cons f fs ih =>
      obtain ⟨k, w⟩ := f
      rw [set]
      split
      · next hk =>
          subst hk
          rw [lookup_cons, lookup_cons]
          split <;> rfl
      · next hk =>
          rw [lookup_cons, lookup_cons, ih]
          split
          · next ho => rw [if_neg fun h => hk (ho.symm.trans h)]
          · rfl

theorem get_set_of_ne {key other : Text} (hne : other ≠ key) (v : Value) (fs : Fields) :
    (fs.set key v).get other = fs.get other := by
  rw [get, get, lookup_set, if_neg hne]

theorem get_set_self (key : Text) (v : Value) (fs : Fields) : (fs.set key v).get key = v := by
  rw [get, lookup_set, if_pos rfl]
  rfl

namespace WellFormed

variable {fs : Fields}

theorem nil : WellFormed [] := ⟨by simp, by simp, by simp⟩

/-- A field map stays well formed when a value that fits its key is set. -/
theorem set (h : fs.WellFormed) {key : Text} {v : Value} (hkey : IsKey key) (hv : v.Fits key) :
    (fs.set key v).WellFormed where
  nodup := nodup_keys_set h.nodup key v
  isKey := by
    intro f hf
    rcases mem_set hf with rfl | hf
    · exact hkey
    · exact h.isKey f hf
  fits := by
    intro f hf
    rcases mem_set hf with rfl | hf
    · exact hv
    · exact h.fits f hf

/-- The names in a list field are not empty and no two of them are alike. -/
theorem names (h : fs.WellFormed) (key : Text) :
    (fs.names key).Nodup ∧ ∀ x ∈ fs.names key, x ≠ [] ∧ x.getLast? ≠ some '\n' := by
  unfold Fields.names
  split
  · next xs hget => exact (h.fits _ (mem_of_get hget (by simp))).2
  · simp

/-- Shorthand with names that do not end with a line feed keeps a field map well formed. -/
theorem addShorthand (h : fs.WellFormed) {s : Shorthand}
    (hs : ∀ name, s = .stakeholder name ∨ s = .tag name → name ≠ [] ∧ name.getLast? ≠ some '\n') :
    (fs.addShorthand s).WellFormed := by
  have hname : ∀ key name, Key.isList key = true → IsKey key → name ≠ [] ∧
      name.getLast? ≠ some '\n' →
      (fs.set key (.names (addName (fs.names key) name))).WellFormed := by
    intro key name hlist hkey hn
    obtain ⟨hnodup, hall⟩ := h.names key
    have hadd : addName (fs.names key) name = addNames (fs.names key) [name] := rfl
    rw [hadd]
    refine h.set hkey ⟨hlist, nodup_addNames hnodup, fun x hx => ?_⟩
    rcases mem_addNames.1 hx with hx | hx
    · exact hall x hx
    · rw [List.mem_singleton.mp hx]
      exact hn
  cases s with
  | priority letter =>
      rw [Fields.addShorthand]
      split
      · exact h
      · exact h.set (by decide) rfl
  | completed done =>
      rw [Fields.addShorthand]
      split
      · exact h.set (by decide) ⟨rfl, by decide⟩
      · exact h
  | skipped => exact h.set (by decide) ⟨rfl, by decide⟩
  | stakeholder name => exact hname _ name rfl (by decide) (hs name (.inl rfl))
  | tag name => exact hname _ name rfl (by decide) (hs name (.inr rfl))

end WellFormed

end Fields

/-- A value as it is read: a text, a flag or a number, but no list. -/
def Value.IsRead : Value → Prop
  | .null => False
  | .names _ => False
  | .number n => n.isWritable = true
  | _ => True

theorem Scalar.isRead_of_read {t : Text} {v : Value} (h : read t = .ok v) : v.IsRead := by
  rcases read_cases h with rfl | ⟨b, rfl⟩ | ⟨n, hn, rfl⟩
  · trivial
  · trivial
  · exact Number.isWritable_of_read? hn

namespace Fields

variable {fs : Fields}

theorem isRead_of_readWritten {key : Text} {w : Written} {v : Value}
    (h : readWritten key w = .ok v) : v.IsRead := by
  cases w with
  | block t =>
      obtain rfl := Except.ok.inj h
      trivial
  | inline raw =>
      simp only [readWritten] at h
      split at h
      · obtain rfl := Except.ok.inj h
        trivial
      · exact Scalar.isRead_of_read h

theorem WellFormed.assign (h : fs.WellFormed) {key : Text} (hkey : IsKey key) {v : Value}
    (hv : v.IsRead) : (fs.assign key v).WellFormed := by
  unfold Fields.assign
  split
  · next hlist =>
      obtain ⟨hnodup, hall⟩ := h.names key
      refine h.set hkey ⟨hlist, nodup_addNames hnodup, fun x hx => ?_⟩
      rcases mem_addNames.1 hx with hx | hx
      · exact hall x hx
      · have hx := isListed_of_mem_namesIn hx
        exact ⟨hx.ne_nil, fun hlast => absurd (hx.trimmed.2 _ hlast) (by decide)⟩
  · next hlist =>
      have hlist : Key.isList key = false := by simpa using hlist
      split
      · exact h.set hkey hlist
      · next htext =>
          have htext : key ∉ Key.texts := by
            simpa [Key.texts, or_assoc] using htext
          cases v with
          | null => exact hv.elim
          | names xs => exact hv.elim
          | text s => exact h.set hkey hlist
          | flag b => exact h.set hkey ⟨hlist, htext⟩
          | number n => exact h.set hkey ⟨hlist, htext, hv⟩

theorem WellFormed.assignAll (h : fs.WellFormed) {ws : List (Text × Written)} {gs : Fields}
    (hws : ∀ w ∈ ws, IsKey w.1) (hgs : fs.assignAll ws = .ok gs) : gs.WellFormed :=
  of_assignAll (fun w hw _ hv _ h => h.assign (hws w hw) (isRead_of_readWritten hv)) h hgs

end Fields

/-! ### Entries -/

theorem Shorthand.readName?_eq_some {t : Text} {s : Shorthand} (h : readName? t = some s) :
    ∃ marker name, t = marker :: name ∧ name ≠ [] ∧ (s = .stakeholder name ∨ s = .tag name) := by
  unfold readName? at h
  split at h
  · next marker c cs =>
      refine ⟨marker, c :: cs, rfl, by simp, ?_⟩
      split at h
      · cases h
      · split at h
        · exact .inl (Option.some.inj h).symm
        · split at h
          · exact .inr (Option.some.inj h).symm
          · cases h
  · cases h

theorem Shorthand.name_of_read? {t : Text} {s : Shorthand} (h : read? t = some s) {name : Text}
    (hs : s = .stakeholder name ∨ s = .tag name) : ∃ marker, t = marker :: name ∧ name ≠ [] := by
  have hread : readName? t = some s := by
    unfold read? at h
    split at h
    · obtain rfl := Option.some.inj h
      rcases hs with hs | hs <;> cases hs
    · split at h
      · obtain rfl := Option.some.inj h
        rcases hs with hs | hs <;> cases hs
      · split at h
        · obtain rfl := Option.some.inj h
          rcases hs with hs | hs <;> cases hs
        · split at h
          · obtain rfl := Option.some.inj h
            rcases hs with hs | hs <;> cases hs
          · exact h
  obtain ⟨marker, name', rfl, hne, hs'⟩ := readName?_eq_some hread
  have heq : name' = name := by
    rcases hs with rfl | rfl <;> rcases hs' with hs' | hs' <;> cases hs' <;> rfl
  exact ⟨marker, by rw [heq], heq ▸ hne⟩

theorem Bullet.mem_shorthand {ts : List Token} {s : Shorthand} (h : s ∈ (shorthand ts).1) :
    ∃ t ∈ ts, Shorthand.read? t.text = some s := by
  induction ts with
  | nil => cases h
  | cons t ts ih =>
      unfold shorthand at h
      cases hr : Shorthand.read? t.text with
      | none =>
          rw [hr] at h
          cases h
      | some s' =>
          rw [hr] at h
          rcases List.mem_cons.mp h with rfl | h
          · exact ⟨t, by simp, hr⟩
          · obtain ⟨u, hu, hs⟩ := ih h
            exact ⟨u, List.mem_cons_of_mem _ hu, hs⟩

theorem Bullet.wellFormed_headFields {content : Text} (hnl : '\n' ∉ content) :
    (headFields content (tokens content)).WellFormed := by
  have hfold : ∀ (found : List Shorthand) (fs : Fields), fs.WellFormed →
      (∀ s ∈ found, ∀ name, s = .stakeholder name ∨ s = .tag name →
        name ≠ [] ∧ name.getLast? ≠ some '\n') →
      (found.foldl Fields.addShorthand fs).WellFormed := by
    intro found
    induction found with
    | nil => exact fun fs h _ => h
    | cons s found ih =>
        intro fs h hall
        exact ih _ (h.addShorthand (hall s (by simp)))
          fun s hs => hall s (List.mem_cons_of_mem _ hs)
  have hlead := hfold (shorthand (tokens content)).1 [] .nil (by
    intro s hs name hname
    obtain ⟨t, ht, hread⟩ := mem_shorthand hs
    obtain ⟨marker, htext, hne⟩ := Shorthand.name_of_read? hread hname
    refine ⟨hne, fun hlast => hnl (mem_of_mem_tokens ht ?_)⟩
    rw [htext]
    exact List.mem_cons_of_mem _ (List.mem_of_getLast? hlast))
  unfold headFields
  simp only
  split
  · exact hlead.set (by decide) rfl
  · exact hlead

theorem Line.no_newline_of_bullet? {l : Line} {content : Text} (h : l.bullet? = some content) :
    '\n' ∉ content := by
  unfold bullet? at h
  split at h
  · obtain rfl := Option.some.inj h
    simp
  · simp only at h
    split at h
    · next hc =>
        obtain rfl := Option.some.inj h
        simpa using (Bool.and_eq_true_iff.1 hc).2
    · cases h
  · cases h

theorem Line.isKey_of_keyed? {l : Line} {key value : Text} (h : l.keyed? = some (key, value)) :
    IsKey key := by
  unfold keyed? at h
  split at h
  · cases h
  · next k rest hk =>
      simp only at h
      split at h
      · cases h
      · obtain ⟨rfl, -⟩ := Prod.mk.inj (Option.some.inj h)
        exact (eq_of_splitKey? hk).1

def Role.Suits (l : Line) : Role → Prop
  | .bullet content => l.bullet? = some content
  | .field key value => l.keyed? = some (key, value)
  | .block key => ∃ value, l.keyed? = some (key, value)
  | _ => True

theorem Reader.Takes.suits {r : Reader} {l : Line} {next : List Line} {role : Role}
    (h : r.Takes l next role) : role.Suits l := by
  cases h with
  | blockLine | blank | outside | stray => trivial
  | bullet _ _ bullet => exact bullet
  | block _ _ _ _ keyed => exact ⟨_, keyed⟩
  | field _ _ _ _ keyed => exact keyed

def Entry.Proper (e : Entry) : Prop := '\n' ∉ e.content ∧ ∀ w ∈ e.fields, IsKey w.1

theorem Entry.proper_gatherFrom (size : Nat) (r : Reader) (ls : List Line) :
    (∀ w ∈ (gatherFrom size r ls).fields, IsKey w.1) ∧
      ∀ e ∈ (gatherFrom size r ls).entries, e.Proper := by
  induction ls generalizing r with
  | nil => exact ⟨by simp [gatherFrom, Reader.roles], by simp [gatherFrom, Reader.roles]⟩
  | cons l ls ih =>
      rw [gatherFrom_cons]
      have hrole := (r.takes_role l ls).suits
      obtain ⟨hfields, hentries⟩ := ih (r.after l (r.role l ls))
      cases hr : r.role l ls with
      | bullet content =>
          rw [hr] at hrole hfields hentries
          refine ⟨by simp [gather], fun e he => ?_⟩
          rcases List.mem_cons.mp he with rfl | he
          · exact ⟨Line.no_newline_of_bullet? hrole, hfields⟩
          · exact hentries e he
      | field key value =>
          rw [hr] at hrole hfields hentries
          refine ⟨fun w hw => ?_, hentries⟩
          rcases List.mem_cons.mp hw with rfl | hw
          · exact Line.isKey_of_keyed? hrole
          · exact hfields w hw
      | block key =>
          rw [hr] at hrole hfields hentries
          obtain ⟨value, hk⟩ := hrole
          refine ⟨fun w hw => ?_, hentries⟩
          rcases List.mem_cons.mp hw with rfl | hw
          · exact Line.isKey_of_keyed? hk
          · exact hfields w hw
      | _ =>
          rw [hr] at hfields hentries
          exact ⟨hfields, hentries⟩

/-- A proper entry is read as a well-formed field map. -/
theorem Entry.Proper.wellFormed {e : Entry} (h : e.Proper) {size : Nat} {t : Task}
    (ht : e.task size = .ok t) : t.fields.WellFormed := by
  obtain ⟨fs, hall, rfl⟩ := map_eq_ok.1 ht
  refine (Bullet.wellFormed_headFields h.1).assignAll ?_ hall
  intro w hw
  rcases List.mem_append.mp hw with hw | hw
  · obtain ⟨p, hp, rfl⟩ := List.mem_map.mp hw
    exact isKey_of_mem_pairs hp
  · exact h.2 w hw

/-! ### Ids -/

theorem Fields.mem_set_self (fs : Fields) (key : Text) (v : Value) : (key, v) ∈ fs.set key v := by
  induction fs with
  | nil => exact List.mem_singleton.2 rfl
  | cons g fs ih =>
      obtain ⟨k, w⟩ := g
      rw [set]
      split
      · next hk => simp [hk]
      · exact List.mem_cons_of_mem _ ih

namespace Task

variable {t : Task}

theorem has_id_of_id? (h : ∀ v, (Key.id, v) ∈ t.fields → ∃ s, v = .text s) {id : Text}
    (hid : t.id? = some id) : id ≠ [] ∧ (Key.id, .text id) ∈ t.fields := by
  by_cases hnull : t.fields.get Key.id = .null
  · simp [id?, hnull] at hid
  · have hm := Fields.mem_of_get rfl hnull
    obtain ⟨s, hs⟩ := h _ hm
    rw [hs] at hm
    rw [id?, hs] at hid
    cases s with
    | nil => cases hid
    | cons c cs =>
        obtain rfl := Option.some.inj hid
        exact ⟨by simp [Value.shown], hm⟩

/-- A task as it is, if it has an id, and with a computed id otherwise. -/
def IsNamed (length : Nat) (t u : Task) : Prop :=
  (∃ id, t.id? = some id ∧ u.fields = t.fields) ∨
    (t.id? = none ∧
      ∃ n id, (Identity.ofFields t.fields).hash length n = .ok id ∧
        u.fields = t.fields.set Key.id (.text id))

/-- A task keeps the id it has; otherwise it gets a computed one that is not taken. -/
theorem withId_eq_ok {taken : List Text} {length : Nat} {u : Task} {id : Text}
    (h : t.withId taken length = .ok (u, id)) :
    (t.id? = some id ∧ u = t) ∨
      (t.id? = none ∧ id ∉ taken ∧ (∃ n, (Identity.ofFields t.fields).hash length n = .ok id) ∧
        u = { t with fields := t.fields.set Key.id (.text id) }) := by
  unfold withId at h
  split at h
  · next id' hid =>
      obtain ⟨rfl, rfl⟩ := Prod.mk.inj (Except.ok.inj h)
      exact .inl ⟨hid, rfl⟩
  · next hid =>
      split at h
      · cases h
      · cases h
      · next id' hfree =>
          obtain ⟨rfl, rfl⟩ := Prod.mk.inj (Except.ok.inj h)
          obtain ⟨hnew, hhash⟩ := Identity.free?_eq_some hfree
          exact .inr ⟨hid, hnew, hhash, rfl⟩

theorem id?_withId {taken : List Text} {length : Nat} (hlength : 0 < length) {u : Task} {id : Text}
    (h : t.withId taken length = .ok (u, id)) : u.id? = some id := by
  rcases withId_eq_ok h with ⟨hid, rfl⟩ | ⟨-, -, ⟨n, hhash⟩, rfl⟩
  · exact hid
  · obtain ⟨c, cs, rfl⟩ := List.exists_cons_of_ne_nil (Identity.hash_ne_nil hlength hhash)
    rw [id?, Fields.get_set_self]
    rfl

theorem isNamed_withId {taken : List Text} {length : Nat} {u : Task} {id : Text}
    (h : t.withId taken length = .ok (u, id)) : IsNamed length t u := by
  rcases withId_eq_ok h with ⟨hid, rfl⟩ | ⟨hid, -, ⟨n, hhash⟩, rfl⟩
  · exact .inl ⟨id, hid, rfl⟩
  · exact .inr ⟨hid, n, id, hhash, rfl⟩

/-- The first task gets its id, which is taken for the others. -/
theorem assignIds_cons {length : Nat} {taken : List Text} {ts us : List Task}
    (h : assignIds length taken (t :: ts) = .ok us) :
    ∃ u id us', t.withId taken length = .ok (u, id) ∧
      assignIds length (addName taken id) ts = .ok us' ∧ us = u :: us' := by
  rw [assignIds] at h
  split at h
  · cases h
  · next u id hu =>
      split at h
      · cases h
      · next us' hus => exact ⟨u, id, us', hu, hus, (Except.ok.inj h).symm⟩

theorem isNamed_assignIds {length : Nat} {taken : List Text} {ts us : List Task}
    (h : assignIds length taken ts = .ok us) : List.Forall₂ (IsNamed length) ts us := by
  induction ts generalizing taken us with
  | nil =>
      obtain rfl := Except.ok.inj h
      exact .nil
  | cons t ts ih =>
      obtain ⟨u, id, us', hu, hus, rfl⟩ := assignIds_cons h
      exact .cons (isNamed_withId hu) (ih hus)

/-- A named task is well formed if its fields were. -/
theorem IsNamed.wellFormed {length : Nat} {u : Task} (h : IsNamed length t u)
    (hlength : 0 < length) (ht : t.fields.WellFormed) : u.WellFormed := by
  rcases h with ⟨id, hid, hu⟩ | ⟨-, n, id, hhash, hu⟩
  · obtain ⟨hne, hm⟩ := has_id_of_id? (fun v hv => Value.text_of_fits (ht.fits _ hv)
      (List.mem_cons_self : Key.id ∈ Key.texts)) hid
    exact { hu ▸ ht with has_id := ⟨id, hne, hu ▸ hm⟩ }
  · have hfits : (Value.text id).Fits Key.id := rfl
    exact { hu ▸ ht.set (by decide) hfits with
      has_id := ⟨id, Identity.hash_ne_nil hlength hhash, hu ▸ Fields.mem_set_self _ _ _⟩ }

/-- Linking changes nothing that does not look at parents. -/
theorem map_link {β : Type} {k : Task → β}
    (hk : ∀ (t : Task) owner, k { t with parent := owner } = k t) (owner : Option Text)
    (f : Forest Task) : (link owner f).map k = f.map k := by
  induction f generalizing owner with
  | nil => rfl
  | cons t children rest ihc ihr => rw [link, Forest.map, Forest.map, hk, ihc, ihr]

/-- Linking keeps the fields. -/
theorem fields_link (owner : Option Text) (f : Forest Task) :
    List.Forall₂ (fun t u => u.fields = t.fields) f.toList (link owner f).toList := by
  induction f generalizing owner with
  | nil => exact .nil
  | cons t children rest ihc ihr => exact .cons rfl (List.rel_append (ihc _) (ihr _))

/-- Nesting and linking keep the fields and the order. -/
theorem fields_link_ofColumns {columns : List Nat} {us : List Task}
    (h : columns.length = us.length) :
    List.Forall₂ (fun t u => u.fields = t.fields) us
      (link none ((Forest.ofColumns (·.1) (columns.zip us)).map (·.2))).toList := by
  have hlink := fields_link none ((Forest.ofColumns (·.1) (columns.zip us)).map (·.2))
  rwa [Forest.toList_map, Forest.toList_ofColumns, List.map_snd_zip (by omega)] at hlink

end Task

theorem Entry.forall₂_tasks {size : Nat} {es : List Entry} {found : List (Nat × Task)}
    (h : tasks size es = .ok found) :
    List.Forall₂ (fun e c => c.1 = e.line.indent ∧ e.task size = .ok c.2) es found := by
  induction es generalizing found with
  | nil =>
      obtain rfl := Except.ok.inj h
      exact .nil
  | cons e es ih =>
      rw [tasks] at h
      split at h
      · cases h
      · next t ht =>
          obtain ⟨rest, hrest, rfl⟩ := map_eq_ok.1 h
          exact .cons ⟨rfl, ht⟩ (ih hrest)

namespace Document

/-- A document that is read: the tasks of its entries get ids in order, and are nested by the
columns of their bullets. -/
theorem exists_of_tasksIn {size idLength : Nat} {ls : List Line} {f : Forest Task}
    (h : tasksIn size idLength ls = .ok f) :
    ∃ (found : List (Nat × Task)) (us : List Task),
      List.Forall₂ (fun e c => c.1 = e.line.indent ∧ e.task size = .ok c.2)
        (Entry.ofLines size ls) found ∧
      Task.assignIds idLength (Task.ids (found.map (·.2))) (found.map (·.2)) = .ok us ∧
      f = Task.link none ((Forest.ofColumns (·.1) ((found.map (·.1)).zip us)).map (·.2)) := by
  unfold tasksIn at h
  split at h
  · cases h
  · next found hfound =>
      obtain ⟨us, hus, rfl⟩ := map_eq_ok.1 h
      exact ⟨found, us, Entry.forall₂_tasks hfound, hus, by simp only [Forest.grow_eq_ofColumns]⟩

/-- The tasks of a document are those of its entries, in order, each of them with an id. -/
theorem forall₂_tasksIn {size idLength : Nat} {ls : List Line} {f : Forest Task}
    (h : tasksIn size idLength ls = .ok f) :
    List.Forall₂ (fun e u => ∃ t : Task, e.task size = .ok t ∧ t.IsNamed idLength u)
      (Entry.ofLines size ls) f.toList := by
  obtain ⟨found, us, hfound, hids, rfl⟩ := exists_of_tasksIn h
  have hnamed := Task.isNamed_assignIds hids
  have hlen : (found.map (·.1)).length = us.length := by
    rw [← hnamed.length_eq, List.length_map, List.length_map]
  have hlink := Task.fields_link_ofColumns hlen
  have hentries : List.Forall₂ (fun e t => e.task size = .ok t) (Entry.ofLines size ls)
      (found.map (·.2)) := List.forall₂_map_right_iff.2 (hfound.imp fun _ _ h => h.2)
  refine (forall₂_comp hentries (forall₂_comp hnamed hlink)).imp ?_
  rintro e w ⟨t, ht, u, hu, hw⟩
  exact ⟨t, ht, by rwa [Task.IsNamed, hw]⟩

/-- Every task that is read from lines is well formed. -/
theorem wellFormed_tasksIn {size idLength : Nat} (hlength : 0 < idLength)
    {ls : List Line} {f : Forest Task} (h : tasksIn size idLength ls = .ok f) :
    ∀ t ∈ f.toList, t.WellFormed := by
  intro u hu
  obtain ⟨e, he, t, ht, hnamed⟩ := exists_of_mem_forall₂ (forall₂_tasksIn h) hu
  exact hnamed.wellFormed hlength (((Entry.proper_gatherFrom size .start ls).2 e he).wellFormed ht)

end Document

end Agenda
