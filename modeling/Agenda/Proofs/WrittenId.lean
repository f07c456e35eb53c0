import Agenda.Proofs.FieldNames
import Agenda.Proofs.LostId
import Agenda.Proofs.UniqueIds

/-!
Ids that are read back from what is written for them. One that is in quotes or has no blank is read
back verbatim, from its field alone and from the bullet of its task. Any other is written without
quotes although there is a blank in it, and what is read instead has none.
-/

namespace Agenda

namespace Layout

/-- What is written for an id is one line with two tokens, and as a pair these are the key of ids
and the id itself. -/
structure IdReads (id : Text) : Prop where
  one_line : '\n' ∉ fieldText Key.id (writeId id)
  two_tokens : (tokens (fieldText Key.id (writeId id))).length = 2
  paired : (pairs (tokens (fieldText Key.id (writeId id)))).map (fun p => (p.key, dequote p.raw)) =
    [(Key.id, id)]

def bulletIds (size index : Nat) (t : Text) : Option (List Text) :=
  (Text.split '\n' t).head?.bind fun line =>
    (Line.ofText size index line).bullet?.map fun content =>
      (idValues (Bullet.written (tokens content))).map Written.id

variable {o : Layout} {t : Task} {id : Text} {depth : Nat} {kvs : List (Text × Text)}

/-! ### Ids that are kept -/

theorem idReads_of_kept (hkept : IdKept id) : IdReads id := by
  obtain ⟨hform, hid⟩ := form_writeId hkept
  have hfield := isField_of_form isKey_id hform
  refine ⟨hfield.one_line, by rw [tokens_fieldText isKey_id hform.isWord]; rfl, ?_⟩
  have hpaired := congrArg (List.map fun p : Text × Text => (p.1, dequote p.2)) hfield.paired
  simpa only [List.map_map, Function.comp_def, List.map_cons, List.map_nil, hid] using hpaired

/-- The only id in the bullet of a task is its own if that is kept. -/
theorem bulletIds_of_kept (ht : t.Sound) (hkept : IdKept id)
    (hkvs : ∀ kv ∈ kvs, IsKey kv.1 ∧ kv.1 ≠ Key.id ∧ Scalar.Form kv.2) (index : Nat) :
    bulletIds o.step index (o.idBullet depth t kvs id) = some [id] := by
  have hsplit : Text.split '\n' (o.idBullet depth t kvs id) = [o.idBullet depth t kvs id] :=
    Text.split_of_not_mem fun hm => (of_mem_idBullet o depth ht hkept hkvs _ hm).1 rfl
  obtain ⟨content, -, -, hbullet, -, -, hwritten⟩ := read_bulletLine o.step index (depth * o.step)
    t.title? (legible_lead (o := o) ht) (form_of_mem_idFields hkvs hkept) (by simp)
  have hothers : idValues (kvs.map fun f => (f.1, Written.inline f.2)) = [] := by
    simp only [idValues, List.map_eq_nil_iff, List.filter_eq_nil_iff, List.mem_map]
    rintro _ ⟨kv, hkv, rfl⟩
    simpa using (hkvs kv hkv).2.1
  have hown : idValues [(Key.id, Written.inline (writeId id))] = [.inline (writeId id)] :=
    idValues_cons_id rfl []
  rw [bulletIds, hsplit, List.head?_cons, Option.bind_some, idBullet, hbullet, Option.map_some,
    hwritten, List.map_append, List.map_singleton, idValues_append, hothers, hown, List.nil_append,
    List.map_singleton, Written.id, (form_writeId hkept).2]

/-! ### Ids that are lost -/

theorem IdLost.not_bare (h : IdLost id) : ¬ id.Bare := by
  obtain ⟨c, hc, hblank⟩ := h.blank
  intro hbare
  rw [(hbare c hc).1] at hblank
  cases hblank

/-- The value that is read for a lost id has no blank. -/
theorem not_idReads_of_lost (h : IdLost id) : ¬ IdReads id := by
  intro hreads
  have hwords : ∀ w ∈ [keyWord Key.id], IsWord w :=
    List.forall_mem_singleton.2 (isWord_plain (by decide) (mem_keyWord isKey_id))
  obtain ⟨bs, hts, hbs⟩ := tokens_join_append hwords (by simp) h.quoteless
  have htext : fieldText Key.id (writeId id) = Text.join [' '] [keyWord Key.id] ++ ' ' :: id := by
    rw [h.writeId_eq, fieldText_eq]
    simp [Text.join, keyWord]
  have hmem : (Key.id, id) ∈ (pairs (tokens (fieldText Key.id (writeId id)))).map
      fun p => (p.key, dequote p.raw) := by simp [hreads.paired]
  obtain ⟨p, hp, heq⟩ := List.mem_map.mp hmem
  have hbare : p.raw.Bare := bare_of_mem_pairs hbs (htext ▸ hts) hp
  have hid : dequote p.raw = id := (Prod.mk.inj heq).2
  rw [hbare.dequote_eq] at hid
  exact h.not_bare (hid ▸ hbare)

/-- The first line of the bullet of a task with a lost id gives only ids without blanks. -/
theorem bulletIds_of_lost (ht : t.Sound) (h : IdLost id)
    (hkvs : ∀ kv ∈ kvs, IsKey kv.1 ∧ kv.1 ≠ Key.id ∧ Scalar.Form kv.2) (index : Nat) :
    ∃ ids, bulletIds o.step index (o.idBullet depth t kvs id) = some ids ∧ ∀ s ∈ ids, s.Bare := by
  obtain ⟨piece, pieces, hsplit⟩ := List.exists_cons_of_ne_nil
    (Text.split_ne_nil '\n' (Text.stripEnd (' ' :: id)))
  obtain ⟨content, -, hbullet, -, hbare⟩ := ofText_tornBullet o depth ht hkvs h hsplit index
  refine ⟨_, by rw [bulletIds, split_idBullet ht hkvs h hsplit, List.head?_cons, Option.bind_some,
    hbullet, Option.map_some], ?_⟩
  intro s hs
  obtain ⟨v, hv, rfl⟩ := List.mem_map.mp hs
  obtain ⟨w, hw, rfl⟩ := List.mem_map.mp hv
  obtain ⟨hmem, hkey⟩ := List.mem_filter.mp hw
  obtain ⟨raw, hraw, hrawBare⟩ := hbare w hmem (by simpa using hkey)
  rw [hraw, Written.id, hrawBare.dequote_eq]
  exact hrawBare

/-! ### Which ids are read back -/

/-- An id is read back verbatim, from its field and from the bullet of its task, if and only if it
is kept. -/
theorem writeId_reads_iff (id : Text) :
    (IdReads id ↔ IdKept id) ∧
      ∀ (o : Layout) (depth : Nat) (t : Task) (ls : List Text), t.Sound → t.id? = some id →
        o.taskLines depth t = .ok ls →
          ∃ bullet below, ls = bullet :: below ∧
            ∀ index, bulletIds o.step index bullet = some [id] ↔ IdKept id := by
  refine ⟨⟨fun hreads => ?_, idReads_of_kept⟩, ?_⟩
  · by_contra hkept
    exact not_idReads_of_lost (idLost_of_not_idKept hkept) hreads
  · intro o depth t ls ht hid hls
    obtain ⟨kvs, groups, rfl, hkvs, -⟩ := taskLines_shape ht hid hls
    refine ⟨_, _, rfl, fun index => ⟨fun hids => ?_, fun hkept => ?_⟩⟩
    · by_contra hkept
      have hlost := idLost_of_not_idKept hkept
      obtain ⟨ids, hbullet, hbare⟩ := bulletIds_of_lost ht hlost hkvs index
      obtain rfl := Option.some.inj (hids.symm.trans hbullet)
      exact hlost.not_bare (hbare id (by simp))
    · exact bulletIds_of_kept ht hkept hkvs index

/-- An id with a line feed is written without quotes, and its bullet is read with what stands before
the line feed. One with a space is written in quotes. -/
theorem writeId_reads_iff_newline :
    let t : Task := ⟨[(Key.title, .text "t"), (Key.id, .text "a\nb")], none, 0, 1, true⟩
    let bullet : Text := "- \"t\" id: a\nb"
    (t.Sound ∧ t.id? = some "a\nb".toList ∧ ({} : Layout).taskLines 0 t = .ok [bullet]) ∧
      ¬ IdReads "a\nb" ∧ IdReads "a b" ∧
        (∀ index, bulletIds 2 index bullet ≠ some ["a\nb".toList]) ∧
          bulletIds 2 0 bullet = some ["a".toList] := by
  intro t bullet
  have hid : t.id? = some "a\nb".toList := rfl
  have hlines : ({} : Layout).taskLines 0 t = .ok [bullet] := by rfl
  have hsound : t.Sound := ⟨by decide, by simp [t], ⟨_, by decide, hid⟩⟩
  have hsafe : ∀ c ∈ ("a\nb" : Text), isUnsafeInId c = false := by decide
  have hlost : ¬ IdKept "a\nb" := by
    rintro (⟨c, hc, hunsafe⟩ | hblank)
    · rw [hsafe c hc] at hunsafe
      cases hunsafe
    · cases hblank '\n' (by decide)
  have hkept : IdKept "a b" := .inl ⟨' ', by decide, by decide⟩
  obtain ⟨hreads, hwritten⟩ := writeId_reads_iff "a\nb"
  obtain ⟨_, _, heq, hids⟩ := hwritten {} 0 t [bullet] hsound hid hlines
  obtain ⟨rfl, -⟩ := List.cons.inj heq
  exact ⟨⟨hsound, hid, hlines⟩, fun h => hlost (hreads.1 h), (writeId_reads_iff "a b").1.2 hkept,
    fun index h => hlost ((hids index).1 h), by rfl⟩

end Layout

end Agenda
