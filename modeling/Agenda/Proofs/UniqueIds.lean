import Agenda.Proofs.CleanLines
import Agenda.Proofs.Following
import Agenda.Proofs.LeadingShorthand

/-!
Ids in documents without errors. The linter looks at every id that stands on the line of its key,
in the order in which the reader takes them, but not at one that is the text of a block. So the ids
of the tasks are distinct if and only if no id from a block is that of another task. Computed ids
are never the cause: each of them is new.
-/

namespace Agenda

/-! ### The ids that are written -/

def Written.id : Written → Text
  | .inline raw => dequote raw
  | .block t => t

def idValues (ws : List (Text × Written)) : List Written := (ws.filter (·.1 = Key.id)).map (·.2)

/-- The id in a value that stands on the line of its key, unless it is empty. -/
def Written.inlineIds : Written → List Text
  | .inline raw => if (dequote raw).isEmpty then [] else [dequote raw]
  | .block _ => []

def inlineIds (ws : List (Text × Written)) : List Text := (idValues ws).flatMap Written.inlineIds

namespace Entry

def allFields (e : Entry) : List (Text × Written) := Bullet.written (tokens e.content) ++ e.fields

/-- The value that the id of an entry is read from: the last one that is written for it. -/
def idValue? (e : Entry) : Option Written := (idValues e.allFields).getLast?

def id? (e : Entry) : Option Text := (e.idValue?.map Written.id).filter (!·.isEmpty)

/-- Whether the id of an entry is read from a block. -/
def hasBlockId (e : Entry) : Bool :=
  match e.idValue? with
  | some (.block _) => true
  | _ => false

/-- Whether two entries have one id, and the linter has not looked at both. -/
def Clashes (e e' : Entry) : Prop :=
  (e.hasBlockId = true ∨ e'.hasBlockId = true) ∧ e.id?.isSome = true ∧ e.id? = e'.id?

end Entry

theorem idValues_cons_id {w : Text × Written} (hw : w.1 = Key.id) (ws : List (Text × Written)) :
    idValues (w :: ws) = w.2 :: idValues ws := by
  simp [idValues, hw]

theorem idValues_cons_of_ne {w : Text × Written} (hw : w.1 ≠ Key.id)
    (ws : List (Text × Written)) : idValues (w :: ws) = idValues ws := by
  simp [idValues, hw]

theorem idValues_append (ws us : List (Text × Written)) :
    idValues (ws ++ us) = idValues ws ++ idValues us := by
  simp [idValues]

theorem inlineIds_append (ws us : List (Text × Written)) :
    inlineIds (ws ++ us) = inlineIds ws ++ inlineIds us := by
  simp [inlineIds, idValues_append]

/-- An id that is not read from a block is among those on the lines of their keys. -/
theorem Entry.mem_inlineIds {e : Entry} {id : Text} (hid : e.id? = some id)
    (hblock : e.hasBlockId = false) : id ∈ inlineIds e.allFields := by
  obtain ⟨hvalue, hne⟩ := Option.filter_eq_some_iff.1 hid
  obtain ⟨w, hw, rfl⟩ := Option.map_eq_some_iff.1 hvalue
  refine List.mem_flatMap.2 ⟨w, List.mem_of_getLast? hw, ?_⟩
  cases w with
  | block t => simp [hasBlockId, hw] at hblock
  | inline raw =>
      have hraw : (dequote raw).isEmpty = false := by simpa [Written.id] using hne
      simp [Written.inlineIds, Written.id, hraw]

/-! ### The ids of tasks -/

namespace Fields

variable {fs gs : Fields}

/-- Shorthand and title set no id. -/
theorem get_id_headFields (content : Text) (ts : List Token) :
    (Bullet.headFields content ts).get Key.id = .null := by
  rw [get, Bullet.lookup_headFields_of_ne (by decide) (by decide)]
  rfl

theorem get_id_assign (fs : Fields) (key : Text) (v : Value) :
    (fs.assign key v).get Key.id = if key = Key.id then .text v.plain else fs.get Key.id := by
  by_cases hkey : key = Key.id
  · subst hkey
    rw [if_pos rfl]
    exact get_set_self _ _ _
  · rw [if_neg hkey, assign]
    split
    · exact get_set_of_ne (Ne.symm hkey) _ _
    · split
      · exact get_set_of_ne (Ne.symm hkey) _ _
      · exact get_set_of_ne (Ne.symm hkey) _ _

/-- Of the values that are written for the id the last one counts. -/
theorem get_id_assignAll {ws : List (Text × Written)} (h : fs.assignAll ws = .ok gs) :
    gs.get Key.id = ((idValues ws).getLast?.map (Value.text ·.id)).getD (fs.get Key.id) := by
  induction ws generalizing fs with
  | nil =>
      obtain rfl := Except.ok.inj h
      rfl
  | cons w ws ih =>
      rw [assignAll_cons] at h
      obtain ⟨v, hv, h⟩ := bind_eq_ok.1 h
      rw [ih h, get_id_assign]
      by_cases hkey : w.1 = Key.id
      · have hid : v.plain = w.2.id := by
          obtain ⟨key, written⟩ := w
          cases written <;> simp only [readWritten, if_pos hkey] at hv <;>
            rw [← Except.ok.inj hv] <;> rfl
        rw [if_pos hkey, hid, idValues_cons_id hkey, List.getLast?_cons]
        cases (idValues ws).getLast? <;> rfl
      · rw [if_neg hkey, idValues_cons_of_ne hkey]

end Fields

/-- The id of a task is that of its entry, until it gets a computed one. -/
theorem Entry.id?_of_task {size : Nat} {e : Entry} {t : Task} (h : e.task size = .ok t) :
    t.id? = e.id? := by
  obtain ⟨fs, hfs, rfl⟩ := map_eq_ok.1 h
  have hget := Fields.get_id_assignAll hfs
  rw [Fields.get_id_headFields] at hget
  rw [Task.id?, hget, id?, idValue?, allFields]
  cases (idValues (Bullet.written (tokens e.content) ++ e.fields)).getLast? with
  | none => rfl
  | some w =>
      simp only [Option.map_some, Option.getD_some]
      cases w.id <;> rfl

namespace Task

variable {length : Nat} {taken : List Text} {ts us : List Task}

/-- Ids are computed so that none of them is taken: what is taken is an id afterwards only if it
was one before. -/
theorem mem_ids_assignIds (hlength : 0 < length) (h : assignIds length taken ts = .ok us)
    {id : Text} (hid : id ∈ taken) : id ∈ ids us ↔ id ∈ ids ts := by
  induction ts generalizing taken us with
  | nil =>
      obtain rfl := Except.ok.inj h
      rfl
  | cons t ts ih =>
      obtain ⟨u, new, us', hu, hus, rfl⟩ := assignIds_cons h
      have hrest := ih hus (Lint.mem_addName.2 (.inl hid))
      -- A new id is none of those taken, so it is not the given one.
      have hnew := id?_withId hlength hu
      simp only [ids] at hrest
      rcases withId_eq_ok hu with ⟨hold, rfl⟩ | ⟨hold, hfree, -, -⟩
      · simp [ids, hold, hrest]
      · have hne : id ≠ new := by
          rintro rfl
          exact hfree hid
        simp [ids, hold, hnew, hrest, hne]

/-- Computed ids make no two ids alike. -/
theorem nodup_ids_assignIds (hlength : 0 < length) (h : assignIds length taken ts = .ok us)
    (htaken : ∀ id ∈ ids ts, id ∈ taken) : (ids us).Nodup ↔ (ids ts).Nodup := by
  induction ts generalizing taken us with
  | nil =>
      obtain rfl := Except.ok.inj h
      rfl
  | cons t ts ih =>
      obtain ⟨u, new, us', hu, hus, rfl⟩ := assignIds_cons h
      have hnew := id?_withId hlength hu
      -- The id of this task is taken from now on, so no task after it gets it anew.
      have hmem : new ∈ ids us' ↔ new ∈ ids ts :=
        mem_ids_assignIds hlength hus (Lint.mem_addName.2 (.inr rfl))
      have hcons : ids (u :: us') = new :: ids us' := by simp [ids, hnew]
      rcases withId_eq_ok hu with ⟨hold, rfl⟩ | ⟨hold, hfree, -, -⟩
      · have hcons' : ids (u :: ts) = new :: ids ts := by simp [ids, hold]
        rw [hcons'] at htaken
        have hrest := ih hus fun id hid =>
          Lint.mem_addName.2 (.inl (htaken id (List.mem_cons_of_mem _ hid)))
        rw [hcons, hcons', List.nodup_cons, List.nodup_cons, hmem, hrest]
      · have hcons' : ids (t :: ts) = ids ts := by simp [ids, hold]
        rw [hcons'] at htaken
        have hrest := ih hus fun id hid => Lint.mem_addName.2 (.inl (htaken id hid))
        rw [hcons, hcons', List.nodup_cons, hmem, hrest]
        exact and_iff_right fun hid => hfree (htaken new hid)

end Task

/-! ### The ids that the linter looks at -/

def Role.inlineIds : Role → List Text
  | .bullet content => Agenda.inlineIds (Bullet.written (tokens content))
  | .field key value => Agenda.inlineIds [(key, .inline value)]
  | _ => []

namespace Lint

variable {seen ids : List Text}

theorem fresh_append {more : List Text} :
    Fresh seen (ids ++ more) ↔ Fresh seen ids ∧ Fresh (addNames seen ids) more := by
  induction ids generalizing seen with
  | nil => simp [Fresh, addNames]
  | cons id ids ih =>
      rw [List.cons_append, fresh_cons, fresh_cons, ih, and_assoc]
      rfl

/-- A check adds the ids to those that were seen, and finds an error unless they are new. -/
def Notes (seen ids : List Text) (r : List Text × List Issue) : Prop :=
  r.1 = addNames seen ids ∧ (Accepts r.2 → Fresh seen ids)

theorem notes_nil (seen : List Text) (found : List Issue) : Notes seen [] (seen, found) :=
  ⟨rfl, fun _ => ⟨List.nodup_nil, nofun⟩⟩

theorem Notes.append {more : List Text} {r s : List Text × List Issue} (h : Notes seen ids r)
    (hs : Notes r.1 more s) : Notes seen (ids ++ more) (s.1, r.2 ++ s.2) := by
  rw [h.1] at hs
  refine ⟨?_, fun hok => ?_⟩
  · rw [hs.1, addNames, addNames, addNames, List.foldl_append]
  · rw [accepts_append] at hok
    exact fresh_append.2 ⟨h.2 hok.1, hs.2 hok.2⟩

theorem notes_noteId (l : Line) (seen : List Text) (raw : Text) (start : Nat) :
    Notes seen (Written.inlineIds (.inline raw)) (noteId l seen raw start) := by
  unfold noteId Written.inlineIds
  cases hempty : (dequote raw).isEmpty with
  | true =>
      simp only [hempty, if_true]
      exact notes_nil seen []
  | false =>
      simp only [hempty, Bool.false_eq_true, if_false]
      refine ⟨rfl, fun hok => ⟨List.nodup_singleton _, ?_⟩⟩
      intro id hid hseen
      obtain rfl := List.mem_singleton.1 hid
      simp only [List.contains_iff_mem, hseen, if_true] at hok
      exact Pass.not_accepts_singleton rfl hok

def Use.inlineIds : Use → List Text
  | .key name raw => Agenda.inlineIds [(name, .inline raw)]
  | _ => []

theorem inlineIds_inline (key raw : Text) :
    inlineIds [(key, .inline raw)] =
      if key = Key.id then Written.inlineIds (.inline raw) else [] := by
  by_cases hkey : key = Key.id <;> simp [inlineIds, idValues, hkey]

theorem notes_inline (l : Line) (seen : List Text) (key raw : Text) (start : Nat) :
    Notes seen (inlineIds [(key, .inline raw)])
      (if key = Key.id then noteId l seen raw start else (seen, [])) := by
  rw [inlineIds_inline]
  split
  · exact notes_noteId l seen raw start
  · exact notes_nil seen []

theorem notes_checkUses (l : Line) (offset : Nat) (seen : List Text) (last : Option Text)
    (us : List (Token × Use)) :
    Notes seen (us.flatMap (·.2.inlineIds)) (checkUses l offset seen last us) := by
  induction us generalizing seen last with
  | nil => exact notes_nil seen []
  | cons p us ih =>
      obtain ⟨t, use⟩ := p
      cases use with
      | key key raw =>
          exact (notes_inline l seen key raw (offset + t.start)).append (ih _ (some key))
      | value => exact (notes_nil seen _).append (ih seen last)
      | quoted => exact (notes_nil seen _).append (ih seen last)
      | shorthand kind => exact (notes_nil seen _).append (ih seen last)
      | bare => exact (notes_nil seen _).append (ih seen last)

/-- The linter pairs keys and values as the reader does. -/
theorem inlineIds_uses (ts : List Token) :
    (uses ts).flatMap (·.2.inlineIds) =
      inlineIds ((pairs ts).map fun p => (p.key, .inline p.raw)) := by
  have hkeyed (us : List (Token × Use)) : us.flatMap (·.2.inlineIds) =
      inlineIds ((us.filterMap (·.2.keyed?)).map fun p => (p.1, .inline p.2)) := by
    induction us with
    | nil => rfl
    | cons p us ih =>
        rw [List.flatMap_cons, ih, List.filterMap_cons]
        cases p.2 with
        | key key raw => exact (inlineIds_append [(key, .inline raw)] _).symm
        | _ => rfl
  rw [hkeyed, keyed_uses, List.map_map]
  rfl

/-- The linter looks at the ids that the reader takes from the bullet. -/
theorem notes_checkContent (l : Line) (seen : List Text) :
    Notes seen (inlineIds (Bullet.written (tokens l.content))) (checkContent l seen) := by
  have hpairs : Bullet.written (tokens l.content) =
      (pairs (((tokens l.content).dropWhile isShorthand).dropWhile isPlainWord)).map
        fun p => (p.key, .inline p.raw) := by
    rw [Bullet.written, pairs_after_title]
  have huses := notes_checkUses l l.contentColumn seen none
    (uses (((tokens l.content).dropWhile isShorthand).dropWhile isPlainWord))
  rw [hpairs, ← inlineIds_uses]
  simp only [checkContent, usesAt_valuePositions]
  refine ⟨huses.1, fun hok => huses.2 ?_⟩
  exact (accepts_append.1 hok).2

namespace Pass

variable {size : Nat} {p : Pass} {l : Line}

/-- Without an error the ids on a line are new, and from then on they have been seen. -/
theorem Follows.fresh {role : Role} {r : Pass × List Issue} (h : Follows size p l role r)
    (hok : Accepts r.2) :
    r.1.seen = addNames p.seen role.inlineIds ∧ Fresh p.seen role.inlineIds := by
  have hnone : p.seen = addNames p.seen [] ∧ Fresh p.seen [] := ⟨rfl, List.nodup_nil, nofun⟩
  cases h with
  | @bullet content line =>
      have hcontent : l.content = content := by rw [Line.content, line, Option.getD_some]
      subst hcontent
      have hnotes := notes_checkContent l p.seen
      unfold visitBullet at hok ⊢
      cases hempty : l.content.isEmpty with
      | true =>
          -- A bullet without content is an error.
          simp only [hempty, if_true] at hok
          exact absurd (accepts_append.1 (accepts_append.1 hok).1).2 (not_accepts_singleton rfl)
      | false =>
          simp only [hempty, Bool.false_eq_true, if_false] at hok ⊢
          exact ⟨hnotes.1, hnotes.2 (accepts_append.1 (accepts_append.1 hok).1).2⟩
  | @field key value _ =>
      have hnotes := notes_inline l p.seen key value (l.indent + (l.text.length - value.length))
      exact ⟨hnotes.1, hnotes.2 (accepts_append.1 hok).2⟩
  | @valueless key =>
      have hempty : (Role.field key []).inlineIds = [] := by
        rw [Role.inlineIds, inlineIds_inline]
        split <;> rfl
      rw [hempty]
      exact hnone
  | _ => exact hnone

end Pass

end Lint

def Entry.Gathered.inlineIds (g : Gathered) : List Text :=
  Agenda.inlineIds g.fields ++ g.entries.flatMap (Agenda.inlineIds ·.allFields)

theorem Entry.inlineIds_gather (size : Nat) (l : Line) (role : Role) (g : Gathered) :
    (gather size l role g).inlineIds = role.inlineIds ++ g.inlineIds := by
  cases role with
  | bullet content =>
      simp only [gather, Gathered.inlineIds, Role.inlineIds, allFields, List.flatMap_cons,
        inlineIds_append, List.append_assoc]
      rfl
  | field key value =>
      exact (congrArg (· ++ _) (inlineIds_append [(key, .inline value)] g.fields)).trans
        (List.append_assoc _ _ _)
  | block key =>
      refine congrArg (· ++ _) ((inlineIds_append [(key, .block _)] g.fields).trans ?_)
      by_cases hkey : key = Key.id <;> simp [inlineIds, idValues, hkey, Written.inlineIds]
  | _ => rfl

/-- In a document without errors the ids on the lines of their keys are new. -/
theorem Lint.Pass.fresh_of_accepts {size : Nat} {p : Pass} {ls : List Line}
    (h : Accepts (p.issues size ls)) :
    Fresh p.seen (Entry.gatherFrom size p.reader ls).inlineIds := by
  induction ls generalizing p with
  | nil => exact ⟨List.nodup_nil, nofun⟩
  | cons l ls ih =>
      rw [issues_cons, accepts_append] at h
      have hf := follows_visit h.1
      obtain ⟨hseen, hfresh⟩ := hf.fresh h.1
      rw [hf.gatherFrom_eq, Entry.inlineIds_gather, fresh_append, ← hseen]
      exact ⟨hfresh, ih h.2⟩

/-! ### Distinct ids -/

/-- The ids of the tasks are those that are assigned, given the ids that are written. -/
theorem Document.exists_ids_of_tasksIn {size idLength : Nat} {ls : List Line} {f : Forest Task}
    (h : tasksIn size idLength ls = .ok f) :
    ∃ ts us, Task.assignIds idLength (Task.ids ts) ts = .ok us ∧
      ts.map Task.id? = (Entry.ofLines size ls).map Entry.id? ∧
      us.map Task.id? = f.toList.map Task.id? := by
  obtain ⟨found, us, hfound, hids, rfl⟩ := exists_of_tasksIn h
  have hlen : (found.map (·.1)).length = us.length := by
    rw [← (Task.isNamed_assignIds hids).length_eq, List.length_map, List.length_map]
  refine ⟨found.map (·.2), us, hids, ?_, ?_⟩
  · rw [List.map_map]
    exact map_eq_map_of_forall₂ (fun e c hc => Entry.id?_of_task hc.2) hfound
  · exact (map_eq_map_of_forall₂ (fun t u hfields => by rw [Task.id?, hfields, Task.id?])
      (Task.fields_link_ofColumns hlen)).symm

theorem Task.ids_eq_filterMap (ts : List Task) : ids ts = (ts.map id?).filterMap id := by
  rw [List.filterMap_map]
  rfl

theorem Task.ids_congr {ts us : List Task} (h : us.map id? = ts.map id?) : ids us = ids ts := by
  rw [ids_eq_filterMap, h, ids_eq_filterMap]

/-- The tasks of a document have distinct ids if and only if the ids that are written are
distinct. -/
theorem Document.nodup_ids_tasksIn {size idLength : Nat} (hlength : 0 < idLength) {ls : List Line}
    {f : Forest Task} (h : tasksIn size idLength ls = .ok f) :
    (Task.ids f.toList).Nodup ↔ ((Entry.ofLines size ls).filterMap Entry.id?).Nodup := by
  obtain ⟨ts, us, hids, hts, hus⟩ := exists_ids_of_tasksIn h
  have hassigned := Task.nodup_ids_assignIds hlength hids fun _ hid => hid
  rwa [Task.ids_congr hus, Task.ids_eq_filterMap ts, hts, List.filterMap_map] at hassigned

/-- Two entries clash if they have one id, where the ids on the lines of their keys differ. -/
theorem Entry.clashes_iff {e e' : Entry}
    (h : List.Disjoint (inlineIds e.allFields) (inlineIds e'.allFields)) :
    e.Clashes e' ↔ ∃ id, e.id? = some id ∧ e'.id? = some id := by
  constructor
  · rintro ⟨-, hsome, heq⟩
    obtain ⟨id, hid⟩ := Option.isSome_iff_exists.1 hsome
    exact ⟨id, hid, heq ▸ hid⟩
  · rintro ⟨id, hid, hid'⟩
    refine ⟨?_, by rw [hid]; rfl, hid.trans hid'.symm⟩
    by_contra hblock
    simp only [not_or, Bool.not_eq_true] at hblock
    exact h (mem_inlineIds hid hblock.1) (mem_inlineIds hid' hblock.2)

/-- In a document without errors the ids are distinct if and only if no two entries clash. -/
theorem Lint.nodup_ids_of_accepts {size : Nat} {ls : List Line}
    (h : Accepts (({} : Pass).issues size ls)) :
    ((Entry.ofLines size ls).filterMap Entry.id?).Nodup ↔
      (Entry.ofLines size ls).Pairwise fun e e' => ¬ e.Clashes e' := by
  have hfresh : ((Entry.ofLines size ls).flatMap (inlineIds ·.allFields)).Nodup :=
    (Pass.fresh_of_accepts h).1.of_append_right
  -- What the linter has looked at is disjoint from entry to entry; a common id is not among it.
  have hdisjoint := (List.nodup_flatMap.1 hfresh).2
  rw [List.Nodup, List.pairwise_filterMap]
  constructor
  · intro hne
    refine (hdisjoint.and hne).imp ?_
    rintro e e' ⟨hd, hne⟩ hclash
    obtain ⟨id, hid, hid'⟩ := (Entry.clashes_iff hd).1 hclash
    exact hne id hid id hid' rfl
  · intro hclash
    refine (hdisjoint.and hclash).imp ?_
    rintro e e' ⟨hd, hclash⟩ id hid id' hid' rfl
    exact hclash ((Entry.clashes_iff hd).2 ⟨id, hid, hid'⟩)

/-- In a document without errors that can be read every task has an id that is not empty. The ids
are distinct if and only if no entry with an id from a block has the id of another entry. -/
theorem Lint.nodup_ids_iff (size : Nat) {idLength : Nat} (heading : Option Text)
    (lines : List Text) {f : Forest Task} (hlength : 0 < idLength)
    (hok : Accepts (run size heading lines))
    (hf : Document.readTasks size idLength heading lines = .ok f) :
    (∀ t ∈ f.toList, ∃ id, id ≠ [] ∧ t.id? = some id) ∧
      ((Task.ids f.toList).Nodup ↔
        (Entry.ofLines size ((Section.region heading lines).lines size lines)).Pairwise
          fun e e' => ¬ e.Clashes e') := by
  constructor
  · intro t ht
    have hwell := Document.wellFormed_tasksIn hlength hf t ht
    obtain ⟨id, hne, hmem⟩ := hwell.has_id
    exact ⟨id, hne, hwell.id?_eq hne hmem⟩
  · rw [Document.nodup_ids_tasksIn hlength hf]
    exact nodup_ids_of_accepts hok

/-- Two tasks that take one id from blocks, which the linter accepts. -/
theorem Lint.nodup_ids_iff_block :
    let lines : List Text := ["- \"a\"", "  id: |", "    x", "- \"b\"", "  id: |", "    x"]
    let a : Task :=
      { fields := [(Key.title, .text "a"), (Key.id, .text "x")], line := 1, inline := false }
    let b : Task :=
      { fields := [(Key.title, .text "b"), (Key.id, .text "x")], line := 4, inline := false }
    let f : Forest Task := .cons a .nil (.cons b .nil .nil)
    (Accepts (run 2 none lines) ∧ Document.readTasks 2 8 none lines = .ok f) ∧
      ¬ (Task.ids f.toList).Nodup ∧
      ¬ (Entry.ofLines 2 ((Section.region none lines).lines 2 lines)).Pairwise
          fun e e' => ¬ e.Clashes e' := by
  intro lines a b f
  have hok : Accepts (run 2 none lines) := by
    unfold Accepts
    decide
  have hf : Document.readTasks 2 8 none lines = .ok f := by decide
  have hids : ¬ (Task.ids f.toList).Nodup := by decide
  have hiff := (nodup_ids_iff 2 none lines (by decide) hok hf).2
  exact ⟨⟨hok, hf⟩, hids, fun h => hids (hiff.2 h)⟩

end Agenda
