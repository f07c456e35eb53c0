import Agenda.Proofs.CleanBullet
import Agenda.Proofs.WrittenLines

/-!
The linter on the lines of written tasks. Wherever the pass stands, it finds nothing in them but
errors of two kinds: an id that was seen before, and a block that has nothing but blank lines. So
written tasks are free of issues if and only if their ids are new and no block of them is blank;
writable tasks have no blank block.
-/

namespace Agenda

namespace Lint

variable {size depth : Nat} {ls rest : List Line} {ids : List Text} {ok : Prop}

/-! ### What the pass finds -/

/-- The columns of the bullets above a bullet of the given depth, the innermost first. -/
def openColumns (size : Nat) : Nat → List Nat
  | 0 => []
  | depth + 1 => depth * size :: openColumns size depth

/-- None of the ids was seen before, and no two of them are alike. -/
def Fresh (seen ids : List Text) : Prop := ids.Nodup ∧ ∀ id ∈ ids, id ∉ seen

theorem mem_addName {names : List Text} {name x : Text} :
    x ∈ addName names name ↔ x ∈ names ∨ x = name := by
  rw [show addName names name = addNames names [name] from rfl, mem_addNames, List.mem_singleton]

theorem fresh_cons {seen : List Text} {id : Text} :
    Fresh seen (id :: ids) ↔ id ∉ seen ∧ Fresh (addName seen id) ids := by
  simp only [Fresh, List.nodup_cons, List.forall_mem_cons, mem_addName, not_or]
  constructor
  · rintro ⟨⟨hid, hnodup⟩, hseen, hids⟩
    exact ⟨hseen, hnodup, fun x hx => ⟨hids x hx, fun heq => hid (heq ▸ hx)⟩⟩
  · rintro ⟨hseen, hnodup, hids⟩
    exact ⟨⟨fun hid => (hids id hid).2 rfl, hnodup⟩, hseen, fun x hx => (hids x hx).1⟩

theorem dropWhile_openColumns (hsize : 0 < size) (depth : Nat) :
    (openColumns size depth).dropWhile (depth * size ≤ ·) = openColumns size depth := by
  cases depth with
  | zero => rfl
  | succ depth =>
      have hlt : ¬ (depth + 1) * size ≤ depth * size := by
        rw [Nat.succ_mul]
        omega
      exact List.dropWhile_cons_of_neg (by simpa using hlt)

namespace Pass

/-- A bullet of the given depth can stand here: a block that is open ends there, and the bullets
around are those above it. -/
structure Ready (size depth : Nat) (p : Pass) : Prop where
  block : ∀ k ∈ p.block, depth * size ≤ k
  columns : p.columns.dropWhile (depth * size ≤ ·) = openColumns size depth

/-- In the lines there is nothing but errors, and nothing at all if and only if all is well. -/
def Judges (size : Nat) (p : Pass) (ls : List Line) (ok : Prop) : Prop :=
  (∀ i ∈ p.issues size ls, i.isError = true) ∧ (p.issues size ls = [] ↔ ok)

theorem Judges.cons {p p' : Pass} {l : Line} {found : List Issue}
    (hvisit : p.visit size l ls = (p', found)) (hfound : ∀ i ∈ found, i.isError = true)
    (h : p'.Judges size ls ok) : p.Judges size (l :: ls) (found = [] ∧ ok) := by
  unfold Judges
  simp only [issues, hvisit, List.append_eq_nil_iff, List.forall_mem_append, h.2, and_true]
  exact ⟨hfound, h.1⟩

/-- Where a child can stand, a sibling of its parent can. -/
theorem Ready.up {p : Pass} (hsize : 0 < size) (h : p.Ready size (depth + 1)) :
    p.Ready size depth where
  block := fun k hk => Nat.le_trans (Nat.mul_le_mul_right _ (Nat.le_succ _)) (h.block k hk)
  columns := by
    have hdeeper : ∀ columns : List Nat, columns.dropWhile (depth * size ≤ ·) =
        (columns.dropWhile ((depth + 1) * size ≤ ·)).dropWhile (depth * size ≤ ·) := by
      intro columns
      induction columns with
      | nil => rfl
      | cons column columns ih =>
          by_cases hc : (depth + 1) * size ≤ column
          · have hc' : depth * size ≤ column :=
              Nat.le_trans (Nat.mul_le_mul_right _ (Nat.le_succ _)) hc
            simp [hc, hc', ih]
          · simp [hc]
    rw [hdeeper, h.columns, openColumns, List.dropWhile_cons_of_pos (by simp)]
    exact dropWhile_openColumns hsize depth

theorem visit_open {p : Pass} {l : Line} (hblank : l.isBlank = false)
    (hblock : ∀ k ∈ p.block, l.indent ≤ k) (next : List Line) :
    p.visit size l next = visitOpen size { p with block := none } l next := by
  have hany : p.block.any (· < l.indent) = false := by
    cases hb : p.block with
    | none => rfl
    | some k => simpa using hblock k (by simp [hb])
  simp [visit, hblank, hany]

/-- What the pass does with a line of a key. -/
theorem visit_keyLine {p : Pass} {l : Line} {margin column : Nat} {key value : Text}
    (hl : Entry.IsKeyLine margin column l key value) (hbullet : p.bullet = some margin)
    (hblock : ∀ k ∈ p.block, column ≤ k) (next : List Line) :
    p.visit size l next = visitContinuation { p with block := none } l next := by
  have hnot : l.isBullet = false := by simp [Line.isBullet, hl.not_bullet]
  have hhead : l.isHeading = false := by simp [Line.isHeading, hl.not_heading]
  have hdeeper : ¬ l.indent ≤ margin := by
    rw [hl.indent_eq]
    exact Nat.not_le.2 hl.deeper
  rw [visit_open hl.not_blank (by rw [hl.indent_eq]; exact hblock)]
  simp [visitOpen, hnot, hhead, hl.not_rule, hbullet, hdeeper]

/-- A written value on the line of its key is as it should be. -/
theorem visitValue_of_form {p : Pass} {l : Line} {key value : Text} (hform : Scalar.Form value)
    (hkey : key ≠ Key.id) : p.visitValue l key value = (p, []) := by
  have hquotes : ∀ start, checkQuotes l start value = [] := by
    intro start
    simp [checkQuotes, unclosedQuote?_of_form hform]
  have hspaces : (!isQuotedString value && value.any isBlank) = false := by
    rcases hform.isQuoted_or with hq | hb
    · simp [hq]
    · have hany : value.any isBlank = false := by simpa using hb
      simp [hany]
  have hkey' : ¬ key = Key.id := hkey
  simp [visitValue, hquotes, hspaces, hkey']

/-- The lines of an open block are passed over. -/
theorem issues_block {p : Pass} {column : Nat} (hp : p.block = some column) {block : List Line}
    (hblock : ∀ m ∈ block, m.isBlank = true ∨ column < m.indent) (next : List Line) :
    p.issues size (block ++ next) = p.issues size next := by
  induction block with
  | nil => rfl
  | cons m block ih =>
      have hskip : (m.isBlank || p.block.any (· < m.indent)) = true := by
        simpa [hp] using hblock m (by simp)
      have := ih fun m hm => hblock m (List.mem_cons_of_mem _ hm)
      simp [issues, visit, hskip, this]

end Pass

/-! ### Bullets and fields -/

/-- Wherever a bullet of this depth can stand, the pass judges the lines by their ids and by
`ok`. -/
def Lints (size depth : Nat) (ls : List Line) (ids : List Text) (ok : Prop) : Prop :=
  ∀ p : Pass, p.Ready size depth → p.Judges size ls (Fresh p.seen ids ∧ ok)

def LintsFields (size depth : Nat) (ls : List Line) (ids : List Text) (ok : Prop) : Prop :=
  ∀ p : Pass, p.bullet = some (depth * size) → p.Ready size (depth + 1) →
    p.Judges size ls (Fresh p.seen ids ∧ ok)

/-- The first line that is not blank, if there is one, ends a block whose key is in the given
column. -/
def EndsBlock (column : Nat) (ls : List Line) : Prop :=
  ∀ l, ls.find? (!·.isBlank) = some l → l.indent ≤ column

theorem EndsBlock.cons {l : Line} {column : Nat} (hblank : l.isBlank = false)
    (hindent : l.indent ≤ column) (ls : List Line) : EndsBlock column (l :: ls) := by
  intro m hm
  rw [List.find?_cons_of_pos (by simp [hblank])] at hm
  obtain rfl := Option.some.inj hm
  exact hindent

theorem EndsBlock.mono {column deeper : Nat} (h : EndsBlock column ls) (hle : column ≤ deeper) :
    EndsBlock deeper ls := fun l hl => Nat.le_trans (h l hl) hle

theorem Lints.up (hsize : 0 < size) (h : Lints size depth ls ids ok) :
    Lints size (depth + 1) ls ids ok := fun p hp => h p (hp.up hsize)

theorem Lints.lintsFields (h : Lints size (depth + 1) ls ids ok) :
    LintsFields size depth ls ids ok := fun p _ hp => h p hp

/-- In blank lines there is nothing to find. -/
theorem lints_blank (size depth : Nat) (h : ∀ l ∈ ls, l.isBlank = true) :
    Lints size depth ls [] True := by
  intro p _
  have hnone : p.issues size ls = [] := by
    induction ls with
    | nil => rfl
    | cons l ls ih =>
        have hl := h l (by simp)
        have := ih fun l hl => h l (List.mem_cons_of_mem _ hl)
        simp [Pass.issues, Pass.visit, hl, this]
  simp [Pass.Judges, hnone, Fresh]

/-- A bullet on which only the id can be wrong. -/
theorem LintsFields.bullet (hsize : 0 < size) {l : Line} {id : Text}
    (hindent : l.indent = depth * size) (hbullet : l.isBullet = true) (hblank : l.isBlank = false)
    (hcontent : l.content ≠ []) (hcheck : ∀ seen, ∃ start, checkContent l seen =
      (addName seen id, if seen.contains id then [.toEnd l (.duplicateId id) start] else []))
    (h : LintsFields size depth ls ids ok) : Lints size depth (l :: ls) (id :: ids) ok := by
  intro p hp
  obtain ⟨start, hstart⟩ := hcheck p.seen
  have hempty : l.content.isEmpty = false := by simpa using hcontent
  have hmultiple : checkIndent size l = [] := by simp [checkIndent, hindent]
  have hnesting : checkNesting size (openColumns size depth) l = [] := by
    cases depth with
    | zero => simp [checkNesting, openColumns, hindent]
    | succ depth =>
        have hstep : (depth + 1) * size - depth * size = size := by
          rw [Nat.succ_mul]
          omega
        simp [checkNesting, openColumns, hindent, hstep]
  set found : List Issue :=
    if p.seen.contains id then [.toEnd l (.duplicateId id) start] else [] with hfound
  set after : Pass := {
    seen := addName p.seen id, columns := depth * size :: openColumns size depth,
    bullet := some (depth * size), block := none } with hafter
  have hvisit : p.visit size l ls = (after, found) := by
    rw [Pass.visit_open hblank (by rw [hindent]; exact hp.block)]
    simp only [Pass.visitOpen, hbullet, if_true, Pass.visitBullet, hempty, Bool.false_eq_true,
      if_false, hstart, hindent, hp.columns, hmultiple, hnesting, List.nil_append, List.append_nil]
    rfl
  have hready : after.Ready size (depth + 1) := by
    refine ⟨by simp [hafter], ?_⟩
    exact dropWhile_openColumns hsize (depth + 1)
  have herrors : ∀ i ∈ found, i.isError = true := by
    intro i hi
    rw [hfound] at hi
    split at hi
    · rw [List.mem_singleton.1 hi]
      rfl
    · cases hi
  have hnone : found = [] ↔ id ∉ p.seen := by simp [hfound]
  have hjudges := Pass.Judges.cons hvisit herrors (h after rfl hready)
  rwa [hnone, ← and_assoc, ← fresh_cons] at hjudges

/-- A written value on the line of its key. -/
theorem LintsFields.field {l : Line} {key value : Text}
    (hl : Entry.IsKeyLine (depth * size) ((depth + 1) * size) l key value)
    (hform : Scalar.Form value) (hmarker : value ≠ Scalar.blockMarker) (hkey : key ≠ Key.id)
    (h : LintsFields size depth ls ids ok) : LintsFields size depth (l :: ls) ids ok := by
  intro p hbullet hp
  have hempty : value.isEmpty = false := by simpa using hform.ne_nil
  have hvisit : p.visit size l ls = ({ p with block := none }, []) := by
    rw [Pass.visit_keyLine hl hbullet hp.block]
    simp [Pass.visitContinuation, hl.keyed, hmarker, hempty, Pass.visitValue_of_form hform hkey]
  have hjudges := Pass.Judges.cons hvisit (by simp)
    (h { p with block := none } hbullet ⟨by simp, hp.columns⟩)
  simpa using hjudges

/-- A block has deeper lines if one of them is not blank. -/
theorem hasDeeper_block {column : Nat} {block : List Line}
    (hblock : ∀ m ∈ block, m.isBlank = true ∨ column < m.indent) (hends : EndsBlock column ls) :
    hasDeeper column (block ++ ls) = true ↔ ∃ m ∈ block, m.isBlank = false := by
  unfold hasDeeper
  rw [List.find?_append]
  cases hfind : block.find? (!·.isBlank) with
  | some m =>
      have hm := List.mem_of_find?_eq_some hfind
      have hblank : m.isBlank = false := by simpa using List.find?_some hfind
      have hlt : column < m.indent := (hblock m hm).resolve_left (by simp [hblank])
      exact iff_of_true (by simpa using hlt) ⟨m, hm, hblank⟩
  | none =>
      have hall : ∀ m ∈ block, m.isBlank = true := by simpa using List.find?_eq_none.1 hfind
      refine iff_of_false ?_ ?_
      · rw [Option.none_or]
        split
        · next l hl => simpa using hends l hl
        · simp
      · rintro ⟨m, hm, hblank⟩
        rw [hall m hm] at hblank
        cases hblank

/-- A value as a block below the line of its key: it must not be blank. -/
theorem LintsFields.block {l : Line} {key : Text} {block : List Line}
    (hl : Entry.IsKeyLine (depth * size) ((depth + 1) * size) l key Scalar.blockMarker)
    (hblock : ∀ m ∈ block, m.isBlank = true ∨ (depth + 1) * size < m.indent)
    (hends : EndsBlock ((depth + 1) * size) ls) (h : LintsFields size depth ls ids ok) :
    LintsFields size depth (l :: (block ++ ls)) ids
      ((∃ m ∈ block, m.isBlank = false) ∧ ok) := by
  intro p hbullet hp
  set column := (depth + 1) * size with hcolumn
  set after : Pass := { p with block := some column } with hafter
  set found : List Issue :=
    if hasDeeper column (block ++ ls) then [] else [.toEnd l (.emptyBlock key) column] with hfound
  have hvisit : p.visit size l (block ++ ls) = (after, found) := by
    rw [Pass.visit_keyLine hl hbullet hp.block]
    simp [Pass.visitContinuation, hl.keyed, hl.indent_eq, hafter, hfound]
  have herrors : ∀ i ∈ found, i.isError = true := by
    intro i hi
    rw [hfound] at hi
    split at hi
    · cases hi
    · rw [List.mem_singleton.1 hi]
      rfl
  have hnone : found = [] ↔ ∃ m ∈ block, m.isBlank = false := by
    rw [← hasDeeper_block hblock hends, hfound]
    simp
  have hskip : after.Judges size (block ++ ls) (Fresh p.seen ids ∧ ok) := by
    have hafter' := h after hbullet ⟨by simp [hafter, hcolumn], hp.columns⟩
    unfold Pass.Judges at hafter' ⊢
    rwa [Pass.issues_block rfl hblock]
  have hjudges := Pass.Judges.cons hvisit herrors hskip
  rwa [hnone, and_left_comm] at hjudges

end Lint

/-! ### Written tasks -/

namespace Layout

open Lint

variable {o : Layout} {t : Task} {depth : Nat} {ls : List Text} {rest : List Line}
  {ids : List Text} {ok : Prop}

theorem isBlank_blockLine (size index n : Nat) (line : Text) :
    (Line.ofText size index (if line.isEmpty then [] else Text.spaces n ++ line)).isBlank = true ↔
      ∀ c ∈ line, isBlank c = true := by
  rw [Line.isBlank_ofText]
  cases line with
  | nil => simp
  | cons c cs =>
      rw [List.isEmpty_cons, if_neg Bool.false_ne_true, List.forall_mem_append]
      exact and_iff_right (Text.isBlank_of_mem_spaces n)

/-- A text is blank if its lines are, for a line feed is blank too. -/
theorem forall_mem_split_blank (t : Text) :
    (∀ line ∈ Text.split '\n' t, ∀ c ∈ line, isBlank c = true) ↔ Section.isBlankText t = true := by
  rw [Section.isBlankText, List.all_eq_true]
  constructor
  · intro h c hc
    rw [← Text.join_split '\n' t] at hc
    rcases Text.mem_join hc with hc | ⟨line, hline, hc⟩
    · rw [List.mem_singleton.1 hc]
      decide
    · exact h line hline c hc
  · exact fun h line hline c hc => h c (Text.mem_of_mem_split hline hc)

/-- The lines of a block are blank if its text is. -/
theorem exists_not_blank_blockLines (size index column : Nat) (t : Text) :
    (∃ m ∈ Line.ofTexts size index (blockLines size column t), m.isBlank = false) ↔
      Section.isBlankText t = false := by
  have hlines : (∀ m ∈ Line.ofTexts size index (blockLines size column t), m.isBlank = true) ↔
      ∀ line ∈ Text.split '\n' t, ∀ c ∈ line, isBlank c = true := by
    unfold blockLines
    induction Text.split '\n' t generalizing index with
    | nil => simp [Line.ofTexts]
    | cons line lines ih =>
        simp only [List.map_cons, Line.ofTexts, List.forall_mem_cons, isBlank_blockLine, ih]
  rw [← Bool.not_eq_true, ← forall_mem_split_blank, ← hlines]
  simp

/-- The lines of a field can be wrong only in that they are a blank block. -/
theorem lints_fieldLines (hstep : 0 < o.step) (hwrap : o.wrapWidth = none) {f : Text × Value}
    (hkey : IsKey f.1 ∧ f.1 ≠ Key.id)
    (hls : o.fieldLines (Text.spaces (depth * o.step)) f = .ok ls) (index : Nat)
    (hends : EndsBlock ((depth + 1) * o.step) rest)
    (h : LintsFields o.step depth rest ids ok) :
    LintsFields o.step depth (Line.ofTexts o.step index ls ++ rest) ids
        ((∀ x ∈ blockValue? o.longValue f.2, Section.isBlankText x = false) ∧ ok) ∧
      EndsBlock ((depth + 1) * o.step) (Line.ofTexts o.step index ls ++ rest) := by
  have hcolumn : depth * o.step + o.step = (depth + 1) * o.step := (Nat.succ_mul _ _).symm
  have hdeeper : depth * o.step < (depth + 1) * o.step := by omega
  have hlines := (fieldLines_eq_ok hwrap).1 hls
  rw [hcolumn] at hlines
  rcases hlines with ⟨x, hx, rfl⟩ | ⟨hnone, w, hw, rfl⟩
  · have hline := isKeyLine_marker o.step index hkey.1 hdeeper
    have hblock := h.block hline
      (readLine_of_blockLines hstep (index + 1) ((depth + 1) * o.step) (Text.split '\n' x)).1 hends
    have hblank := exists_not_blank_blockLines o.step (index + 1) ((depth + 1) * o.step) x
    unfold blockLines at hblank
    rw [hblank] at hblock
    simp only [hx, Option.mem_some_iff, forall_eq']
    exact ⟨hblock, .cons hline.not_blank (Nat.le_of_eq hline.indent_eq) _⟩
  · obtain ⟨hform, hmarker⟩ := Scalar.form_of_write hw
    have hline := isKeyLine_form o.step index hkey.1 hdeeper hform
    have hfield := h.field hline hform hmarker hkey.2
    simp only [hnone, Option.not_mem_none, false_implies, implies_true, true_and]
    exact ⟨hfield, .cons hline.not_blank (Nat.le_of_eq hline.indent_eq) _⟩

/-- The lines of fields below a bullet. -/
theorem lints_fields (hstep : 0 < o.step) (hwrap : o.wrapWidth = none) {fs : Fields}
    {groups : List (List Text)} (hkeys : ∀ f ∈ fs, IsKey f.1 ∧ f.1 ≠ Key.id)
    (hgroups : List.Forall₂
      (fun f ls => o.fieldLines (Text.spaces (depth * o.step)) f = .ok ls) fs groups) (index : Nat)
    (hends : EndsBlock ((depth + 1) * o.step) rest) (h : LintsFields o.step depth rest ids ok) :
    LintsFields o.step depth (Line.ofTexts o.step index groups.flatten ++ rest) ids
        ((∀ x ∈ fs.filterMap fun f => blockValue? o.longValue f.2,
          Section.isBlankText x = false) ∧ ok) ∧
      EndsBlock ((depth + 1) * o.step) (Line.ofTexts o.step index groups.flatten ++ rest) := by
  induction hgroups generalizing index with
  | nil => simpa [Line.ofTexts] using ⟨h, hends⟩
  | @cons f ls fs groups hf _ ih =>
      obtain ⟨hfields, hfieldsEnds⟩ :=
        ih (fun f hf => hkeys f (List.mem_cons_of_mem _ hf)) (index + ls.length)
      have hfirst := lints_fieldLines hstep hwrap (hkeys f (by simp)) hf index hfieldsEnds hfields
      rw [← List.append_assoc, ← Line.ofTexts_append, ← and_assoc] at hfirst
      have hblocks : (∀ x ∈ (f :: fs).filterMap fun f => blockValue? o.longValue f.2,
          Section.isBlankText x = false) ↔
          (∀ x ∈ blockValue? o.longValue f.2, Section.isBlankText x = false) ∧
            ∀ x ∈ fs.filterMap fun f => blockValue? o.longValue f.2,
              Section.isBlankText x = false := by
        cases hb : blockValue? o.longValue f.2 <;> simp [hb]
      rw [hblocks]
      exact hfirst

/-- The lines of a task: its id must be new, and none of its blocks may be blank. -/
theorem lints_taskLines (hstep : 0 < o.step) (hwrap : o.wrapWidth = none) (ht : t.Sound)
    {id : Text} (hid : t.id? = some id) (hkept : KeepsId t)
    (hls : o.taskLines depth t = .ok ls) (index : Nat)
    (hends : EndsBlock ((depth + 1) * o.step) rest)
    (h : Lints o.step (depth + 1) rest ids ok) :
    Lints o.step depth (Line.ofTexts o.step index ls ++ rest) (id :: ids)
        ((∀ x ∈ o.blocks t, Section.isBlankText x = false) ∧ ok) ∧
      EndsBlock (depth * o.step) (Line.ofTexts o.step index ls ++ rest) := by
  have hne : id ≠ [] := by
    obtain ⟨id', hne, hid'⟩ := ht.has_id
    rw [hid] at hid'
    exact Option.some.inj hid' ▸ hne
  obtain ⟨kvs, groups, rfl, hkvs, hgroups⟩ := taskLines_shape ht hid hls
  have hlead := legible_lead (o := o) ht
  have hfields := form_of_mem_idFields hkvs (hkept id hid)
  obtain ⟨-, hindent, hbullet, hblank⟩ :=
    ofText_bulletLine o.step index (depth * o.step) t.title? hlead hfields (by simp)
  obtain ⟨hcontent, -, -⟩ := content_of_words t.title? hlead hfields (by simp)
  set l := Line.ofText o.step index (o.idBullet depth t kvs id) with hl
  have hcontent' : l.content = Text.join [' '] (Bullet.words
      (lead (!isMultiline o.longValue t) t.fields) t.title? (kvs ++ [(Key.id, writeId id)])) := by
    rw [Line.content, hl, idBullet, hbullet]
    rfl
  obtain ⟨hform, hdequote⟩ := form_writeId (hkept id hid)
  have hcheck := fun seen => checkContent_words seen hlead (countP_priority_lead _ _) hkvs hne hform
    hdequote hcontent'
  obtain ⟨hbelow, -⟩ := lints_fields hstep hwrap (fun f => of_mem_fieldsBelow ht) hgroups
    (index + 1) hends h.lintsFields
  refine ⟨hbelow.bullet hstep hindent ?_ hblank (by rw [hcontent']; exact hcontent) hcheck,
    .cons hblank (Nat.le_of_eq hindent) _⟩
  rw [Line.isBullet, idBullet, hbullet]
  rfl

/-- The lines of a forest: the ids must be new, and no block may be blank. -/
theorem lints_forestLines (hstep : 0 < o.step) (hwrap : o.wrapWidth = none) {f : Forest Task}
    (hf : ∀ t ∈ f.toList, t.Sound ∧ KeepsId t) (hls : o.forestLines depth f = .ok ls)
    (index : Nat) (hends : EndsBlock (depth * o.step) rest) (h : Lints o.step depth rest ids ok) :
    Lints o.step depth (Line.ofTexts o.step index ls ++ rest) (Task.ids f.toList ++ ids)
        ((∀ t ∈ f.toList, ∀ x ∈ o.blocks t, Section.isBlankText x = false) ∧ ok) ∧
      EndsBlock (depth * o.step) (Line.ofTexts o.step index ls ++ rest) := by
  induction f generalizing depth ls index rest ids ok with
  | nil =>
      obtain rfl := Except.ok.inj hls
      simpa [Line.ofTexts, Forest.toList, Task.ids] using ⟨h, hends⟩
  | cons t children siblings ihc ihs =>
      obtain ⟨lines, below, later, hlines, hbelow, hlater, rfl⟩ := forestLines_cons hls
      simp only [Forest.toList, List.forall_mem_cons, List.forall_mem_append] at hf
      obtain ⟨⟨ht, hkept⟩, hc, hs⟩ := hf
      have hdeeper : depth * o.step ≤ (depth + 1) * o.step :=
        Nat.mul_le_mul_right _ (Nat.le_succ _)
      obtain ⟨hlints, hlintsEnds⟩ := ihs hs hlater (index + lines.length + below.length) hends h
      obtain ⟨hlintsc, hlintscEnds⟩ := ihc hc hbelow (index + lines.length)
        (hlintsEnds.mono hdeeper) (hlints.up hstep)
      obtain ⟨id, -, hid⟩ := ht.has_id
      have htask := lints_taskLines hstep hwrap ht hid hkept hlines index hlintscEnds hlintsc
      have hids : Task.ids (Forest.cons t children siblings).toList ++ ids =
          id :: (Task.ids children.toList ++ (Task.ids siblings.toList ++ ids)) := by
        simp [Forest.toList, Task.ids, hid]
      rw [hids]
      simp only [Forest.toList, List.forall_mem_cons, List.forall_mem_append, Line.ofTexts_append,
        List.append_assoc, and_assoc] at htask ⊢
      simpa [Nat.add_assoc] using htask

/-- The linter on lines of written tasks with blank lines after them. -/
theorem judges_forestLines (hstep : 0 < o.step) (hwrap : o.wrapWidth = none) {f : Forest Task}
    (hf : ∀ t ∈ f.toList, t.Sound ∧ KeepsId t) (hls : o.forestLines 0 f = .ok ls) (index : Nat)
    (hrest : ∀ l ∈ rest, l.isBlank = true) :
    ({} : Pass).Judges o.step (Line.ofTexts o.step index ls ++ rest)
      ((Task.ids f.toList).Nodup ∧
        ∀ t ∈ f.toList, ∀ x ∈ o.blocks t, Section.isBlankText x = false) := by
  have hends : EndsBlock (0 * o.step) rest := by
    intro l hl
    have hblank := hrest l (List.mem_of_find?_eq_some hl)
    have hnot : l.isBlank = false := by simpa using List.find?_some hl
    rw [hblank] at hnot
    cases hnot
  obtain ⟨hlints, -⟩ :=
    lints_forestLines hstep hwrap hf hls index hends (lints_blank o.step 0 hrest)
  have hjudges := hlints {} ⟨by simp, rfl⟩
  simpa [Fresh] using hjudges

end Layout

/-! ### Writable tasks -/

/-- A text that a block keeps is not blank: its last line is not empty and does not end with a
blank. -/
theorem Layout.BlockSafe.not_blank {t : Text} (h : BlockSafe t) :
    Section.isBlankText t = false := by
  by_contra hblank
  have hall : ∀ c ∈ t, isBlank c = true := by simpa [Section.isBlankText] using hblank
  have hlast := List.getLast?_eq_some_getLast (Text.split_ne_nil '\n' t)
  have hmem := List.mem_of_getLast? hlast
  apply h.last_line
  rw [hlast, ← h.lines_end _ hmem,
    Text.stripEnd_eq_nil.2 fun c hc => hall c (Text.mem_of_mem_split hmem hc)]

/-- No block of a writable task is blank. -/
theorem Task.Writable.not_blank {o : Layout} {t : Task} (h : t.Writable o.longValue) :
    ∀ x ∈ o.blocks t, Section.isBlankText x = false := by
  intro x hx
  obtain ⟨⟨key, v⟩, hf, hblock⟩ := List.mem_filterMap.1 hx
  unfold Layout.fieldsBelow at hf
  split at hf
  · obtain ⟨hm, htitle, hid, -⟩ := Layout.mem_otherFields.1 hf
    cases v with
    | text s =>
        have hvalue := h.values _ hm
        simp only [Layout.blockValue?, Option.ite_none_right_eq_some, Option.some.injEq] at hblock
        obtain ⟨hb, rfl⟩ := hblock
        apply Layout.BlockSafe.not_blank
        apply hvalue.2.2 hid htitle
        simp only [Layout.isBlock, Bool.or_eq_true, List.contains_iff_mem, Bool.and_eq_true,
          decide_eq_true_eq] at hb
        exact hb.imp_right fun h => h.1
    | _ => cases hblock
  · cases hf

/-- The linter finds nothing in the lines of a writable forest whose ids are distinct, neither an
error nor a warning, whatever the step and the length of long values are. -/
theorem Layout.run_lines (o : Layout) (hstep : 0 < o.step) (hwrap : o.wrapWidth = none)
    (f : Forest Task) (hf : ∀ t ∈ f.toList, t.Writable o.longValue)
    (hids : (Task.ids f.toList).Nodup) :
    ∃ ls, o.lines f = .ok ls ∧ Lint.run o.step none ls = [] := by
  obtain ⟨⟨ls, hls⟩, -⟩ :=
    (forest_survives_iff fun t ht => (hf t ht).wellFormed).2 fun t ht => (hf t ht).survives
  have hblank : ∀ l ∈ ([] : List Line), l.isBlank = true := by simp
  have hjudges := judges_forestLines hstep hwrap
    (fun t ht => ⟨(hf t ht).wellFormed.sound, (hf t ht).keepsId⟩) hls 0 hblank
  have hnone := hjudges.2.2 ⟨hids, fun t ht => (hf t ht).not_blank⟩
  refine ⟨ls, hls, ?_⟩
  simpa [Lint.run, Section.region, Section.Region.lines] using hnone

/-- A task with a long text, one below it with a block that begins with a blank line, and one whose
id needs quotes. -/
theorem Layout.run_lines_nested :
    let parent : Task :=
      { fields := [(Key.id, .text "a b"), (Key.title, .text "it's \"here\""),
          (Key.tags, .names ["x y", "z"]), ("link", .text "a text of more than ten")] }
    let child : Task :=
      { fields := [(Key.completed, .flag true), (Key.priority, .text "urgent"),
          ("note", .text "\n- one\n  two"), ("due", .text "7"), (Key.id, .text "#c")] }
    let sibling : Task :=
      { fields := [(Key.priority, .text "A"), (Key.stakeholders, .names ["me"]),
          ("cost", .number (.int (-7))), (Key.id, .text "c, \"d\"")] }
    let f : Forest Task := .cons parent (.cons child .nil .nil) (.cons sibling .nil .nil)
    ((∀ t ∈ f.toList, t.Writable 10) ∧ (Task.ids f.toList).Nodup) ∧
      ∃ ls, ({ step := 3, longValue := 10 } : Layout).lines f = .ok ls ∧
        Lint.run 3 none ls = [] := by
  intro parent child sibling f
  have hparent : parent.Writable 10 :=
    ⟨by decide, by decide, by decide, "a b", by decide, by decide, by decide⟩
  have hchild : child.Writable 10 :=
    ⟨by decide, by decide, by decide, "#c", by decide, by decide, by decide⟩
  have hsibling : sibling.Writable 10 :=
    ⟨by decide, by decide, by decide, "c, \"d\"", by decide, by decide, by decide⟩
  have hf : ∀ t ∈ f.toList, t.Writable 10 := by
    simpa [f, Forest.toList] using ⟨hparent, hchild, hsibling⟩
  have hids : (Task.ids f.toList).Nodup := by decide
  exact ⟨⟨hf, hids⟩, run_lines { step := 3, longValue := 10 } (by decide) rfl f hf hids⟩

end Agenda
