import Agenda.Proofs.Line
import Mathlib.Data.List.Forall2

/-!
How the lines of a task are gathered into an entry. A bullet closes every block that stands as
deep as it does or deeper, a line of a key closes the block before it, and whatever stands deeper
than the key of an open block belongs to that block. So the lines of an entry can be read from
its last line to its first, whatever the reader has seen before.
-/

namespace Agenda

namespace Reader

variable {r : Reader} {l : Line} {next : List Line}

theorem inBlock_eq_false (hblank : l.isBlank = false) (h : ∀ k ∈ r.block, l.indent ≤ k) :
    r.inBlock l = false := by
  unfold inBlock
  cases hb : r.block with
  | none => rfl
  | some k =>
      have := h k (by simp [hb])
      simp [hblank, Nat.not_lt.2 this]

theorem role_bullet {content : Text} (hb : l.bullet? = some content) (hblank : l.isBlank = false)
    (h : ∀ k ∈ r.block, l.indent ≤ k) : r.role l next = .bullet content := by
  simp [role, inBlock_eq_false hblank h, hblank, hb]

theorem role_keyed {key value : Text} (hkey : l.keyed? = some (key, value))
    (hblank : l.isBlank = false) (hb : l.bullet? = none) (hin : r.inTask l = true)
    (h : ∀ k ∈ r.block, l.indent ≤ k) :
    r.role l next =
      if value = Scalar.blockMarker || (value.isEmpty && isDeeper l.indent next) then .block key
      else .field key value := by
  simp [role, inBlock_eq_false hblank h, hblank, hb, hin, hkey]

theorem role_blockLine {k : Nat} (hr : r.block = some k) (h : l.isBlank = true ∨ k < l.indent) :
    r.role l next = .blockLine := by
  have : r.inBlock l = true := by
    rcases h with h | h <;> simp [inBlock, hr, h]
  simp [role, this]

theorem role_blank (hr : r.block = none) (h : l.isBlank = true) : r.role l next = .blank := by
  simp [role, inBlock, hr, h]

/-- A line with its role, and everything that was asked of the line on the way to it. -/
inductive Takes (r : Reader) (l : Line) (next : List Line) : Role → Prop
  | blockLine (inside : r.inBlock l = true) : Takes r l next .blockLine
  | blank (apart : r.inBlock l = false) (blank : l.isBlank = true) : Takes r l next .blank
  | bullet {content : Text} (apart : r.inBlock l = false) (text : l.isBlank = false)
      (bullet : l.bullet? = some content) : Takes r l next (.bullet content)
  | outside (apart : r.inBlock l = false) (text : l.isBlank = false)
      (no_bullet : l.bullet? = none) (away : r.inTask l = false) : Takes r l next .outside
  | stray (apart : r.inBlock l = false) (text : l.isBlank = false)
      (no_bullet : l.bullet? = none) (below : r.inTask l = true) (keyless : l.keyed? = none) :
      Takes r l next .stray
  | block {key value : Text} (apart : r.inBlock l = false) (text : l.isBlank = false)
      (no_bullet : l.bullet? = none) (below : r.inTask l = true)
      (keyed : l.keyed? = some (key, value))
      (opens : value = Scalar.blockMarker ∨ value = [] ∧ isDeeper l.indent next = true) :
      Takes r l next (.block key)
  | field {key value : Text} (apart : r.inBlock l = false) (text : l.isBlank = false)
      (no_bullet : l.bullet? = none) (below : r.inTask l = true)
      (keyed : l.keyed? = some (key, value)) (not_marker : value ≠ Scalar.blockMarker)
      (ends : value = [] → isDeeper l.indent next = false) : Takes r l next (.field key value)

theorem takes_role (r : Reader) (l : Line) (next : List Line) :
    r.Takes l next (r.role l next) := by
  unfold role
  split
  · next inside => exact .blockLine inside
  next apart =>
  rw [Bool.not_eq_true] at apart
  split
  · next blank => exact .blank apart blank
  next text =>
  rw [Bool.not_eq_true] at text
  split
  · next bullet => exact .bullet apart text bullet
  next no_bullet =>
  split
  · next away => exact .outside apart text no_bullet (by simpa using away)
  next below =>
  have below : r.inTask l = true := by simpa using below
  split
  · next keyless => exact .stray apart text no_bullet below keyless
  next keyed =>
  split
  · next opens => exact .block apart text no_bullet below keyed (by simpa using opens)
  · next ends =>
      simp only [Bool.or_eq_true, decide_eq_true_eq, Bool.and_eq_true, List.isEmpty_iff, not_or,
        not_and, Bool.not_eq_true] at ends
      exact .field apart text no_bullet below keyed ends.1 ends.2

theorem inTask_of_lt {b : Nat} (hr : r.bullet = some b) (hlt : b < l.indent)
    (hhead : l.heading? = none) (hrule : l.isRule = false) : r.inTask l = true := by
  simp [inTask, Line.isHeading, hhead, hrule, hr, hlt]

end Reader

namespace Entry

def gatherFrom (size : Nat) (r : Reader) (ls : List Line) : Gathered :=
  (r.roles ls).foldr (fun (l, role) => gather size l role) {}

theorem gatherFrom_cons (size : Nat) (r : Reader) (l : Line) (ls : List Line) :
    gatherFrom size r (l :: ls) =
      gather size l (r.role l ls) (gatherFrom size (r.after l (r.role l ls)) ls) := rfl

/-- Whatever block is open at `column` or deeper, the lines are the given entries, and nothing
before the first of these. -/
def Reads (size column : Nat) (ls : List Line) (es : List Entry) : Prop :=
  ∀ r : Reader, (∀ k ∈ r.block, column ≤ k) →
    (gatherFrom size r ls).fields = [] ∧ (∀ l ∈ (gatherFrom size r ls).block, l.isBlank = true) ∧
      (gatherFrom size r ls).entries = es

/-- After a bullet in column `margin`, the lines are its fields, in the given column, and then
the given entries. -/
def ReadsFields (size margin column : Nat) (ls : List Line) (fields : List (Text × Written))
    (es : List Entry) : Prop :=
  ∀ r : Reader, r.bullet = some margin → (∀ k ∈ r.block, column ≤ k) →
    (gatherFrom size r ls).fields = fields ∧
      (∀ l ∈ (gatherFrom size r ls).block, l.isBlank = true) ∧
      (gatherFrom size r ls).entries = es

/-- Outside a task no line sets a field. -/
theorem fields_gatherFrom_outside (size : Nat) (ls : List Line) :
    (gatherFrom size ⟨none, none⟩ ls).fields = [] := by
  induction ls with
  | nil => rfl
  | cons l ls ih =>
      rw [gatherFrom_cons]
      by_cases hblank : l.isBlank = true
      · rw [Reader.role_blank rfl hblank]
        exact ih
      · cases hb : l.bullet? with
        | some content =>
            rw [Reader.role_bullet hb (by simpa using hblank) (by simp)]
            rfl
        | none =>
            have hrole : Reader.role ⟨none, none⟩ l ls = .outside := by
              simp [Reader.role, Reader.inBlock, Reader.inTask, hblank, hb]
            rw [hrole]
            exact ih

/-- A line at the margin leaves the task above it without fields, unless a block is open. -/
theorem fields_gatherFrom_of_margin {size : Nat} {b : Option Nat} {ls : List Line}
    (h : ∀ l, ls.find? (!·.isBlank) = some l → l.indent = 0) :
    (gatherFrom size ⟨b, none⟩ ls).fields = [] := by
  induction ls with
  | nil => rfl
  | cons l ls ih =>
      rw [gatherFrom_cons]
      by_cases hblank : l.isBlank = true
      · rw [Reader.role_blank rfl hblank]
        exact ih fun m hm => h m (by simpa [hblank] using hm)
      · have hindent := h l (by simp [hblank])
        cases hb : l.bullet? with
        | some content =>
            rw [Reader.role_bullet hb (by simpa using hblank) (by simp)]
            rfl
        | none =>
            have hrole : Reader.role ⟨b, none⟩ l ls = .outside := by
              simp [Reader.role, Reader.inBlock, Reader.inTask, hblank, hb, hindent]
            rw [hrole]
            exact fields_gatherFrom_outside size ls

variable {size margin column : Nat} {ls : List Line} {fields : List (Text × Written)}
  {es : List Entry}

/-- A bullet starts an entry, whatever comes after it. -/
theorem reads_bullet (size : Nat) {l : Line} {content : Text} (hb : l.bullet? = some content)
    (hblank : l.isBlank = false) (ls : List Line) :
    Reads size l.indent (l :: ls)
      (⟨l, content, (gatherFrom size ⟨some l.indent, none⟩ ls).fields⟩ ::
        (gatherFrom size ⟨some l.indent, none⟩ ls).entries) := by
  intro r hr
  rw [gatherFrom_cons, Reader.role_bullet hb hblank hr]
  exact ⟨rfl, by simp [gather], rfl⟩

theorem Reads.mono {deeper : Nat} (h : Reads size column ls es) (hle : column ≤ deeper) :
    Reads size deeper ls es := fun r hr => h r fun k hk => Nat.le_trans hle (hr k hk)

theorem Reads.readsFields (h : Reads size column ls es) (margin : Nat) :
    ReadsFields size margin column ls [] es := fun r _ hr => h r hr

/-- Blank lines at the end say nothing. -/
theorem reads_blank (size column : Nat) {ls : List Line} (h : ∀ l ∈ ls, l.isBlank = true) :
    Reads size column ls [] := by
  intro r hr
  induction ls with
  | nil => exact ⟨rfl, by simp [gatherFrom, Reader.roles], rfl⟩
  | cons l ls ih =>
      have hl := h l (by simp)
      obtain ⟨hf, hb, he⟩ := ih fun l hl => h l (List.mem_cons_of_mem _ hl)
      rw [gatherFrom_cons]
      cases hr : r.block with
      | none =>
          rw [Reader.role_blank hr hl]
          exact ⟨hf, hb, he⟩
      | some k =>
          rw [Reader.role_blockLine hr (.inl hl)]
          refine ⟨hf, ?_, he⟩
          intro m hm
          rcases List.mem_cons.mp hm with rfl | hm
          · exact hl
          · exact hb m hm

/-- A bullet takes the fields after it. -/
theorem ReadsFields.bullet {l : Line} {content : Text} (hcol : l.indent = margin)
    (hb : l.bullet? = some content) (hblank : l.isBlank = false)
    (h : ReadsFields size margin column ls fields es) :
    Reads size margin (l :: ls) (⟨l, content, fields⟩ :: es) := by
  intro r hr
  rw [gatherFrom_cons, Reader.role_bullet hb hblank (by rw [hcol]; exact hr)]
  obtain ⟨hf, -, he⟩ := h ⟨some l.indent, none⟩ (by rw [hcol]) (by simp)
  simp [gather, Reader.after, hf, he]

structure IsKeyLine (margin column : Nat) (l : Line) (key value : Text) : Prop where
  indent_eq : l.indent = column
  deeper : margin < column
  keyed : l.keyed? = some (key, value)
  not_blank : l.isBlank = false
  not_bullet : l.bullet? = none
  not_heading : l.heading? = none
  not_rule : l.isRule = false

theorem IsKeyLine.role {l : Line} {key value : Text} (hl : IsKeyLine margin column l key value)
    {r : Reader} (hr : r.bullet = some margin) (hblock : ∀ k ∈ r.block, column ≤ k)
    (hne : value ≠ []) (next : List Line) :
    r.role l next = if value = Scalar.blockMarker then .block key else .field key value := by
  have hin := Reader.inTask_of_lt hr (by rw [hl.indent_eq]; exact hl.deeper) hl.not_heading
    hl.not_rule
  have hempty : value.isEmpty = false := by simpa using hne
  rw [Reader.role_keyed hl.keyed hl.not_blank hl.not_bullet hin
    (by rw [hl.indent_eq]; exact hblock)]
  simp [hempty]

/-- A value on the line of its key. -/
theorem ReadsFields.field {l : Line} {key value : Text}
    (hl : IsKeyLine margin column l key value) (hne : value ≠ [])
    (hmarker : value ≠ Scalar.blockMarker) (h : ReadsFields size margin column ls fields es) :
    ReadsFields size margin column (l :: ls) ((key, .inline value) :: fields) es := by
  intro r hr hblock
  rw [gatherFrom_cons, hl.role hr hblock hne, if_neg hmarker]
  obtain ⟨hf, hb, he⟩ := h ⟨r.bullet, none⟩ hr (by simp)
  simp only [gather, Reader.after]
  exact ⟨by rw [hf], hb, he⟩

theorem gatherFrom_block {k : Nat} {b : Option Nat} {block : List Line}
    (hblock : ∀ m ∈ block, m.isBlank = true ∨ k < m.indent) :
    gatherFrom size ⟨b, some k⟩ (block ++ ls) =
      { gatherFrom size ⟨b, some k⟩ ls with
        block := block ++ (gatherFrom size ⟨b, some k⟩ ls).block } := by
  induction block with
  | nil => rfl
  | cons m block ih =>
      rw [List.cons_append, gatherFrom_cons, Reader.role_blockLine rfl (hblock m (by simp))]
      have := ih fun m hm => hblock m (List.mem_cons_of_mem _ hm)
      simp only [Reader.after, gather, this]
      rfl

/-- The blank lines at the end of a block are no part of its text. -/
theorem blockText_append_blank (size key : Nat) (block : List Line) {blanks : List Line}
    (h : ∀ l ∈ blanks, l.isBlank = true) :
    blockText size key (block ++ blanks) = blockText size key block := by
  have hnil : ∀ t ∈ (blanks.map (blockLine (key + size))).reverse, t.isEmpty = true := by
    intro t ht
    obtain ⟨l, hl, rfl⟩ := List.mem_map.mp (List.mem_reverse.mp ht)
    simp [blockLine, h l hl]
  unfold blockText
  simp only [List.map_append, List.reverse_append]
  rw [List.dropWhile_append_of_pos hnil]

/-- A value as a block below the line of its key. -/
theorem ReadsFields.block {l : Line} {key : Text} {block : List Line}
    (hl : IsKeyLine margin column l key Scalar.blockMarker)
    (hblock : ∀ m ∈ block, m.isBlank = true ∨ column < m.indent)
    (h : ReadsFields size margin column ls fields es) :
    ReadsFields size margin column (l :: (block ++ ls))
      ((key, .block (blockText size column block)) :: fields) es := by
  intro r hr hopen
  obtain ⟨hf, hb, he⟩ := h ⟨r.bullet, some column⟩ hr (by simp)
  rw [gatherFrom_cons, hl.role hr hopen (by decide), if_pos rfl]
  simp only [gather, Reader.after, hl.indent_eq, gatherFrom_block hblock,
    blockText_append_blank size column block hb]
  exact ⟨by rw [hf], by simp, he⟩

/-! ### The lines of an entry -/

/-- The lines that a field stands on below a bullet: one line with the key and the value, or a
line with the key and the lines of a block. -/
inductive FieldLines (size margin column : Nat) : List Line → Text × Written → Prop
  | inline {l : Line} {key value : Text} (line : IsKeyLine margin column l key value)
      (form : Scalar.Form value) (not_marker : value ≠ Scalar.blockMarker) :
      FieldLines size margin column [l] (key, .inline value)
  | block {l : Line} {key : Text} {block : List Line}
      (line : IsKeyLine margin column l key Scalar.blockMarker)
      (inside : ∀ m ∈ block, m.isBlank = true ∨ column < m.indent) :
      FieldLines size margin column (l :: block) (key, .block (blockText size column block))

theorem FieldLines.readsFields {w : Text × Written} {rest : List Line}
    (h : FieldLines size margin column ls w)
    (hrest : ReadsFields size margin column rest fields es) :
    ReadsFields size margin column (ls ++ rest) (w :: fields) es := by
  cases h with
  | inline line form not_marker => exact hrest.field line form.ne_nil not_marker
  | block line inside => exact hrest.block line inside

structure EntryLines (size margin : Nat) (ls : List Line) (e : Entry) : Prop where
  indent_eq : e.line.indent = margin
  bullet : e.line.bullet? = some e.content
  not_blank : e.line.isBlank = false
  below : ∃ groups, ls = e.line :: groups.flatten ∧
    List.Forall₂ (FieldLines size margin (margin + size)) groups e.fields

theorem readsFields_flatten {groups : List (List Line)} {rest : List Line}
    (h : List.Forall₂ (FieldLines size margin column) groups fields)
    (hrest : Reads size column rest es) :
    ReadsFields size margin column (groups.flatten ++ rest) fields es := by
  induction h with
  | nil => exact hrest.readsFields margin
  | cons hfirst _ ih =>
      rw [List.flatten_cons, List.append_assoc]
      exact hfirst.readsFields ih

/-- The lines of an entry are read as that entry, before whatever starts no deeper than its
fields. -/
theorem EntryLines.reads {e : Entry} {rest : List Line} (h : EntryLines size margin ls e)
    (hrest : Reads size (margin + size) rest es) : Reads size margin (ls ++ rest) (e :: es) := by
  obtain ⟨groups, rfl, hgroups⟩ := h.below
  have hfields := readsFields_flatten hgroups hrest
  exact hfields.bullet h.indent_eq h.bullet h.not_blank

end Entry

end Agenda
