import Agenda.Proofs.Fields
import Agenda.Table
import Mathlib.Data.List.Forall2

/-!
Tables are rectangular. A cell is one line, no wider than its column, and its bars have backslashes
before them; a blank parts it from the next bar of the table, so that a backslash at its end does no
harm. Lines of such cells have the same width and one bar more than there are cells. Of the wide
characters nothing is used but that none of them is an ASCII one, so a later standard may add
others.
-/

namespace Agenda

/-! ### Widths -/

namespace Text

variable {p : Char → Bool} {t : Text} {c : Char}

/-- Every ASCII character is outside the class. -/
def SparesAscii (p : Char → Bool) : Prop := ∀ c : Char, c.toNat < 128 → p c = false

theorem inRanges_of_lt {n : Nat} {ranges : List (Nat × Nat)}
    (h : ∀ r, ranges.head? = some r → n < r.1) : inRanges n ranges = false := by
  cases ranges with
  | nil => rfl
  | cons r ranges => exact if_pos (h r rfl)

/-- The tables of wide and of unassigned characters begin after ASCII. -/
theorem sparesAscii_isWide : SparesAscii isWide := by
  intro c h
  have hwide : inRanges c.toNat wide = false := inRanges_of_lt fun r hr => by
    obtain rfl : (0x1100, 0x115F) = r := Option.some.inj hr
    exact Nat.lt_trans h (by decide)
  have hunassigned : isUnassigned c = false := inRanges_of_lt fun r hr => by
    obtain rfl : (0x378, 0x379) = r := Option.some.inj hr
    exact Nat.lt_trans h (by decide)
  rw [isWide, hwide, hunassigned, Bool.or_self]

@[simp] theorem width_append (p : Char → Bool) (s t : Text) :
    width p (s ++ t) = width p s + width p t := by
  simp [width]

theorem width_of_ascii (hp : SparesAscii p) (h : ∀ c ∈ t, c.toNat < 128) :
    width p t = t.length := by
  induction t with
  | nil => rfl
  | cons c t ih =>
      rw [List.forall_mem_cons] at h
      rw [← List.singleton_append, width_append, ih h.2, List.length_append]
      simp [width, hp c h.1]

theorem width_replicate (hp : SparesAscii p) (h : c.toNat < 128) (n : Nat) :
    width p (List.replicate n c) = n := by
  rw [width_of_ascii hp fun d hd => List.eq_of_mem_replicate hd ▸ h, List.length_replicate]

theorem width_join (p : Char → Bool) (sep : Text) {pieces : List Text} (hne : pieces ≠ []) :
    width p (join sep pieces) + width p sep =
      (pieces.map (width p)).sum + pieces.length * width p sep := by
  induction pieces with
  | nil => exact absurd rfl hne
  | cons piece pieces ih =>
      cases pieces with
      | nil => simp [join]
      | cons next pieces =>
          have hrest := ih (List.cons_ne_nil _ _)
          rw [join_cons_cons, width_append, width_append, List.map_cons, List.sum_cons,
            List.length_cons, Nat.succ_mul]
          omega

theorem width_spaces (hp : SparesAscii p) (n : Nat) : width p (spaces n) = n :=
  width_replicate hp (by decide) n

end Text

namespace Table

/-! ### Cells -/

/-- How many bars of the text have no backslash right before them; `escaped` says whether there is
one before the text. -/
def bars (escaped : Bool) : Text → Nat
  | [] => 0
  | c :: t => (if c = '|' && !escaped then 1 else 0) + bars (c = '\\') t

variable {wide : Char → Bool}

structure Fits (wide : Char → Bool) (width : Nat) (cell : Text) : Prop where
  narrow : Text.width wide cell ≤ width
  oneLine : '\n' ∉ cell
  /-- With a blank after it, it has no bar that counts. -/
  barless : ∀ escaped rest, bars escaped (cell ++ ' ' :: rest) = bars false rest

variable {width : Nat} {t : Text}

theorem bars_of_not_mem (h : '|' ∉ t) (escaped : Bool) (rest : Text) :
    bars escaped (t ++ ' ' :: rest) = bars false rest := by
  induction t generalizing escaped with
  | nil => simp [bars]
  | cons c t ih =>
      rw [List.mem_cons, not_or] at h
      rw [List.cons_append, bars, ih h.2]
      simp [Ne.symm h.1]

theorem bars_replaceChar (t : Text) (escaped : Bool) (rest : Text) :
    bars escaped (Text.replaceChar '|' ['\\', '|'] t ++ ' ' :: rest) = bars false rest := by
  induction t generalizing escaped with
  | nil => simp [Text.replaceChar, bars]
  | cons c t ih =>
      unfold Text.replaceChar at ih ⊢
      rw [List.flatMap_cons]
      split
      · -- The backslash takes the bar with it, and the next character stands alone.
        simp [bars, ih]
      · next hc => simp [bars, ih, hc]

theorem mem_replaceChar {c d : Char} {replacement : Text}
    (h : d ∈ Text.replaceChar c replacement t) : d ∈ replacement ∨ (d ∈ t ∧ d ≠ c) := by
  obtain ⟨e, he, hd⟩ := List.mem_flatMap.1 h
  split at hd
  · exact .inl hd
  · next hne =>
      obtain rfl := List.mem_singleton.1 hd
      exact .inr ⟨he, hne⟩

/-- A cell is a mark, or nothing, or a text that is made one line. -/
theorem cell_cases {v : Value} (h : cell v = .ok t) :
    t = [] ∨ t = checkMark ∨ ∃ u, t =
      Text.replaceChar '|' ['\\', '|'] (Text.strip (Text.replaceChar '\n' [' '] u)) := by
  have hline {u : Except Oversize Text} (h : u.map (fun t => Text.replaceChar '|' ['\\', '|']
      (Text.strip (Text.replaceChar '\n' [' '] t))) = .ok t) : ∃ u, t =
        Text.replaceChar '|' ['\\', '|'] (Text.strip (Text.replaceChar '\n' [' '] u)) := by
    obtain ⟨u, -, rfl⟩ := map_eq_ok.1 h
    exact ⟨u, rfl⟩
  cases v with
  | null => exact .inl (Except.ok.inj h).symm
  | flag b =>
      obtain rfl := Except.ok.inj h
      cases b
      · exact .inl rfl
      · exact .inr (.inl rfl)
  | text u => exact .inr (.inr (hline (u := wording (.text u)) h))
  | number n => exact .inr (.inr (hline (u := wording (.number n)) h))
  | names xs => exact .inr (.inr (hline (u := wording (.names xs)) h))

theorem not_mem_cell {v : Value} (h : cell v = .ok t) : '\n' ∉ t := by
  obtain rfl | rfl | ⟨u, rfl⟩ := cell_cases h
  · exact List.not_mem_nil
  · decide
  · intro hmem
    rcases mem_replaceChar hmem with hmem | ⟨hmem, -⟩
    · exact absurd hmem (by decide)
    · rcases mem_replaceChar (Text.mem_of_mem_strip hmem) with hmem | ⟨-, hne⟩
      · exact absurd hmem (by decide)
      · exact hne rfl

theorem bars_cell {v : Value} (h : cell v = .ok t) (escaped : Bool) (rest : Text) :
    bars escaped (t ++ ' ' :: rest) = bars false rest := by
  obtain rfl | rfl | ⟨u, rfl⟩ := cell_cases h
  · exact bars_of_not_mem List.not_mem_nil escaped rest
  · exact bars_of_not_mem (by decide) escaped rest
  · exact bars_replaceChar _ escaped rest

theorem fits_cell {v : Value} (hcell : cell v = .ok t) (h : Text.width wide t ≤ width) :
    Fits wide width t where
  narrow := h
  oneLine := not_mem_cell hcell
  barless := bars_cell hcell

theorem exists_cell_iff {v : Value} : (∃ t, cell v = .ok t) ↔ v.isWritable = true := by
  cases v with
  | number n =>
      have hcell : (∃ t, cell (.number n) = .ok t) ↔ ∃ t, (Value.number n).spell = .ok t :=
        exists_map_eq_ok
      simp only [hcell, Value.spell_eq_ok, exists_and_left, exists_eq', and_true]
  | text t => exact iff_of_true ⟨_, rfl⟩ rfl
  | null => exact iff_of_true ⟨_, rfl⟩ rfl
  | flag b => exact iff_of_true ⟨_, rfl⟩ rfl
  | names xs => exact iff_of_true ⟨_, rfl⟩ rfl

/-- Plain ASCII texts: they are as wide as they are long. -/
theorem fits_of_ascii (hwide : Text.SparesAscii wide)
    (hascii : ∀ c ∈ t, c.toNat < 128 ∧ c ≠ '\n' ∧ c ≠ '|') (h : t.length ≤ width) :
    Fits wide width t where
  narrow := by rwa [Text.width_of_ascii hwide fun c hc => (hascii c hc).1]
  oneLine := fun hmem => (hascii _ hmem).2.1 rfl
  barless := bars_of_not_mem fun hmem => (hascii _ hmem).2.2 rfl

theorem fits_name (hwide : Text.SparesAscii wide) {name : Text} (hname : IsKey name)
    (h : name.length ≤ width) : Fits wide width name := by
  refine fits_of_ascii hwide (fun c hc => ?_) h
  have hrange := isKeyChar_range (hname.isKeyChar c hc)
  refine ⟨by omega, ?_, ?_⟩
  · rintro rfl
    exact absurd hrange (by decide)
  · rintro rfl
    exact absurd hrange (by decide)

theorem fits_rule (hwide : Text.SparesAscii wide) (width : Nat) :
    Fits wide width (List.replicate width '-') := by
  refine fits_of_ascii hwide (fun c hc => ?_) (Nat.le_of_eq List.length_replicate)
  rw [List.eq_of_mem_replicate hc]
  decide

theorem Fits.width_padTo (hwide : Text.SparesAscii wide) (h : Fits wide width t) :
    Text.width wide (padTo wide width t) = width := by
  rw [padTo, Text.width_append, Text.width_spaces hwide]
  have := h.narrow
  omega

theorem Fits.padTo (hwide : Text.SparesAscii wide) (h : Fits wide width t) :
    Fits wide width (padTo wide width t) where
  narrow := Nat.le_of_eq (h.width_padTo hwide)
  oneLine hmem := by
    rcases List.mem_append.1 hmem with hmem | hmem
    · exact h.oneLine hmem
    · exact absurd (List.eq_of_mem_replicate hmem) (by decide)
  barless escaped rest := by
    rw [Table.padTo, List.append_assoc]
    cases width - Text.width wide t with
    | zero => exact h.barless escaped rest
    | succ n =>
        have hbar : '|' ∉ Text.spaces n := fun hmem =>
          absurd (List.eq_of_mem_replicate hmem) (by decide)
        exact (h.barless escaped _).trans (bars_of_not_mem hbar false rest)

/-! ### Lines -/

structure IsLine (wide : Char → Bool) (widths : List Nat) (line : Text) : Prop where
  width_eq : Text.width wide line = widths.sum + 3 * widths.length + 1
  oneLine : '\n' ∉ line
  bars_eq : bars false line = widths.length + 1

/-- There is one bar less than there are cells between them. -/
theorem bars_join {cells : List Text} (hne : cells ≠ [])
    (h : ∀ cell ∈ cells, ∃ w, Fits wide w cell) (escaped : Bool) (rest : Text) :
    bars escaped (Text.join " | " cells ++ ' ' :: rest) + 1 = cells.length + bars false rest := by
  induction cells generalizing escaped with
  | nil => exact absurd rfl hne
  | cons cell cells ih =>
      rw [List.forall_mem_cons] at h
      obtain ⟨⟨w, hfits⟩, hcells⟩ := h
      cases cells with
      | nil =>
          rw [Text.join, hfits.barless, List.length_singleton, Nat.add_comm]
      | cons next cells =>
          have hbar (t : Text) : bars false ('|' :: ' ' :: t) = 1 + bars false t := by
            simp [bars]
          have hjoin : Text.join " | " (cell :: next :: cells) ++ ' ' :: rest =
              cell ++ ' ' :: '|' :: ' ' :: (Text.join " | " (next :: cells) ++ ' ' :: rest) := by
            simp [Text.join_cons_cons]
          have hrest := ih (List.cons_ne_nil _ _) hcells false
          rw [hjoin, hfits.barless, hbar, List.length_cons]
          omega

theorem map_width_padded (hwide : Text.SparesAscii wide) {widths : List Nat} {cells : List Text}
    (h : List.Forall₂ (Fits wide) widths cells) :
    (List.zipWith (padTo wide) widths cells).map (Text.width wide) = widths := by
  induction h with
  | nil => rfl
  | cons hfits _ ih => rw [List.zipWith_cons_cons, List.map_cons, hfits.width_padTo hwide, ih]

theorem fits_of_mem_padded (hwide : Text.SparesAscii wide) {widths : List Nat}
    {cells : List Text} (h : List.Forall₂ (Fits wide) widths cells) :
    ∀ cell ∈ List.zipWith (padTo wide) widths cells, ∃ w, Fits wide w cell := by
  induction h with
  | nil => nofun
  | cons hfits _ ih => exact List.forall_mem_cons.2 ⟨⟨_, hfits.padTo hwide⟩, ih⟩

/-- Cells that fit make a line of the table. -/
theorem isLine_line (hwide : Text.SparesAscii wide) {widths : List Nat} {cells : List Text}
    (hne : widths ≠ []) (h : List.Forall₂ (Fits wide) widths cells) :
    IsLine wide widths (line wide widths cells) := by
  have hwidths := map_width_padded hwide h
  have hfits := fits_of_mem_padded hwide h
  have hline : line wide widths cells =
      ['|', ' '] ++ (Text.join " | " (List.zipWith (padTo wide) widths cells) ++ [' ', '|']) := by
    simp [line, Text.concat]
  rw [hline]
  generalize List.zipWith (padTo wide) widths cells = padded at hwidths hfits
  have hpadded : padded ≠ [] := by
    rintro rfl
    exact hne hwidths.symm
  have hlength : padded.length = widths.length := by rw [← hwidths, List.length_map]
  constructor
  · have hjoin := Text.width_join wide " | " hpadded
    have hsep : Text.width wide " | " = 3 := Text.width_of_ascii hwide (by decide)
    have hopen : Text.width wide ['|', ' '] = 2 := Text.width_of_ascii hwide (by decide)
    have hclose : Text.width wide [' ', '|'] = 2 := Text.width_of_ascii hwide (by decide)
    rw [hsep, hwidths, hlength] at hjoin
    rw [Text.width_append, Text.width_append, hopen, hclose]
    omega
  · intro hmem
    rcases List.mem_append.1 hmem with hmem | hmem
    · exact absurd hmem (by decide)
    rcases List.mem_append.1 hmem with hmem | hmem
    · rcases Text.mem_join hmem with hmem | ⟨cell, hcell, hmem⟩
      · exact absurd hmem (by decide)
      · obtain ⟨w, hw⟩ := hfits cell hcell
        exact hw.oneLine hmem
    · exact absurd hmem (by decide)
  · have hjoin := bars_join hpadded hfits false ['|']
    have hopen (t : Text) : bars false (['|', ' '] ++ t) = 1 + bars false t := by simp [bars]
    have hlast : bars false ['|'] = 1 := rfl
    rw [hopen]
    omega

/-! ### Columns -/

theorem le_foldl_max (sizes : List Nat) (init : Nat) :
    init ≤ sizes.foldl max init ∧ ∀ n ∈ sizes, n ≤ sizes.foldl max init := by
  induction sizes generalizing init with
  | nil => exact ⟨Nat.le_refl _, nofun⟩
  | cons n sizes ih =>
      obtain ⟨hinit, hsizes⟩ := ih (max init n)
      rw [List.foldl_cons]
      exact ⟨by omega, List.forall_mem_cons.2 ⟨by omega, hsizes⟩⟩

theorem length_le_columnWidth (name : Text) (cells : List Text) :
    name.length ≤ columnWidth wide name cells :=
  Nat.le_trans (Nat.le_max_right _ _) (le_foldl_max _ _).1

theorem width_le_columnWidth {cells : List Text} {cell : Text} (h : cell ∈ cells) (name : Text) :
    Text.width wide cell ≤ columnWidth wide name cells :=
  (le_foldl_max _ _).2 _ (List.mem_map_of_mem h)

theorem mem_columns {rows : List Fields} {name : Text} :
    name ∈ columns rows ↔ ∃ row ∈ rows, name ∈ row.keys := by
  simp only [columns, List.mem_append, List.mem_filter, List.mem_mergeSort, List.mem_eraseDups,
    List.contains_iff_mem, List.mem_flatMap]
  by_cases hname : name ∈ usualColumns
  · simp [hname]
  · simp [hname]

/-! ### Tables -/

def IsRow (names cells : List Text) : Prop :=
  cells.length = names.length ∧ ∀ t ∈ cells, ∃ v, cell v = .ok t

variable {names : List Text} {cells : List (List Text)}

theorem length_widths : (widths wide names cells).length = names.length := by
  simp [widths]

theorem getElem_widths {i : Nat} (h : i < (widths wide names cells).length)
    (hname : i < names.length) :
    (widths wide names cells)[i] =
      columnWidth wide names[i] (cells.map (·.getD i [])) := by
  simp [widths]

/-- What fits the columns one by one fits their widths. -/
theorem forall₂_fits {row : List Text} (hlength : row.length = names.length)
    (h : ∀ (i : Nat) (hi : i < row.length) (hn : i < names.length),
      Fits wide (columnWidth wide names[i] (cells.map (·.getD i []))) row[i]) :
    List.Forall₂ (Fits wide) (widths wide names cells) row := by
  refine List.forall₂_iff_get.2 ⟨length_widths.trans hlength.symm, fun i hw hi => ?_⟩
  rw [List.get_eq_getElem, List.get_eq_getElem, getElem_widths]
  exact h i hi (hlength ▸ hi)

theorem isLine_of_mem_lines (hwide : Text.SparesAscii wide) (hnames : ∀ name ∈ names, IsKey name)
    (hcells : ∀ row ∈ cells, IsRow names row) (hne : names ≠ []) :
    ∀ l ∈ lines wide names cells, IsLine wide (widths wide names cells) l := by
  have hne : widths wide names cells ≠ [] := by
    rw [← List.length_pos_iff, length_widths]
    exact List.length_pos_iff.2 hne
  refine List.forall_mem_cons.2 ⟨isLine_line hwide hne (forall₂_fits rfl fun i _ hn => ?_),
    List.forall_mem_cons.2 ⟨isLine_line hwide hne ?_, List.forall_mem_map.2 fun row hrow => ?_⟩⟩
  · exact fits_name hwide (hnames _ (List.getElem_mem hn)) (length_le_columnWidth _ _)
  · exact List.forall₂_map_right_iff.2 (List.forall₂_same.2 fun w _ => fits_rule hwide w)
  · obtain ⟨hlength, hrowcells⟩ := hcells row hrow
    refine isLine_line hwide hne (forall₂_fits hlength fun i hi hn => ?_)
    obtain ⟨v, hv⟩ := hrowcells _ (List.getElem_mem hi)
    have hmem : row[i] ∈ cells.map (·.getD i []) :=
      List.mem_map.2 ⟨row, hrow, by simp [hi]⟩
    exact fits_cell hv (width_le_columnWidth hmem _)

variable {rows : List Fields}

/-- A table is made of cells if none of its values is an integer that is too large. -/
theorem exists_cells (names : List Text)
    (hsize : ∀ row ∈ rows, ∀ f ∈ row, f.2.isWritable = true) :
    ∃ cells, (rows.mapM fun row => names.mapM fun name => cell (row.get name)) = .ok cells ∧
      cells.length = rows.length ∧ ∀ row ∈ cells, IsRow names row := by
  have hcell : ∀ row ∈ rows, ∀ name ∈ names, ∃ t, cell (row.get name) = .ok t := by
    intro row hrow name _
    rw [exists_cell_iff]
    by_cases hnull : row.get name = .null
    · rw [hnull]
      rfl
    · exact hsize row hrow _ (Fields.mem_of_get rfl hnull)
  obtain ⟨cells, hcells⟩ := exists_mapM_eq_ok.2 fun row hrow => exists_mapM_eq_ok.2 (hcell row hrow)
  have hrows := mapM_eq_ok.1 hcells
  refine ⟨cells, hcells, hrows.length_eq.symm, fun line hline => ?_⟩
  obtain ⟨row, -, hrow⟩ := exists_of_mem_forall₂ hrows hline
  have hrow := mapM_eq_ok.1 hrow
  refine ⟨hrow.length_eq.symm, fun t ht => ?_⟩
  obtain ⟨name, -, hname⟩ := exists_of_mem_forall₂ hrow ht
  exact ⟨_, hname⟩

/-- Tables are rectangular, whichever characters are wide, if ASCII ones are not, and no integer has
more digits than are written: there is a line for the names, a rule and a line for each row, all of
them equally wide, and each has one bar more than there are columns, where a bar with a backslash
right before it does not count. -/
theorem render_rectangular (hwide : Text.SparesAscii wide)
    (hkeys : ∀ row ∈ rows, ∀ key ∈ row.keys, IsKey key) (hrow : ∃ row ∈ rows, row ≠ [])
    (hsize : ∀ row ∈ rows, ∀ f ∈ row, ∀ n : Int, f.2 = .number (.int n) →
      n.natAbs < 10 ^ Number.maxDigits) :
    ∃ table, renderWith wide rows = .ok table ∧
      (Text.split '\n' table).length = rows.length + 2 ∧
      ∃ width, ∀ line ∈ Text.split '\n' table,
        Text.width wide line = width ∧ bars false line = (columns rows).length + 1 := by
  obtain ⟨row, hmem, hfields⟩ := hrow
  have hnames : ∀ name ∈ columns rows, IsKey name := fun name hname => by
    obtain ⟨row, hrow, hkey⟩ := mem_columns.1 hname
    exact hkeys row hrow name hkey
  have hne : columns rows ≠ [] := by
    obtain ⟨f, fs, rfl⟩ := List.exists_cons_of_ne_nil hfields
    exact List.ne_nil_of_mem (mem_columns.2 ⟨_, hmem, List.mem_cons_self⟩)
  obtain ⟨cells, hcells, hlength, hrows⟩ := exists_cells (columns rows)
    fun row hrow f hf => Value.isWritable_iff.2 (hsize row hrow f hf)
  have hlines := isLine_of_mem_lines hwide hnames hrows hne
  have hsplit : Text.split '\n' (Text.join ['\n'] (lines wide (columns rows) cells)) =
      lines wide (columns rows) cells :=
    Text.split_join (List.cons_ne_nil _ _) fun l hl => (hlines l hl).oneLine
  have hrender : renderWith wide rows =
      .ok (Text.join ['\n'] (lines wide (columns rows) cells)) := by
    have hempty : rows.isEmpty = false := by simpa using List.ne_nil_of_mem hmem
    simp only [renderWith, hempty, Bool.false_eq_true, if_false, hcells, Except.map]
  refine ⟨_, hrender, ?_⟩
  rw [hsplit]
  refine ⟨by simp [lines, hlength], _, fun l hl => ⟨(hlines l hl).width_eq, ?_⟩⟩
  rw [(hlines l hl).bars_eq, length_widths]

/-- A wide character, a bar after a backslash, a line break and a field that is missing. -/
theorem render_rectangular_mixed :
    let rows : List Fields := [[("id", .text "a\\|"), ("x", .text "✅\n")], [("id", .null)]]
    ∃ table, render rows = .ok table ∧ (Text.split '\n' table).length = 4 ∧
      ∃ width, ∀ line ∈ Text.split '\n' table,
        Text.width Text.isWide line = width ∧ bars false line = 3 := by
  intro rows
  have hkeys : ∀ row ∈ rows, ∀ key ∈ row.keys, IsKey key := by decide
  have hrow : ∃ row ∈ rows, row ≠ [] := by decide
  have hsize : ∀ row ∈ rows, ∀ f ∈ row, ∀ n : Int, f.2 = .number (.int n) →
      n.natAbs < 10 ^ Number.maxDigits := fun row hrow f hf =>
    Value.isWritable_iff.1 ((by decide : ∀ row ∈ rows, ∀ f ∈ row, f.2.isWritable = true)
      row hrow f hf)
  have hcolumns : (columns rows).length = 2 := by decide +kernel
  have htable := render_rectangular Text.sparesAscii_isWide hkeys hrow hsize
  rwa [hcolumns] at htable

/-- There is no table of an integer with 4301 digits. -/
theorem render_oversize :
    let rows : List Fields := [[("n", .number (.int (10 ^ Number.maxDigits : Nat)))]]
    (∀ row ∈ rows, ∀ key ∈ row.keys, IsKey key) ∧ (∃ row ∈ rows, row ≠ []) ∧
      ¬ ∃ table, render rows = .ok table := by
  intro rows
  have hkeys : ∀ row ∈ rows, ∀ key ∈ row.keys, IsKey key := by
    intro row hrow key hkey
    obtain rfl := List.mem_singleton.1 hrow
    obtain rfl := List.mem_singleton.1 hkey
    decide
  refine ⟨hkeys, ⟨_, List.mem_cons_self, List.cons_ne_nil _ _⟩, ?_⟩
  rintro ⟨table, htable⟩
  obtain ⟨cells, hcells, -⟩ := map_eq_ok.1 htable
  have hcolumn : "n".toList ∈ columns rows :=
    mem_columns.2 ⟨_, List.mem_cons_self, List.mem_cons_self⟩
  obtain ⟨t, ht⟩ := exists_mapM_eq_ok.1 (exists_mapM_eq_ok.1 ⟨cells, hcells⟩ _ List.mem_cons_self) _
    hcolumn
  have hsize := Value.isWritable_iff.1 (exists_cell_iff.1 ⟨t, ht⟩) _ rfl
  rw [Int.natAbs_natCast] at hsize
  exact Nat.lt_irrefl _ hsize

end Table

end Agenda
