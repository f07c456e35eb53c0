import Agenda.Proofs.CleanLines
import Agenda.Proofs.Following
import Mathlib.Data.List.Perm.Subperm

/-!
The lines that are taken out of a document without the section heading. The scan for them knows
bullets and what stands below them, but no blocks; the reader knows both. In a document without
errors every line that the scan finds is one that the reader takes, so no other text is lost. The
scan misses lines of a block that look like headings or rules, and with one that looks like a
bullet it loses the column of the real one. `Section.isPlain` says when none of this happens; then,
and only then, both find the same lines.
-/

namespace Agenda

/-! ### The lines that the reader takes -/

def Role.isRead : Role → Bool
  | .bullet _ | .field _ _ | .block _ | .blockLine => true
  | .blank | .stray | .outside => false

namespace Reader

variable {r : Reader} {l : Line} {next ls : List Line}

/-- The positions of the lines, blank ones left out, that the reader takes as parts of tasks. -/
def readFrom (r : Reader) (ls : List Line) : List Nat :=
  ((r.roles ls).filter fun m => m.2.isRead && !m.1.isBlank).map (·.1.index)

theorem readFrom_cons (r : Reader) (l : Line) (ls : List Line) :
    r.readFrom (l :: ls) =
      (if (r.role l ls).isRead && !l.isBlank then [l.index] else []) ++
        (r.after l (r.role l ls)).readFrom ls := by
  rw [readFrom, roles, List.filter_cons]
  split <;> rfl

/-- A block is open only below a bullet. -/
def BlockBelow (r : Reader) : Prop := ∀ key ∈ r.block, ∃ column ∈ r.bullet, column < key

theorem blockBelow_of_none {r : Reader} (h : r.block = none) : r.BlockBelow := by
  intro key hkey
  rw [h] at hkey
  cases hkey

/-- What a line can be to the reader, unless it is stray. -/
inductive Step (r : Reader) (l : Line) (role : Role) : Prop
  | blank (blank : l.isBlank = true) (after_eq : r.after l role = r)
  | bullet (text : l.isBlank = false) (bullet : l.isBullet = true) (read : role.isRead = true)
      (after_eq : r.after l role = ⟨some l.indent, none⟩)
  | below {column : Nat} (text : l.isBlank = false) (read : role.isRead = true)
      (bullet_eq : r.bullet = some column) (deeper : column < l.indent)
      (after_eq : (r.after l role).bullet = r.bullet)
  | outside (text : l.isBlank = false) (no_bullet : l.isBullet = false)
      (unread : role.isRead = false)
      (ends : (l.isHeading || l.isRule || r.bullet.all (l.indent ≤ ·)) = true)
      (after_eq : r.after l role = ⟨none, none⟩)

theorem exists_of_inTask (h : r.inTask l = true) :
    ∃ column, r.bullet = some column ∧ column < l.indent := by
  rw [inTask, Bool.and_eq_true, Option.any_eq_true] at h
  simpa using h.2

/-- One line: what it is, and that a block still is open only below a bullet. -/
theorem step_role (hr : r.BlockBelow) (hstray : r.role l next ≠ .stray) :
    Step r l (r.role l next) ∧ (r.after l (r.role l next)).BlockBelow := by
  have htakes := r.takes_role l next
  generalize r.role l next = role at htakes hstray ⊢
  cases htakes with
  | blockLine inside =>
      refine ⟨?_, hr⟩
      -- The line stands deeper than the key of the block, and the key deeper than the bullet.
      obtain ⟨key, hkey, hdeep⟩ := Option.any_eq_true _ _ |>.1 inside
      cases hblank : l.isBlank with
      | true => exact .blank hblank rfl
      | false =>
          obtain ⟨column, hcolumn, hlt⟩ := hr key hkey
          have hdeeper : key < l.indent := by simpa [hblank] using hdeep
          exact .below hblank rfl hcolumn (by omega) rfl
  | blank _ blank => exact ⟨.blank blank rfl, hr⟩
  | bullet _ text bullet =>
      exact ⟨.bullet text (by rw [Line.isBullet, bullet]; rfl) rfl rfl, blockBelow_of_none rfl⟩
  | outside _ text no_bullet away =>
      rw [inTask_eq, Bool.not_eq_false'] at away
      exact ⟨.outside text (by rw [Line.isBullet, no_bullet]; rfl) rfl away rfl,
        blockBelow_of_none rfl⟩
  | stray => exact absurd rfl hstray
  | block _ text _ below =>
      obtain ⟨column, hcolumn, hdeeper⟩ := exists_of_inTask below
      refine ⟨.below text rfl hcolumn hdeeper rfl, ?_⟩
      rintro _ ⟨⟩
      exact ⟨column, hcolumn, hdeeper⟩
  | field _ text _ below =>
      obtain ⟨column, hcolumn, hdeeper⟩ := exists_of_inTask below
      exact ⟨.below text rfl hcolumn hdeeper rfl, blockBelow_of_none rfl⟩

end Reader

/-! ### The lines that are found -/

namespace Section

variable {column last : Option Nat} {r : Reader} {ls : List Line}

/-- The positions of the lines that belong to bullets, blank lines left out. -/
def ownedText (column : Option Nat) : List Line → List Nat
  | [] => []
  | l :: ls =>
    if l.isBlank then ownedText column ls
    else if l.isBullet then l.index :: ownedText (some l.indent) ls
    else if l.isHeading || l.isRule || column.all (l.indent ≤ ·) then ownedText none ls
    else l.index :: ownedText column ls

/-- Blank lines are found between other lines, and change nothing about these. -/
theorem filter_ownedFrom {p : Nat → Bool} (hp : ∀ l ∈ ls, p l.index = !l.isBlank)
    {pending : List Nat} (hpending : ∀ i ∈ pending, p i = false) :
    (ownedFrom column pending ls).filter p = ownedText column ls := by
  induction ls generalizing column pending with
  | nil => rfl
  | cons l ls ih =>
      obtain ⟨hfirst, hrest⟩ := List.forall_mem_cons.1 hp
      have hnone : pending.filter p = [] := by simpa using hpending
      rw [ownedFrom, ownedText]
      cases hblank : l.isBlank with
      | true =>
          -- The line waits with those before it, or is dropped; in both cases `p` leaves it out.
          rw [hblank] at hfirst
          simp only [if_true]
          apply ih hrest
          intro i hi
          split at hi
          · rcases List.mem_append.1 hi with hi | hi
            · exact hpending i hi
            · rw [List.mem_singleton.1 hi, hfirst]
              rfl
          · exact hpending i hi
      | false =>
          have hkept : p l.index = true := by rw [hfirst, hblank]; rfl
          simp only [Bool.false_eq_true, if_false]
          split
          · rw [List.filter_append, hnone, List.filter_cons_of_pos hkept, ih hrest (by simp)]
            rfl
          · split
            · exact ih hrest (by simp)
            · rw [List.filter_append, hnone, List.filter_cons_of_pos hkept, ih hrest (by simp)]
              rfl

/-- The column that lines are measured against is that of the bullet that the reader is at, or a
deeper one. -/
def Within (column : Option Nat) (r : Reader) : Prop := ∀ b ∈ column, ∃ b' ∈ r.bullet, b' ≤ b

theorem within_none (r : Reader) : Within none r := nofun

/-- What ends the lines of a bullet for the reader ends them for the scan. -/
theorem Within.ends {l : Line} (h : Within column r)
    (hends : (l.isHeading || l.isRule || r.bullet.all (l.indent ≤ ·)) = true) :
    (l.isHeading || l.isRule || column.all (l.indent ≤ ·)) = true := by
  simp only [Bool.or_eq_true, Option.all_eq_true, decide_eq_true_eq] at hends ⊢
  refine hends.imp_right fun hall b hb => ?_
  obtain ⟨b', hb', hle⟩ := h b hb
  have hindent := hall b' hb'
  omega

/-- Of the lines from here on, those that are found are lines that the reader takes. -/
theorem ownedText_sublist (hr : r.BlockBelow) (hwithin : Within column r)
    (hstray : ∀ m ∈ r.roles ls, m.2 ≠ .stray) : (ownedText column ls).Sublist (r.readFrom ls) := by
  induction ls generalizing column r with
  | nil => exact .slnil
  | cons l ls ih =>
      rw [Reader.roles] at hstray
      obtain ⟨hfirst, hrest⟩ := List.forall_mem_cons.1 hstray
      obtain ⟨hstep, hr'⟩ := Reader.step_role hr hfirst
      rw [Reader.readFrom_cons, ownedText]
      cases hstep with
      | blank hblank hafter =>
          simp only [hblank, Bool.not_true, Bool.and_false, if_true, Bool.false_eq_true, if_false]
          exact ih hr' (by rwa [hafter]) hrest
      | bullet htext hbullet hread hafter =>
          simp only [htext, hbullet, hread, Bool.not_false, Bool.and_true, if_true,
            Bool.false_eq_true, if_false]
          refine (ih hr' ?_ hrest).cons_cons _
          rw [hafter]
          rintro _ ⟨⟩
          exact ⟨_, rfl, Nat.le_refl _⟩
      | @below b htext hread hbullet hdeeper hafter =>
          have hafter' := hafter.trans hbullet
          simp only [htext, hread, Bool.not_false, Bool.and_true, if_true, Bool.false_eq_true,
            if_false]
          split
          · -- A line of a block that looks like a bullet stands deeper than the bullet itself.
            refine (ih hr' ?_ hrest).cons_cons _
            rintro _ ⟨⟩
            exact ⟨b, hafter', by omega⟩
          · split
            · exact (ih hr' (within_none _) hrest).cons _
            · refine (ih hr' ?_ hrest).cons_cons _
              intro c hc
              rw [hafter]
              exact hwithin c hc
      | outside htext hbullet hunread hends hafter =>
          simp only [htext, hbullet, hunread, hwithin.ends hends, Bool.false_and, if_true,
            Bool.false_eq_true, if_false]
          exact ih hr' (within_none _) hrest

/-- Whether the lines that the reader takes look like lines of tasks by themselves: each one that
does not look like a bullet is no heading and no rule, and stands deeper than the last one that
does. `last` is the column of that one. -/
def isPlain (last : Option Nat) : List (Line × Role) → Bool
  | [] => true
  | (l, role) :: ms =>
    if l.isBlank || !role.isRead then isPlain last ms
    else if l.isBullet then isPlain (some l.indent) ms
    else !(l.isHeading || l.isRule || last.all (l.indent ≤ ·)) && isPlain last ms

/-- Both find the same lines if and only if these look like lines of tasks. Below a bullet the lines
are measured against the last one that looks like a bullet. -/
theorem ownedText_eq_iff (hr : r.BlockBelow) (hwithin : Within column r)
    (hlast : r.bullet.isSome = true → column = last) (hstray : ∀ m ∈ r.roles ls, m.2 ≠ .stray) :
    ownedText column ls = r.readFrom ls ↔ isPlain last (r.roles ls) = true := by
  induction ls generalizing column last r with
  | nil => exact ⟨fun _ => rfl, fun _ => rfl⟩
  | cons l ls ih =>
      rw [Reader.roles] at hstray ⊢
      obtain ⟨hfirst, hrest⟩ := List.forall_mem_cons.1 hstray
      obtain ⟨hstep, hr'⟩ := Reader.step_role hr hfirst
      rw [Reader.readFrom_cons, ownedText, isPlain]
      cases hstep with
      | blank hblank hafter =>
          simp only [hblank, Bool.not_true, Bool.and_false, if_true, Bool.false_eq_true, if_false]
          exact ih hr' (by rwa [hafter]) (by rwa [hafter]) hrest
      | bullet htext hbullet hread hafter =>
          simp only [htext, hbullet, hread, Bool.not_false, Bool.and_true, if_true,
            Bool.false_eq_true, if_false]
          refine Iff.trans ?_ (ih hr' ?_ (fun _ => rfl) hrest)
          · simp
          · rw [hafter]
            rintro _ ⟨⟩
            exact ⟨_, rfl, Nat.le_refl _⟩
      | @below b htext hread hbullet hdeeper hafter =>
          have hsome : r.bullet.isSome = true := by rw [hbullet]; rfl
          obtain rfl := hlast hsome
          have hafter' := hafter.trans hbullet
          simp only [htext, hread, Bool.not_true, Bool.not_false, Bool.and_true, Bool.or_false,
            if_true, Bool.false_eq_true, if_false]
          cases hlike : l.isBullet with
          | true =>
              -- From here on the scan measures against this line, and so does `isPlain`.
              simp only [if_true]
              refine Iff.trans ?_ (ih hr' ?_ (fun _ => rfl) hrest)
              · simp
              · rintro _ ⟨⟩
                exact ⟨b, hafter', by omega⟩
          | false =>
              cases hends : l.isHeading || l.isRule || column.all (l.indent ≤ ·) with
              | true =>
                  -- The line is not found, and of the lines after it no more than the reader takes.
                  have hsub := ownedText_sublist hr' (within_none _) hrest
                  simp only [Bool.false_eq_true, if_false, if_true, Bool.not_true, Bool.false_and,
                    iff_false]
                  intro heq
                  have hlength := hsub.length_le
                  rw [heq, List.length_append, List.length_singleton] at hlength
                  omega
              | false =>
                  simp only [Bool.false_eq_true, if_false, Bool.not_false, Bool.true_and]
                  refine Iff.trans ?_ (ih hr' ?_ (fun _ => rfl) hrest)
                  · simp
                  · rw [Within, hafter]
                    exact hwithin
      | outside htext hbullet hunread hends hafter =>
          simp only [htext, hbullet, hunread, hwithin.ends hends, Bool.not_false, Bool.or_true,
            Bool.false_and, if_true, Bool.false_eq_true, if_false]
          refine ih hr' (within_none _) (fun hsome => ?_) hrest
          rw [hafter] at hsome
          cases hsome

end Section

/-! ### Positions in a document -/

theorem Line.ofTexts_eq_map_zipIdx (size index : Nat) (ts : List Text) :
    ofTexts size index ts = (ts.zipIdx index).map fun p => ofText size p.2 p.1 := by
  induction ts generalizing index with
  | nil => rfl
  | cons t ts ih => rw [ofTexts, List.zipIdx_cons, List.map_cons, ih]

theorem Line.map_index_ofTexts (size index : Nat) (ts : List Text) :
    (ofTexts size index ts).map (·.index) = List.range' index ts.length := by
  rw [ofTexts_eq_map_zipIdx, List.map_map]
  exact List.zipIdx_map_snd index ts

theorem Reader.map_fst_roles (r : Reader) (ls : List Line) : (r.roles ls).map (·.1) = ls := by
  induction ls generalizing r with
  | nil => rfl
  | cons l ls ih => rw [roles, List.map_cons, ih]

namespace Section

variable {size : Nat} {lines : List Text}

def hasText (lines : List Text) (i : Nat) : Bool := lines[i]?.any (!isBlankText ·)

theorem isBlank_ofText_eq (size index : Nat) (t : Text) :
    (Line.ofText size index t).isBlank = isBlankText t := by
  rw [Bool.eq_iff_iff, Line.isBlank_ofText, isBlankText, List.all_eq_true]

theorem hasText_index {l : Line} (h : l ∈ Line.ofTexts size 0 lines) :
    hasText lines l.index = !l.isBlank := by
  rw [Line.ofTexts_eq_map_zipIdx] at h
  obtain ⟨⟨t, i⟩, hmem, rfl⟩ := List.mem_map.1 h
  have hline : lines[i]? = some t := List.mk_mem_zipIdx_iff_getElem?.1 hmem
  rw [isBlank_ofText_eq]
  show hasText lines i = _
  rw [hasText, hline, Option.any_some]

/-- The positions of the lines, blank ones left out, that the reader takes as parts of tasks, in a
document that is a task section as a whole. -/
def readLines (size : Nat) (lines : List Text) : List Nat :=
  Reader.start.readFrom (Line.ofTexts size 0 lines)

/-- The lines with their positions, without blank lines and those at the positions `taken`. -/
def outside (taken : List Nat) (lines : List Text) : List (Text × Nat) :=
  lines.zipIdx.filter fun p => !isBlankText p.1 && !taken.contains p.2

def textsOutside (taken : List Nat) (lines : List Text) : List Text :=
  (outside taken lines).map (·.1)

theorem filter_ownedLines (size : Nat) (lines : List Text) :
    (ownedLines size lines).filter (hasText lines) =
      ownedText none (Line.ofTexts size 0 lines) :=
  filter_ownedFrom (fun _ => hasText_index) (by simp)

theorem mem_readLines {i : Nat} (h : i ∈ readLines size lines) : hasText lines i = true := by
  obtain ⟨m, hm, rfl⟩ := List.mem_map.1 h
  obtain ⟨hmem, hread⟩ := List.mem_filter.1 hm
  have hline : m.1 ∈ Line.ofTexts size 0 lines := by
    rw [← Reader.start.map_fst_roles (Line.ofTexts size 0 lines)]
    exact List.mem_map_of_mem hmem
  rw [hasText_index hline]
  exact (Bool.and_eq_true_iff.1 hread).2

theorem nodup_readLines (size : Nat) (lines : List Text) : (readLines size lines).Nodup := by
  have hindex : (Reader.start.roles (Line.ofTexts size 0 lines)).map (·.1.index) =
      List.range' 0 lines.length := by
    have hmap := congrArg (List.map Line.index)
      (Reader.start.map_fst_roles (Line.ofTexts size 0 lines))
    rw [List.map_map, Line.map_index_ofTexts] at hmap
    exact hmap
  have hsub := (List.filter_sublist (p := fun m : Line × Role => m.2.isRead && !m.1.isBlank)
    (l := Reader.start.roles (Line.ofTexts size 0 lines))).map (·.1.index)
  rw [hindex] at hsub
  exact hsub.nodup List.nodup_range'

/-! ### The lines that stay -/

/-- Only the positions of lines that are not blank matter. -/
theorem textsOutside_filter (taken : List Nat) (lines : List Text) :
    textsOutside (taken.filter (hasText lines)) lines = textsOutside taken lines := by
  refine congrArg (List.map _) (List.filter_congr ?_)
  rintro ⟨t, i⟩ hmem
  have hline : lines[i]? = some t := List.mk_mem_zipIdx_iff_getElem?.1 hmem
  cases hblank : isBlankText t with
  | true => simp
  | false =>
      have htext : hasText lines i = true := by simp [hasText, hline, hblank]
      rw [Bool.eq_iff_iff]
      simp [htext]

/-- Where fewer lines are taken, more lines stay. -/
theorem outside_sublist {taken more : List Nat} (h : taken.Sublist more) (lines : List Text) :
    (outside more lines).Sublist (outside taken lines) := by
  refine List.monotone_filter_right _ fun p hp => ?_
  simp only [Bool.and_eq_true, Bool.not_eq_true', List.contains_eq_mem,
    decide_eq_false_iff_not] at hp ⊢
  exact ⟨hp.1, fun hmem => hp.2 (h.subset hmem)⟩

/-- The texts that stay tell whether lines were missed. -/
theorem textsOutside_eq_iff {taken more : List Nat} (h : taken.Sublist more) (hnodup : more.Nodup)
    (htext : ∀ i ∈ more, hasText lines i = true) :
    textsOutside taken lines = textsOutside more lines ↔ taken = more := by
  refine ⟨fun heq => ?_, fun heq => by rw [heq]⟩
  have hlength := congrArg List.length heq
  rw [textsOutside, textsOutside, List.length_map, List.length_map] at hlength
  -- Equal texts are equally many, so no line is missing on either side.
  have hsame := (outside_sublist h lines).eq_of_length hlength.symm
  have hsubset : more ⊆ taken := by
    intro i hi
    by_contra hnot
    obtain ⟨t, hline, hblank⟩ := Option.any_eq_true _ _ |>.1 (htext i hi)
    have hmem : (t, i) ∈ outside more lines := by
      rw [hsame]
      exact List.mem_filter.2 ⟨List.mk_mem_zipIdx_iff_getElem?.2 hline, by simp [hblank, hnot]⟩
    have hnot' := (List.mem_filter.1 hmem).2
    simp [hi] at hnot'
  exact h.eq_of_length_le (List.subperm_of_subset hnodup hsubset).length_le

/-- Blank lines apart, exactly the lines at other positions remain. -/
theorem filter_remainder (dropped : List Nat) (index : Nat) (afterDrop afterBlank : Bool)
    (lines : List Text) :
    (remainder dropped index afterDrop afterBlank lines).filter (!isBlankText ·) =
      ((lines.zipIdx index).filter fun p => !isBlankText p.1 && !dropped.contains p.2).map
        (·.1) := by
  induction lines generalizing index afterDrop afterBlank with
  | nil => rfl
  | cons line lines ih =>
      rw [remainder, List.zipIdx_cons, List.filter_cons]
      cases hdropped : dropped.contains index with
      | true =>
          simp only [if_true, Bool.not_true, Bool.and_false, Bool.false_eq_true, if_false]
          exact ih _ _ _
      | false =>
          cases hblank : isBlankText line with
          | true =>
              simp only [Bool.and_true, Bool.not_true, Bool.false_and, Bool.false_eq_true, if_false]
              split
              · exact ih _ _ _
              · rw [List.filter_cons_of_neg (by simp [hblank])]
                exact ih _ _ _
          | false =>
              simp only [Bool.and_false, Bool.not_false, Bool.and_true, Bool.false_eq_true,
                if_false, if_true, List.map_cons]
              rw [List.filter_cons_of_pos (by simp [hblank]), ih]

theorem filter_dropBlankEnd (lines : List Text) :
    (dropBlankEnd lines).filter (!isBlankText ·) = lines.filter (!isBlankText ·) := by
  have hdrop : ∀ xs : List Text, (xs.dropWhile isBlankText).filter (!isBlankText ·) =
      xs.filter (!isBlankText ·) := by
    intro xs
    induction xs with
    | nil => rfl
    | cons x xs ih =>
        cases hblank : isBlankText x with
        | true =>
            rw [List.dropWhile_cons_of_pos hblank, ih, List.filter_cons_of_neg (by simp [hblank])]
        | false => rw [List.dropWhile_cons_of_neg (by simp [hblank])]
  rw [dropBlankEnd, List.filter_reverse, hdrop, List.filter_reverse, List.reverse_reverse]

/-- The text before a section that is put at the end of a document is all that is not found. -/
theorem filter_textBefore (size : Nat) (lines : List Text) :
    (textBefore size lines).filter (!isBlankText ·) =
      textsOutside (ownedLines size lines) lines := by
  set kept := dropBlankEnd (remainder (ownedLines size lines) 0 false false lines) with hkept
  have hgap : (if kept.isEmpty then [] else [[]] : List Text).filter (!isBlankText ·) = [] := by
    split <;> rfl
  rw [textBefore, ← hkept, List.filter_append, hgap, List.append_nil, hkept, filter_dropBlankEnd,
    filter_remainder]
  rfl

/-- A document without the section heading is a task section as a whole. -/
theorem lines_region_of_heading?_eq_none {heading : Text} (h : heading? heading lines = none)
    (size : Nat) : (region (some heading) lines).lines size lines = Line.ofTexts size 0 lines := by
  have hregion : region (some heading) lines = ⟨0, lines.length⟩ := by
    cases heading with
    | nil => rfl
    | cons c cs => simp only [region, h]
  rw [hregion, Region.lines, List.take_length, List.drop_zero]

/-- Replacing the tasks of a document without the section heading, in which the linter finds no
error. The lines that are found are among those that the reader takes, so every other text stays.
Both are the same lines, and no text of a task stays outside the new section, if and only if the
lines that the reader takes look like lines of tasks by themselves. -/
theorem replace_removes_iff (size : Nat) {heading : Text} {lines : List Text} (tasks : List Text)
    (hnone : heading? heading lines = none)
    (hok : Lint.Accepts (Lint.run size (some heading) lines)) :
    ((ownedLines size lines).filter (hasText lines)).Sublist (readLines size lines) ∧
      ((ownedLines size lines).filter (hasText lines) = readLines size lines ↔
        isPlain none (Reader.start.roles (Line.ofTexts size 0 lines)) = true) ∧
      ∃ before after, replace size heading tasks lines =
          before ++ Text.strip heading :: (tasks ++ after) ∧
        (∀ line ∈ after, isBlankText line = true) ∧
        (textsOutside (readLines size lines) lines).Sublist (before.filter (!isBlankText ·)) ∧
        (before.filter (!isBlankText ·) = textsOutside (readLines size lines) lines ↔
          isPlain none (Reader.start.roles (Line.ofTexts size 0 lines)) = true) := by
  rw [Lint.run, lines_region_of_heading?_eq_none hnone] at hok
  have hstray : ∀ m ∈ Reader.start.roles (Line.ofTexts size 0 lines), m.2 ≠ .stray :=
    Lint.Pass.ne_stray_of_accepts hok
  have hblock : Reader.start.BlockBelow := Reader.blockBelow_of_none rfl
  have hsub : ((ownedLines size lines).filter (hasText lines)).Sublist (readLines size lines) := by
    rw [filter_ownedLines]
    exact ownedText_sublist hblock (within_none _) hstray
  have hiff : (ownedLines size lines).filter (hasText lines) = readLines size lines ↔
      isPlain none (Reader.start.roles (Line.ofTexts size 0 lines)) = true := by
    rw [filter_ownedLines]
    exact ownedText_eq_iff hblock (within_none _) (fun _ => rfl) hstray
  have hbefore := filter_textBefore size lines
  rw [← textsOutside_filter] at hbefore
  refine ⟨hsub, hiff, textBefore size lines, lineEnd lines,
    replace_of_heading?_eq_none hnone tasks, ?_, ?_, ?_⟩
  · intro line hline
    rw [mem_lineEnd hline]
    rfl
  · rw [hbefore]
    exact (outside_sublist hsub lines).map _
  · rw [hbefore, textsOutside_eq_iff hsub (nodup_readLines size lines) fun _ => mem_readLines, hiff]

/-- A block with a line that looks like a bullet: the line after it stays where it is. -/
theorem replace_removes_iff_block :
    let lines : List Text := ["- \"a\"", "  note: |", "      - x", "    y"]
    (heading? "## TODO" lines = none ∧ Lint.Accepts (Lint.run 2 (some "## TODO") lines)) ∧
      (ownedLines 2 lines).filter (hasText lines) = [0, 1, 2] ∧ readLines 2 lines = [0, 1, 2, 3] ∧
      replace 2 "## TODO" ["- \"a\" id: i"] lines = ["    y", "", "## TODO", "- \"a\" id: i"] ∧
      isPlain none (Reader.start.roles (Line.ofTexts 2 0 lines)) = false := by
  intro lines
  have hnone : heading? "## TODO" lines = none := by decide
  have hok : Lint.Accepts (Lint.run 2 (some "## TODO") lines) := by
    unfold Lint.Accepts
    decide
  have howned : (ownedLines 2 lines).filter (hasText lines) = [0, 1, 2] := by decide
  have hread : readLines 2 lines = [0, 1, 2, 3] := by decide
  obtain ⟨-, hiff, -⟩ := replace_removes_iff 2 ["- \"a\" id: i"] hnone hok
  refine ⟨⟨hnone, hok⟩, howned, hread, by decide, ?_⟩
  rw [Bool.eq_false_iff, ne_eq, ← hiff, howned, hread]
  decide

end Section

end Agenda
