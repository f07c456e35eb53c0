import Agenda.Proofs.OwnedLines
import Agenda.Proofs.SectionLens
import Agenda.Settings

/-!
What a heading says, and whether it is found. Two texts that differ in case only have their number
signs and their blanks at the same places, so a line says what a heading does only if both are
marked as headings. A heading that the settings take is found again after it was written if and only
if it is marked; otherwise no line of any document is taken for it, and each rewriting puts it there
once more.
-/

namespace Agenda

/-! ### Case folding -/

namespace Text

/-- Number signs and whitespace have no case. -/
def isCaseless (c : Char) : Bool := c = '#' || isBlank c

def caselessRanges : List (Nat × Nat) :=
  [(0x09, 0x0D), (0x1C, 0x20), (0x23, 0x23), (0x85, 0x85), (0xA0, 0xA0), (0x1680, 0x1680),
    (0x2000, 0x200A), (0x2028, 0x2029), (0x202F, 0x202F), (0x205F, 0x205F), (0x3000, 0x3000)]

theorem exists_caselessRange {c : Char} (h : isCaseless c = true) :
    ∃ r ∈ caselessRanges, r.1 ≤ c.toNat ∧ c.toNat ≤ r.2 := by
  simp only [isCaseless, isBlank, Bool.or_eq_true, Bool.and_eq_true, decide_eq_true_eq,
    beq_iff_eq] at h
  simp only [caselessRanges, List.exists_mem_cons_iff, List.not_mem_nil, false_and, exists_false]
  rcases h with rfl | h
  · decide
  · omega

/-- No shift of the case map starts at such a character, and none ends at one. -/
theorem shifts_avoid_caseless : ∀ s ∈ foldMap.shifts, ∀ r ∈ caselessRanges,
    (s.last < r.1 ∨ r.2 < s.first) ∧
      ((s.last : Int) + s.distance < r.1 ∨ (r.2 : Int) < s.first + s.distance) := by
  decide +kernel

theorem expansions_avoid_caseless : ∀ e ∈ foldMap.expansions,
    (∀ r ∈ caselessRanges, e.1 < r.1 ∨ r.2 < e.1) ∧
      ∀ n ∈ e.2, isCaseless (Char.ofNat n) = false := by
  decide +kernel

theorem applyChar_of_isCaseless {c : Char} (h : isCaseless c = true) :
    foldMap.applyChar c = [c] := by
  obtain ⟨r, hr, hlow, hhigh⟩ := exists_caselessRange h
  have hlookup : foldMap.expansions.lookup c.toNat = none := by
    refine List.lookup_eq_none_iff.2 fun e he => ?_
    have havoid := (expansions_avoid_caseless e he).1 r hr
    rw [bne_iff_ne]
    omega
  have hfind : foldMap.shifts.findSome? (·.target? c.toNat) = none := by
    refine List.findSome?_eq_none_iff.2 fun s hs => ?_
    have havoid := (shifts_avoid_caseless s hs r hr).1
    have hout : (decide (s.first ≤ c.toNat) && decide (c.toNat ≤ s.last)) = false := by
      simp only [Bool.and_eq_false_iff, decide_eq_false_iff_not]
      omega
    simp [CaseShift.target?, hout]
  rw [CaseMap.applyChar, hlookup, hfind]
  rfl

theorem toNat_ofNat_cases (n : Nat) : (Char.ofNat n).toNat = n ∨ (Char.ofNat n).toNat = 0 := by
  by_cases h : n.isValidChar
  · rw [Char.ofNat, dif_pos h]
    exact .inl rfl
  · rw [Char.ofNat, dif_neg h]
    exact .inr rfl

/-- No other character becomes one without case. -/
theorem eq_of_mem_applyChar {c d : Char} (h : isCaseless c = true) (hc : c ∈ foldMap.applyChar d) :
    d = c := by
  unfold CaseMap.applyChar at hc
  split at hc
  · next codes hlookup =>
      obtain ⟨n, hn, rfl⟩ := List.mem_map.1 hc
      obtain ⟨before, after, htable, -⟩ := List.lookup_eq_some_iff.1 hlookup
      have hcased := (expansions_avoid_caseless (d.toNat, codes) (by simp [htable])).2 n hn
      rw [h] at hcased
      cases hcased
  · rw [List.mem_singleton] at hc
    cases hfind : foldMap.shifts.findSome? (·.target? d.toNat) with
    | none =>
        rw [hfind] at hc
        exact hc.symm
    | some e =>
        rw [hfind] at hc
        obtain rfl : c = e := hc
        obtain ⟨s, hs, htarget⟩ := List.exists_of_findSome?_eq_some hfind
        obtain ⟨r, hr, hlow, hhigh⟩ := exists_caselessRange h
        have havoid := (shifts_avoid_caseless s hs r hr).2
        simp only [CaseShift.target?, Option.ite_none_right_eq_some, Option.some.injEq,
          Bool.and_eq_true, decide_eq_true_eq] at htarget
        obtain ⟨⟨⟨hfirst, hlast⟩, -⟩, rfl⟩ := htarget
        have hpos : ∀ r ∈ caselessRanges, 0 < r.1 := by decide
        have hr := hpos r hr
        have htarget := toNat_ofNat_cases ((d.toNat : Int) + s.distance).toNat
        omega

theorem fold_cons (c : Char) (t : Text) : fold (c :: t) = foldMap.applyChar c ++ fold t := rfl

theorem fold_caseless_append {marks : Text} (h : ∀ c ∈ marks, isCaseless c = true) (t : Text) :
    fold (marks ++ t) = marks ++ fold t := by
  induction marks with
  | nil => rfl
  | cons c marks ih =>
      obtain ⟨hc, hmarks⟩ := List.forall_mem_cons.1 h
      rw [List.cons_append, fold_cons, applyChar_of_isCaseless hc, ih hmarks]
      rfl

theorem applyChar_ne_nil (c : Char) : foldMap.applyChar c ≠ [] := by
  have hcodes : ∀ e ∈ foldMap.expansions, e.2 ≠ [] := by decide +kernel
  unfold CaseMap.applyChar
  split
  · next codes hlookup =>
      obtain ⟨before, after, htable, -⟩ := List.lookup_eq_some_iff.1 hlookup
      simpa using hcodes (c.toNat, codes) (by simp [htable])
  · exact List.cons_ne_nil _ _

/-- Signs and blanks at the front of a folded text stand at the front of the text. -/
theorem exists_of_fold_eq {marks rest t : Text} (hmarks : ∀ c ∈ marks, isCaseless c = true)
    (h : fold t = marks ++ rest) : ∃ u, t = marks ++ u := by
  induction marks generalizing t with
  | nil => exact ⟨t, rfl⟩
  | cons c marks ih =>
      obtain ⟨hc, hrest⟩ := List.forall_mem_cons.1 hmarks
      cases t with
      | nil => cases h
      | cons d t =>
          rw [fold_cons] at h
          obtain ⟨e, es, happly⟩ := List.exists_cons_of_ne_nil (applyChar_ne_nil d)
          rw [happly] at h
          obtain ⟨rfl, -⟩ := List.cons.inj h
          obtain rfl := eq_of_mem_applyChar hc (happly ▸ List.mem_cons_self)
          rw [← happly, applyChar_of_isCaseless hc] at h
          obtain ⟨u, rfl⟩ := ih hrest (List.cons.inj h).2
          exact ⟨u, rfl⟩

theorem mem_fold_of_isCaseless {c : Char} (h : isCaseless c = true) {t : Text} :
    c ∈ fold t ↔ c ∈ t := by
  constructor
  · intro hc
    obtain ⟨d, hd, hmem⟩ := List.mem_flatMap.1 hc
    exact eq_of_mem_applyChar h hmem ▸ hd
  · intro hc
    refine List.mem_flatMap.2 ⟨c, hc, ?_⟩
    rw [applyChar_of_isCaseless h]
    exact List.mem_singleton_self c

end Text

/-! ### Marked headings -/

namespace Section

variable {size : Nat} {heading line : Text} {lines tasks : List Text}

/-- One to six number signs, then a blank. -/
def IsMarked (heading : Text) : Prop :=
  ∃ n c rest, 1 ≤ n ∧ n ≤ 6 ∧ isBlank c = true ∧ heading = List.replicate n '#' ++ c :: rest

theorem isSome_level?_of_isMarked (htrim : heading.Trimmed) (h : IsMarked heading) :
    (Heading.level? heading).isSome = true := by
  obtain ⟨n, c, rest, hlow, hhigh, hc, rfl⟩ := h
  -- The heading does not end in a blank, so there is a word after this one.
  have hword : ∃ d ∈ rest, isBlank d = false := by
    cases hlast : rest.getLast? with
    | none =>
        obtain rfl := List.getLast?_eq_none_iff.1 hlast
        have hend := htrim.2 c (by simp)
        rw [hc] at hend
        cases hend
    | some d =>
        have hend : isBlank d = false := htrim.2 d (by simp [List.getLast?_cons, hlast])
        exact ⟨d, List.mem_of_getLast? hlast, hend⟩
  have hlevel := Heading.level?_of_shape (k := 0) (by omega) hlow hhigh hc hword
  rw [show List.replicate n '#' ++ c :: rest =
    Text.spaces 0 ++ (List.replicate n '#' ++ c :: rest) from rfl, hlevel]
  rfl

theorem isMarked_strip_of_level? {n : Nat} (h : Heading.level? line = some n) :
    IsMarked (Text.strip line) := by
  obtain ⟨⟨hlow, hhigh⟩, k, -, c, rest, hc, -, hline⟩ :=
    Heading.exists_of_level? (Heading.level?_strip h)
  -- What is stripped has no spaces in front.
  cases k with
  | zero => exact ⟨n, c, rest, hlow, hhigh, hc, hline⟩
  | succ k =>
      have hhead := (Text.trimmed_strip line).1 ' ' (by rw [hline]; rfl)
      exact absurd hhead (by decide)

/-- A line that says what a heading does is marked as the heading is. -/
theorem isMarked_of_isTitled (h : isTitled heading line = true) :
    IsMarked (Text.strip heading) := by
  simp only [isTitled, Bool.and_eq_true, beq_iff_eq] at h
  obtain ⟨hlevel, hcaption⟩ := h
  obtain ⟨n, hn⟩ := Option.isSome_iff_exists.1 hlevel
  obtain ⟨m, c, rest, hlow, hhigh, hc, hline⟩ := isMarked_strip_of_level? hn
  have hmarks : ∀ d ∈ List.replicate m '#' ++ [c], Text.isCaseless d = true := by
    intro d hd
    rcases List.mem_append.1 hd with hd | hd
    · rw [List.eq_of_mem_replicate hd]
      rfl
    · rw [List.mem_singleton.1 hd, Text.isCaseless, hc, Bool.or_true]
  rw [caption, caption, hline, List.append_cons, Text.fold_caseless_append hmarks] at hcaption
  obtain ⟨u, hu⟩ := Text.exists_of_fold_eq hmarks hcaption.symm
  exact ⟨m, c, u, hlow, hhigh, hc, by rw [hu, List.append_cons _ c u]⟩

/-- The heading that the settings take is stripped, and begins with a number sign. -/
theorem of_readHeading {given : Settings.Raw} (h : Settings.readHeading given = .ok heading) :
    heading.Trimmed ∧ heading.head? = some '#' := by
  cases given with
  | text t =>
      simp only [Settings.readHeading] at h
      split at h
      · next hhead =>
          obtain rfl := Except.ok.inj h
          exact ⟨Text.trimmed_strip t, hhead⟩
      · cases h
  | _ => cases h

theorem heading?_eq_none_of_not_isMarked (htrim : heading.Trimmed) (h : ¬ IsMarked heading)
    (lines : List Text) : heading? heading lines = none := by
  refine List.findIdx?_eq_none_iff.2 fun line _ => ?_
  rw [Bool.eq_false_iff]
  intro htitled
  exact h (htrim.strip_eq ▸ isMarked_of_isTitled htitled)

/-- What is said on one line is not found if the heading has a line break in it. -/
theorem heading?_eq_none_of_blank {c : Char} (htrim : heading.Trimmed) (hc : isBlank c = true)
    (hmem : c ∈ heading) (hlines : ∀ line ∈ lines, c ∉ line) : heading? heading lines = none := by
  have hcase : Text.isCaseless c = true := by rw [Text.isCaseless, hc, Bool.or_true]
  refine List.findIdx?_eq_none_iff.2 fun line hline => ?_
  rw [Bool.eq_false_iff]
  intro htitled
  simp only [isTitled, Bool.and_eq_true, beq_iff_eq, caption, htrim.strip_eq] at htitled
  have hfold : c ∈ Text.fold (Text.strip line) := by
    rw [htitled.2, Text.mem_fold_of_isCaseless hcase]
    exact hmem
  rw [Text.mem_fold_of_isCaseless hcase] at hfold
  exact hlines line hline (Text.mem_of_mem_strip hfold)

/-- A marked heading is there after a rewriting, and stays where it is. -/
theorem exists_heading?_replace (size : Nat) (htrim : heading.Trimmed) (h : IsMarked heading)
    (lines tasks : List Text) :
    ∃ index, heading? heading (replace size heading tasks lines) = some index ∧
      ∀ others, heading? heading (replace size heading others
        (replace size heading tasks lines)) = some index := by
  have hlevel : (Heading.level? (Text.strip heading)).isSome = true := by
    rw [htrim.strip_eq]
    exact isSome_level?_of_isMarked htrim h
  have hfound : ∃ index, heading? heading (replace size heading tasks lines) = some index := by
    obtain ⟨before, title, after, hframe, -, hreplace⟩ := exists_frame size hlevel lines
    rw [hreplace]
    exact ⟨_, heading?_append_cons hframe.not_titled hframe.titled⟩
  obtain ⟨index, hindex⟩ := hfound
  refine ⟨index, hindex, fun others => ?_⟩
  obtain ⟨title, htitled, -, hreplace⟩ := replace_of_heading?_eq_some size hindex
  have hlength : ((replace size heading tasks lines).take index).length = index := by
    obtain ⟨hlt, -⟩ := List.findIdx?_eq_some_iff_getElem.1 hindex
    rw [List.length_take, Nat.min_eq_left (Nat.le_of_lt hlt)]
  rw [hreplace, heading?_append_cons (not_titled_take hindex) htitled, hlength]

/-! ### Headings that are not marked -/

theorem mem_ownedText {column : Option Nat} {ls : List Line} {i : Nat}
    (h : i ∈ ownedText column ls) :
    ∃ l ∈ ls, l.index = i ∧ (l.isBullet = true ∨ 0 < l.indent) := by
  induction ls generalizing column with
  | nil => cases h
  | cons l ls ih =>
      have hlater {column : Option Nat} (h : i ∈ ownedText column ls) :
          ∃ l' ∈ l :: ls, l'.index = i ∧ (l'.isBullet = true ∨ 0 < l'.indent) := by
        obtain ⟨l', hl', hown⟩ := ih h
        exact ⟨l', List.mem_cons_of_mem _ hl', hown⟩
      rw [ownedText] at h
      split at h
      · exact hlater h
      · split at h
        · next hbullet =>
            rcases List.mem_cons.1 h with rfl | h
            · exact ⟨l, List.mem_cons_self, rfl, .inl hbullet⟩
            · exact hlater h
        · split at h
          · exact hlater h
          · next hends =>
              rcases List.mem_cons.1 h with rfl | h
              · refine ⟨l, List.mem_cons_self, rfl, .inr ?_⟩
                simp only [Bool.or_eq_true, not_or, Option.all_eq_true, decide_eq_true_eq,
                  not_forall] at hends
                obtain ⟨-, b, -, hdeeper⟩ := hends
                omega
              · exact hlater h

/-- A line that begins with a number sign belongs to no bullet. -/
theorem not_mem_ownedText {i : Nat} (hhead : heading.head? = some '#')
    (hi : lines[i]? = some heading) : i ∉ ownedText none (Line.ofTexts size 0 lines) := by
  intro hmem
  obtain ⟨l, hl, rfl, hown⟩ := mem_ownedText hmem
  rw [Line.ofTexts_eq_map_zipIdx] at hl
  obtain ⟨⟨t, i⟩, hzip, rfl⟩ := List.mem_map.1 hl
  obtain rfl : t = heading := by
    have ht : lines[i]? = some t := List.mk_mem_zipIdx_iff_getElem?.1 hzip
    exact Option.some.inj (ht.symm.trans hi)
  obtain ⟨cs, rfl⟩ := List.head?_eq_some_iff.1 hhead
  obtain ⟨hindent, htext⟩ := Line.ofText_mark size i 0 (c := '#') (by decide) cs
  rcases hown with hbullet | hdeep
  · have hnone := Line.bullet?_of_head (c := '#') (by rw [htext]; rfl) (by decide)
    rw [Line.isBullet, show Line.ofText size i ('#' :: cs) =
      Line.ofText size i (Text.spaces 0 ++ '#' :: cs) from rfl, hnone] at hbullet
    cases hbullet
  · exact absurd hindent (Nat.ne_of_gt hdeep)

theorem count_textBefore (size : Nat) (hhead : heading.head? = some '#') (lines : List Text) :
    (textBefore size lines).count heading = lines.count heading := by
  have htext : (!isBlankText heading) = true := by
    obtain ⟨cs, rfl⟩ := List.head?_eq_some_iff.1 hhead
    rfl
  calc (textBefore size lines).count heading
      = ((textBefore size lines).filter (!isBlankText ·)).count heading :=
        (List.count_filter (p := (!isBlankText ·)) htext).symm
    _ = (textsOutside (ownedText none (Line.ofTexts size 0 lines)) lines).count heading := by
        rw [filter_textBefore, ← textsOutside_filter, filter_ownedLines]
    _ = lines.zipIdx.countP (·.1 == heading) := by
        rw [textsOutside, List.count_eq_countP, List.countP_map, outside, List.countP_filter]
        refine List.countP_congr ?_
        rintro ⟨t, i⟩ hzip
        have hi : lines[i]? = some t := List.mk_mem_zipIdx_iff_getElem?.1 hzip
        simp only [Function.comp_apply, Bool.and_eq_true, beq_iff_eq, and_iff_left_iff_imp]
        rintro rfl
        exact ⟨htext, by simpa using not_mem_ownedText hhead hi⟩
    _ = lines.count heading := by
        conv_rhs => rw [← List.zipIdx_map_fst 0 lines, List.count_eq_countP, List.countP_map]
        rfl

/-- A heading that is not marked is put there once more. -/
theorem count_replace_of_not_isMarked (size : Nat) (htrim : heading.Trimmed)
    (hhead : heading.head? = some '#') (h : ¬ IsMarked heading) (lines tasks : List Text) :
    (replace size heading tasks lines).count heading =
      lines.count heading + tasks.count heading + 1 := by
  have hnone := heading?_eq_none_of_not_isMarked htrim h lines
  have hend : (lineEnd lines).count heading = 0 := by
    refine List.count_eq_zero.2 fun hmem => ?_
    rw [mem_lineEnd hmem] at hhead
    cases hhead
  rw [replace_of_heading?_eq_none hnone, htrim.strip_eq, List.count_append, List.count_cons_self,
    List.count_append, hend, count_textBefore size hhead]
  omega

/-- A heading that the settings take is found in every document that tasks were put into, and at the
same place by the next rewriting, if and only if it is marked. If it is not, no line of any document
is taken for it, and each rewriting puts it there once more. Each of its blanks must occur in the
line, so one with a line break in it is not found in lines that were read from a file. -/
theorem found_again_iff (size : Nat) {given : Settings.Raw} {heading : Text}
    (h : Settings.readHeading given = .ok heading) :
    (IsMarked heading ↔ ∀ lines tasks, ∃ index,
        heading? heading (replace size heading tasks lines) = some index ∧
          ∀ others, heading? heading (replace size heading others
            (replace size heading tasks lines)) = some index) ∧
      (¬ IsMarked heading → ∀ lines, heading? heading lines = none ∧
        ∀ tasks, (replace size heading tasks lines).count heading =
          lines.count heading + tasks.count heading + 1) ∧
      ∀ c ∈ heading, isBlank c = true → ∀ lines, (∀ line ∈ lines, c ∉ line) →
        heading? heading lines = none := by
  obtain ⟨htrim, hhead⟩ := of_readHeading h
  have hunmarked := heading?_eq_none_of_not_isMarked htrim
  refine ⟨⟨exists_heading?_replace size htrim, fun hfound => ?_⟩, fun hmarked lines => ?_, ?_⟩
  · by_contra hmarked
    obtain ⟨index, hindex, -⟩ := hfound [] []
    rw [hunmarked hmarked] at hindex
    cases hindex
  · exact ⟨hunmarked hmarked lines, count_replace_of_not_isMarked size htrim hhead hmarked lines⟩
  · exact fun c hmem hc lines hlines => heading?_eq_none_of_blank htrim hc hmem hlines

/-- Number signs with no blank after them. -/
theorem found_again_iff_no_blank :
    let heading : Text := "#TODO"
    Settings.readHeading (.text " #TODO ") = .ok heading ∧ ¬ IsMarked heading ∧
      heading? heading (replace 2 heading ["- \"a\""] []) = none ∧
      replace 2 heading ["- \"b\""] (replace 2 heading ["- \"a\""] []) =
        ["#TODO", "", "#TODO", "- \"b\""] := by
  intro heading
  have hread : Settings.readHeading (.text " #TODO ") = .ok heading := by decide
  have hnone : heading? heading (replace 2 heading ["- \"a\""] []) = none := by decide
  refine ⟨hread, fun hmarked => ?_, hnone, by decide⟩
  obtain ⟨index, hindex, -⟩ := (found_again_iff 2 hread).1.1 hmarked [] ["- \"a\""]
  rw [hnone] at hindex
  cases hindex

end Section

end Agenda
