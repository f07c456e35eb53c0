import Agenda.Proofs.OwnedLines

/-!
The task section as a part of a document that is read and set. What was put in is what is found
again, up to a blank line after it; what is outside stays; and of two replacements in a row only the
second is left. The heading may stand anywhere in the document, or nowhere: then it is put at the
end, where no line before it is taken for it.
-/

namespace Agenda

/-! ### What a heading is -/

namespace Heading

variable {t : Text} {n : Nat}

theorem takeWhile_eq_replicate (c : Char) (t : Text) :
    t.takeWhile (· = c) = List.replicate (t.takeWhile (· = c)).length c :=
  List.eq_replicate_iff.2 ⟨rfl, fun _ hd => by simpa using List.mem_takeWhile_imp hd⟩

theorem dropWhile_replicate_append (c : Char) (n : Nat) {d : Char} (h : d ≠ c) (rest : Text) :
    (List.replicate n c ++ d :: rest).dropWhile (· = c) = d :: rest := by
  rw [List.dropWhile_append_of_pos (fun _ he => decide_eq_true (List.eq_of_mem_replicate he)),
    List.dropWhile_cons_of_neg (by simpa using h)]

theorem takeWhile_replicate_append (c : Char) (n : Nat) {d : Char} (h : d ≠ c) (rest : Text) :
    (List.replicate n c ++ d :: rest).takeWhile (· = c) = List.replicate n c := by
  rw [List.takeWhile_append_of_pos (fun _ he => decide_eq_true (List.eq_of_mem_replicate he)),
    List.takeWhile_cons_of_neg (by simpa using h), List.append_nil]

theorem exists_of_level? (h : level? t = some n) :
    (1 ≤ n ∧ n ≤ 6) ∧ ∃ k ≤ 3, ∃ c rest, isBlank c = true ∧
      (∃ d ∈ rest, isBlank d = false) ∧
      t = Text.spaces k ++ (List.replicate n '#' ++ c :: rest) := by
  simp only [level?, Option.ite_none_right_eq_some, Option.some.injEq, Bool.and_eq_true,
    decide_eq_true_eq] at h
  obtain ⟨⟨⟨⟨⟨hmargin, hlow⟩, hhigh⟩, hblank⟩, hword⟩, rfl⟩ := h
  set body := t.dropWhile (· = ' ')
  have htext : t.takeWhile (· = ' ') ++ body = t := List.takeWhile_append_dropWhile
  have hbody : body.takeWhile (· = '#') ++ body.dropWhile (· = '#') = body :=
    List.takeWhile_append_dropWhile
  have hlength := congrArg List.length htext
  rw [List.length_append] at hlength
  cases hrest : body.dropWhile (· = '#') with
  | nil => simp [hrest] at hblank
  | cons c rest =>
      rw [hrest] at hblank hword hbody
      have hc : isBlank c = true := hblank
      refine ⟨⟨hlow, hhigh⟩, (t.takeWhile (· = ' ')).length, by omega, c, rest, hc, ?_, ?_⟩
      · rw [Text.stripStart, List.dropWhile_cons_of_pos hc] at hword
        simpa using hword
      · rw [← takeWhile_eq_replicate, Text.spaces, ← takeWhile_eq_replicate, hbody, htext]

theorem level?_of_shape {k : Nat} (hk : k ≤ 3) (hlow : 1 ≤ n) (hhigh : n ≤ 6) {c : Char}
    (hc : isBlank c = true) {rest : Text} (hword : ∃ d ∈ rest, isBlank d = false) :
    level? (Text.spaces k ++ (List.replicate n '#' ++ c :: rest)) = some n := by
  obtain ⟨m, rfl⟩ : ∃ m, n = m + 1 := ⟨n - 1, by omega⟩
  have hsign : c ≠ '#' := by
    rintro rfl
    exact absurd hc (by decide)
  have hbody : (Text.spaces k ++ (List.replicate (m + 1) '#' ++ c :: rest)).dropWhile (· = ' ') =
      List.replicate (m + 1) '#' ++ c :: rest :=
    dropWhile_replicate_append ' ' k (by decide) _
  simp only [level?, hbody, takeWhile_replicate_append _ _ hsign,
    dropWhile_replicate_append _ _ hsign]
  have hrest : Text.stripStart (c :: rest) ≠ [] := by
    rw [Text.stripStart, List.dropWhile_cons_of_pos hc]
    simpa using hword
  simp [hc, hrest, Text.spaces, hhigh]
  omega

/-- A heading stays one when it is stripped. -/
theorem level?_strip (h : level? t = some n) : level? (Text.strip t) = some n := by
  obtain ⟨⟨hlow, hhigh⟩, k, -, c, rest, hc, ⟨d, hd, hword⟩, rfl⟩ := exists_of_level? h
  -- The blank after the number signs stays, since there is a word after it.
  have hne : Text.stripEnd rest ≠ [] := fun hnil => by
    rw [Text.stripEnd_eq_nil.1 hnil d hd] at hword
    cases hword
  have hstart : Text.stripStart (Text.spaces k ++ (List.replicate n '#' ++ c :: rest)) =
      List.replicate n '#' ++ c :: rest := by
    rw [Text.stripStart, List.dropWhile_append_of_pos]
    · apply Text.stripStart_of_head
      simp [List.head?_append, List.head?_replicate, show n ≠ 0 by omega]
      decide
    · intro e he
      rw [List.eq_of_mem_replicate he]
      decide
  have hend : Text.stripEnd (List.replicate n '#' ++ c :: rest) =
      List.replicate n '#' ++ c :: Text.stripEnd rest := by
    rw [Text.stripEnd_append, ← List.singleton_append, Text.stripEnd,
      Text.dropEndWhile_append _ hne]
    · rfl
    · simp [List.getLast?_replicate, show n ≠ 0 by omega]
      decide
  rw [Text.strip, hstart, hend]
  exact level?_of_shape (k := 0) (by omega) hlow hhigh hc
    ⟨_, List.getLast_mem hne, Text.getLast_dropEndWhile (List.getLast?_eq_some_getLast hne)⟩

end Heading

namespace Section

variable {size : Nat} {heading title : Text} {before body after lines tasks : List Text}

/-! ### A document cut at its section -/

def Region.texts (r : Region) (lines : List Text) : List Text := (lines.take r.stop).drop r.start

/-- The parts of a document with a task section: what stands before the heading, the heading, the
section, and what stands after it. -/
structure Cut (heading : Text) (before : List Text) (title : Text) (body after : List Text) :
    Prop where
  not_titled : ∀ line ∈ before, isTitled heading line = false
  titled : isTitled heading title = true
  stays_open : ∀ line ∈ body, closes (levelOf heading) line = false
  closed : ∀ line ∈ after.head?, closes (levelOf heading) line = true

namespace Cut

theorem heading?_eq (h : Cut heading before title body after) :
    heading? heading (before ++ title :: (body ++ after)) = some before.length :=
  heading?_append_cons h.not_titled h.titled

theorem stop_eq (h : Cut heading before title body after) :
    stop (levelOf heading) before.length (before ++ title :: (body ++ after)) =
      before.length + 1 + body.length := by
  have hopen : body.findIdx (closes (levelOf heading)) = body.length :=
    List.findIdx_eq_length.2 h.stays_open
  rw [stop, drop_append_cons, List.findIdx_append, hopen, if_neg (by omega)]
  cases hafter : after with
  | nil => simp
  | cons line rest =>
      have hclosed := h.closed line (by rw [hafter]; rfl)
      simp [List.findIdx_cons, hclosed]

theorem region_eq (h : Cut heading before title body after) (hne : heading ≠ []) :
    region (some heading) (before ++ title :: (body ++ after)) =
      ⟨before.length + 1, before.length + 1 + body.length⟩ := by
  rw [region_of_heading? hne h.heading?_eq, h.stop_eq]

/-- What is found is the section. -/
theorem texts_region (h : Cut heading before title body after) (hne : heading ≠ []) :
    (region (some heading) (before ++ title :: (body ++ after))).texts
      (before ++ title :: (body ++ after)) = body := by
  rw [h.region_eq hne, Region.texts, List.drop_take, drop_append_cons, Nat.add_sub_cancel_left,
    List.take_left]

/-- What is replaced is the section. -/
theorem replace_eq (h : Cut heading before title body after) (tasks : List Text) :
    replace size heading tasks (before ++ title :: (body ++ after)) =
      before ++ title :: (tasks ++ [] :: after) := by
  have htake : (before ++ title :: (body ++ after)).take (before.length + 1) =
      before ++ [title] := by
    rw [List.take_append, List.take_of_length_le (by omega), Nat.add_sub_cancel_left]
    rfl
  have hdrop : (before ++ title :: (body ++ after)).drop (before.length + 1 + body.length) =
      after := by
    rw [← List.drop_drop, drop_append_cons, List.drop_left]
  simp only [replace, h.heading?_eq, h.stop_eq, htake, hdrop, List.append_assoc, List.cons_append,
    List.nil_append]

end Cut

/-! ### A document after a replacement -/

/-- Whether a new section stands at the end of the document, with no blank line after it. -/
def isUnended (heading : Text) (lines : List Text) : Bool :=
  (heading? heading lines).isNone && lines.getLast? != some []

theorem closes_of_mem_append {level : Nat} {blanks : List Text}
    (htasks : ∀ line ∈ tasks, Heading.level? line = none) (hblanks : ∀ line ∈ blanks, line = []) :
    ∀ line ∈ tasks ++ blanks, closes level line = false := by
  intro line hline
  rcases List.mem_append.mp hline with hline | hline
  · exact closes_of_level?_eq_none (htasks line hline)
  · rw [hblanks line hline]
    exact closes_nil level

/-- What is left after the section begins with a line that ends it. -/
theorem closes_head_drop_stop (level start : Nat) (lines : List Text) :
    ∀ line ∈ (lines.drop (stop level start lines)).head?, closes level line = true := by
  intro line hline
  have hnone := takeWhile_drop_stop level start lines
  cases hdrop : lines.drop (stop level start lines) with
  | nil => simp [hdrop] at hline
  | cons first rest =>
      obtain rfl : first = line := by simpa [hdrop] using hline
      simpa [hdrop, List.takeWhile_cons] using hnone

/-- New tasks in a section that was there, and the section cut out again. -/
theorem cut_of_heading?_eq_some (size : Nat) {index : Nat} (h : heading? heading lines = some index)
    (htasks : ∀ line ∈ tasks, Heading.level? line = none) :
    ∃ title, lines.take (index + 1) = lines.take index ++ [title] ∧
      Cut heading (lines.take index) title (tasks ++ [[]])
        (lines.drop (stop (levelOf heading) index lines)) ∧
      ∀ tasks, replace size heading tasks lines = lines.take index ++
        title :: ((tasks ++ [[]]) ++ lines.drop (stop (levelOf heading) index lines)) := by
  obtain ⟨title, htitled, hsplit, hreplace⟩ := replace_of_heading?_eq_some size h
  refine ⟨title, hsplit, ⟨not_titled_take h, htitled, ?_, closes_head_drop_stop _ _ _⟩, ?_⟩
  · exact closes_of_mem_append htasks fun _ hline => List.mem_singleton.mp hline
  · intro tasks
    rw [hreplace, List.append_assoc]
    rfl

/-- New tasks in a section that is put at the end, and the section cut out again. -/
theorem cut_of_heading?_eq_none (size : Nat) (hlevel : (Heading.level? heading).isSome = true)
    (h : heading? heading lines = none) (htasks : ∀ line ∈ tasks, Heading.level? line = none) :
    Cut heading (textBefore size lines) (Text.strip heading) (tasks ++ lineEnd lines) [] := by
  obtain ⟨n, hn⟩ := Option.isSome_iff_exists.1 hlevel
  have htitled : isTitled heading (Text.strip heading) = true :=
    isTitled_strip (by rw [Heading.level?_strip hn]; rfl)
  exact ⟨not_titled_textBefore h, htitled, closes_of_mem_append htasks fun _ => mem_lineEnd,
    by simp⟩

/-- Tasks are put into a document as into a place of it. They are what is found there, with at most
a blank line after them. A section that was there keeps what stands before it, its heading and what
stands after it; a new one comes after all the text that belongs to no bullet. A second replacement
has the effect it has by itself, except that a section at the very end then gets its blank line. -/
theorem replace_lens (size : Nat) {heading : Text} (lines : List Text) {tasks : List Text}
    (hlevel : (Heading.level? heading).isSome = true)
    (htasks : ∀ line ∈ tasks, Heading.level? line = none) :
    let new := replace size heading tasks lines
    (region (some heading) new).texts new =
        tasks ++ (if isUnended heading lines then [] else [[]]) ∧
      (∀ index, heading? heading lines = some index →
        lines.take (index + 1) <+: new ∧
          lines.drop (stop (levelOf heading) index lines) <:+ new) ∧
      (heading? heading lines = none → ∃ index, heading? heading new = some index ∧
        new[index]? = some (Text.strip heading) ∧
        (new.take index).filter (!isBlankText ·) =
          textsOutside (ownedLines size lines) lines) ∧
      ∀ others, replace size heading others new =
        replace size heading others lines ++ (if isUnended heading lines then [[]] else []) := by
  intro new
  have hne : heading ≠ [] := by
    rintro rfl
    exact absurd hlevel (by decide)
  cases hfind : heading? heading lines with
  | some index =>
      -- The new document is cut where the old one is, so what stands around stays the same.
      obtain ⟨title, hsplit, hcut, hreplace⟩ := cut_of_heading?_eq_some size hfind htasks
      have hended : isUnended heading lines = false := by simp [isUnended, hfind]
      have hnew : new = _ := hreplace tasks
      rw [hnew, hended]
      refine ⟨hcut.texts_region hne, ?_, by simp, fun others => ?_⟩
      · rintro _ ⟨⟩
        constructor
        · rw [hsplit]
          exact ⟨_, List.append_assoc _ _ _⟩
        · rw [← List.cons_append, ← List.append_assoc]
          exact List.suffix_append _ _
      · rw [hcut.replace_eq, hreplace]
        simp
  | none =>
      -- The first heading in the new document that says what was wanted is the one put there.
      have hcut := cut_of_heading?_eq_none size hlevel hfind htasks
      have hend : lineEnd lines = if isUnended heading lines then [] else [[]] := by
        simp [lineEnd, isUnended, hfind]
      have hnew : new = textBefore size lines ++
          Text.strip heading :: ((tasks ++ lineEnd lines) ++ []) := by
        rw [List.append_nil]
        exact replace_of_heading?_eq_none hfind tasks
      rw [hnew]
      refine ⟨?_, by simp, fun _ => ⟨_, hcut.heading?_eq, ?_, ?_⟩, fun others => ?_⟩
      · rw [hcut.texts_region hne, hend]
      · simp
      · rw [List.take_left, filter_textBefore]
      · rw [hcut.replace_eq, replace_of_heading?_eq_none hfind, hend]
        split <;> simp

/-- A document without the heading that does not end in a blank line. -/
theorem replace_lens_unended :
    let lines : List Text := ["# Notes", "- \"a\"", "  k: v", "text"]
    let new := replace 2 " ## To do " ["- \"b\""] lines
    ((Heading.level? " ## To do ").isSome = true ∧
        ∀ line ∈ [("- \"b\"" : Text)], Heading.level? line = none) ∧
      new = ["# Notes", "text", "", "## To do", "- \"b\""] ∧
      (region (some " ## To do ") new).texts new = ["- \"b\""] ∧
      replace 2 " ## To do " ["- \"c\""] new =
        replace 2 " ## To do " ["- \"c\""] lines ++ [[]] := by
  intro lines new
  have hlevel : (Heading.level? " ## To do ").isSome = true := by decide
  have htasks : ∀ line ∈ [("- \"b\"" : Text)], Heading.level? line = none := by decide
  have hunended : isUnended " ## To do " lines = true := by decide
  obtain ⟨htexts, -, -, hagain⟩ := replace_lens 2 lines hlevel htasks
  rw [hunended] at htexts hagain
  exact ⟨⟨hlevel, htasks⟩, by decide, htexts, hagain _⟩

end Section

end Agenda
