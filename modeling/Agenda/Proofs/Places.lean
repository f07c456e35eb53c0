import Agenda.Proofs.Line
import Agenda.Proofs.Uses

/-!
The places that the linter reports. Columns are counted through several parts of a line: its text
without the blanks around it, the content of a bullet or the value of a key in that text, and a
token or a quote in those. Each part stands in the one before it at a known position, so what an
issue says about a part of a line is found at its columns, in the line as it was written.
-/

namespace Agenda

/-! ### Parts of a text -/

def Stands (part : Text) (pos : Nat) (t : Text) : Prop :=
  ∃ before after, t = before ++ (part ++ after) ∧ pos = before.length

namespace Stands

variable {part inner t : Text} {pos i : Nat}

theorem le (h : Stands part pos t) : pos + part.length ≤ t.length := by
  obtain ⟨before, after, rfl, rfl⟩ := h
  simp only [List.length_append]
  omega

theorem slice (h : Stands part pos t) : (t.take (pos + part.length)).drop pos = part := by
  obtain ⟨before, after, rfl, rfl⟩ := h
  rw [← List.append_assoc, List.take_left' List.length_append, List.drop_left]

theorem trans (h : Stands part pos t) (hinner : Stands inner i part) :
    Stands inner (pos + i) t := by
  obtain ⟨before, after, rfl, rfl⟩ := h
  obtain ⟨before', after', rfl, rfl⟩ := hinner
  exact ⟨before ++ before', after' ++ after, by simp, by rw [List.length_append]⟩

theorem of_suffix (h : part <:+ t) : Stands part (t.length - part.length) t := by
  obtain ⟨before, rfl⟩ := h
  exact ⟨before, [], by rw [List.append_nil], by rw [List.length_append, Nat.add_sub_cancel]⟩

theorem getElem? {c : Char} (h : Stands [c] pos t) : t[pos]? = some c := by
  obtain ⟨before, after, rfl, rfl⟩ := h
  simp

end Stands

theorem stands_of_mem_tokens {t : Text} {tok : Token} (h : tok ∈ tokens t) :
    Stands tok.text tok.start t := by
  obtain ⟨before, after, hbetween⟩ := between_tokens h
  exact ⟨before, after, hbetween.text_eq, by rw [hbetween.start_eq, Nat.zero_add]⟩

/-- The quote that is left open was open from the start, or it is opened in the text, where its mark
stands. -/
theorem Scan.of_unclosed {s : Scan} {opened pos i : Nat} {t : Text} {q : Quote}
    (h : s.unclosed opened pos t = some (q, i)) :
    (s.quote = some q ∧ i = opened) ∨ ∃ j, i = pos + j ∧ Stands [q.mark] j t := by
  induction t generalizing s opened pos with
  | nil =>
      obtain ⟨q', hq, hpair⟩ := Option.map_eq_some_iff.1 h
      obtain ⟨rfl, rfl⟩ := Prod.mk.inj hpair
      exact .inl ⟨hq, rfl⟩
  | cons c t ih =>
      rcases ih h with ⟨hquote, rfl⟩ | ⟨j, rfl, before, after, rfl, rfl⟩
      · cases hs : s.quote with
        | none =>
            -- The quote is opened by this very character.
            have hc : c = q.mark := by
              simp only [step, hs] at hquote
              split at hquote
              · cases hquote
              · split at hquote
                · cases hquote
                · exact Quote.eq_mark_of_ofChar? hquote
            exact .inr ⟨0, rfl, [], t, by rw [hc]; rfl, rfl⟩
        | some q' =>
            have hq : q' = q := by
              simp only [step, hs] at hquote
              split at hquote
              · exact Option.some.inj hquote
              · split at hquote
                · exact Option.some.inj hquote
                · split at hquote
                  · cases hquote
                  · exact Option.some.inj hquote
            exact .inl ⟨congrArg some hq, rfl⟩
      · exact .inr ⟨before.length + 1, by omega, c :: before, after, rfl, rfl⟩

theorem stands_of_unclosedQuote? {t : Text} {q : Quote} {pos : Nat}
    (h : unclosedQuote? t = some (q, pos)) : Stands [q.mark] pos t := by
  rcases Scan.of_unclosed h with ⟨hquote, -⟩ | ⟨j, rfl, hstands⟩
  · cases hquote
  · rwa [Nat.zero_add]

/-! ### Parts of a line -/

theorem Text.length_dropEndWhile_le (p : Char → Bool) (t : Text) :
    (dropEndWhile p t).length ≤ t.length :=
  calc (dropEndWhile p t).length
    _ = (t.reverse.dropWhile p).length := List.length_reverse
    _ ≤ t.reverse.length := (List.dropWhile_suffix p).length_le
    _ = t.length := List.length_reverse

namespace Line

/-- A text without tabs that begins with spaces or with something that is not blank, unless all of
it is blank. -/
structure IsPlain (t : Text) : Prop where
  no_tab : '\t' ∉ t
  margin : (∀ c ∈ t, Agenda.isBlank c = true) ∨ ∀ c ∈ t.takeWhile Agenda.isBlank, c = ' '

instance (t : Text) : Decidable (IsPlain t) :=
  decidable_of_iff ('\t' ∉ t ∧ ((∀ c ∈ t, Agenda.isBlank c = true) ∨
      ∀ c ∈ t.takeWhile Agenda.isBlank, c = ' '))
    ⟨fun h => ⟨h.1, h.2⟩, fun h => ⟨h.1, h.2⟩⟩

/-- The line is measured as it is written: its text stands at the indentation, and only blanks come
after it. -/
structure Fits (l : Line) (t : Text) : Prop where
  written : ∃ after, t = Text.spaces l.indent ++ (l.text ++ after) ∧
    ∀ c ∈ after, Agenda.isBlank c = true
  trimmed : l.text.Trimmed
  le_raw : l.indent + l.text.length ≤ l.raw.length
  raw_le : l.raw.length ≤ t.length

variable {l : Line} {t key value : Text}

theorem Fits.stands_text (h : l.Fits t) : Stands l.text l.indent t := by
  obtain ⟨after, ht, -⟩ := h.written
  exact ⟨Text.spaces l.indent, after, ht, by simp [Text.spaces]⟩

theorem indent_add_length_le (size index : Nat) (t : Text) :
    (ofText size index t).indent + (ofText size index t).text.length ≤
      (ofText size index t).raw.length := by
  have hstrip : ∀ body : Text, (Text.strip body).length ≤ body.length := fun body =>
    (Text.length_dropEndWhile_le _ _).trans (List.dropWhile_suffix _).length_le
  have hbody := (List.dropWhile_suffix (· = ' ') (l := (ofText size index t).raw)).length_le
  have htext := hstrip ((ofText size index t).raw.dropWhile (· = ' '))
  simp only [ofText] at hbody htext ⊢
  omega

theorem isBlank_of_forall {size index : Nat} (htab : '\t' ∉ t)
    (h : ∀ c ∈ t, Agenda.isBlank c = true) : (ofText size index t).isBlank = true := by
  have hexp : expandTabs size t = t := expandTabs_of_no_tab htab
  unfold expandTabs at hexp
  have htext : (ofText size index t).text = [] := by
    simp only [ofText, hexp, Text.strip_eq_nil]
    intro c hc
    exact h c (Text.mem_of_mem_dropEndWhile ((List.dropWhile_suffix _).subset hc))
  rw [Line.isBlank, htext]
  rfl

theorem fits_ofText {size index : Nat} (h : IsPlain t)
    (hblank : (ofText size index t).isBlank = false) : (ofText size index t).Fits t where
  written := by
    rcases h.margin with hall | hspaces
    · rw [isBlank_of_forall h.no_tab hall] at hblank
      cases hblank
    · cases hrest : t.dropWhile Agenda.isBlank with
      | nil =>
          rw [isBlank_of_forall h.no_tab (List.dropWhile_eq_nil_iff.1 hrest)] at hblank
          cases hblank
      | cons c u =>
          have hc : Agenda.isBlank c = false := by
            have hhead := List.head?_dropWhile_not Agenda.isBlank t
            rw [hrest] at hhead
            exact hhead
          have ht : t = Text.spaces (t.takeWhile Agenda.isBlank).length ++ c :: u := by
            conv_lhs => rw [← List.takeWhile_append_dropWhile (p := Agenda.isBlank) (l := t), hrest]
            rw [Text.spaces, ← List.eq_replicate_of_mem hspaces]
          have htab : '\t' ∉ u := fun hm => h.no_tab (by rw [ht]; simp [hm])
          obtain ⟨hindent, htext⟩ :=
            ofText_mark size index (t.takeWhile Agenda.isBlank).length hc u
          rw [← ht] at hindent htext
          rw [expandTabs_of_no_tab htab] at htext
          refine ⟨(u.reverse.takeWhile Agenda.isBlank).reverse, ?_, fun d hd =>
            List.mem_takeWhile_imp (List.mem_reverse.1 hd)⟩
          rw [hindent, htext, Text.stripEnd, Text.dropEndWhile, List.cons_append,
            ← List.reverse_append, List.takeWhile_append_dropWhile, List.reverse_reverse]
          exact ht
  trimmed := Text.trimmed_strip _
  le_raw := indent_add_length_le size index t
  raw_le := by
    have hexp : expandTabs size t = t := expandTabs_of_no_tab h.no_tab
    unfold expandTabs at hexp
    simp only [ofText, hexp]
    exact Text.length_dropEndWhile_le _ t

theorem bullet?_suffix {content : Text} (h : l.bullet? = some content) :
    content <:+ l.text ∧ l.contentColumn = l.indent + (l.text.length - content.length) := by
  unfold bullet? at h
  split at h
  · next htext =>
      obtain rfl := Option.some.inj h
      exact ⟨List.nil_suffix, by simp [contentColumn, htext, Text.stripStart]⟩
  · next c cs htext =>
      simp only at h
      split at h
      · obtain rfl := Option.some.inj h
        have hsuffix : Text.stripStart (c :: cs) <:+ l.text := by
          rw [htext]
          exact (List.dropWhile_suffix _).trans (List.suffix_cons _ _)
        have hlength := hsuffix.length_le
        refine ⟨hsuffix, ?_⟩
        have hdrop : l.text.drop 1 = c :: cs := by rw [htext, List.drop_one, List.tail_cons]
        rw [contentColumn, hdrop]
        omega
      · cases h
  · cases h

theorem keyed?_suffix (h : l.keyed? = some (key, value)) : value <:+ l.text := by
  unfold keyed? at h
  split at h
  · cases h
  · next key' rest hsplit =>
      simp only at h
      split at h
      · cases h
      · obtain ⟨-, rfl⟩ := Prod.mk.inj (Option.some.inj h)
        rw [(eq_of_splitKey? hsplit).2]
        exact (List.dropWhile_suffix _).trans
          ((List.suffix_cons _ _).trans (List.suffix_append _ _))

/-- The content of a bullet stands at its column, and ends where the text of the line ends. -/
theorem Fits.stands_content (h : l.Fits t) (hbullet : l.isBullet = true) :
    Stands l.content l.contentColumn t ∧
      l.contentColumn + l.content.length ≤ l.raw.length := by
  obtain ⟨content, hcontent⟩ := Option.isSome_iff_exists.1 hbullet
  obtain ⟨hsuffix, hcolumn⟩ := bullet?_suffix hcontent
  have heq : l.content = content := by rw [Line.content, hcontent]; rfl
  have hlength := hsuffix.length_le
  have hraw := h.le_raw
  rw [heq, hcolumn]
  exact ⟨h.stands_text.trans (.of_suffix hsuffix), by omega⟩

/-- The value of a key stands where the linter counts it from, and the line without the blanks at
its end ends with it. -/
theorem Fits.stands_value (h : l.Fits t) (hkeyed : l.keyed? = some (key, value)) :
    Stands value (l.indent + (l.text.length - value.length)) t ∧
      l.indent + (l.text.length - value.length) + value.length ≤ l.raw.length ∧
      Text.stripEnd (t.drop (l.indent + (l.text.length - value.length))) = value := by
  have hsuffix := keyed?_suffix hkeyed
  have hraw := h.le_raw
  have hlength := hsuffix.length_le
  refine ⟨h.stands_text.trans (.of_suffix hsuffix), by omega, ?_⟩
  obtain ⟨after, ht, hafter⟩ := h.written
  obtain ⟨before, hbefore⟩ := hsuffix
  have hlast : ∀ c, value.getLast? = some c → Agenda.isBlank c = false := by
    intro c hc
    refine h.trimmed.2 c ?_
    rw [← hbefore, List.getLast?_append, hc]
    rfl
  have hstart : l.indent + (l.text.length - value.length) =
      (Text.spaces l.indent ++ before).length := by
    rw [← hbefore]
    simp [Text.spaces]
  have hwhole : t = (Text.spaces l.indent ++ before) ++ (value ++ after) := by
    rw [ht, ← hbefore]
    simp
  rw [hstart, hwhole, List.drop_left, Text.stripEnd_append hlast, Text.stripEnd_eq_nil.2 hafter,
    List.append_nil]

end Line

/-! ### Issues and their places -/

namespace Lint

def lastKey? (us : List (Token × Use)) : Option Text :=
  ((us.filterMap (·.2.keyed?)).map (·.1)).getLast?

/-- The span is that of a token behind the title, of the tokens whose uses are given before it and
after it, and the written line shows the token there. -/
structure ShowsToken (l : Line) (t : Text) (start stop : Nat) (before : List (Token × Use))
    (tok : Token) (use : Use) (after : List (Token × Use)) : Prop where
  used : uses (afterTitle (tokens l.content)) = before ++ (tok, use) :: after
  start_eq : start = l.contentColumn + tok.start
  stop_eq : stop = l.contentColumn + tok.stop
  slice : (t.take stop).drop start = tok.text

/-- What the written line shows from column `start` up to `stop`, for the findings that are about
one part of a line. -/
def Finding.Shows (l : Line) (t : Text) (start stop : Nat) : Finding → Prop
  | .unclosed q => t[start]? = some q.mark
  | .misplaced kind =>
    ∃ before tok after, ShowsToken l t start stop before tok (.shorthand kind) after
  | .valueAfter key text => ∃ before tok after, ShowsToken l t start stop before tok .bare after ∧
      tok.text = text ∧ lastKey? before = some key
  | .valueBefore text => ∃ before tok after, ShowsToken l t start stop before tok .bare after ∧
      tok.text = text ∧ lastKey? before = none ∧ ∃ p ∈ after, p.1.isKey = true
  | .unquotedSpaces key => ∃ value, l.keyed? = some (key, value) ∧ isQuotedString value = false ∧
      Text.stripEnd (t.drop start) = value
  | _ => True

/-- The issue is at a place of the line where what it says is found. -/
structure Issue.IsPlaced (l : Line) (t : Text) (i : Issue) : Prop where
  line_eq : i.line = l.index + 1
  start_le : i.start ≤ i.stop
  stop_le : i.stop ≤ t.length
  shows : i.finding.Shows l t i.start i.stop

def Placed (l : Line) (t : Text) (issues : List Issue) : Prop := ∀ i ∈ issues, i.IsPlaced l t

variable {l : Line} {t : Text} {is js : List Issue}

theorem placed_nil : Placed l t [] := nofun

theorem placed_singleton {i : Issue} (h : i.IsPlaced l t) : Placed l t [i] :=
  List.forall_mem_singleton.2 h

theorem Placed.append (his : Placed l t is) (hjs : Placed l t js) : Placed l t (is ++ js) :=
  List.forall_mem_append.2 ⟨his, hjs⟩

theorem isPlaced_toEnd (h : l.Fits t) {finding : Finding} {start : Nat}
    (hstart : start ≤ l.raw.length) (hshows : finding.Shows l t start l.raw.length) :
    (Issue.toEnd l finding start).IsPlaced l t :=
  ⟨rfl, hstart, h.raw_le, hshows⟩

/-- An issue about the indentation. -/
theorem isPlaced_at_indent (h : l.Fits t) {finding : Finding}
    (hshows : finding.Shows l t 0 l.indent) : (Issue.at l finding 0 l.indent).IsPlaced l t :=
  ⟨rfl, Nat.zero_le _, by have := h.le_raw; have := h.raw_le; simp only [Issue.at]; omega, hshows⟩

theorem placed_checkIndent (h : l.Fits t) (size : Nat) : Placed l t (checkIndent size l) := by
  unfold checkIndent
  split
  · exact placed_nil
  · exact placed_singleton (isPlaced_at_indent h trivial)

theorem placed_checkNesting (h : l.Fits t) (size : Nat) (around : List Nat) :
    Placed l t (checkNesting size around l) := by
  unfold checkNesting
  split
  · split
    · exact placed_singleton (isPlaced_at_indent h trivial)
    · exact placed_nil
  · simp only
    split
    · exact placed_singleton (isPlaced_at_indent h trivial)
    · exact placed_nil

/-- A quote that is left open is found where it is opened, in whatever part of the line it is looked
for. -/
theorem placed_checkQuotes (h : l.Fits t) {part : Text} {column : Nat}
    (hpart : Stands part column t) (hraw : column + part.length ≤ l.raw.length) :
    Placed l t (checkQuotes l column part) := by
  unfold checkQuotes
  split
  · next q pos hunclosed =>
      have hmark := stands_of_unclosedQuote? hunclosed
      have hpos := hmark.le
      rw [List.length_singleton] at hpos
      exact placed_singleton (isPlaced_toEnd h (by omega) (hpart.trans hmark).getElem?)
  · exact placed_nil

theorem placed_noteId (h : l.Fits t) {start : Nat} (hstart : start ≤ l.raw.length)
    (seen : List Text) (raw : Text) : Placed l t (noteId l seen raw start).2 := by
  simp only [noteId]
  split
  · exact placed_nil
  · simp only
    split
    · exact placed_singleton (isPlaced_toEnd h hstart trivial)
    · exact placed_nil

/-- Only the value of the key `id` is noted. -/
theorem placed_noteValue (h : l.Fits t) {start : Nat} (hstart : start ≤ l.raw.length)
    (seen : List Text) (key raw : Text) : Placed l t
      (if key = Key.id then noteId l seen raw start else (seen, [])).2 := by
  split
  · exact placed_noteId h hstart seen raw
  · exact placed_nil

/-! ### Bullets -/

theorem lastKey?_concat (us : List (Token × Use)) (tok : Token) (use : Use) :
    lastKey? (us ++ [(tok, use)]) = (use.keyed?.map (·.1)).or (lastKey? us) := by
  unfold lastKey?
  rw [List.filterMap_append, List.map_append, List.getLast?_append]
  cases h : use.keyed? <;> simp [h]

section Bullets

variable (h : l.Fits t) (hbullet : l.isBullet = true) {tok : Token}

include h hbullet

/-- A token of the content stands at its columns, which are within the line. -/
theorem stands_token (htok : tok ∈ tokens l.content) :
    Stands tok.text (l.contentColumn + tok.start) t ∧
      l.contentColumn + tok.start + tok.text.length ≤ l.raw.length := by
  obtain ⟨hcontent, hraw⟩ := h.stands_content hbullet
  have hstands := stands_of_mem_tokens htok
  have hle := hstands.le
  exact ⟨hcontent.trans hstands, by omega⟩

theorem showsToken {before after : List (Token × Use)} {use : Use}
    (hused : uses (afterTitle (tokens l.content)) = before ++ (tok, use) :: after) :
    tok ∈ tokens l.content ∧
      ShowsToken l t (l.contentColumn + tok.start) (l.contentColumn + tok.stop) before tok use
        after := by
  have hmem := List.mem_map_of_mem (f := (·.1))
    (hused ▸ List.mem_append_right before List.mem_cons_self)
  rw [map_fst_uses] at hmem
  have htok := (afterTitle_suffix _).subset hmem
  refine ⟨htok, hused, rfl, rfl, ?_⟩
  rw [Token.stop, ← Nat.add_assoc]
  exact (stands_token h hbullet htok).1.slice

/-- An issue that ends where a token does. -/
theorem isPlaced_upto_token (htok : tok ∈ tokens l.content) {finding : Finding} {start : Nat}
    (hstart : start ≤ l.contentColumn + tok.stop)
    (hshows : finding.Shows l t start (l.contentColumn + tok.stop)) :
    (Issue.at l finding start (l.contentColumn + tok.stop)).IsPlaced l t := by
  obtain ⟨hstands, -⟩ := stands_token h hbullet htok
  refine ⟨rfl, hstart, ?_, hshows⟩
  rw [Issue.at, Token.stop, ← Nat.add_assoc]
  exact hstands.le

/-- An issue about one token. -/
theorem isPlaced_at_token (htok : tok ∈ tokens l.content) {finding : Finding}
    (hshows : finding.Shows l t (l.contentColumn + tok.start) (l.contentColumn + tok.stop)) :
    (Issue.at l finding (l.contentColumn + tok.start) (l.contentColumn + tok.stop)).IsPlaced l t :=
  isPlaced_upto_token h hbullet htok (Nat.add_le_add_left (Nat.le_add_right _ _) _) hshows

theorem placed_checkPriorities {lead : List Token} (hlead : lead ⊆ tokens l.content) :
    Placed l t (checkPriorities l l.contentColumn lead) := by
  unfold checkPriorities
  split
  · next last hlast =>
      split
      · have hmem := hlead (List.mem_of_getLast? hlast)
        exact placed_singleton
          (isPlaced_upto_token h hbullet hmem (Nat.le_add_right _ _) trivial)
      · exact placed_nil
  · exact placed_nil

/-- The last token of a title does not end before the first one starts. -/
theorem placed_checkTitle {title : List Token} (htitle : title.Sublist (tokens l.content))
    (rest : List Token) : Placed l t (checkTitle l l.contentColumn title rest) := by
  unfold checkTitle
  split
  · next first last hfirst hlast =>
      split
      · have horder : first.start ≤ last.stop := by
          have hapart : Apart title := (apart_tokens l.content).sublist htitle
          obtain ⟨others, rfl⟩ := List.head?_eq_some_iff.1 hfirst
          rcases List.mem_cons.1 (List.mem_of_getLast? hlast) with rfl | hmem
          · exact Nat.le_add_right _ _
          · have hbefore := (List.pairwise_cons.1 hapart).1 last hmem
            simp only [Token.stop] at hbefore ⊢
            omega
        have hmem := htitle.subset (List.mem_of_getLast? hlast)
        exact placed_singleton
          (isPlaced_upto_token h hbullet hmem (Nat.add_le_add_left horder _) trivial)
      · exact placed_nil
  · exact placed_nil

theorem placed_checkUses (before us : List (Token × Use))
    (hused : uses (afterTitle (tokens l.content)) = before ++ us) (seen : List Text) :
    Placed l t (checkUses l l.contentColumn seen (lastKey? before) us).2 := by
  induction us generalizing before seen with
  | nil => exact placed_nil
  | cons p us ih =>
      obtain ⟨tok, use⟩ := p
      obtain ⟨htok, hshows⟩ := showsToken h hbullet hused
      have hrest := ih (before ++ [(tok, use)]) (by simp [hused])
      rw [lastKey?_concat] at hrest
      cases use with
      | value => exact hrest seen
      | quoted => exact hrest seen
      | key key raw =>
          obtain ⟨-, hraw⟩ := stands_token h hbullet htok
          have hfound := placed_noteValue h (Nat.le_of_add_right_le hraw) seen key raw
          exact hfound.append (hrest _)
      | shorthand kind =>
          have hfound : (Issue.at l (.misplaced kind) _ _).IsPlaced l t :=
            isPlaced_at_token h hbullet htok ⟨_, _, _, hshows⟩
          exact (placed_singleton hfound).append (hrest seen)
      | bare =>
          cases hlast : lastKey? before with
          | some key =>
              have hfound : (Issue.at l (.valueAfter key tok.text) _ _).IsPlaced l t :=
                isPlaced_at_token h hbullet htok ⟨_, _, _, hshows, rfl, hlast⟩
              rw [hlast] at hrest
              exact (placed_singleton hfound).append (hrest seen)
          | none =>
              rw [hlast] at hrest
              refine Placed.append (fun i hi => ?_) (hrest seen)
              simp only at hi
              split at hi
              · next hany =>
                  rw [List.mem_singleton.1 hi]
                  exact isPlaced_at_token h hbullet htok
                    ⟨_, _, _, hshows, rfl, hlast, List.any_eq_true.1 hany⟩
              · cases hi

theorem placed_checkContent (seen : List Text) : Placed l t (checkContent l seen).2 := by
  obtain ⟨hcontent, hraw⟩ := h.stands_content hbullet
  have hbehind : (tokens l.content).dropWhile isShorthand <:+ tokens l.content :=
    List.dropWhile_suffix _
  refine (((placed_checkQuotes h hcontent hraw).append ?_).append ?_).append ?_
  · exact placed_checkPriorities h hbullet (List.takeWhile_prefix _).subset
  · exact placed_checkTitle h hbullet ((List.takeWhile_prefix _).sublist.trans hbehind.sublist) _
  · rw [usesAt_valuePositions]
    exact placed_checkUses h hbullet [] _ rfl seen

theorem placed_visitBullet (size : Nat) (p : Pass) : Placed l t (p.visitBullet size l).2 := by
  have hfound : Placed l t (if l.content.isEmpty then (p.seen, [Issue.toEnd l .emptyBullet 0])
      else checkContent l p.seen).2 := by
    split
    · exact placed_singleton (isPlaced_toEnd h (Nat.zero_le _) trivial)
    · exact placed_checkContent h hbullet p.seen
  exact ((placed_checkIndent h size).append hfound).append (placed_checkNesting h size _)

end Bullets

/-! ### Lines below a bullet -/

theorem placed_visitValue (h : l.Fits t) {key value : Text}
    (hkeyed : l.keyed? = some (key, value)) (p : Pass) :
    Placed l t (p.visitValue l key value).2 := by
  obtain ⟨hvalue, hraw, hend⟩ := h.stands_value hkeyed
  have hstart := Nat.le_of_add_right_le hraw
  refine Placed.append (Placed.append ?_ ?_) (placed_noteValue h hstart p.seen key value)
  · split
    · exact placed_checkQuotes h hvalue hraw
    · exact placed_nil
  · split
    · next hspaces =>
        have hquoted : isQuotedString value = false := by
          simpa using (Bool.and_eq_true_iff.1 hspaces).1
        exact placed_singleton (isPlaced_toEnd h hstart ⟨value, hkeyed, hquoted, hend⟩)
    · exact placed_nil

theorem placed_visitContinuation (h : l.Fits t) (p : Pass) (next : List Line) :
    Placed l t (p.visitContinuation l next).2 := by
  have hindent : l.indent ≤ l.raw.length := Nat.le_of_add_right_le h.le_raw
  unfold Pass.visitContinuation
  split
  · split
    · exact placed_singleton (isPlaced_toEnd h hindent trivial)
    · exact placed_singleton (isPlaced_toEnd h hindent trivial)
  · next key value hkeyed =>
      split
      · simp only
        split
        · exact placed_nil
        · exact placed_singleton (isPlaced_toEnd h hindent trivial)
      · split
        · split
          · exact placed_singleton (isPlaced_toEnd h hindent trivial)
          · exact placed_nil
        · exact placed_visitValue h hkeyed p

/-! ### The pass -/

/-- The issues of one line are at places of that line. -/
theorem placed_visit (h : l.isBlank = false → l.Fits t) (size : Nat) (p : Pass)
    (next : List Line) : Placed l t (p.visit size l next).2 := by
  unfold Pass.visit
  split
  · exact placed_nil
  · next hopen =>
      have hfits : l.Fits t := h (Bool.or_eq_false_iff.1 (by simpa using hopen)).1
      unfold Pass.visitOpen
      split
      · next hbullet => exact placed_visitBullet hfits hbullet size _
      · split
        · exact placed_nil
        · exact placed_visitContinuation hfits _ next

theorem placed_issues {size : Nat} {ts : List Text} (hts : ∀ t ∈ ts, Line.IsPlain t) (index : Nat)
    (p : Pass) : ∀ i ∈ p.issues size (Line.ofTexts size index ts), ∃ k t, ts[k]? = some t ∧
      i.IsPlaced (Line.ofText size (index + k) t) t := by
  induction ts generalizing index p with
  | nil => exact nofun
  | cons t ts ih =>
      obtain ⟨ht, hts⟩ := List.forall_mem_cons.1 hts
      intro i hi
      rw [Line.ofTexts, Pass.issues_cons] at hi
      rcases List.mem_append.1 hi with hi | hi
      · exact ⟨0, t, rfl, placed_visit (Line.fits_ofText ht) size p _ i hi⟩
      · obtain ⟨k, u, hu, hplaced⟩ := ih hts (index + 1) _ i hi
        exact ⟨k + 1, u, hu, by rwa [Nat.add_comm k, ← Nat.add_assoc]⟩

/-- In a document without tabs, with only spaces in the margins, every issue is on a line of the
task section and within that line, and what it is about is found at its columns. -/
theorem run_isPlaced {lines : List Text} (h : ∀ t ∈ lines, Line.IsPlain t) (size : Nat)
    (heading : Option Text) : ∀ i ∈ run size heading lines,
      ((Section.region heading lines).start < i.line ∧
        i.line ≤ (Section.region heading lines).stop) ∧
      ∃ t, lines[i.line - 1]? = some t ∧ i.IsPlaced (Line.ofText size (i.line - 1) t) t := by
  intro i hi
  set r := Section.region heading lines
  have hregion : ∀ t ∈ (lines.take r.stop).drop r.start, Line.IsPlain t := fun t ht =>
    h t (List.mem_of_mem_take (List.mem_of_mem_drop ht))
  obtain ⟨k, t, ht, hplaced⟩ := placed_issues hregion r.start {} i hi
  have hline : i.line = r.start + k + 1 := hplaced.line_eq
  rw [List.getElem?_drop] at ht
  have hstop : r.start + k < r.stop := by
    by_contra hout
    rw [List.getElem?_take_eq_none (Nat.le_of_not_lt hout)] at ht
    cases ht
  rw [List.getElem?_take_of_lt hstop] at ht
  refine ⟨by omega, t, ?_, ?_⟩
  · rw [hline, Nat.add_sub_cancel, ht]
  · rwa [hline, Nat.add_sub_cancel]

/-- A tag behind a value, and a value with a space. -/
theorem run_isPlaced_two :
    let lines : List Text := ["text", "## TODO", "- \"t\" due: 1 #late", "  note: two words ", "# end"]
    let i : Issue := ⟨3, .misplaced .tag, 13, 18⟩
    let j : Issue := ⟨4, .unquotedSpaces "note", 8, 18⟩
    (∀ t ∈ lines, Line.IsPlain t) ∧ run 2 (some "## TODO") lines = [i, j] ∧
      i.IsPlaced (Line.ofText 2 2 "- \"t\" due: 1 #late") "- \"t\" due: 1 #late" ∧
      j.IsPlaced (Line.ofText 2 3 "  note: two words ") "  note: two words " := by
  intro lines i j
  have hplain : ∀ t ∈ lines, Line.IsPlain t := by decide
  have hrun : run 2 (some "## TODO") lines = [i, j] := by rfl
  have hplaced := run_isPlaced hplain 2 (some "## TODO")
  rw [hrun] at hplaced
  obtain ⟨-, t, ht, hi⟩ := hplaced i List.mem_cons_self
  obtain ⟨-, u, hu, hj⟩ := hplaced j (List.mem_cons_of_mem _ List.mem_cons_self)
  obtain rfl := Option.some.inj ht
  obtain rfl := Option.some.inj hu
  exact ⟨hplain, hrun, hi, hj⟩

end Lint

end Agenda
