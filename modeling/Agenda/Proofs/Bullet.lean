import Agenda.Layout
import Agenda.Proofs.Fields

/-!
Bullets. The line of a bullet is written as words: shorthand, a quoted title, and keys that
alternate with their values. Reading the words gives the shorthand, the title and the values back,
and the fields that shorthand stands for are set again.
-/

namespace Agenda

/-! ### Shorthand -/

namespace Shorthand

def word : Shorthand → Text
  | .priority letter => letter
  | .completed true => "[x]"
  | .completed false => "[_]"
  | .skipped => "[-]"
  | .stakeholder name => '@' :: name
  | .tag name => '#' :: name

/-- Shorthand that a bullet can start with: a priority that there is, or a proper name. -/
def Legible : Shorthand → Prop
  | .priority letter => letter ∈ priorities
  | .completed _ => True
  | .skipped => True
  | .stakeholder name => name ≠ [] ∧ ∀ c ∈ name, isKeyChar c = true
  | .tag name => name ≠ [] ∧ ∀ c ∈ name, isKeyChar c = true

theorem plain_of_name {marker : Char} {name : Text} (hm : Scalar.isUnquotable marker = false)
    (h : ∀ c ∈ name, isKeyChar c = true) : Scalar.Form (marker :: name) := by
  refine .plain (by simp) ?_
  intro c hc
  rcases List.mem_cons.mp hc with rfl | hc
  · exact hm
  · exact isUnquotable_of_isKeyChar (h c hc)

theorem Legible.form {s : Shorthand} (h : s.Legible) : Scalar.Form s.word := by
  cases s with
  | priority letter =>
      have hall : ∀ t ∈ priorities, t ≠ [] ∧ ∀ c ∈ t, Scalar.isUnquotable c = false := by decide
      exact .plain (hall letter h).1 (hall letter h).2
  | completed done => refine .plain ?_ ?_ <;> cases done <;> decide
  | skipped => refine .plain ?_ ?_ <;> decide
  | stakeholder name => exact plain_of_name (by decide) h.2
  | tag name => exact plain_of_name (by decide) h.2

/-- A marker and a proper name are nothing but that name. -/
theorem read?_marked {marker : Char} {name : Text} (hm : marker = '@' ∨ marker = '#')
    (hne : name ≠ []) (h : ∀ c ∈ name, isKeyChar c = true) :
    read? (marker :: name) =
      some (if marker = '@' then .stakeholder name else .tag name) := by
  have hlast : (marker :: name).getLast? ≠ some '\n' := by
    intro hl
    rcases List.mem_cons.mp (List.mem_of_getLast? hl) with hc | hc
    · rcases hm with rfl | rfl <;> cases hc
    · exact absurd (h _ hc) (by decide)
  have hpriority : isPriority (marker :: name) = false := by
    cases name with
    | nil => exact absurd rfl hne
    | cons c cs =>
        rw [isPriority, Text.dropFinalNewline, if_neg hlast]
  cases name with
  | nil => exact absurd rfl hne
  | cons c cs =>
      have hc := h c (by simp)
      have hblank := isBlank_of_isKeyChar hc
      have hat : c ≠ '@' := by
        rintro rfl
        exact absurd hc (by decide)
      have hsign : c ≠ '#' := by
        rintro rfl
        exact absurd hc (by decide)
      rcases hm with rfl | rfl <;> simp [read?, hpriority, readName?, hblank, hat, hsign]

theorem Legible.read?_word {s : Shorthand} (h : s.Legible) : read? s.word = some s := by
  cases s with
  | priority letter =>
      have hall : ∀ t ∈ priorities, read? t = some (.priority t) := by decide
      exact hall letter h
  | completed done => cases done <;> rfl
  | skipped => rfl
  | stakeholder name => exact read?_marked (.inl rfl) h.1 h.2
  | tag name => exact read?_marked (.inr rfl) h.1 h.2

/-- No shorthand has two characters or more and ends with a colon. -/
theorem read?_keyWord {key : Text} (h : IsKey key) : read? (keyWord key) = none := by
  cases key with
  | nil => exact h.elim
  | cons c cs =>
      have hc := isKeyChar_of_isKeyStart h.1
      have hlast : (keyWord (c :: cs)).getLast? = some ':' := by
        rw [keyWord, List.getLast?_concat]
      have hne : ∀ t : Text, t.getLast? ≠ some ':' → keyWord (c :: cs) ≠ t := by
        rintro t ht rfl
        exact ht hlast
      have hpriority : isPriority (keyWord (c :: cs)) = false := by
        rw [isPriority, Text.dropFinalNewline, hlast, if_neg (by decide)]
        cases cs <;> rfl
      have hname : readName? (keyWord (c :: cs)) = none := by
        have hat : c ≠ '@' := by
          rintro rfl
          exact absurd hc (by decide)
        have hsign : c ≠ '#' := by
          rintro rfl
          exact absurd hc (by decide)
        cases cs <;> simp [keyWord, readName?, hat, hsign]
      simp only [read?, hpriority, hname, Bool.or_eq_true, decide_eq_true_eq]
      rw [if_neg (by decide), if_neg, if_neg (hne _ (by decide)), if_neg]
      · rintro (h | h)
        · exact hne _ (by decide) h
        · exact hne _ (by decide) h
      · rintro (((h | h) | h) | h)
        all_goals exact hne _ (by decide) h

/-- A quoted string is no shorthand. -/
theorem read?_enquote (t : Text) : read? (enquote t) = none := by
  obtain ⟨q, hq⟩ := head?_enquote t
  have hmark : ∀ r : Quote, r.mark ∉ ['x', 'X', '[', '-', '@', '#'] ∧
      ¬ ('A' ≤ r.mark ∧ r.mark ≤ 'D') ∧ r.mark ≠ '\n' := by
    intro r
    cases r <;> decide
  obtain ⟨hfirst, hletter, hnl⟩ := hmark q
  simp only [List.mem_cons, List.not_mem_nil, not_or] at hfirst
  cases he : enquote t with
  | nil => simp [he] at hq
  | cons c cs =>
      obtain rfl : c = q.mark := by simpa [he] using hq
      have hpriority : isPriority (q.mark :: cs) = false := by
        unfold isPriority
        split
        · next d hd =>
            obtain rfl : d = q.mark := by
              unfold Text.dropFinalNewline at hd
              split at hd
              · cases cs with
                | nil => simp at hd
                | cons e es => simpa using (List.cons.inj hd).1.symm
              · simpa using (List.cons.inj hd).1.symm
            simpa using hletter
        · rfl
      have hname : readName? (q.mark :: cs) = none := by
        cases cs <;> simp [readName?, hfirst]
      simp [read?, hpriority, hname, hfirst]

end Shorthand

/-! ### The words of a bullet -/

namespace Bullet

/-- The words after the shorthand: a title, if there is one, and fields. -/
def bodyWords (title : Option Text) (fields : List (Text × Text)) : List Text :=
  title.toList.map enquote ++ fieldWords fields

def words (lead : List Shorthand) (title : Option Text) (fields : List (Text × Text)) :
    List Text :=
  lead.map Shorthand.word ++ bodyWords title fields

variable {lead : List Shorthand} {title : Option Text} {fields : List (Text × Text)}
  {ts : List Token}

theorem form_of_mem_words (hlead : ∀ s ∈ lead, s.Legible)
    (hfields : ∀ f ∈ fields, IsKey f.1 ∧ Scalar.Form f.2) {w : Text}
    (hw : w ∈ words lead title fields) : Scalar.Form w := by
  simp only [words, bodyWords, fieldWords, List.mem_append, List.mem_map, List.mem_flatMap,
    List.mem_cons, List.not_mem_nil, or_false] at hw
  rcases hw with ⟨s, hs, rfl⟩ | ⟨t, -, rfl⟩ | ⟨f, hf, rfl | rfl⟩
  · exact (hlead s hs).form
  · exact .quoted t
  · exact .plain (by simp [keyWord]) (mem_keyWord (hfields f hf).1)
  · exact (hfields f hf).2

theorem map_text_tokens_words (hlead : ∀ s ∈ lead, s.Legible)
    (hfields : ∀ f ∈ fields, IsKey f.1 ∧ Scalar.Form f.2) :
    (tokens (Text.join [' '] (words lead title fields))).map Token.text =
      words lead title fields := by
  rw [tokens_join fun w hw => (form_of_mem_words hlead hfields hw).isWord, map_text_wordTokens]

/-- The shorthand is split off the front, up to a word that is none. -/
theorem shorthand_of_words {rest : List Text} (hlead : ∀ s ∈ lead, s.Legible)
    (hts : ts.map Token.text = lead.map Shorthand.word ++ rest)
    (hrest : ∀ w, rest.head? = some w → Shorthand.read? w = none) :
    ∃ us, shorthand ts = (lead, us) ∧ us.map Token.text = rest := by
  induction lead generalizing ts with
  | nil =>
      refine ⟨ts, ?_, by simpa using hts⟩
      cases ts with
      | nil => rfl
      | cons t ts =>
          have hfirst : rest.head? = some t.text := by
            rw [List.map_nil, List.nil_append] at hts
            rw [← hts]
            rfl
          have ht : Shorthand.read? t.text = none := hrest _ hfirst
          simp [shorthand, ht]
  | cons s lead ih =>
      rw [List.map_cons, List.cons_append] at hts
      obtain ⟨t, ts, rfl, ht, hts⟩ := List.map_eq_cons_iff.1 hts
      obtain ⟨us, hus, hrest⟩ := ih (fun s hs => hlead s (List.mem_cons_of_mem _ hs)) hts
      have hs : Shorthand.read? t.text = some s := by
        rw [ht]
        exact (hlead s (by simp)).read?_word
      exact ⟨us, by simp [shorthand, hs, hus], hrest⟩

/-- The word after the shorthand is a title or a key, and neither is read as shorthand. -/
theorem read?_of_head {key : Text} {ws : List Text} (hkey : IsKey key) {w : Text}
    (hw : (title.toList.map enquote ++ keyWord key :: ws).head? = some w) :
    Shorthand.read? w = none := by
  cases title with
  | none =>
      obtain rfl : keyWord key = w := by simpa using hw
      exact Shorthand.read?_keyWord hkey
  | some t =>
      obtain rfl : enquote t = w := by simpa using hw
      exact Shorthand.read?_enquote t

/-- The title is the quoted word before the first key, and the keys start after it. -/
theorem title?_of_words (content : Text) {key : Text} {ws : List Text} (hkey : IsKey key)
    (hts : ts.map Token.text = title.toList.map enquote ++ keyWord key :: ws) :
    title? content ts = title ∧
      (ts.dropWhile (!·.isKey)).map Token.text = keyWord key :: ws := by
  have hkeyed : ∀ t : Token, t.text = keyWord key → t.isKey = true := fun t ht =>
    Token.isKey_keyWord hkey ht
  cases title with
  | none =>
      have hts' : ts.map Token.text = keyWord key :: ws := by simpa using hts
      obtain ⟨t, us, rfl, ht, -⟩ := List.map_eq_cons_iff.1 hts'
      have htake : (t :: us).takeWhile (!·.isKey) = [] :=
        List.takeWhile_cons_of_neg (by simp [hkeyed t ht])
      have hdrop : (t :: us).dropWhile (!·.isKey) = t :: us :=
        List.dropWhile_cons_of_neg (by simp [hkeyed t ht])
      refine ⟨by simp [title?, htake], ?_⟩
      rw [hdrop, hts']
  | some name =>
      have hts' : ts.map Token.text = enquote name :: keyWord key :: ws := by simpa using hts
      obtain ⟨t, us, rfl, ht, hus⟩ := List.map_eq_cons_iff.1 hts'
      obtain ⟨u, vs, rfl, hu, -⟩ := List.map_eq_cons_iff.1 hus
      have hquoted : t.quoted = true := by
        rw [Token.quoted, ht]
        exact isQuotedString_enquote name
      have hnot : t.isKey = false := by simp [Token.isKey, Token.key?, hquoted]
      have htake : (t :: u :: vs).takeWhile (!·.isKey) = [t] := by
        rw [List.takeWhile_cons_of_pos (by simp [hnot]),
          List.takeWhile_cons_of_neg (by simp [hkeyed u hu])]
      have hdrop : (t :: u :: vs).dropWhile (!·.isKey) = u :: vs := by
        rw [List.dropWhile_cons_of_pos (by simp [hnot]),
          List.dropWhile_cons_of_neg (by simp [hkeyed u hu])]
      refine ⟨?_, by rw [hdrop, hus]⟩
      simp [title?, htake, hquoted, ht]

def withTitle (fs : Fields) : Option Text → Fields
  | some title => fs.set Key.title (.text title)
  | none => fs

/-- Shorthand and title are read, and what is left are the words from the first key on. -/
theorem read_lead (content : Text) {key : Text} {ws : List Text}
    (hlead : ∀ s ∈ lead, s.Legible) (hkey : IsKey key)
    (hts : ts.map Token.text =
      lead.map Shorthand.word ++ (title.toList.map enquote ++ keyWord key :: ws)) :
    headFields content ts = withTitle (lead.foldl Fields.addShorthand []) title ∧
      ∃ us, us.map Token.text = keyWord key :: ws ∧
        written ts = (pairs us).map fun p => (p.key, .inline p.raw) := by
  obtain ⟨us, hus, hbody⟩ := shorthand_of_words hlead hts fun w => read?_of_head hkey
  obtain ⟨htitle, hrest⟩ := title?_of_words content hkey hbody
  refine ⟨?_, us.dropWhile (!·.isKey), hrest, by rw [written, hus]⟩
  simp only [headFields, hus, htitle]
  cases title <;> rfl

/-- The words of a bullet are read as what they were written for. -/
theorem read_words (content : Text) (hlead : ∀ s ∈ lead, s.Legible)
    (hkeys : ∀ f ∈ fields, IsKey f.1) (hne : fields ≠ [])
    (hts : ts.map Token.text = words lead title fields) :
    headFields content ts = withTitle (lead.foldl Fields.addShorthand []) title ∧
      written ts = fields.map fun f => (f.1, .inline f.2) := by
  obtain ⟨f, fields, rfl⟩ := List.exists_cons_of_ne_nil hne
  obtain ⟨hhead, us, hus, hwritten⟩ := read_lead content hlead (hkeys f (by simp)) hts
  refine ⟨hhead, ?_⟩
  obtain ⟨vs, hvs, hpairs⟩ := pairs_fieldWords hkeys (hus.trans (List.append_nil _).symm)
  obtain rfl : vs = [] := by simpa using hvs
  rw [hwritten, ← List.append_nil (f :: fields)]
  change _ = ((f :: fields) ++ (pairs []).map fun p => (p.key, p.raw)).map _
  rw [← hpairs, List.map_map]
  rfl

end Bullet

/-! ### The fields that shorthand shows -/

namespace Layout

def leadKeys : List Text :=
  [Key.completed, Key.skipped, Key.priority, Key.stakeholders, Key.tags]

def marks (withNames : Bool) (key : Text) (v : Value) : List Shorthand :=
  if isShorthand withNames key v then
    match v with
    | .flag done => if key = Key.completed then [.completed done] else [.skipped]
    | .text letter => [.priority letter]
    | .names xs => if key = Key.stakeholders then xs.map .stakeholder else xs.map .tag
    | _ => []
  else []

def lead (withNames : Bool) (fs : Fields) : List Shorthand :=
  leadKeys.flatMap fun key => marks withNames key (fs.get key)

/-- The field as shorthand shows it. A list without names is not seen. -/
def shownField (withNames : Bool) (key : Text) (v : Value) : Fields :=
  if isShorthand withNames key v && v != .names [] then [(key, v)] else []

def leadFields (withNames : Bool) (fs : Fields) : Fields :=
  leadKeys.flatMap fun key => shownField withNames key (fs.get key)

theorem isShorthand_cases {withNames : Bool} {key : Text} {v : Value}
    (h : isShorthand withNames key v = true) :
    (key = Key.completed ∧ ∃ done, v = .flag done) ∨ (key = Key.skipped ∧ v = .flag true) ∨
      (key = Key.priority ∧ ∃ letter ∈ priorities, v = .text letter) ∨
      (withNames = true ∧ Key.isList key = true ∧ ∃ xs, v = .names xs) := by
  simp only [isShorthand, Bool.or_eq_true, Bool.and_eq_true, decide_eq_true_eq,
    List.any_eq_true] at h
  rcases h with ((⟨hk, hv⟩ | ⟨hk, hv⟩) | ⟨hk, t, ht, hv⟩) | ⟨⟨hn, hk⟩, hv⟩
  · refine .inl ⟨hk, ?_⟩
    rcases hv with hv | hv
    · exact ⟨true, hv⟩
    · exact ⟨false, hv⟩
  · exact .inr (.inl ⟨hk, hv⟩)
  · exact .inr (.inr (.inl ⟨hk, t, ht, hv⟩))
  · refine .inr (.inr (.inr ⟨hn, hk, ?_⟩))
    cases v with
    | names xs => exact ⟨xs, rfl⟩
    | _ => cases hv

theorem isList_cases {key : Text} (h : Key.isList key = true) :
    key = Key.stakeholders ∨ key = Key.tags := by
  simpa [Key.isList] using h

/-- The fields that shorthand can show have keys of their own. -/
theorem leadKeys_nodup : leadKeys.Nodup := by decide

theorem isShorthand_completed (withNames : Bool) (v : Value) :
    isShorthand withNames Key.completed v = (v = .flag true || v = .flag false) := by
  have hs : Key.completed ≠ Key.skipped := by decide
  have hp : Key.completed ≠ Key.priority := by decide
  have hl : Key.isList Key.completed = false := by decide
  simp [isShorthand, hs, hp, hl]

theorem isShorthand_skipped (withNames : Bool) (v : Value) :
    isShorthand withNames Key.skipped v = decide (v = .flag true) := by
  have hc : Key.skipped ≠ Key.completed := by decide
  have hp : Key.skipped ≠ Key.priority := by decide
  have hl : Key.isList Key.skipped = false := by decide
  simp [isShorthand, hc, hp, hl]

theorem isShorthand_priority (withNames : Bool) (v : Value) :
    isShorthand withNames Key.priority v = priorities.any (v = .text ·) := by
  have hc : Key.priority ≠ Key.completed := by decide
  have hs : Key.priority ≠ Key.skipped := by decide
  have hl : Key.isList Key.priority = false := by decide
  simp [isShorthand, hc, hs, hl]

theorem isShorthand_list {key : Text} (h : Key.isList key = true) (withNames : Bool) (v : Value) :
    isShorthand withNames key v = (withNames && match v with | .names _ => true | _ => false) := by
  have hkeys : ∀ k ∈ [Key.stakeholders, Key.tags],
      k ≠ Key.completed ∧ k ≠ Key.skipped ∧ k ≠ Key.priority := by decide
  obtain ⟨hc, hs, hp⟩ := hkeys key (by simpa using isList_cases h)
  cases v <;> simp only [isShorthand, hc, hs, hp, h, decide_false, Bool.false_and, Bool.false_or,
    Bool.and_true]

/-- The names of a list field, each behind its marker. -/
theorem markedNames_eq_map_word {key : Text} (marker : Char) (mark : Text → Shorthand)
    (hkey : Key.isList key = true)
    (hmark : (fun xs : List Text => if key = Key.stakeholders then xs.map Shorthand.stakeholder
      else xs.map .tag) = List.map mark)
    (hword : ∀ name, (mark name).word = marker :: name) (withNames : Bool) (v : Value) :
    (if withNames then markedNames marker v else []) =
      (marks withNames key v).map Shorthand.word := by
  have hshown := isShorthand_list hkey withNames v
  cases withNames with
  | false => simp [marks, hshown]
  | true =>
      cases v with
      | names xs =>
          have hxs := congrFun hmark xs
          simp [marks, hshown, hxs, markedNames, hword]
      | _ => simp [marks, hshown, markedNames]

theorem shorthand_eq_map_word (withNames : Bool) (fs : Fields) :
    shorthand withNames fs = (lead withNames fs).map Shorthand.word := by
  have hstakeholders := markedNames_eq_map_word '@' .stakeholder
    (rfl : Key.isList Key.stakeholders = true) rfl (fun _ => rfl) withNames
    (fs.get Key.stakeholders)
  have htags := markedNames_eq_map_word '#' .tag
    (rfl : Key.isList Key.tags = true) rfl (fun _ => rfl) withNames (fs.get Key.tags)
  have hlead : (lead withNames fs).map Shorthand.word =
      (marks withNames Key.completed (fs.get Key.completed)).map Shorthand.word ++
        (marks withNames Key.skipped (fs.get Key.skipped)).map Shorthand.word ++
        (marks withNames Key.priority (fs.get Key.priority)).map Shorthand.word ++
        ((marks withNames Key.stakeholders (fs.get Key.stakeholders)).map Shorthand.word ++
          (marks withNames Key.tags (fs.get Key.tags)).map Shorthand.word) := by
    simp only [lead, leadKeys, List.flatMap_cons, List.flatMap_nil, List.append_nil,
      List.map_append, List.append_assoc]
  rw [hlead, ← hstakeholders, ← htags, shorthand]
  refine congrArg₂ (· ++ ·) (congrArg₂ (· ++ ·) (congrArg₂ (· ++ ·) ?completed ?skipped) ?priority)
    ?names
  case completed =>
    cases fs.get Key.completed with
    | flag done => cases done <;> simp [marks, isShorthand_completed, Shorthand.word]
    | _ => simp [marks, isShorthand_completed]
  case skipped =>
    have hne : Key.skipped ≠ Key.completed := by decide
    cases fs.get Key.skipped with
    | flag b => cases b <;> simp [marks, isShorthand_skipped, hne, Shorthand.word]
    | _ => simp [marks, isShorthand_skipped]
  case priority =>
    cases fs.get Key.priority with
    | text t =>
        by_cases ht : t ∈ priorities
        · simp [marks, isShorthand_priority, ht, Shorthand.word]
        · simp [marks, isShorthand_priority, ht]
    | _ => simp [marks, isShorthand_priority]
  case names => cases withNames <;> rfl

/-- Shorthand can be read if every name in it is a proper one. -/
theorem legible_of_mem_lead {withNames : Bool} {fs : Fields}
    (hnames : withNames = true → ∀ key xs, Key.isList key = true → fs.get key = .names xs →
      ∀ x ∈ xs, x ≠ [] ∧ ∀ c ∈ x, isKeyChar c = true) :
    ∀ s ∈ lead withNames fs, s.Legible := by
  intro s hs
  obtain ⟨key, -, hs⟩ := List.mem_flatMap.mp hs
  unfold marks at hs
  split at hs
  · next hshown =>
      rcases isShorthand_cases hshown with ⟨rfl, done, hv⟩ | ⟨rfl, hv⟩ | ⟨rfl, t, ht, hv⟩ |
        ⟨hwith, hkey, xs, hv⟩
      · rw [hv] at hs
        obtain rfl : s = .completed done := by simpa using hs
        trivial
      · rw [hv] at hs
        have hne : Key.skipped ≠ Key.completed := by decide
        obtain rfl : s = .skipped := by simpa [hne] using hs
        trivial
      · rw [hv] at hs
        obtain rfl : s = .priority t := by simpa using hs
        exact ht
      · have hlist := hnames hwith key xs hkey hv
        rw [hv] at hs
        simp only at hs
        split at hs
        · obtain ⟨x, hx, rfl⟩ := List.mem_map.mp hs
          exact hlist x hx
        · obtain ⟨x, hx, rfl⟩ := List.mem_map.mp hs
          exact hlist x hx
  · cases hs

/-- Names that are added one by one make up a list. -/
theorem foldl_addShorthand_names {key : Text} {mark : Text → Shorthand}
    (hmark : ∀ (gs : Fields) name, gs.addShorthand (mark name) =
      gs.set key (.names (addName (gs.names key) name)))
    {gs : Fields} (hkey : key ∉ gs.keys) {xs : List Text} (hxs : xs.Nodup) (hne : xs ≠ []) :
    (xs.map mark).foldl Fields.addShorthand gs = gs ++ [(key, .names xs)] := by
  induction xs using List.reverseRecOn with
  | nil => exact absurd rfl hne
  | append_singleton xs x ih =>
      rw [List.map_append, List.foldl_append]
      obtain ⟨hnodup, -, hdisj⟩ := List.nodup_append.mp hxs
      have hx : x ∉ xs := fun hm => hdisj x hm x (by simp) rfl
      cases hxs' : xs with
      | nil =>
          simp only [List.map_nil, List.foldl_nil, List.map_cons, List.foldl_cons, hmark]
          rw [Fields.names_of_not_mem hkey, Fields.set_of_not_mem hkey]
          rfl
      | cons y ys =>
          have hprev := ih hnodup (by simp [hxs'])
          rw [← hxs', hprev]
          simp only [List.map_cons, List.map_nil, List.foldl_cons, List.foldl_nil, hmark]
          rw [Fields.names_append_of_not_mem hkey, Fields.set_append_of_not_mem hkey,
            addName_of_not_mem hx]

/-- The shorthand for a field sets that field. -/
theorem foldl_marks {withNames : Bool} {key : Text} {v : Value} {gs : Fields}
    (hkey : key ∉ gs.keys) (hnodup : ∀ xs, v = .names xs → xs.Nodup) :
    (marks withNames key v).foldl Fields.addShorthand gs = gs ++ shownField withNames key v := by
  unfold marks shownField
  by_cases hshown : isShorthand withNames key v = true
  · rw [if_pos hshown, hshown, Bool.true_and]
    rcases isShorthand_cases hshown with ⟨rfl, done, rfl⟩ | ⟨rfl, rfl⟩ | ⟨rfl, t, ht, rfl⟩ |
      ⟨-, hlist, xs, rfl⟩
    · simp [Fields.addShorthand, Fields.has_eq_false hkey, Fields.set_of_not_mem hkey]
    · have hne : Key.skipped ≠ Key.completed := by decide
      simp [hne, Fields.addShorthand, Fields.set_of_not_mem hkey]
    · simp [Fields.addShorthand, Fields.has_eq_false hkey, Fields.set_of_not_mem hkey]
    · by_cases hxs : xs = []
      · simp [hxs]
      · have hne : (Value.names xs != .names []) = true := by simpa using hxs
        rw [if_pos hne]
        rcases isList_cases hlist with rfl | rfl
        · exact foldl_addShorthand_names (fun _ _ => rfl) hkey (hnodup xs rfl) hxs
        · exact foldl_addShorthand_names (fun _ _ => rfl) hkey (hnodup xs rfl) hxs
  · simp [hshown]

theorem keys_shownField {withNames : Bool} {key : Text} {v : Value} {k : Text}
    (h : k ∈ (shownField withNames key v).keys) : k = key := by
  unfold shownField at h
  split at h
  · simpa using h
  · cases h

/-- The shorthand of a field map sets the fields that it shows. -/
theorem foldl_lead {withNames : Bool} {fs : Fields}
    (hnodup : ∀ key xs, fs.get key = .names xs → xs.Nodup) :
    (lead withNames fs).foldl Fields.addShorthand [] = leadFields withNames fs := by
  have hall : ∀ (keys : List Text) (gs : Fields), keys.Nodup → (∀ k ∈ keys, k ∉ gs.keys) →
      (keys.flatMap fun key => marks withNames key (fs.get key)).foldl Fields.addShorthand gs =
        gs ++ keys.flatMap fun key => shownField withNames key (fs.get key) := by
    intro keys
    induction keys with
    | nil => intro gs _ _; simp
    | cons key keys ih =>
        intro gs hkeys hnew
        obtain ⟨hkey, hrest⟩ := List.nodup_cons.mp hkeys
        rw [List.flatMap_cons, List.foldl_append,
          foldl_marks (hnew key (by simp)) (hnodup key), ih _ hrest]
        · simp
        · intro k hk hmem
          rw [Fields.keys_append, List.mem_append] at hmem
          rcases hmem with hmem | hmem
          · exact hnew k (List.mem_cons_of_mem _ hk) hmem
          · exact hkey (keys_shownField hmem ▸ hk)
  have := hall leadKeys [] leadKeys_nodup (by simp)
  simpa [lead, leadFields] using this

theorem mem_leadFields {withNames : Bool} {fs : Fields} (h : fs.keys.Nodup) {f : Text × Value} :
    f ∈ leadFields withNames fs ↔
      f ∈ fs ∧ isShorthand withNames f.1 f.2 = true ∧ f.2 ≠ .names [] := by
  obtain ⟨key, v⟩ := f
  simp only [leadFields, shownField, List.mem_flatMap]
  constructor
  · rintro ⟨k, -, hm⟩
    split at hm
    · next hshown =>
        obtain ⟨rfl, rfl⟩ : key = k ∧ v = fs.get k := by simpa using hm
        simp only [Bool.and_eq_true, bne_iff_ne] at hshown
        refine ⟨Fields.mem_of_get rfl ?_, hshown⟩
        intro hnull
        rw [hnull] at hshown
        rcases isShorthand_cases hshown.1 with ⟨-, _, hv⟩ | ⟨-, hv⟩ | ⟨-, _, -, hv⟩ |
          ⟨-, -, _, hv⟩ <;> cases hv
    · cases hm
  · rintro ⟨hm, hshown, hne⟩
    refine ⟨key, ?_, ?_⟩
    · rcases isShorthand_cases hshown with ⟨rfl, -⟩ | ⟨rfl, -⟩ | ⟨rfl, -⟩ | ⟨-, hlist, -⟩
      · decide
      · decide
      · decide
      · rcases isList_cases hlist with rfl | rfl <;> decide
    · have hv := Fields.get_of_mem h hm
      simp [hv, hshown, hne]

theorem nodup_keys_leadFields (withNames : Bool) (fs : Fields) :
    (leadFields withNames fs).keys.Nodup := by
  have hsub : ∀ keys : List Text,
      (Fields.keys (keys.flatMap fun key => shownField withNames key (fs.get key))).Sublist
        keys := by
    intro keys
    induction keys with
    | nil => exact List.Sublist.refl _
    | cons key keys ih =>
        rw [List.flatMap_cons, Fields.keys_append]
        unfold shownField at *
        split
        · exact ih.cons_cons key
        · exact ih.cons key
  exact (hsub leadKeys).nodup leadKeys_nodup

end Layout

end Agenda
