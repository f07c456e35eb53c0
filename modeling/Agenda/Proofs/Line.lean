import Agenda.Entry
import Agenda.Proofs.Scalar

/-!
What lines are when they are measured: a margin of spaces and a body. A trimmed body without tabs
is measured as it stands; a line of a block loses its margin and what is blank at its end.
-/

namespace Agenda

namespace Text

theorem forall_blank_dropWhile {p : Char → Bool} (h : ∀ c, p c = true → isBlank c = true)
    {t : Text} :
    (∀ c ∈ t.dropWhile p, isBlank c = true) ↔ ∀ c ∈ t, isBlank c = true := by
  constructor
  · intro hall c hc
    rw [← List.takeWhile_append_dropWhile (p := p) (l := t)] at hc
    rcases List.mem_append.mp hc with hc | hc
    · exact h c (List.mem_takeWhile_imp hc)
    · exact hall c hc
  · exact fun hall c hc => hall c ((List.dropWhile_suffix p).subset hc)

theorem forall_blank_dropEndWhile {p : Char → Bool} (h : ∀ c, p c = true → isBlank c = true)
    {t : Text} :
    (∀ c ∈ dropEndWhile p t, isBlank c = true) ↔ ∀ c ∈ t, isBlank c = true := by
  have hrev := forall_blank_dropWhile h (t := t.reverse)
  simpa only [dropEndWhile, List.mem_reverse] using hrev

theorem stripEnd_eq_nil {t : Text} : stripEnd t = [] ↔ ∀ c ∈ t, isBlank c = true :=
  dropEndWhile_eq_nil

theorem strip_eq_nil {t : Text} : strip t = [] ↔ ∀ c ∈ t, isBlank c = true :=
  stripEnd_eq_nil.trans (forall_blank_dropWhile fun _ h => h)

/-- Stripping the end takes away whatever else was to be dropped there, if that is blank. -/
theorem stripEnd_dropEndWhile {p : Char → Bool} (h : ∀ c, p c = true → isBlank c = true)
    (t : Text) : stripEnd (dropEndWhile p t) = stripEnd t := by
  unfold stripEnd dropEndWhile
  rw [List.reverse_reverse]
  congr 1
  induction t.reverse with
  | nil => rfl
  | cons c cs ih =>
      by_cases hc : p c = true
      · rw [List.dropWhile_cons_of_pos hc, ih, List.dropWhile_cons_of_pos (h c hc)]
      · rw [List.dropWhile_cons_of_neg (by simpa using hc)]

end Text

theorem Text.isBlank_of_mem_spaces (n : Nat) : ∀ c ∈ Text.spaces n, isBlank c = true := by
  intro c hc
  rw [List.eq_of_mem_replicate hc]
  decide

theorem isBlank_of_eq {d : Char} (hd : isBlank d = true) (c : Char)
    (h : decide (c = d) = true) : isBlank c = true := by
  rwa [of_decide_eq_true h]

namespace Line

def expandTabs (size : Nat) (t : Text) : Text :=
  t.flatMap fun c => if c = '\t' then Text.spaces size else [c]

theorem expandTabs_of_no_tab {size : Nat} {t : Text} (h : '\t' ∉ t) : expandTabs size t = t := by
  induction t with
  | nil => rfl
  | cons c t ih =>
      have hc : c ≠ '\t' := fun hc => h (by simp [hc])
      have ht : '\t' ∉ t := fun hm => h (List.mem_cons_of_mem _ hm)
      have := ih ht
      unfold expandTabs at *
      rw [List.flatMap_cons, if_neg hc, this]
      rfl

theorem no_tab_spaces (n : Nat) : '\t' ∉ Text.spaces n := by
  simp [Text.spaces]

theorem expandTabs_margin (size n : Nat) (t : Text) :
    expandTabs size (Text.spaces n ++ t) = Text.spaces n ++ expandTabs size t := by
  have : expandTabs size (Text.spaces n) = Text.spaces n :=
    expandTabs_of_no_tab (no_tab_spaces n)
  unfold expandTabs at *
  rw [List.flatMap_append, this]

theorem dropWhile_space_margin (n : Nat) (t : Text) :
    (Text.spaces n ++ t).dropWhile (· = ' ') = t.dropWhile (· = ' ') := by
  rw [List.dropWhile_append_of_pos]
  intro c hc
  simpa [Text.spaces] using (List.mem_replicate.mp hc).2

theorem forall_blank_expandTabs {size : Nat} {t : Text} :
    (∀ c ∈ expandTabs size t, Agenda.isBlank c = true) ↔ ∀ c ∈ t, Agenda.isBlank c = true := by
  simp only [expandTabs, List.mem_flatMap, forall_exists_index, and_imp]
  constructor
  · intro h c hc
    by_cases htab : c = '\t'
    · rw [htab]
      decide
    · exact h c c hc (by simp [htab])
  · intro h c d hd hc
    split at hc
    · rw [List.eq_of_mem_replicate hc]
      decide
    · rw [List.mem_singleton.1 hc]
      exact h d hd

/-- A measured line is blank if the text is. -/
theorem isBlank_ofText (size index : Nat) (t : Text) :
    (ofText size index t).isBlank = true ↔ ∀ c ∈ t, Agenda.isBlank c = true := by
  rw [isBlank, List.isEmpty_iff, ofText, Text.strip_eq_nil,
    Text.forall_blank_dropWhile (isBlank_of_eq (by decide)),
    Text.forall_blank_dropEndWhile (isBlank_of_eq (by decide))]
  exact forall_blank_expandTabs

/-- A margin and a trimmed body are what the measured line says they are. -/
theorem ofText_margin (size index n : Nat) {body : Text} (hne : body ≠ []) (htab : '\t' ∉ body)
    (htrim : body.Trimmed) :
    ofText size index (Text.spaces n ++ body) = ⟨index, Text.spaces n ++ body, n, body⟩ := by
  have hexp : expandTabs size (Text.spaces n ++ body) = Text.spaces n ++ body := by
    rw [expandTabs_margin, expandTabs_of_no_tab htab]
  have hraw : Text.dropEndWhile (· = '\r') (Text.spaces n ++ body) = Text.spaces n ++ body := by
    apply Text.dropEndWhile_of_getLast
    intro c hc
    have hlast : (Text.spaces n ++ body).getLast? = body.getLast? := by
      rw [List.getLast?_append, List.getLast?_eq_some_getLast hne]
      rfl
    have hb := htrim.2 c (hlast ▸ hc)
    simp only [decide_eq_false_iff_not]
    rintro rfl
    exact absurd hb (by decide)
  have hbody : (Text.spaces n ++ body).dropWhile (· = ' ') = body := by
    rw [dropWhile_space_margin]
    cases body with
    | nil => exact absurd rfl hne
    | cons c cs =>
        have hb := htrim.1 c rfl
        apply List.dropWhile_cons_of_neg
        simp only [decide_eq_true_eq]
        rintro rfl
        exact absurd hb (by decide)
  unfold expandTabs at hexp
  simp only [ofText, hexp, hraw, hbody, htrim.strip_eq]
  simp [Text.spaces]

/-- A margin and a text that begins with a mark are what the measured line says they are, up to
blanks at the end. -/
theorem ofText_mark (size index n : Nat) {c : Char} (hc : Agenda.isBlank c = false) (t : Text) :
    (ofText size index (Text.spaces n ++ c :: t)).indent = n ∧
      (ofText size index (Text.spaces n ++ c :: t)).text =
        c :: Text.stripEnd (expandTabs size t) := by
  have hne : ∀ d, Agenda.isBlank d = true → c ≠ d := by
    rintro d hd rfl
    rw [hc] at hd
    cases hd
  have hexp : expandTabs size (Text.spaces n ++ c :: t) =
      Text.spaces n ++ c :: expandTabs size t := by
    rw [expandTabs_margin]
    simp [expandTabs, hne '\t' (by decide)]
  have hdrop := Text.dropEndWhile_cons_of_neg (p := (· = '\r'))
    (by simpa using hne '\r' (by decide)) (expandTabs size t)
  have hraw : Text.dropEndWhile (· = '\r') (Text.spaces n ++ c :: expandTabs size t) =
      Text.spaces n ++ c :: Text.dropEndWhile (· = '\r') (expandTabs size t) := by
    rw [Text.dropEndWhile_append _ (by simp [hdrop]), hdrop]
  unfold expandTabs at hexp hraw
  set rest := Text.dropEndWhile (· = '\r') (t.flatMap fun c => if c = '\t' then Text.spaces size
    else [c])
  have hbody : (Text.spaces n ++ c :: rest).dropWhile (· = ' ') = c :: rest := by
    rw [dropWhile_space_margin, List.dropWhile_cons_of_neg (by simpa using hne ' ' (by decide))]
  have hstart : Text.stripStart (c :: rest) = c :: rest :=
    List.dropWhile_cons_of_neg (by simp [hc])
  simp only [ofText, hexp, hraw, hbody]
  refine ⟨by simp [Text.spaces], ?_⟩
  rw [Text.strip, hstart, Text.stripEnd, Text.dropEndWhile_cons_of_neg hc]
  congr 1
  exact Text.stripEnd_dropEndWhile (isBlank_of_eq (by decide)) _

theorem ofTexts_append (size index : Nat) (ts us : List Text) :
    ofTexts size index (ts ++ us) =
      ofTexts size index ts ++ ofTexts size (index + ts.length) us := by
  induction ts generalizing index with
  | nil => rfl
  | cons t ts ih =>
      simp only [List.cons_append, ofTexts, ih, List.length_cons]
      rw [Nat.add_assoc, Nat.add_comm 1]

theorem mem_ofTexts {size index : Nat} {ts : List Text} {l : Line}
    (h : l ∈ ofTexts size index ts) : ∃ i, ∃ t ∈ ts, l = ofText size i t := by
  induction ts generalizing index with
  | nil => cases h
  | cons t ts ih =>
      rcases List.mem_cons.mp h with rfl | h
      · exact ⟨index, t, List.mem_cons_self, rfl⟩
      · obtain ⟨i, u, hu, rfl⟩ := ih h
        exact ⟨i, u, List.mem_cons_of_mem _ hu, rfl⟩

/-! ### Lines of a block -/

/-- A line that is not blank keeps its margin when it is measured. -/
theorem raw_ofText_margin (size index n : Nat) {line : Text}
    (h : ¬ ∀ c ∈ line, Agenda.isBlank c = true) :
    (ofText size index (Text.spaces n ++ line)).raw =
      Text.spaces n ++ Text.dropEndWhile (· = '\r') (expandTabs size line) := by
  have hne : Text.dropEndWhile (· = '\r') (expandTabs size line) ≠ [] := by
    intro hnil
    rw [Text.dropEndWhile_eq_nil] at hnil
    exact h (forall_blank_expandTabs.1 fun c hc => isBlank_of_eq (by decide) c (hnil c hc))
  rw [← Text.dropEndWhile_append _ hne, ← expandTabs_margin]
  rfl

/-- A line of a block is blank or stands at its margin or deeper, and without the margin it is
what was written, up to blanks at the end. -/
theorem blockLine_ofText (size index n : Nat) (line : Text) :
    ((ofText size index (Text.spaces n ++ line)).isBlank = true ∨
        n ≤ (ofText size index (Text.spaces n ++ line)).indent) ∧
      Entry.blockLine n (ofText size index (Text.spaces n ++ line)) =
        Text.stripEnd (expandTabs size line) := by
  set l := ofText size index (Text.spaces n ++ line) with hl
  have hblank : l.isBlank = true ↔ ∀ c ∈ line, Agenda.isBlank c = true := by
    rw [isBlank_ofText, List.forall_mem_append]
    exact and_iff_right (Text.isBlank_of_mem_spaces n)
  by_cases hb : l.isBlank = true
  · -- A line of blanks only has no text, whatever the margin is.
    refine ⟨.inl hb, ?_⟩
    rw [Entry.blockLine, if_pos hb, eq_comm, Text.stripEnd_eq_nil, forall_blank_expandTabs]
    exact hblank.1 hb
  · have hraw := raw_ofText_margin size index n fun h => hb (hblank.2 h)
    rw [← hl] at hraw
    have hindent : n ≤ l.indent := by
      have hlen := (List.dropWhile_suffix (l := Text.dropEndWhile (· = '\r')
        (expandTabs size line)) (· = ' ')).length_le
      change n ≤ l.raw.length - (l.raw.dropWhile (· = ' ')).length
      rw [hraw, dropWhile_space_margin, List.length_append, Text.spaces, List.length_replicate]
      omega
    refine ⟨.inr hindent, ?_⟩
    rw [Entry.blockLine, if_neg hb, Nat.min_eq_right hindent, hraw,
      List.drop_left' (by simp [Text.spaces]),
      Text.stripEnd_dropEndWhile (isBlank_of_eq (by decide))]

/-! ### What lines say -/

theorem level?_of_head {t : Text} {c : Char} (h : (t.dropWhile (· = ' ')).head? = some c)
    (hc : c ≠ '#') : Heading.level? t = none := by
  cases hb : t.dropWhile (· = ' ') with
  | nil => simp [hb] at h
  | cons d ds =>
      obtain rfl : d = c := by simpa [hb] using h
      simp [Heading.level?, hb, hc]

theorem heading?_of_head {l : Line} {c : Char} (h : l.text.head? = some c) (hspace : c ≠ ' ')
    (hsign : c ≠ '#') : l.heading? = none := by
  unfold heading?
  split
  · rfl
  · apply level?_of_head (c := c) _ hsign
    cases ht : l.text with
    | nil => simp [ht] at h
    | cons d ds =>
        obtain rfl : d = c := by simpa [ht] using h
        rw [List.dropWhile_cons_of_neg (by simpa using hspace)]
        rfl

theorem isRule_of_mem {l : Line} {c : Char} (h : c ∈ l.text) (h₁ : c ≠ '-') (h₂ : c ≠ '*')
    (h₃ : c ≠ '_') : l.isRule = false := by
  have hnot : ∀ d : Char, c ≠ d → l.text.all (· = d) = false := by
    intro d hd
    rw [List.all_eq_false]
    exact ⟨c, h, by simpa using hd⟩
  simp [isRule, hnot _ h₁, hnot _ h₂, hnot _ h₃]

theorem bullet?_of_head {l : Line} {c : Char} (h : l.text.head? = some c) (hc : c ≠ '-') :
    l.bullet? = none := by
  unfold bullet?
  split
  · next ht =>
      rw [ht] at h
      exact absurd (Option.some.inj h).symm hc
  · next ht =>
      rw [ht] at h
      exact absurd (Option.some.inj h).symm hc
  · rfl

theorem bullet?_content {l : Line} {content : Text} (hl : l.text = '-' :: ' ' :: content)
    (hhead : ∀ c, content.head? = some c → Agenda.isBlank c = false) (hnl : '\n' ∉ content) :
    l.bullet? = some content := by
  have hstrip : Text.stripStart (' ' :: content) = content := by
    rw [Text.stripStart, List.dropWhile_cons_of_pos (by decide)]
    exact Text.stripStart_of_head hhead
  have hblank : Agenda.isBlank ' ' = true := by decide
  simp [bullet?, hl, hstrip, hnl, hblank]

/-- A hyphen with nothing or a blank after it is a bullet, as long as there is no line feed. -/
theorem exists_bullet? {l : Line} {rest : Text} (hl : l.text = '-' :: rest)
    (hhead : ∀ c, rest.head? = some c → Agenda.isBlank c = true) (hnl : '\n' ∉ rest) :
    ∃ content, l.bullet? = some content := by
  cases rest with
  | nil => exact ⟨[], by simp [bullet?, hl]⟩
  | cons c cs =>
      have hcontent : '\n' ∉ Text.stripStart (c :: cs) := fun hm =>
        hnl ((List.dropWhile_suffix _).subset hm)
      exact ⟨Text.stripStart (c :: cs), by simp [bullet?, hl, hhead c rfl, hcontent]⟩

theorem keyed?_field {l : Line} {key value : Text} (hl : l.text = key ++ ':' :: ' ' :: value)
    (hkey : IsKey key) (hhead : ∀ c, value.head? = some c → Agenda.isBlank c = false)
    (hnl : '\n' ∉ value) : l.keyed? = some (key, value) := by
  have hstrip : Text.stripStart (' ' :: value) = value := by
    rw [Text.stripStart, List.dropWhile_cons_of_pos (by decide)]
    exact Text.stripStart_of_head hhead
  simp [keyed?, hl, splitKey?_append hkey, hstrip, hnl]

end Line

end Agenda
