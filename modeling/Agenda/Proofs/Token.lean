import Agenda.Scalar
import Agenda.Token
import Agenda.Proofs.Quote

/-!
Words and keys. A text is a word if a scan that enters it outside quotes meets no separator in it
and leaves it outside quotes. Words that are joined by spaces are the tokens of the line they
make up, and keys that alternate with words are paired with them.
-/

namespace Agenda

/-! ### Words -/

namespace Scan

def after (s : Scan) (t : Text) : Scan := t.foldl step s

/-- No character of the text, met from this state on, separates tokens. -/
def Keeps (s : Scan) : Text → Prop
  | [] => True
  | c :: cs => s.separates c = false ∧ (s.step c).Keeps cs

@[simp] theorem after_nil (s : Scan) : s.after [] = s := rfl

@[simp] theorem after_cons (s : Scan) (c : Char) (t : Text) :
    s.after (c :: t) = (s.step c).after t := rfl

theorem after_append (s : Scan) (t u : Text) : s.after (t ++ u) = (s.after t).after u :=
  List.foldl_append

theorem keeps_append {s : Scan} {t u : Text} :
    s.Keeps (t ++ u) ↔ s.Keeps t ∧ (s.after t).Keeps u := by
  induction t generalizing s with
  | nil => simp [Keeps]
  | cons c t ih => simp [Keeps, ih, and_assoc]

/-- Inside quotes nothing separates tokens, so a text that a scan passes from quotes to quotes is
kept whole. -/
theorem keeps_of_flatMap {s : Scan} {f : Char → Text} {t : Text}
    (h : ∀ c ∈ t, s.Keeps (f c) ∧ s.after (f c) = s) :
    s.Keeps (t.flatMap f) ∧ s.after (t.flatMap f) = s := by
  induction t with
  | nil => exact ⟨trivial, rfl⟩
  | cons c t ih =>
      obtain ⟨hk, ha⟩ := h c (by simp)
      obtain ⟨hk', ha'⟩ := ih fun d hd => h d (List.mem_cons_of_mem _ hd)
      rw [List.flatMap_cons, keeps_append, after_append, ha]
      exact ⟨⟨hk, hk'⟩, ha'⟩

theorem step_in_quote {q : Quote} {c : Char} (h₁ : c ≠ '\\') (h₂ : c ≠ q.mark) :
    (⟨false, some q⟩ : Scan).step c = ⟨false, some q⟩ := by
  simp [step, h₁, h₂]

theorem keeps_plain_in_quote {q : Quote} {t : Text}
    (h : ∀ c ∈ t, c ≠ '\\' ∧ c ≠ q.mark) :
    (⟨false, some q⟩ : Scan).Keeps t ∧ (⟨false, some q⟩ : Scan).after t = ⟨false, some q⟩ := by
  have := keeps_of_flatMap (s := ⟨false, some q⟩) (f := fun c => [c]) (t := t) fun c hc => by
    rw [after_cons, step_in_quote (h c hc).1 (h c hc).2]
    exact ⟨⟨rfl, trivial⟩, rfl⟩
  simpa using this

theorem keeps_escaped_in_quote (t : Text) :
    (⟨false, some .double⟩ : Scan).Keeps (t.flatMap escapeChar) ∧
      (⟨false, some .double⟩ : Scan).after (t.flatMap escapeChar) = ⟨false, some .double⟩ := by
  apply keeps_of_flatMap
  intro c _
  unfold escapeChar
  split
  · exact ⟨⟨rfl, rfl, trivial⟩, rfl⟩
  · next h₁ =>
      split
      · exact ⟨⟨rfl, rfl, trivial⟩, rfl⟩
      · next h₂ =>
          split
          · exact ⟨⟨rfl, rfl, trivial⟩, rfl⟩
          · split
            · exact ⟨⟨rfl, rfl, trivial⟩, rfl⟩
            · split
              · exact ⟨⟨rfl, rfl, trivial⟩, rfl⟩
              · refine ⟨⟨rfl, trivial⟩, ?_⟩
                rw [after_cons, step_in_quote (q := .double) h₁ h₂]
                rfl

end Scan

/-- A text that is one token wherever it stands between separators. -/
structure IsWord (w : Text) : Prop where
  ne_nil : w ≠ []
  keeps : Scan.start.Keeps w
  after_eq : Scan.start.after w = Scan.start

theorem isWord_of_body {q : Quote} {body : Text}
    (h : (⟨false, some q⟩ : Scan).Keeps body ∧
      (⟨false, some q⟩ : Scan).after body = ⟨false, some q⟩) :
    IsWord (q.mark :: body ++ [q.mark]) := by
  have hopen : Scan.start.step q.mark = ⟨false, some q⟩ := by cases q <;> rfl
  have hclose : (⟨false, some q⟩ : Scan).step q.mark = Scan.start := by cases q <;> rfl
  have hsep : Scan.start.separates q.mark = false := by cases q <;> rfl
  refine ⟨by simp, ?_, ?_⟩
  · rw [List.cons_append, Scan.Keeps, hopen, Scan.keeps_append, h.2]
    exact ⟨hsep, h.1, rfl, trivial⟩
  · rw [List.cons_append, Scan.after_cons, hopen, Scan.after_append, h.2, Scan.after_cons, hclose]
    rfl

theorem isWord_enquote (t : Text) : IsWord (enquote t) := by
  rcases enquote_cases t with ⟨he, h⟩ | ⟨he, h⟩ | he
  · rw [he]
    exact isWord_of_body (q := .double) (Scan.keeps_plain_in_quote fun c hc =>
      ⟨fun hb => absurd (h c hc).2 (by simp [hb, needsEscape]), (h c hc).1⟩)
  · rw [he]
    exact isWord_of_body (q := .backtick) (Scan.keeps_plain_in_quote fun c hc =>
      ⟨fun hb => absurd (h c hc).2 (by simp [hb, needsEscape]), (h c hc).1⟩)
  · rw [he]
    exact isWord_of_body (q := .double) (Scan.keeps_escaped_in_quote t)

/-- Without quotes, backslashes, blanks and commas a scan stays where it started. -/
theorem Scan.start_step {c : Char} (h : Scalar.isUnquotable c = false) :
    Scan.start.separates c = false ∧ Scan.start.step c = Scan.start := by
  simp only [Scalar.isUnquotable, Bool.or_eq_false_iff, decide_eq_false_iff_not] at h
  obtain ⟨⟨⟨⟨⟨hblank, hcomma⟩, hdouble⟩, hsingle⟩, htick⟩, hback⟩ := h
  constructor
  · simp [Scan.separates, Scan.start, hblank, hcomma]
  · simp [Scan.step, Scan.start, hback, Quote.ofChar?, hdouble, hsingle, htick]

theorem isWord_plain {t : Text} (hne : t ≠ []) (h : ∀ c ∈ t, Scalar.isUnquotable c = false) :
    IsWord t := by
  have hall := Scan.keeps_of_flatMap (s := .start) (f := fun c => [c]) (t := t) fun c hc => by
    obtain ⟨hs, hstep⟩ := Scan.start_step (h c hc)
    rw [Scan.after_cons, hstep]
    exact ⟨⟨hs, trivial⟩, rfl⟩
  rw [List.flatMap_singleton'] at hall
  exact ⟨hne, hall.1, hall.2⟩

/-! ### The tokens of joined words -/

theorem mem_consToken {word : Text} {pos : Nat} {ts : List Token} {t : Token}
    (h : t ∈ consToken word pos ts) : t.text = word ∨ t ∈ ts := by
  unfold consToken at h
  split at h
  · exact .inr h
  · rcases List.mem_cons.mp h with rfl | h
    · exact .inl rfl
    · exact .inr h

theorem cutTokens_append {s : Scan} {w : Text} (h : s.Keeps w) (pos : Nat) (rest : Text) :
    cutTokens s pos (w ++ rest) =
      (w ++ (cutTokens (s.after w) (pos + w.length) rest).1,
        (cutTokens (s.after w) (pos + w.length) rest).2) := by
  induction w generalizing s pos with
  | nil => simp
  | cons c w ih =>
      obtain ⟨hc, hw⟩ := h
      rw [List.cons_append, cutTokens, ih hw]
      simp [hc, Nat.add_assoc, Nat.add_comm 1]

def wordTokens (pos : Nat) : List Text → List Token
  | [] => []
  | w :: ws => ⟨w, pos⟩ :: wordTokens (pos + w.length + 1) ws

@[simp] theorem map_text_wordTokens (pos : Nat) (ws : List Text) :
    (wordTokens pos ws).map Token.text = ws := by
  induction ws generalizing pos with
  | nil => rfl
  | cons w ws ih => simp [wordTokens, ih]

theorem cutTokens_join {w : Text} {ws : List Text} (hw : IsWord w) (hws : ∀ v ∈ ws, IsWord v)
    (pos : Nat) :
    cutTokens .start pos (Text.join [' '] (w :: ws)) =
      (w, wordTokens (pos + w.length + 1) ws) := by
  induction ws generalizing w pos with
  | nil =>
      have := cutTokens_append hw.keeps pos []
      simpa [Text.join, wordTokens, cutTokens] using this
  | cons v ws ih =>
      have hv := hws v (by simp)
      have hspace : Scan.start.step ' ' = Scan.start := rfl
      have hsep : Scan.start.separates ' ' = true := rfl
      have hne : v.isEmpty = false := by simpa using hv.ne_nil
      rw [Text.join_cons_cons, List.append_assoc, cutTokens_append hw.keeps, hw.after_eq,
        List.singleton_append, cutTokens, hspace,
        ih hv (fun u hu => hws u (List.mem_cons_of_mem _ hu))]
      simp [hsep, consToken, hne, wordTokens]

/-- Words that are joined by spaces are cut apart again. -/
theorem tokens_join {ws : List Text} (h : ∀ w ∈ ws, IsWord w) :
    tokens (Text.join [' '] ws) = wordTokens 0 ws := by
  cases ws with
  | nil => rfl
  | cons w ws =>
      have hw := h w (by simp)
      have hne : w.isEmpty = false := by simpa using hw.ne_nil
      rw [tokens, cutTokens_join hw fun v hv => h v (List.mem_cons_of_mem _ hv)]
      simp [consToken, hne, wordTokens]

/-! ### Keys -/

/-- A key as documents have it: a letter or an underscore, then letters, digits, underscores and
hyphens. -/
def IsKey : Text → Prop
  | [] => False
  | c :: cs => isKeyStart c = true ∧ ∀ d ∈ cs, isKeyChar d = true

instance : DecidablePred IsKey
  | [] => .isFalse not_false
  | c :: cs => inferInstanceAs (Decidable (isKeyStart c = true ∧ ∀ d ∈ cs, isKeyChar d = true))

theorem isKeyChar_of_isKeyStart {c : Char} (h : isKeyStart c = true) : isKeyChar c = true := by
  simp only [isKeyStart, isKeyChar, Char.isAlphanum, Bool.or_eq_true] at *
  tauto

theorem IsKey.ne_nil {key : Text} (h : IsKey key) : key ≠ [] := by
  rintro rfl
  exact h

theorem IsKey.isKeyChar {key : Text} (h : IsKey key) : ∀ c ∈ key, isKeyChar c = true := by
  cases key with
  | nil => exact h.elim
  | cons c cs =>
      intro d hd
      rcases List.mem_cons.mp hd with rfl | hd
      · exact isKeyChar_of_isKeyStart h.1
      · exact h.2 d hd

/-- The code points of the characters of keys. -/
theorem isKeyChar_range {c : Char} (h : isKeyChar c = true) :
    c.toNat = 45 ∨ (48 ≤ c.toNat ∧ c.toNat ≤ 57) ∨ (65 ≤ c.toNat ∧ c.toNat ≤ 90) ∨
      c.toNat = 95 ∨ (97 ≤ c.toNat ∧ c.toNat ≤ 122) := by
  have halpha : c.isAlpha = (c.isUpper || c.isLower) := rfl
  have hupper : c.isUpper = decide (65 ≤ c.val ∧ c.val ≤ 90) := rfl
  have hlower : c.isLower = (decide (97 ≤ c.val) && decide (c.val ≤ 122)) := rfl
  simp only [Agenda.isKeyChar, Char.isAlphanum, halpha, hupper, hlower, Char.isDigit,
    Bool.or_eq_true, Bool.and_eq_true, decide_eq_true_eq, ge_iff_le, UInt32.le_iff_toNat_le] at h
  rcases h with (((h | h) | h) | rfl) | rfl
  · exact .inr (.inr (.inl h))
  · exact .inr (.inr (.inr (.inr h)))
  · exact .inr (.inl h)
  · exact .inr (.inr (.inr (.inl rfl)))
  · exact .inl rfl

theorem isBlank_of_isKeyChar {c : Char} (h : isKeyChar c = true) : isBlank c = false := by
  have hr := isKeyChar_range h
  simp only [isBlank, Bool.or_eq_false_iff, Bool.and_eq_false_iff, decide_eq_false_iff_not,
    beq_eq_false_iff_ne]
  omega

theorem isUnquotable_of_isKeyChar {c : Char} (h : isKeyChar c = true) :
    Scalar.isUnquotable c = false := by
  have hne : ∀ d, isKeyChar d = false → c ≠ d := by
    rintro d hd rfl
    rw [h] at hd
    cases hd
  simp only [Scalar.isUnquotable, Bool.or_eq_false_iff, decide_eq_false_iff_not]
  exact ⟨⟨⟨⟨⟨isBlank_of_isKeyChar h, hne ',' (by decide)⟩, hne '"' (by decide)⟩,
    hne '\'' (by decide)⟩, hne '\x60' (by decide)⟩, hne '\\' (by decide)⟩

theorem splitKey?_append {key : Text} (h : IsKey key) (rest : Text) :
    splitKey? (key ++ ':' :: rest) = some (key, rest) := by
  have htake : (key ++ ':' :: rest).takeWhile isKeyChar = key := by
    rw [List.takeWhile_append_of_pos h.isKeyChar, List.takeWhile_cons_of_neg (by decide),
      List.append_nil]
  have hdrop : (key ++ ':' :: rest).dropWhile isKeyChar = ':' :: rest := by
    rw [List.dropWhile_append_of_pos h.isKeyChar, List.dropWhile_cons_of_neg (by decide)]
  cases key with
  | nil => exact h.elim
  | cons c cs =>
      rw [splitKey?, htake, hdrop]
      simp [h.1]

theorem eq_of_splitKey? {t key rest : Text} (h : splitKey? t = some (key, rest)) :
    IsKey key ∧ t = key ++ ':' :: rest := by
  unfold splitKey? at h
  split at h
  · next c cs rest' htake hdrop =>
      split at h
      · next hc =>
          cases h
          have hmem : ∀ d ∈ t.takeWhile isKeyChar, isKeyChar d = true := fun d hd =>
            List.mem_takeWhile_imp hd
          rw [htake] at hmem
          refine ⟨⟨hc, fun d hd => hmem d (List.mem_cons_of_mem _ hd)⟩, ?_⟩
          rw [← htake, ← hdrop, List.takeWhile_append_dropWhile]
      · cases h
  · cases h

theorem isQuotedString_of_head {t : Text} {c : Char} (h : t.head? = some c)
    (hc : Quote.ofChar? c = none) : isQuotedString t = false := by
  cases t with
  | nil => cases h
  | cons d t =>
      obtain rfl : d = c := by simpa using h
      simp [isQuotedString, quotedBody?, hc]

theorem ofChar?_of_not_unquotable {c : Char} (h : Scalar.isUnquotable c = false) :
    Quote.ofChar? c = none := by
  simp only [Scalar.isUnquotable, Bool.or_eq_false_iff, decide_eq_false_iff_not] at h
  simp [Quote.ofChar?, h]

theorem isQuotedString_plain {t : Text} (h : ∀ c ∈ t, Scalar.isUnquotable c = false) :
    isQuotedString t = false := by
  cases t with
  | nil => rfl
  | cons c t => exact isQuotedString_of_head rfl (ofChar?_of_not_unquotable (h c (by simp)))

def keyWord (key : Text) : Text := key ++ [':']

theorem mem_keyWord {key : Text} (h : IsKey key) :
    ∀ c ∈ keyWord key, Scalar.isUnquotable c = false := by
  intro c hc
  rcases List.mem_append.mp hc with hc | hc
  · exact isUnquotable_of_isKeyChar (h.isKeyChar c hc)
  · rw [List.mem_singleton.mp hc]
    decide

namespace Token

theorem key?_keyWord {t : Token} {key : Text} (h : IsKey key) (ht : t.text = keyWord key) :
    t.key? = some (key, []) := by
  have hq : t.quoted = false := by
    rw [quoted, ht]
    exact isQuotedString_plain (mem_keyWord h)
  simp only [key?, hq, Bool.false_eq_true, if_false, ht, keyWord, splitKey?_append h]

theorem isKey_keyWord {t : Token} {key : Text} (h : IsKey key) (ht : t.text = keyWord key) :
    t.isKey = true := by
  rw [isKey, key?_keyWord h ht]
  rfl

end Token

def fieldWords (fields : List (Text × Text)) : List Text :=
  fields.flatMap fun (key, raw) => [keyWord key, raw]

/-- A key, a word and whatever is paired after them. -/
theorem pairs_key {t u : Token} {key : Text} (hkey : IsKey key) (ht : t.text = keyWord key)
    (ts : List Token) :
    (pairs (t :: u :: ts)).map (fun p => (p.key, p.raw)) =
      (key, u.text) :: (pairs ts).map fun p => (p.key, p.raw) := by
  rw [pairs, Token.key?_keyWord hkey ht]
  rfl

/-- Keys that alternate with words are paired with them, whatever the words look like. -/
theorem pairs_fieldWords {fields : List (Text × Text)} {ts : List Token} {rest : List Text}
    (hkeys : ∀ f ∈ fields, IsKey f.1) (hts : ts.map Token.text = fieldWords fields ++ rest) :
    ∃ us, us.map Token.text = rest ∧
      (pairs ts).map (fun p => (p.key, p.raw)) =
        fields ++ (pairs us).map fun p => (p.key, p.raw) := by
  induction fields generalizing ts with
  | nil => exact ⟨ts, by simpa [fieldWords] using hts, rfl⟩
  | cons f fields ih =>
      obtain ⟨key, raw⟩ := f
      simp only [fieldWords, List.flatMap_cons, List.cons_append, List.nil_append] at hts
      obtain ⟨t, ts, rfl, ht, hts⟩ := List.map_eq_cons_iff.1 hts
      obtain ⟨u, ts, rfl, hu, hts⟩ := List.map_eq_cons_iff.1 hts
      obtain ⟨us, hus, hpairs⟩ := ih (fun f hf => hkeys f (List.mem_cons_of_mem _ hf)) hts
      refine ⟨us, hus, ?_⟩
      rw [pairs_key (hkeys (key, raw) (by simp)) ht, hpairs, hu]
      rfl

end Agenda
