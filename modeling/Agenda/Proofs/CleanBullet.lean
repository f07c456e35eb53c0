import Agenda.Proofs.TaskLines
import Agenda.Proofs.Uses

/-!
The linter on the line of a written bullet. Shorthand, title, fields and id stand there in the
order that the linter asks for, so that the one thing it can find is an id that was seen before.
-/

namespace Agenda

/-! ### Closed quotes -/

theorem after_join_words {ws : List Text} (h : ∀ w ∈ ws, IsWord w) :
    Scan.start.after (Text.join [' '] ws) = Scan.start := by
  induction ws with
  | nil => rfl
  | cons w ws ih =>
      have hw := h w (by simp)
      cases ws with
      | nil => exact hw.after_eq
      | cons v ws =>
          rw [Text.join_cons_cons, List.append_assoc, Scan.after_append, hw.after_eq,
            List.singleton_append, Scan.after_cons]
          exact ih fun u hu => h u (List.mem_cons_of_mem _ hu)

/-- Words leave no quote open. -/
theorem unclosedQuote?_join {ws : List Text} (h : ∀ w ∈ ws, IsWord w) :
    unclosedQuote? (Text.join [' '] ws) = none :=
  unclosedQuote?_eq_none_iff.2 (by rw [after_join_words h]; rfl)

theorem unclosedQuote?_of_form {w : Text} (h : Scalar.Form w) : unclosedQuote? w = none := by
  have hwords : ∀ v ∈ [w], IsWord v := by simpa using h.isWord
  exact unclosedQuote?_join hwords

/-! ### Priorities -/

namespace Layout

theorem countP_priority_marks (withNames : Bool) (key : Text) (v : Value) :
    (marks withNames key v).countP (·.kind = .priority) ≤ if key = Key.priority then 1 else 0 := by
  have hnames : ∀ xs : List Text, (xs.map Shorthand.stakeholder).countP (·.kind = .priority) = 0 ∧
      (xs.map Shorthand.tag).countP (·.kind = .priority) = 0 := by
    intro xs
    constructor <;> simp [List.countP_map, Function.comp_def, Shorthand.kind]
  unfold marks
  split
  · next hshown =>
      rcases isShorthand_cases hshown with ⟨rfl, done, rfl⟩ | ⟨rfl, rfl⟩ | ⟨rfl, t, -, rfl⟩ |
        ⟨-, hkey, xs, rfl⟩
      · simp [Shorthand.kind]
      · have hne : Key.skipped ≠ Key.completed := by decide
        simp [hne, Shorthand.kind]
      · simp [Shorthand.kind]
      · simp only
        split
        · rw [(hnames xs).1]
          exact Nat.zero_le _
        · rw [(hnames xs).2]
          exact Nat.zero_le _
  · simp

/-- A field map has one priority at most. -/
theorem countP_priority_lead (withNames : Bool) (fs : Fields) :
    (lead withNames fs).countP (·.kind = .priority) ≤ 1 := by
  have hkeys : Key.completed ≠ Key.priority ∧ Key.skipped ≠ Key.priority ∧
      Key.stakeholders ≠ Key.priority ∧ Key.tags ≠ Key.priority := by decide
  have h := fun key => countP_priority_marks withNames key (fs.get key)
  have h₁ := h Key.completed
  have h₂ := h Key.skipped
  have h₃ := h Key.priority
  have h₄ := h Key.stakeholders
  have h₅ := h Key.tags
  simp only [hkeys, if_false, if_true] at h₁ h₂ h₃ h₄ h₅
  simp only [lead, leadKeys, List.flatMap_cons, List.flatMap_nil, List.countP_append,
    List.countP_nil]
  omega

end Layout

namespace Lint

variable {l : Line} {seen : List Text} {lead : List Shorthand} {title : Option Text}
  {kvs : List (Text × Text)} {id written : Text} {ts : List Token}

/-! ### The parts of a bullet -/

theorem noteId_of_dequote (l : Line) (seen : List Text) (hne : id ≠ [])
    (hid : dequote written = id) (start : Nat) :
    noteId l seen written start =
      (addName seen id, if seen.contains id then [.toEnd l (.duplicateId id) start] else []) := by
  have hempty : id.isEmpty = false := by simpa using hne
  simp [noteId, hid, hempty]

theorem uses_key {t u : Token} {key : Text} (hkey : IsKey key) (ht : t.text = keyWord key)
    (ts : List Token) :
    uses (t :: u :: ts) = (t, .key key u.text) :: (u, .value) :: uses ts := by
  rw [uses, Token.key?_keyWord hkey ht]

/-- Fields that end with an id: every token is a key or a value, and the id is looked up. -/
theorem checkUses_fieldWords (l : Line) (offset : Nat) (seen : List Text) (last : Option Text)
    (hkvs : ∀ kv ∈ kvs, IsKey kv.1 ∧ kv.1 ≠ Key.id) (hne : id ≠ [])
    (hid : dequote written = id)
    (hts : ts.map Token.text = fieldWords (kvs ++ [(Key.id, written)])) :
    ∃ start, checkUses l offset seen last (uses ts) =
      (addName seen id, if seen.contains id then [.toEnd l (.duplicateId id) start] else []) := by
  induction kvs generalizing ts last with
  | nil =>
      simp only [fieldWords, List.nil_append, List.flatMap_cons, List.flatMap_nil] at hts
      obtain ⟨t, ts, rfl, ht, hts⟩ := List.map_eq_cons_iff.1 hts
      obtain ⟨u, ts, rfl, hu, hts⟩ := List.map_eq_cons_iff.1 hts
      obtain rfl := List.map_eq_nil_iff.1 hts
      refine ⟨offset + t.start, ?_⟩
      rw [uses_key Layout.isKey_id ht, hu]
      simp [uses, checkUses, noteId_of_dequote l seen hne hid]
  | cons kv kvs ih =>
      obtain ⟨key, raw⟩ := kv
      simp only [fieldWords, List.cons_append, List.flatMap_cons, List.nil_append] at hts
      obtain ⟨t, ts, rfl, ht, hts⟩ := List.map_eq_cons_iff.1 hts
      obtain ⟨u, ts, rfl, -, hts⟩ := List.map_eq_cons_iff.1 hts
      obtain ⟨hkey, hnot⟩ := hkvs (key, raw) (by simp)
      obtain ⟨start, hstart⟩ :=
        ih (some key) (fun kv hkv => hkvs kv (List.mem_cons_of_mem _ hkv)) hts
      refine ⟨start, ?_⟩
      have hnot' : ¬ key = Key.id := hnot
      rw [uses_key hkey ht]
      simp [checkUses, hnot', hstart]

/-- After the shorthand: a title, if there is one, and fields that end with an id. -/
theorem checkUses_bodyWords (l : Line) (offset : Nat) (seen : List Text)
    (hkvs : ∀ kv ∈ kvs, IsKey kv.1 ∧ kv.1 ≠ Key.id) (hne : id ≠ [])
    (hid : dequote written = id)
    (hts : ts.map Token.text = Bullet.bodyWords title (kvs ++ [(Key.id, written)])) :
    (∀ t, ts.head? = some t → isPlainWord t = false) ∧
      ∃ start, checkUses l offset seen none (uses ts) =
        (addName seen id,
          if seen.contains id then [.toEnd l (.duplicateId id) start] else []) := by
  cases title with
  | none =>
      have hts' : ts.map Token.text = fieldWords (kvs ++ [(Key.id, written)]) := by
        simpa [Bullet.bodyWords] using hts
      refine ⟨?_, checkUses_fieldWords l offset seen none hkvs hne hid hts'⟩
      intro t ht
      obtain ⟨key, hkey, htext⟩ : ∃ key, IsKey key ∧ t.text = keyWord key := by
        have hhead : (ts.map Token.text).head? = some t.text := by rw [List.head?_map, ht]; rfl
        rw [hts'] at hhead
        cases kvs with
        | nil => exact ⟨Key.id, Layout.isKey_id, (Option.some.inj hhead).symm⟩
        | cons kv kvs => exact ⟨kv.1, (hkvs kv (by simp)).1, (Option.some.inj hhead).symm⟩
      simp [isPlainWord, Token.isKey_keyWord hkey htext]
  | some name =>
      have hts' : ts.map Token.text = enquote name :: fieldWords (kvs ++ [(Key.id, written)]) := by
        simpa [Bullet.bodyWords] using hts
      obtain ⟨t, us, rfl, ht, hus⟩ := List.map_eq_cons_iff.1 hts'
      have hquoted : t.quoted = true := by
        rw [Token.quoted, ht]
        exact isQuotedString_enquote name
      have hkey : t.key? = none := by simp [Token.key?, hquoted]
      obtain ⟨start, hstart⟩ := checkUses_fieldWords l offset seen none hkvs hne hid hus
      refine ⟨?_, start, ?_⟩
      · intro u hu
        obtain rfl := Option.some.inj hu
        simp [isPlainWord, hquoted]
      · -- There is a token after the title, since there is an id.
        have huses : uses (t :: us) = (t, .quoted) :: uses us := by
          cases us with
          | nil => simp [fieldWords] at hus
          | cons u us => simp [uses, hkey, looseUse, hquoted]
        rw [huses]
        simp [checkUses, hstart]

theorem countP_isPriority (hlead : ∀ s ∈ lead, s.Legible)
    (hts : ts.map Token.text = lead.map Shorthand.word) :
    ts.countP isPriority = lead.countP (·.kind = .priority) := by
  induction lead generalizing ts with
  | nil =>
      obtain rfl := List.map_eq_nil_iff.1 hts
      rfl
  | cons s lead ih =>
      obtain ⟨t, ts, rfl, ht, hts⟩ := List.map_eq_cons_iff.1 hts
      have hs : Shorthand.read? t.text = some s := by
        rw [ht]
        exact (hlead s (by simp)).read?_word
      rw [List.countP_cons, List.countP_cons,
        ih (fun s hs => hlead s (List.mem_cons_of_mem _ hs)) hts]
      simp [isPriority, hs]

theorem checkPriorities_words (l : Line) (offset : Nat) (hlead : ∀ s ∈ lead, s.Legible)
    (hpriority : lead.countP (·.kind = .priority) ≤ 1)
    (hts : ts.map Token.text = lead.map Shorthand.word) : checkPriorities l offset ts = [] := by
  have hcount := countP_isPriority hlead hts
  unfold checkPriorities
  rw [hcount]
  split
  · exact if_neg (by omega)
  · rfl

/-- The linter finds nothing on a written bullet but an id that was seen before. -/
theorem checkContent_words (seen : List Text) (hlead : ∀ s ∈ lead, s.Legible)
    (hpriority : lead.countP (·.kind = .priority) ≤ 1)
    (hkvs : ∀ kv ∈ kvs, IsKey kv.1 ∧ kv.1 ≠ Key.id ∧ Scalar.Form kv.2) (hne : id ≠ [])
    (hform : Scalar.Form written) (hid : dequote written = id)
    (hl : l.content = Text.join [' '] (Bullet.words lead title (kvs ++ [(Key.id, written)]))) :
    ∃ start, checkContent l seen =
      (addName seen id, if seen.contains id then [.toEnd l (.duplicateId id) start] else []) := by
  have hall : ∀ kv ∈ kvs ++ [(Key.id, written)], IsKey kv.1 ∧ Scalar.Form kv.2 := by
    intro kv hkv
    rcases List.mem_append.mp hkv with hkv | hkv
    · exact ⟨(hkvs kv hkv).1, (hkvs kv hkv).2.2⟩
    · rw [List.mem_singleton.mp hkv]
      exact ⟨Layout.isKey_id, hform⟩
  have hquotes : unclosedQuote? l.content = none := by
    rw [hl]
    exact unclosedQuote?_join fun w hw => (Bullet.form_of_mem_words hlead hall hw).isWord
  have htexts : (tokens l.content).map Token.text = lead.map Shorthand.word ++
      Bullet.bodyWords title (kvs ++ [(Key.id, written)]) := by
    rw [hl]
    exact Bullet.map_text_tokens_words hlead hall
  obtain ⟨us, hus, hbody⟩ := Bullet.shorthand_of_words hlead htexts fun w => by
    cases kvs with
    | nil => exact Bullet.read?_of_head Layout.isKey_id
    | cons kv kvs => exact Bullet.read?_of_head (hkvs kv (by simp)).1
  obtain ⟨hrest, htake⟩ := Bullet.shorthand_eq (tokens l.content)
  rw [hus] at hrest htake
  obtain ⟨hfirst, start, hstart⟩ := checkUses_bodyWords l l.contentColumn seen
    (fun kv hkv => ⟨(hkvs kv hkv).1, (hkvs kv hkv).2.1⟩) hne hid hbody
  have htaken : ((tokens l.content).take lead.length).map Token.text =
      lead.map Shorthand.word := by
    rw [List.map_take, htexts, List.take_left' (by simp)]
  have hpriorities := checkPriorities_words l l.contentColumn hlead hpriority htaken
  rw [htake] at hpriorities
  have htitle : us.takeWhile isPlainWord = [] ∧ us.dropWhile isPlainWord = us := by
    cases us with
    | nil => exact ⟨rfl, rfl⟩
    | cons u us => simp [hfirst u rfl]
  refine ⟨start, ?_⟩
  simp only [checkContent, usesAt_valuePositions, hpriorities, ← hrest, htitle.1,
    htitle.2, hstart, checkQuotes, hquotes]
  simp [checkTitle]

end Lint

end Agenda
