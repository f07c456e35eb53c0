import Agenda.Proofs.Directory
import Agenda.Proofs.Fields
import Agenda.Proofs.Identity

/-!
The texts that computed ids are digests of. No JSON text continues another one: a string ends at the
first quote that is not escaped, a list at its bracket, and an integer at the first character that
numbers do not have. So a text of fields stands for these fields only, and an identity and a counter
of occurrences can be told from the text that is hashed for them. Floating-point numbers are left
out, for which this would be a question about the digits that they are written with.
-/

namespace Agenda

def Value.IsExact : Value → Prop
  | .number (.float _) => False
  | _ => True

theorem Text.ofNat_injective : Function.Injective ofNat := by
  intro m n h
  rw [← natOfDigits_ofNat m, h, natOfDigits_ofNat]

theorem Text.ofInt_injective : Function.Injective ofInt := by
  intro m n h
  have hsigns := (takeSign_ofInt m).symm.trans (h ▸ takeSign_ofInt n)
  rw [Prod.mk.injEq, decide_eq_decide] at hsigns
  have habs := ofNat_injective hsigns.2
  omega

theorem Text.toBytes_injective : Function.Injective toBytes := by
  intro s t h
  rw [← Option.some.injEq, ← ofBytes?_toBytes s, h, ofBytes?_toBytes]

namespace Json

variable {r s : Text}

/-! ### Strings -/

def escapedChars : List Char := '"' :: '\\' :: (List.range 32).map Char.ofNat

theorem escapeChar_of_not_mem {c : Char} (h : c ∉ escapedChars) : escapeChar c = [c] := by
  have hne : ∀ d ∈ escapedChars, c ≠ d := fun d hd heq => h (heq ▸ hd)
  have hcontrol : ¬ c.toNat < 0x20 := by
    intro hlow
    have hmem : Char.ofNat c.toNat ∈ escapedChars := List.mem_cons_of_mem _
      (List.mem_cons_of_mem _ (List.mem_map_of_mem (List.mem_range.2 hlow)))
    rw [Char.ofNat_toNat] at hmem
    exact h hmem
  have hmarks : ∀ d ∈ ['"', '\\', '\n', '\r', '\t'], d ∈ escapedChars := by decide
  unfold escapeChar
  rw [if_neg (hne _ (hmarks '"' (by decide))), if_neg (hne _ (hmarks '\\' (by decide))),
    if_neg (hne _ (hmarks '\n' (by decide))), if_neg (hne _ (hmarks '\r' (by decide))),
    if_neg (hne _ (hmarks '\t' (by decide))), if_neg (by omega), if_neg (by omega),
    if_neg hcontrol]

theorem head?_escapeChar : ∀ c ∈ escapedChars, (escapeChar c).head? = some '\\' := by
  decide +kernel

theorem eq_of_isPrefixOf_escapeChar : ∀ c ∈ escapedChars, ∀ d ∈ escapedChars,
    (escapeChar c).isPrefixOf (escapeChar d) = true → c = d := by
  decide +kernel

theorem head?_append_of_mem {c : Char} (hc : c ∈ escapedChars) (r : Text) :
    (escapeChar c ++ r).head? = some '\\' := by
  rw [List.head?_append, head?_escapeChar c hc]
  rfl

theorem head?_append_of_not_mem {c : Char} (hc : c ∉ escapedChars) (r : Text) :
    (escapeChar c ++ r).head? = some c := by
  rw [escapeChar_of_not_mem hc]
  rfl

theorem head?_append_ne_quote (c : Char) (r : Text) : (escapeChar c ++ r).head? ≠ some '"' := by
  by_cases hc : c ∈ escapedChars
  · rw [head?_append_of_mem hc]
    decide
  · rw [head?_append_of_not_mem hc]
    exact fun heq => hc (Option.some.inj heq ▸ by decide)

/-- A plain character is no backslash, and an escape is no beginning of another one. -/
theorem escapeChar_append_inj {c d : Char} (h : escapeChar c ++ r = escapeChar d ++ s) :
    c = d ∧ r = s := by
  have hplain {c : Char} (hc : c ∉ escapedChars) (r : Text) :
      (escapeChar c ++ r).head? ≠ some '\\' := by
    rw [head?_append_of_not_mem hc]
    exact fun heq => hc (Option.some.inj heq ▸ by decide)
  by_cases hc : c ∈ escapedChars
  · by_cases hd : d ∈ escapedChars
    · have heq : c = d := by
        rcases List.prefix_or_prefix_of_prefix (List.prefix_append _ r) (h ▸ List.prefix_append _ s)
          with hprefix | hprefix
        · exact eq_of_isPrefixOf_escapeChar c hc d hd (List.isPrefixOf_iff_prefix.2 hprefix)
        · exact (eq_of_isPrefixOf_escapeChar d hd c hc (List.isPrefixOf_iff_prefix.2 hprefix)).symm
      obtain rfl := heq
      exact ⟨rfl, List.append_cancel_left h⟩
    · exact absurd (h ▸ head?_append_of_mem hc r) (hplain hd s)
  · by_cases hd : d ∈ escapedChars
    · exact absurd (h ▸ head?_append_of_mem hd s) (hplain hc r)
    · rw [escapeChar_of_not_mem hc, escapeChar_of_not_mem hd] at h
      exact List.cons.inj h

/-- A string ends at the first quote that is not escaped. -/
theorem flatMap_escapeChar_append_inj {t u : Text}
    (h : t.flatMap escapeChar ++ '"' :: r = u.flatMap escapeChar ++ '"' :: s) :
    t = u ∧ r = s := by
  have hquote (c : Char) (q r : Text) : escapeChar c ++ q ≠ '"' :: r := fun heq =>
    head?_append_ne_quote c q (congrArg List.head? heq)
  induction t generalizing u with
  | nil =>
      cases u with
      | nil => exact ⟨rfl, (List.cons.inj h).2⟩
      | cons d u =>
          rw [List.flatMap_cons, List.append_assoc] at h
          exact absurd h.symm (hquote d _ _)
  | cons c t ih =>
      cases u with
      | nil =>
          rw [List.flatMap_cons, List.append_assoc] at h
          exact absurd h (hquote c _ _)
      | cons d u =>
          rw [List.flatMap_cons, List.flatMap_cons, List.append_assoc, List.append_assoc] at h
          obtain ⟨rfl, hrest⟩ := escapeChar_append_inj h
          obtain ⟨htails, hrests⟩ := ih hrest
          exact ⟨by rw [htails], hrests⟩

theorem string_append_inj {t u : Text} (h : string t ++ r = string u ++ s) : t = u ∧ r = s := by
  simp only [string, List.cons_append, List.append_assoc, List.nil_append, List.cons.injEq,
    true_and] at h
  exact flatMap_escapeChar_append_inj h

/-! ### Integers -/

/-- Texts that do not continue a number. -/
def Ends (r : Text) : Prop := ∀ c, r.head? = some c → isNumberChar c = false

theorem takeWhile_ofInt_append (n : Int) (hr : Ends r) :
    (Text.ofInt n ++ r).takeWhile isNumberChar = Text.ofInt n := by
  have hchars : ∀ c ∈ Text.ofInt n, isNumberChar c = true := fun c hc =>
    Number.mem_text (n := .int n) hc
  rw [List.takeWhile_append_of_pos hchars]
  cases r with
  | nil => simp
  | cons c r => simp [hr c rfl]

theorem ofInt_append_inj {m n : Int} (hr : Ends r) (hs : Ends s)
    (h : Text.ofInt m ++ r = Text.ofInt n ++ s) : m = n ∧ r = s := by
  have htexts : Text.ofInt m = Text.ofInt n := by
    rw [← takeWhile_ofInt_append m hr, h, takeWhile_ofInt_append n hs]
  obtain rfl := Text.ofInt_injective htexts
  exact ⟨rfl, List.append_cancel_left h⟩

/-! ### Members -/

section Members

variable {α : Type} {write : α → Text} {stop : Char} {p : α → Prop}

/-- What follows a member: the other ones after a comma, or the closing mark. -/
def following (write : α → Text) (stop : Char) (r : Text) : List α → Text
  | [] => stop :: r
  | a :: as => ',' :: (Text.join [','] ((a :: as).map write) ++ stop :: r)

theorem join_members (a : α) (as : List α) :
    Text.join [','] ((a :: as).map write) ++ stop :: r = write a ++ following write stop r as := by
  cases as with
  | nil => rfl
  | cons b as => simp [Text.join_cons_cons, following]

theorem ends_following (hstop : isNumberChar stop = false) (as : List α) :
    Ends (following write stop r as) := by
  intro c hc
  cases as with
  | nil =>
      obtain rfl : stop = c := Option.some.inj hc
      exact hstop
  | cons a as =>
      obtain rfl : ',' = c := Option.some.inj hc
      rfl

/-- Members that begin with quotes are told apart by the commas between them and by the closing
mark. -/
theorem members_append_inj (hquote : ∀ a, (write a).head? = some '"')
    (hstop : stop ∈ [']', '\x7d'])
    (hwrite : ∀ a b r s, p a → p b → Ends r → Ends s → write a ++ r = write b ++ s → a = b ∧ r = s)
    {as bs : List α} (has : ∀ a ∈ as, p a) (hbs : ∀ b ∈ bs, p b)
    (h : Text.join [','] (as.map write) ++ stop :: r =
      Text.join [','] (bs.map write) ++ stop :: s) : as = bs ∧ r = s := by
  have hmarks : ∀ c ∈ [']', '\x7d'], c ≠ '"' ∧ c ≠ ',' ∧ isNumberChar c = false := by decide
  obtain ⟨hstopquote, hcomma, hends⟩ := hmarks stop hstop
  have hmember (a : α) (q r : Text) : write a ++ q ≠ stop :: r := by
    intro heq
    have hhead := congrArg List.head? heq
    rw [List.head?_append, hquote a] at hhead
    exact hstopquote (Option.some.inj hhead).symm
  induction as generalizing bs with
  | nil =>
      cases bs with
      | nil => exact ⟨rfl, (List.cons.inj h).2⟩
      | cons b bs =>
          rw [join_members] at h
          exact absurd h.symm (hmember b _ _)
  | cons a as ih =>
      cases bs with
      | nil =>
          rw [join_members] at h
          exact absurd h (hmember a _ _)
      | cons b bs =>
          rw [join_members, join_members] at h
          rw [List.forall_mem_cons] at has hbs
          obtain ⟨rfl, hrest⟩ := hwrite a b _ _ has.1 hbs.1 (ends_following hends as)
            (ends_following hends bs) h
          cases as with
          | nil =>
              cases bs with
              | nil => exact ⟨rfl, (List.cons.inj hrest).2⟩
              | cons b bs => exact absurd (List.cons.inj hrest).1 hcomma
          | cons a' as =>
              cases bs with
              | nil => exact absurd (List.cons.inj hrest).1.symm hcomma
              | cons b bs =>
                  obtain ⟨hothers, hrests⟩ := ih has.2 hbs.2 (List.cons.inj hrest).2
                  exact ⟨by rw [hothers], hrests⟩

end Members

/-! ### Values and fields -/

theorem head?_string (t : Text) : (string t).head? = some '"' := rfl

theorem compactList_append_inj {xs ys : List Text} (h : compactList xs ++ r = compactList ys ++ s) :
    xs = ys ∧ r = s := by
  simp only [compactList, List.cons_append, List.append_assoc, List.nil_append, List.cons.injEq,
    true_and] at h
  exact members_append_inj (p := fun _ => True) head?_string (by decide)
    (fun _ _ _ _ _ _ _ _ heq => string_append_inj heq) (fun _ _ => trivial)
    (fun _ _ => trivial) h

def kindOf : Char → Nat
  | 'n' => Value.null.ctorIdx
  | '"' => (Value.text []).ctorIdx
  | 't' => (Value.flag true).ctorIdx
  | 'f' => (Value.flag false).ctorIdx
  | '[' => (Value.names []).ctorIdx
  | _ => (Value.number (.int 0)).ctorIdx

theorem kindOf_of_mem_ofInt {n : Int} {c : Char} (h : c ∈ Text.ofInt n) :
    kindOf c = (Value.number (.int n)).ctorIdx := by
  have hrange := Text.mem_ofInt h
  unfold kindOf
  split
  case h_6 => rfl
  all_goals exact absurd hrange (by decide)

theorem exists_head_value {v : Value} (hv : v.IsExact) (r : Text) :
    ∃ c, (value compactList v ++ r).head? = some c ∧ kindOf c = v.ctorIdx := by
  cases v with
  | null => exact ⟨'n', rfl, rfl⟩
  | text t => exact ⟨'"', rfl, rfl⟩
  | flag b => cases b <;> exact ⟨_, rfl, rfl⟩
  | number n =>
      cases n with
      | int n =>
          obtain ⟨c, cs, hcs⟩ := List.exists_cons_of_ne_nil (Text.ofInt_ne_nil n)
          have hvalue : value compactList (.number (.int n)) = Text.ofInt n := rfl
          refine ⟨c, ?_, kindOf_of_mem_ofInt (hcs ▸ List.mem_cons_self)⟩
          rw [hvalue, hcs]
          rfl
      | float x => exact hv.elim
  | names xs => exact ⟨'[', rfl, rfl⟩

theorem value_append_inj {v w : Value} (hv : v.IsExact) (hw : w.IsExact) (hr : Ends r)
    (hs : Ends s) (h : value compactList v ++ r = value compactList w ++ s) : v = w ∧ r = s := by
  have hkind : v.ctorIdx = w.ctorIdx := by
    obtain ⟨c, hc, hvc⟩ := exists_head_value hv r
    obtain ⟨d, hd, hwd⟩ := exists_head_value hw s
    rw [h, hd, Option.some.injEq] at hc
    rw [← hvc, ← hwd, hc]
  cases v with
  | null =>
      cases w with
      | null => exact ⟨rfl, List.append_cancel_left h⟩
      | _ => cases hkind
  | text t =>
      cases w with
      | text u =>
          obtain ⟨rfl, hrest⟩ := string_append_inj h
          exact ⟨rfl, hrest⟩
      | _ => cases hkind
  | flag a =>
      cases w with
      | flag b =>
          cases a <;> cases b
          · exact ⟨rfl, List.append_cancel_left h⟩
          · exact absurd (List.cons.inj h).1 (by decide)
          · exact absurd (List.cons.inj h).1 (by decide)
          · exact ⟨rfl, List.append_cancel_left h⟩
      | _ => cases hkind
  | number m =>
      cases w with
      | number n =>
          cases m with
          | float x => exact hv.elim
          | int m =>
              cases n with
              | float x => exact hw.elim
              | int n =>
                  obtain ⟨rfl, hrest⟩ := ofInt_append_inj hr hs h
                  exact ⟨rfl, hrest⟩
      | _ => cases hkind
  | names xs =>
      cases w with
      | names ys =>
          obtain ⟨rfl, hrest⟩ := compactList_append_inj h
          exact ⟨rfl, hrest⟩
      | _ => cases hkind

theorem compactEntry_append_inj {f g : Text × Value} (hf : f.2.IsExact) (hg : g.2.IsExact)
    (hr : Ends r) (hs : Ends s) (h : compactEntry f ++ r = compactEntry g ++ s) :
    f = g ∧ r = s := by
  simp only [compactEntry, List.append_assoc, List.cons_append] at h
  obtain ⟨hkey, hrest⟩ := string_append_inj h
  obtain ⟨hvalue, hrest⟩ := value_append_inj hf hg hr hs (List.cons.inj hrest).2
  exact ⟨Prod.ext hkey hvalue, hrest⟩

/-- Field maps with the same text have the same fields in the same order. -/
theorem compact_inj {fs gs : Fields} (hfs : ∀ f ∈ fs, f.2.IsExact) (hgs : ∀ g ∈ gs, g.2.IsExact)
    {t : Text} (hf : compact fs = .ok t) (hg : compact gs = .ok t) : fs = gs := by
  have htext {fs : Fields} (h : compact fs = .ok t) :
      '\x7b' :: Text.join [','] (fs.map compactEntry) ++ ['\x7d'] = t := by
    unfold compact at h
    split at h
    · exact Except.ok.inj h
    · cases h
  have h := (htext hf).trans (htext hg).symm
  simp only [List.cons_append, List.cons.injEq, true_and] at h
  have hquote (f : Text × Value) : (compactEntry f).head? = some '"' := by
    rw [compactEntry, List.head?_append, head?_string]
    rfl
  exact (members_append_inj (p := fun f : Text × Value => f.2.IsExact) hquote (by decide)
    (fun _ _ _ _ => compactEntry_append_inj) hfs hgs h).1

end Json

/-! ### Identities -/

namespace Identity

/-- No floating-point number identifies the task. -/
structure IsExact (i : Identity) : Prop where
  title : i.title.IsExact
  priority : i.priority.IsExact
  due : i.due.IsExact

variable {i j : Identity} {m n : Nat}

theorem IsExact.entries (h : i.IsExact) : ∀ f ∈ i.entries n, f.2.IsExact :=
  forall_mem_entries.2 ⟨h.due, fun _ => trivial, h.priority, trivial, trivial, h.title⟩

theorem entries_inj (h : i.entries m = j.entries n) : i = j ∧ m = n := by
  obtain ⟨title, tags, priority, stakeholders, due⟩ := i
  obtain ⟨title', tags', priority', stakeholders', due'⟩ := j
  have hlength := congrArg List.length h
  by_cases hm : m = 0 <;> by_cases hn : n = 0 <;> simp [entries, hm, hn] at h hlength
  · obtain ⟨rfl, rfl, rfl, rfl, rfl⟩ := h
    exact ⟨rfl, hm.trans hn.symm⟩
  · obtain ⟨rfl, hcounter, rfl, rfl, rfl, rfl⟩ := h
    exact ⟨rfl, by omega⟩

theorem ofFields_eq_of_perm {a b : Fields} (hkeys : a.keys.Nodup) (h : a.Perm b) :
    ofFields a = ofFields b := by
  have hget (key : Text) : a.get key = b.get key := (Fields.get_of_perm h hkeys key).symm
  have hhas : a.has Key.title = b.has Key.title := h.any_eq
  simp only [ofFields, hget, hhas]

/-- Two field maps give the same text, and so the same message for the digest, if and only if they
give the same identity and the counters are the same, where no counter is the counter zero. There is
a text unless an integer is too large to be written. The order of the fields does not matter. -/
theorem canonical_eq_iff {a b : Fields} (ha : (ofFields a).IsExact) (hb : (ofFields b).IsExact)
    (m n : Nat) :
    (∀ s t, (ofFields a).canonical m = .ok s → (ofFields b).canonical n = .ok t →
        (s = t ↔ ofFields a = ofFields b ∧ m = n) ∧
          (Text.toBytes s = Text.toBytes t ↔ ofFields a = ofFields b ∧ m = n)) ∧
      ((∃ t, (ofFields a).canonical m = .ok t) ↔
        (ofFields a).IsWritable ∧ m < 10 ^ Number.maxDigits) ∧
      ∀ a' : Fields, a.keys.Nodup → a.Perm a' →
        (ofFields a').canonical m = (ofFields a).canonical m := by
  refine ⟨fun s t hs ht => ?_, exists_canonical, fun a' hkeys hperm => ?_⟩
  · have htexts : s = t ↔ ofFields a = ofFields b ∧ m = n := by
      constructor
      · rintro rfl
        exact entries_inj (Json.compact_inj ha.entries hb.entries hs ht)
      · rintro ⟨heq, rfl⟩
        rw [heq] at hs
        exact Except.ok.inj (hs.symm.trans ht)
    exact ⟨htexts, Text.toBytes_injective.eq_iff.trans htexts⟩
  · rw [ofFields_eq_of_perm hkeys hperm]

/-- A flag and the text that spells it, and fields in another order. -/
theorem canonical_eq_iff_flag :
    let a : Fields := [(Key.title, .flag true), (Key.due, .text "x\"")]
    let b : Fields := [(Key.title, .text "true"), (Key.due, .text "x\"")]
    ∃ s t u, (ofFields a).canonical 0 = .ok s ∧ (ofFields b).canonical 0 = .ok t ∧
      (ofFields a).canonical 1 = .ok u ∧ s ≠ t ∧ s ≠ u ∧
      (ofFields a.reverse).canonical 0 = .ok s := by
  intro a b
  have ha : (ofFields a).IsExact := ⟨trivial, trivial, trivial⟩
  have hb : (ofFields b).IsExact := ⟨trivial, trivial, trivial⟩
  obtain ⟨hsame, -, hperm⟩ := canonical_eq_iff ha hb 0 0
  refine ⟨_, _, _, rfl, rfl, rfl, fun h => ?_, fun h => ?_, ?_⟩
  · exact absurd ((hsame _ _ rfl rfl).1.1 h).1 (by decide)
  · exact absurd (((canonical_eq_iff ha ha 0 1).1 _ _ rfl rfl).1.1 h).2 (by decide)
  · exact hperm a.reverse (by decide) (List.reverse_perm a).symm

end Identity

end Agenda
