import Agenda.Proofs.LeadingShorthand
import Agenda.Proofs.Section
import Agenda.Proofs.WrittenLines

/-!
Ids that get lost. An id with a blank in it that is written without quotes is cut at the blank, and
one with a line feed tears the line of its bullet apart. In either case what is left of the bullet
is read with an id that has no blank.
-/

namespace Agenda

/-! ### Tokens of a bullet with a loose end -/

/-- Characters that neither open a quote nor escape. -/
def Text.Quoteless (t : Text) : Prop := ∀ c ∈ t, Quote.ofChar? c = none ∧ c ≠ '\\'

def Text.Bare (t : Text) : Prop := ∀ c ∈ t, isBlank c = false ∧ Quote.ofChar? c = none

theorem bare_cutTokens {t : Text} (h : t.Quoteless) (pos : Nat) :
    (cutTokens .start pos t).1.Bare ∧ ∀ tok ∈ (cutTokens .start pos t).2, tok.text.Bare := by
  induction t generalizing pos with
  | nil => exact ⟨by simp [cutTokens, Text.Bare], by simp [cutTokens]⟩
  | cons c t ih =>
      obtain ⟨hc, ht⟩ := List.forall_mem_cons.1 h
      have hstep : Scan.start.step c = Scan.start := by
        simp [Scan.step, Scan.start, hc.1, hc.2]
      obtain ⟨hword, htoks⟩ := ih ht (pos + 1)
      simp only [cutTokens, hstep]
      split
      · refine ⟨by simp [Text.Bare], fun tok htok => ?_⟩
        rcases mem_consToken htok with htext | htok
        · exact htext ▸ hword
        · exact htoks tok htok
      · next hsep =>
          have hblank : isBlank c = false := by
            simp only [Scan.separates, Scan.start, Bool.not_false, Option.isNone_none,
              Bool.true_and, Bool.or_eq_true, not_or, Bool.not_eq_true] at hsep
            exact hsep.1
          exact ⟨List.forall_mem_cons.2 ⟨⟨hblank, hc.1⟩, hword⟩, htoks⟩

theorem cutTokens_join_append {w : Text} {ws : List Text} (hw : IsWord w)
    (hws : ∀ v ∈ ws, IsWord v) {rest : Text} (hrest : rest.Quoteless) (pos : Nat) :
    ∃ ts bs, cutTokens .start pos (Text.join [' '] (w :: ws) ++ ' ' :: rest) = (w, ts) ∧
      ts.map Token.text = ws ++ bs ∧ ∀ b ∈ bs, b.Bare := by
  have hspace : Scan.start.step ' ' = Scan.start := rfl
  have hsep : Scan.start.separates ' ' = true := rfl
  induction ws generalizing w pos with
  | nil =>
      rw [Text.join, cutTokens_append hw.keeps, hw.after_eq, cutTokens, hspace]
      simp only [hsep, if_true, List.append_nil, List.nil_append]
      refine ⟨_, _, rfl, rfl, ?_⟩
      obtain ⟨hword, htoks⟩ := bare_cutTokens hrest (pos + w.length + 1)
      intro b hb
      obtain ⟨tok, htok, rfl⟩ := List.mem_map.mp hb
      rcases mem_consToken htok with htext | htok
      · exact htext ▸ hword
      · exact htoks tok htok
  | cons v ws ih =>
      have hv := hws v (by simp)
      have hne : v.isEmpty = false := by simpa using hv.ne_nil
      obtain ⟨ts, bs, hcut, hts, hbs⟩ := ih hv (fun u hu => hws u (List.mem_cons_of_mem _ hu))
        (pos + w.length + 1)
      refine ⟨⟨v, pos + w.length + 1⟩ :: ts, bs, ?_, by rw [List.map_cons, hts]; rfl, hbs⟩
      rw [Text.join_cons_cons, List.append_assoc, List.append_assoc, cutTokens_append hw.keeps,
        hw.after_eq, List.singleton_append, cutTokens, hspace, hcut]
      simp [hsep, consToken, hne]

/-- After words and a space, a text without quotes adds tokens without blanks. -/
theorem tokens_join_append {ws : List Text} (hws : ∀ w ∈ ws, IsWord w) (hne : ws ≠ [])
    {rest : Text} (hrest : rest.Quoteless) :
    ∃ bs, (tokens (Text.join [' '] ws ++ ' ' :: rest)).map Token.text = ws ++ bs ∧
      ∀ b ∈ bs, b.Bare := by
  obtain ⟨w, ws, rfl⟩ := List.exists_cons_of_ne_nil hne
  have hw := hws w (by simp)
  obtain ⟨ts, bs, hcut, hts, hbs⟩ :=
    cutTokens_join_append hw (fun v hv => hws v (List.mem_cons_of_mem _ hv)) hrest 0
  have hempty : w.isEmpty = false := by simpa using hw.ne_nil
  refine ⟨bs, ?_, hbs⟩
  simp [tokens, hcut, consToken, hempty, hts]

/-- What a pair has as its value comes from the tokens. -/
theorem mem_of_mem_raw {ts : List Token} {p : Pair} (h : p ∈ pairs ts) {c : Char}
    (hc : c ∈ p.raw) : ∃ t ∈ ts, c ∈ t.text := by
  have hkey : ∀ {t : Token} {key raw : Text}, t.key? = some (key, raw) → c ∈ raw → c ∈ t.text := by
    intro t key raw hk hm
    unfold Token.key? at hk
    split at hk
    · cases hk
    · rw [(eq_of_splitKey? hk).2]
      simp [hm]
  fun_induction pairs ts with
  | case1 => cases h
  | case2 t hk => cases h
  | case3 t key raw hk hraw =>
      rw [List.mem_singleton.mp h] at hc
      cases hc
  | case4 t key raw hk hraw =>
      rw [List.mem_singleton.mp h] at hc
      exact ⟨t, by simp, hkey hk hc⟩
  | case5 t u ts hk ih =>
      obtain ⟨v, hv, hm⟩ := ih h
      exact ⟨v, List.mem_cons_of_mem _ hv, hm⟩
  | case6 t u ts key raw hk hraw ih =>
      rcases List.mem_cons.mp h with rfl | h
      · exact ⟨u, by simp, hc⟩
      · obtain ⟨v, hv, hm⟩ := ih h
        exact ⟨v, by simp [hv], hm⟩
  | case7 t u ts key raw hk hraw ih =>
      rcases List.mem_cons.mp h with rfl | h
      · exact ⟨t, by simp, hkey hk hc⟩
      · obtain ⟨v, hv, hm⟩ := ih h
        exact ⟨v, List.mem_cons_of_mem _ hv, hm⟩

/-! ### The fields of a bullet with a loose end -/

theorem Text.Bare.dequote_eq {raw : Text} (h : raw.Bare) : dequote raw = raw := by
  apply Scalar.dequote_of_not_quoted
  cases raw with
  | nil => rfl
  | cons c cs => exact isQuotedString_of_head rfl (h c (by simp)).2

namespace Fields

variable {fs : Fields}

def BareId (fs : Fields) : Prop := ∀ v, (Key.id, v) ∈ fs → ∃ s : Text, v = .text s ∧ s.Bare

theorem BareId.set (h : fs.BareId) {key : Text} {v : Value}
    (hv : key = Key.id → ∃ s : Text, v = .text s ∧ s.Bare) : (fs.set key v).BareId := by
  intro w hw
  rcases mem_set hw with heq | hw
  · obtain ⟨hkey, rfl⟩ := Prod.mk.inj heq
    exact hv hkey.symm
  · exact h w hw

theorem BareId.assign (h : fs.BareId) {key : Text} {v : Value}
    (hv : key = Key.id → v.plain.Bare) : (fs.assign key v).BareId := by
  unfold Fields.assign
  split
  · next hlist => exact h.set fun hid => absurd (hid ▸ hlist) (by decide)
  · split
    · exact h.set fun hid => ⟨v.plain, rfl, hv hid⟩
    · next hne => exact h.set fun hid => absurd (by simp [hid]) hne

theorem BareId.headFields (content : Text) (ts : List Token) :
    (Bullet.headFields content ts).BareId := by
  intro v hv
  have hnone : (Bullet.headFields content ts).lookup Key.id = none :=
    Bullet.lookup_headFields_of_ne (by decide) (by decide) content ts
  exact absurd (List.mem_map_of_mem hv) (lookup_eq_none_iff.1 hnone)

/-- A field as it is written that leaves an id without blanks. -/
def IsBareId (w : Text × Written) : Prop :=
  w.1 = Key.id → ∃ raw : Text, w.2 = .inline raw ∧ raw.Bare

theorem BareId.assignAll (h : fs.BareId) {ws : List (Text × Written)} {gs : Fields}
    (hws : ∀ w ∈ ws, IsBareId w) (hgs : fs.assignAll ws = .ok gs) : gs.BareId := by
  refine of_assignAll (fun w hw v hv fs h => h.assign fun hid => ?_) h hgs
  obtain ⟨raw, hraw, hbare⟩ := hws w hw hid
  rw [hraw, hid] at hv
  obtain rfl := Except.ok.inj hv
  exact (hbare.dequote_eq).symm ▸ hbare

end Fields

/-! ### The line of a bullet with a loose end -/

namespace Layout

/-- An id that is written without quotes although there is a blank in it. -/
structure IdLost (id : Text) : Prop where
  safe : ∀ c ∈ id, isUnsafeInId c = false
  blank : ∃ c ∈ id, isBlank c = true

theorem idLost_of_not_idKept {id : Text} (h : ¬ IdKept id) : IdLost id := by
  simp only [IdKept, not_or, not_exists, not_and, not_forall, Bool.not_eq_true,
    Bool.not_eq_false] at h
  obtain ⟨hsafe, c, hc, hblank⟩ := h
  exact ⟨hsafe, c, hc, hblank⟩

variable {o : Layout} {t : Task} {id : Text} {depth : Nat} {kvs : List (Text × Text)}

namespace IdLost

theorem writeId_eq (h : IdLost id) : writeId id = id := by
  obtain ⟨c, hc, -⟩ := h.blank
  have hne : id.isEmpty = false := by
    rw [List.isEmpty_eq_false_iff]
    exact List.ne_nil_of_mem hc
  have hsafe : id.any isUnsafeInId = false := by simpa using h.safe
  simp [writeId, hne, hsafe]

theorem quoteless (h : IdLost id) : id.Quoteless := by
  intro c hc
  have hsafe := h.safe c hc
  simp only [isUnsafeInId, Bool.or_eq_false_iff, decide_eq_false_iff_not] at hsafe
  simp [Quote.ofChar?, hsafe]

theorem ne_space (h : IdLost id) : ∀ c ∈ id, c ≠ ' ' ∧ c ≠ '\t' := by
  intro c hc
  have hsafe := h.safe c hc
  simp only [isUnsafeInId, Bool.or_eq_false_iff, decide_eq_false_iff_not] at hsafe
  exact ⟨hsafe.1.1.1.1.1.1, hsafe.1.1.1.1.1.2⟩

end IdLost

def idWords (o : Layout) (t : Task) (kvs : List (Text × Text)) : List Text :=
  Bullet.words (lead (!isMultiline o.longValue t) t.fields) t.title? kvs ++ [keyWord Key.id]

theorem form_of_mem_idWords (ht : t.Sound)
    (hkvs : ∀ kv ∈ kvs, IsKey kv.1 ∧ kv.1 ≠ Key.id ∧ Scalar.Form kv.2) :
    ∀ w ∈ o.idWords t kvs, Scalar.Form w := by
  intro w hw
  rcases List.mem_append.mp hw with hw | hw
  · exact Bullet.form_of_mem_words (legible_lead ht) (fun f hf => ⟨(hkvs f hf).1, (hkvs f hf).2.2⟩)
      hw
  · rw [List.mem_singleton.mp hw]
    exact .plain (by simp [keyWord]) (mem_keyWord isKey_id)

theorem join_idWords (ht : t.Sound)
    (hkvs : ∀ kv ∈ kvs, IsKey kv.1 ∧ kv.1 ≠ Key.id ∧ Scalar.Form kv.2) :
    Text.join [' '] (o.idWords t kvs) ≠ [] ∧ (Text.join [' '] (o.idWords t kvs)).Trimmed ∧
      ∀ c ∈ Text.join [' '] (o.idWords t kvs), c ≠ '\n' ∧ c ≠ '\t' := by
  have hform := form_of_mem_idWords (o := o) ht hkvs
  refine ⟨Text.join_ne_nil (by simp [idWords]) fun w hw => (hform w hw).ne_nil,
    Text.trimmed_join fun w hw => ⟨(hform w hw).ne_nil, (hform w hw).trimmed⟩, ?_⟩
  intro c hc
  rcases Text.mem_join hc with hc | ⟨w, hw, hc⟩
  · rw [List.mem_singleton.mp hc]
    decide
  · exact ⟨((hform w hw).mem hc).1, ((hform w hw).mem hc).2.2⟩

/-- The bullet ends with what is left of the id. -/
theorem idBullet_of_lost (ht : t.Sound)
    (hkvs : ∀ kv ∈ kvs, IsKey kv.1 ∧ kv.1 ≠ Key.id ∧ Scalar.Form kv.2) (h : IdLost id) :
    o.idBullet depth t kvs id =
      Text.spaces (depth * o.step) ++
        '-' :: (' ' :: Text.join [' '] (o.idWords t kvs) ++ Text.stripEnd (' ' :: id)) := by
  obtain ⟨hne, htrim, -⟩ := join_idWords (o := o) ht hkvs
  have hwords : Bullet.words (lead (!isMultiline o.longValue t) t.fields) t.title?
      (kvs ++ [(Key.id, id)]) = o.idWords t kvs ++ [id] := by
    simp [idWords, Bullet.words, Bullet.bodyWords, fieldWords]
  have hjoin : Text.join [' '] (o.idWords t kvs ++ [id]) =
      Text.join [' '] (o.idWords t kvs) ++ ' ' :: id := by
    rw [Text.join_append (by simp [idWords]) (by simp)]
    simp [Text.join]
  rw [idBullet, bulletLine_eq, join_bulletParts, h.writeId_eq, hwords, hjoin, ← List.cons_append,
    Text.stripEnd_append]
  intro c hc
  rw [List.getLast?_cons_of_ne_nil hne] at hc
  exact htrim.2 c hc

def tornBullet (o : Layout) (depth : Nat) (t : Task) (kvs : List (Text × Text)) (piece : Text) :
    Text :=
  Text.spaces (depth * o.step) ++ '-' :: (' ' :: Text.join [' '] (o.idWords t kvs) ++ piece)

theorem split_idBullet (ht : t.Sound)
    (hkvs : ∀ kv ∈ kvs, IsKey kv.1 ∧ kv.1 ≠ Key.id ∧ Scalar.Form kv.2) (h : IdLost id)
    {piece : Text} {pieces : List Text}
    (hsplit : Text.split '\n' (Text.stripEnd (' ' :: id)) = piece :: pieces) :
    Text.split '\n' (o.idBullet depth t kvs id) = o.tornBullet depth t kvs piece :: pieces := by
  obtain ⟨-, -, hmem⟩ := join_idWords (o := o) ht hkvs
  have hnl : '\n' ∉ Text.spaces (depth * o.step) ++ '-' :: ' ' ::
      Text.join [' '] (o.idWords t kvs) := by
    simp only [List.mem_append, List.mem_cons, Char.reduceEq, false_or, not_or]
    exact ⟨by simp [Text.spaces], fun hm => (hmem _ hm).1 rfl⟩
  have := Text.split_append hnl hsplit
  rw [idBullet_of_lost ht hkvs h, tornBullet]
  simpa using this

/-- The first piece of what is left of the id: nothing, or a space and some text. -/
theorem IdLost.first_piece (h : IdLost id) {piece : Text} {pieces : List Text}
    (hsplit : Text.split '\n' (Text.stripEnd (' ' :: id)) = piece :: pieces) :
    '\n' ∉ piece ∧ '\t' ∉ piece ∧
      (Text.stripEnd piece = [] ∨
        ∃ rest : Text, Text.stripEnd piece = ' ' :: rest ∧ rest.Quoteless) := by
  have hmem : ∀ c ∈ piece, c = ' ' ∨ c ∈ id := fun c hc =>
    List.mem_cons.mp (Text.mem_of_mem_dropEndWhile
      (Text.mem_of_mem_split (hsplit ▸ List.mem_cons_self) hc))
  refine ⟨Text.not_mem_of_mem_split (hsplit ▸ List.mem_cons_self), fun htab => ?_, ?_⟩
  · rcases hmem _ htab with hc | hc
    · cases hc
    · exact (h.ne_space _ hc).2 rfl
  · cases hp : Text.stripEnd piece with
    | nil => exact .inl rfl
    | cons c rest =>
        have hhead : piece.head? = some c :=
          Text.head_dropEndWhile (by rw [← Text.stripEnd, hp]; rfl)
        have hc : c = ' ' := by
          have := Text.head_dropEndWhile (Text.head?_of_split hsplit hhead)
          simpa using this.symm
        refine .inr ⟨rest, by rw [hc], fun d hd => ?_⟩
        have hd' : d ∈ piece := Text.mem_of_mem_dropEndWhile (by
          rw [← Text.stripEnd, hp]
          exact List.mem_cons_of_mem _ hd)
        rcases hmem d hd' with rfl | hd
        · decide
        · exact h.quoteless d hd

theorem bare_keyWord {key : Text} (h : IsKey key) : (keyWord key).Bare := by
  intro c hc
  have hplain := mem_keyWord h c hc
  refine ⟨?_, ofChar?_of_not_unquotable hplain⟩
  simp only [Scalar.isUnquotable, Bool.or_eq_false_iff] at hplain
  exact hplain.1.1.1.1.1

/-- A value among texts without blanks has none. -/
theorem bare_of_mem_pairs {ts : List Token} {bs : List Text} (hbs : ∀ b ∈ bs, b.Bare)
    (hts : ts.map Token.text = keyWord Key.id :: bs) {p : Pair} (hp : p ∈ pairs ts) :
    p.raw.Bare := by
  intro c hc
  obtain ⟨t, ht, hct⟩ := mem_of_mem_raw hp hc
  have hmem : t.text ∈ keyWord Key.id :: bs := hts ▸ List.mem_map.2 ⟨t, ht, rfl⟩
  rcases List.mem_cons.mp hmem with htext | hb
  · exact bare_keyWord isKey_id c (htext ▸ hct)
  · exact hbs _ hb c hct

/-- Words up to the key of the id and then texts without blanks give an id without blanks. -/
theorem isBareId_of_words (ht : t.Sound)
    (hkvs : ∀ kv ∈ kvs, IsKey kv.1 ∧ kv.1 ≠ Key.id ∧ Scalar.Form kv.2) {content : Text}
    {bs : List Text} (hbs : ∀ b ∈ bs, b.Bare)
    (hts : (tokens content).map Token.text = o.idWords t kvs ++ bs) :
    ∀ w ∈ Bullet.written (tokens content), Fields.IsBareId w := by
  obtain ⟨key, ws, hkey, hws⟩ : ∃ key ws, IsKey key ∧
      fieldWords kvs ++ keyWord Key.id :: bs = keyWord key :: ws := by
    cases kvs with
    | nil => exact ⟨_, _, isKey_id, rfl⟩
    | cons kv kvs => exact ⟨kv.1, _, (hkvs kv (by simp)).1, rfl⟩
  have hts' : (tokens content).map Token.text =
      (lead (!isMultiline o.longValue t) t.fields).map Shorthand.word ++
        (t.title?.toList.map enquote ++ keyWord key :: ws) := by
    rw [hts, ← hws]
    simp [idWords, Bullet.words, Bullet.bodyWords]
  obtain ⟨-, us, hus, hwritten⟩ := Bullet.read_lead content (legible_lead ht) hkey hts'
  obtain ⟨vs, hvs, hpairs⟩ := pairs_fieldWords (fun kv hkv => (hkvs kv hkv).1) (hus.trans hws.symm)
  intro w hw hid
  rw [hwritten] at hw
  obtain ⟨p, hp, rfl⟩ := List.mem_map.mp hw
  refine ⟨p.raw, rfl, ?_⟩
  have hmem : (p.key, p.raw) ∈ kvs ++ (pairs vs).map fun p => (p.key, p.raw) := by
    rw [← hpairs]
    exact List.mem_map.2 ⟨p, hp, rfl⟩
  rcases List.mem_append.mp hmem with hmem | hmem
  · exact absurd hid (hkvs _ hmem).2.1
  · obtain ⟨q, hq, heq⟩ := List.mem_map.mp hmem
    rw [← (Prod.mk.inj heq).2]
    exact bare_of_mem_pairs hbs hvs hq

/-- What is left of the bullet of a lost id is a bullet that gives an id without blanks. -/
theorem ofText_tornBullet (o : Layout) (depth : Nat) (ht : t.Sound)
    (hkvs : ∀ kv ∈ kvs, IsKey kv.1 ∧ kv.1 ≠ Key.id ∧ Scalar.Form kv.2) (h : IdLost id)
    {piece : Text} {pieces : List Text}
    (hsplit : Text.split '\n' (Text.stripEnd (' ' :: id)) = piece :: pieces) (index : Nat) :
    let l := Line.ofText o.step index (o.tornBullet depth t kvs piece)
    ∃ content, l.indent = depth * o.step ∧ l.bullet? = some content ∧ l.isBlank = false ∧
      ∀ w ∈ Bullet.written (tokens content), Fields.IsBareId w := by
  intro l
  obtain ⟨hne, htrim, hmem⟩ := join_idWords (o := o) ht hkvs
  obtain ⟨hnl, htab, hpiece⟩ := h.first_piece hsplit
  have hlast : ∀ c, (' ' :: Text.join [' '] (o.idWords t kvs)).getLast? = some c →
      isBlank c = false := by
    intro c hc
    rw [List.getLast?_cons_of_ne_nil hne] at hc
    exact htrim.2 c hc
  have htabs : '\t' ∉ ' ' :: Text.join [' '] (o.idWords t kvs) ++ piece := by
    simp only [List.cons_append, List.mem_cons, Char.reduceEq, false_or, List.mem_append, not_or]
    exact ⟨fun hm => (hmem _ hm).2 rfl, htab⟩
  obtain ⟨hindent, htext⟩ := Line.ofText_mark o.step index (depth * o.step) (c := '-') (by decide)
    (' ' :: Text.join [' '] (o.idWords t kvs) ++ piece)
  rw [Line.expandTabs_of_no_tab htabs, Text.stripEnd_append hlast] at htext
  have hcontent : l.text =
      '-' :: ' ' :: (Text.join [' '] (o.idWords t kvs) ++ Text.stripEnd piece) := htext
  have hbullet : l.bullet? = some (Text.join [' '] (o.idWords t kvs) ++ Text.stripEnd piece) := by
    apply Line.bullet?_content hcontent
    · intro c hc
      rw [List.head?_append_of_ne_nil _ hne] at hc
      exact htrim.1 c hc
    · rw [List.mem_append, not_or]
      exact ⟨fun hm => (hmem _ hm).1 rfl, fun hm => hnl (Text.mem_of_mem_dropEndWhile hm)⟩
  refine ⟨_, hindent, hbullet, by rw [Line.isBlank, hcontent]; rfl, ?_⟩
  have hwords : ∀ w ∈ o.idWords t kvs, IsWord w := fun w hw =>
    (form_of_mem_idWords ht hkvs w hw).isWord
  rcases hpiece with hnil | ⟨rest, hrest, hquoteless⟩
  · have hnone : ∀ b ∈ ([] : List Text), b.Bare := by simp
    refine isBareId_of_words (o := o) ht hkvs hnone ?_
    rw [hnil, List.append_nil, List.append_nil, tokens_join hwords, map_text_wordTokens]
  · obtain ⟨bs, hts, hbs⟩ := tokens_join_append hwords (by simp [idWords]) hquoteless
    rw [← hrest] at hts
    exact isBareId_of_words ht hkvs hbs hts

/-! ### The lines below a torn bullet -/

theorem indent_ofText_eq_zero (size index : Nat) {p : Text} (htab : '\t' ∉ p) (hspace : ' ' ∉ p) :
    (Line.ofText size index p).indent = 0 := by
  have hexp : Line.expandTabs size p = p := Line.expandTabs_of_no_tab htab
  unfold Line.expandTabs at hexp
  set raw := Text.dropEndWhile (· = '\r') p with hraw
  have hbody : raw.dropWhile (· = ' ') = raw := by
    cases hr : raw with
    | nil => rfl
    | cons c cs =>
        apply List.dropWhile_cons_of_neg
        simp only [decide_eq_true_eq]
        rintro rfl
        exact hspace (Text.mem_of_mem_dropEndWhile (by rw [← hraw, hr]; simp))
  simp only [Line.ofText, hexp, ← hraw, hbody, Nat.sub_self]

/-- Of texts at the margin that are not all blank, the first one that is not blank stands at the
margin, even if the lines are cut off somewhere. -/
theorem indent_of_pieces {size index : Nat} {p : Text → Bool} {pieces : List Text}
    (rest : List Text) (hmem : ∀ q ∈ pieces, '\t' ∉ q ∧ ' ' ∉ q)
    (hsome : ∃ q ∈ pieces, ∃ c ∈ q, isBlank c = false) {l : Line}
    (hl : (Line.ofTexts size index ((pieces ++ rest).takeWhile p)).find? (!·.isBlank) = some l) :
    l.indent = 0 := by
  induction pieces generalizing index with
  | nil =>
      obtain ⟨q, hq, -⟩ := hsome
      cases hq
  | cons q pieces ih =>
      obtain ⟨hq, hpieces⟩ := List.forall_mem_cons.1 hmem
      have hindent := indent_ofText_eq_zero size index hq.1 hq.2
      by_cases hp : p q = true
      · rw [List.cons_append, List.takeWhile_cons_of_pos hp, Line.ofTexts, List.find?_cons] at hl
        split at hl
        · rw [← Option.some.inj hl]
          exact hindent
        · next hb =>
            refine ih hpieces ?_ hl
            obtain ⟨q', hq', c, hc, hnot⟩ := hsome
            rcases List.mem_cons.mp hq' with rfl | hq'
            · rw [(Line.isBlank_ofText size index q').1 (by simpa using hb) c hc] at hnot
              cases hnot
            · exact ⟨q', hq', c, hc, hnot⟩
      · rw [List.cons_append, List.takeWhile_cons_of_neg hp] at hl
        cases hl

namespace IdLost

variable {piece : Text} {pieces : List Text}

theorem mem_of_mem_pieces (hsplit : Text.split '\n' (Text.stripEnd (' ' :: id)) = piece :: pieces) :
    ∀ q ∈ pieces, ∀ c ∈ q, c ∈ id := by
  by_cases hnil : Text.stripEnd id = []
  · have hall : ∀ c ∈ ' ' :: id, isBlank c = true := by
      intro c hc
      rcases List.mem_cons.mp hc with rfl | hc
      · decide
      · exact Text.stripEnd_eq_nil.1 hnil c hc
    rw [Text.stripEnd_eq_nil.2 hall] at hsplit
    obtain ⟨-, rfl⟩ := List.cons.inj hsplit
    simp
  · have hstrip : Text.stripEnd (' ' :: id) = [' '] ++ Text.stripEnd id :=
      Text.dropEndWhile_append [' '] hnil
    obtain ⟨q, qs, hqs⟩ := List.exists_cons_of_ne_nil (Text.split_ne_nil '\n' (Text.stripEnd id))
    rw [hstrip, Text.split_append (by decide) hqs] at hsplit
    obtain ⟨-, rfl⟩ := List.cons.inj hsplit
    intro r hr c hc
    exact Text.mem_of_mem_dropEndWhile
      (Text.mem_of_mem_split (hqs ▸ List.mem_cons_of_mem _ hr) hc)

theorem exists_not_blank (hsplit : Text.split '\n' (Text.stripEnd (' ' :: id)) = piece :: pieces)
    (hne : pieces ≠ []) : ∃ q ∈ pieces, ∃ c ∈ q, isBlank c = false := by
  obtain ⟨q, qs, rfl⟩ := List.exists_cons_of_ne_nil hne
  have hjoin : Text.stripEnd (' ' :: id) = piece ++ '\n' :: Text.join ['\n'] (q :: qs) := by
    rw [← Text.join_split '\n' (Text.stripEnd (' ' :: id)), hsplit, Text.join_cons_cons]
    simp
  obtain ⟨c, hc⟩ : ∃ c, (Text.stripEnd (' ' :: id)).getLast? = some c := by
    rw [hjoin, List.getLast?_append_cons, List.getLast?_cons]
    exact ⟨_, rfl⟩
  have hblank : isBlank c = false := Text.getLast_dropEndWhile hc
  rw [hjoin, List.getLast?_append_cons] at hc
  rcases List.mem_cons.mp (List.mem_of_getLast? hc) with rfl | hm
  · cases hblank
  · rcases Text.mem_join hm with hm | ⟨r, hr, hm⟩
    · rw [List.mem_singleton.mp hm] at hblank
      cases hblank
    · exact ⟨r, hr, c, hm, hblank⟩

end IdLost

end Layout

end Agenda
