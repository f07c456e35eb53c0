import Agenda.Proofs.RoundTrip

/-!
Writing a forest that was read from written lines. Two things of a task do not come back: the order
of its fields, in which shorthand and title now stand first, and that it was not written on one
line, if no line stands below its bullet. Neither shows in the lines. Shorthand, title and id have
their own places, the other fields keep their order, and without lines below the bullet both forms
are the same line. So the lines are the same when they are written again.
-/

namespace Agenda

namespace Layout

variable {o : Layout} {t u : Task}

/-! ### The parts of a task's lines -/

theorem shorthand_of_get {fs gs : Fields} (h : ∀ key, gs.get key = fs.get key)
    (withNames : Bool) : shorthand withNames gs = shorthand withNames fs := by
  simp only [shorthand, h]

theorem titleField_of_get (h : ∀ key, u.fields.get key = t.fields.get key) :
    titleField u = titleField t := by
  simp only [titleField, Task.title?, h]

theorem idField_of_get (h : ∀ key, u.fields.get key = t.fields.get key) :
    idField u = idField t := by
  simp only [idField, Task.id?, h]

/-- Where names do not stand on the bullet, more fields are written by themselves. -/
theorem otherFields_sublist (fs : Fields) :
    (otherFields true fs).Sublist (otherFields false fs) := by
  refine List.monotone_filter_right _ fun f hf => ?_
  simp only [isShorthand, Bool.not_eq_true', Bool.or_eq_false_iff, Bool.true_and,
    Bool.false_and] at hf ⊢
  exact ⟨hf.1, hf.2.1, trivial⟩

/-- A list of names is written by itself, unless it stands on the bullet. -/
theorem markedNames_of_no_others {fs : Fields} (h : otherFields false fs = []) {key : Text}
    (hlist : Key.isList key = true) (marker : Char) : markedNames marker (fs.get key) = [] := by
  cases hget : fs.get key with
  | names xs =>
      have hne : key ≠ Key.title ∧ key ≠ Key.id := by
        rcases isList_cases hlist with rfl | rfl <;> decide
      have hm : (key, .names xs) ∈ otherFields false fs := by
        apply mem_otherFields.2
        refine ⟨Fields.mem_of_get hget (by simp), hne.1, hne.2, ?_⟩
        rw [isShorthand_list hlist]
        rfl
      rw [h] at hm
      cases hm
  | _ => rfl

/-- A task without lines of its own below its bullet is one line, in either form. -/
theorem taskLines_of_no_others (h : otherFields false t.fields = []) (depth : Nat) :
    o.taskLines depth t = .ok [bulletLine (Text.spaces (depth * o.step))
      (shorthand false t.fields ++ titleField t ++ idField t)] := by
  have htrue : otherFields true t.fields = [] :=
    List.sublist_nil.1 (h ▸ otherFields_sublist t.fields)
  have hstakeholders := markedNames_of_no_others h (by decide : Key.isList Key.stakeholders = true)
  have htags := markedNames_of_no_others h (by decide : Key.isList Key.tags = true)
  have hnames : shorthand true t.fields = shorthand false t.fields := by
    simp only [shorthand, hstakeholders, htags, List.append_nil, if_true, Bool.false_eq_true,
      if_false]
  unfold taskLines
  split
  · rw [h]
    rfl
  · rw [htrue, hnames]
    simp only [List.mapM_nil, pure, Except.pure, Except.map, List.append_nil]

/-- Among the fields as they are written, those that are written by themselves keep their order. -/
theorem otherFields_writtenFields (ht : t.WellFormed) :
    otherFields (!isMultiline o.longValue t) (o.writtenFields t) =
      otherFields (!isMultiline o.longValue t) t.fields := by
  set withNames := !isMultiline o.longValue t
  have hlead : otherFields withNames (leadFields withNames t.fields) = [] := by
    refine List.eq_nil_iff_forall_not_mem.2 fun f hf => ?_
    obtain ⟨hm, -, -, hs⟩ := mem_otherFields.1 hf
    rw [((mem_leadFields ht.nodup).1 hm).2.1] at hs
    cases hs
  have htitle : otherFields withNames (titleFields t) = [] := by
    refine List.eq_nil_iff_forall_not_mem.2 fun f hf => ?_
    obtain ⟨hm, hne, -⟩ := mem_otherFields.1 hf
    exact hne ((mem_titleFields ht).1 hm).2
  have hid : otherFields withNames [(Key.id, t.fields.get Key.id)] = [] := rfl
  have hothers : otherFields withNames (otherFields withNames t.fields) =
      otherFields withNames t.fields := by
    unfold otherFields
    rw [List.filter_filter]
    simp
  have happend : ∀ fs gs : Fields, otherFields withNames (fs ++ gs) =
      otherFields withNames fs ++ otherFields withNames gs := fun _ _ => List.filter_append _ _
  rw [writtenFields, happend, happend, hlead, htitle]
  split
  · rw [← List.singleton_append, happend, hid, hothers]
    rfl
  · rw [happend, hid, hothers, List.append_nil, List.append_nil, List.nil_append]

/-! ### Writing again -/

/-- A task with the fields that were written, in their order, and on one line if it has come back
so, is written as before. -/
theorem taskLines_writtenFields (ht : t.WellFormed)
    (hnames : isMultiline o.longValue t = true ∨ ∀ f ∈ t.fields, f.2 ≠ .names [])
    (hfields : u.fields = o.writtenFields t) (hinline : u.inline = o.isRereadInline t)
    (depth : Nat) : o.taskLines depth u = o.taskLines depth t := by
  have hperm : t.fields.Perm u.fields := hfields ▸ perm_writtenFields ht hnames
  have hget := Fields.get_of_perm hperm ht.nodup
  by_cases hnone : otherFields false t.fields = []
  · -- The form that `u` is written in may be another one, but it makes no difference.
    have hnone' : otherFields false u.fields = [] := by
      have hother : (otherFields false t.fields).Perm (otherFields false u.fields) :=
        hperm.filter _
      rw [hnone] at hother
      exact hother.symm.eq_nil
    rw [taskLines_of_no_others hnone, taskLines_of_no_others hnone', shorthand_of_get hget,
      titleField_of_get hget, idField_of_get hget]
  · have hform : isMultiline o.longValue u = isMultiline o.longValue t := by
      have hlong : ∀ p, u.fields.any p = t.fields.any p := fun _ => hperm.symm.any_eq
      have hsome : (otherFields false t.fields).isEmpty = false := by simpa using hnone
      rw [isMultiline, hinline, isRereadInline, hsome, hlong, Bool.or_false, Bool.not_not]
      unfold isMultiline
      cases t.inline <;> simp
    have hothers := otherFields_writtenFields (o := o) ht
    rw [← hfields] at hothers
    unfold taskLines
    rw [hform]
    cases hm : isMultiline o.longValue t with
    | true =>
        rw [hm] at hothers
        simp only [if_true, shorthand_of_get hget, titleField_of_get hget, idField_of_get hget]
        rw [show otherFields false u.fields = otherFields false t.fields from hothers]
    | false =>
        rw [hm] at hothers
        simp only [Bool.false_eq_true, if_false, shorthand_of_get hget, titleField_of_get hget,
          idField_of_get hget]
        rw [show otherFields true u.fields = otherFields true t.fields from hothers]

/-- Forests of one shape whose tasks are written alike are written alike. -/
theorem forestLines_of_rel {R : Task → Task → Prop}
    (hR : ∀ t u, R t u → ∀ depth, o.taskLines depth u = o.taskLines depth t) {f g : Forest Task}
    (h : Forest.Rel R f g) (depth : Nat) : o.forestLines depth g = o.forestLines depth f := by
  induction h generalizing depth with
  | nil => rfl
  | cons root _ _ ihc ihr => rw [forestLines, forestLines, hR _ _ root, ihc, ihr]

end Layout

/-! ### Writable forests -/

/-- A writable value comes back as it is, and not only as an equal one. -/
theorem Value.Writable.reread_eq {o : Layout} {multiline : Bool} {key : Text} {v : Value}
    (h : v.Writable o.longValue key) (hid : key ≠ Key.id) (htitle : key ≠ Key.title) :
    o.reread multiline v = v := by
  cases v with
  | null => rfl
  | flag b => rfl
  | text s =>
      rw [Layout.reread]
      split
      · next hb => rw [(h.blockSafe hid htitle (Bool.and_eq_true_iff.1 hb).2).blockReading_eq]
      · rfl
  | number n =>
      cases n with
      | float x => exact h.elim
      | int n =>
          have hread : Number.read? (Number.int n).text = .ok (some (.int n)) :=
            Number.read?_ofInt h.2.2
          rw [Layout.reread, Scalar.read_numberText, hread]
          rfl
  | names xs => rw [Layout.reread, (addNames_namesIn_join h.2.2.1).2 h.2.2.2]

namespace Task.Writable

variable {o : Layout} {t : Task}

theorem rereadFields_eq (h : t.Writable o.longValue) :
    o.rereadFields t = o.writtenFields t := by
  have hothers : (Layout.otherFields (!Layout.isMultiline o.longValue t) t.fields).map (fun f =>
      (f.1, o.reread (Layout.isMultiline o.longValue t) f.2)) =
        Layout.otherFields (!Layout.isMultiline o.longValue t) t.fields := by
    conv_rhs => rw [← List.map_id (Layout.otherFields _ t.fields)]
    apply List.map_congr_left
    intro f hf
    obtain ⟨hm, htitle, hid, -⟩ := Layout.mem_otherFields.1 hf
    rw [(h.values f hm).reread_eq hid htitle]
    rfl
  simp only [Layout.rereadFields, Layout.writtenFields, hothers]

theorem names_ne_nil (h : t.Writable o.longValue) : ∀ f ∈ t.fields, f.2 ≠ .names [] := by
  intro f hf hnil
  have hvalue := h.values f hf
  rw [hnil] at hvalue
  exact hvalue.2.1 rfl

end Task.Writable

/-- Writing is stable: the lines of a writable forest are those of the forest that is read from
them, whatever the step, the length of long values and the length of computed ids are. -/
theorem Layout.lines_stable (o : Layout) (hstep : 0 < o.step) (hwrap : o.wrapWidth = none)
    (idLength : Nat) (f : Forest Task) (hf : ∀ t ∈ f.toList, t.Writable o.longValue) :
    ∃ ls f', o.lines f = .ok ls ∧ Document.readTasks o.step idLength none ls = .ok f' ∧
      o.lines f' = .ok ls := by
  obtain ⟨⟨ls, hls⟩, -⟩ := (forest_survives_iff fun t ht => (hf t ht).wellFormed).2
    fun t ht => (hf t ht).survives
  obtain ⟨f', hf', hrel⟩ := readTasks_forestLines hstep hwrap
    (fun t ht => ⟨(hf t ht).wellFormed, (hf t ht).keepsId⟩) hls idLength
  refine ⟨ls, f', hls, hf', ?_⟩
  rw [← hls]
  refine forestLines_of_rel (R := fun t u => t.Writable o.longValue ∧
    u.fields = o.rereadFields t ∧ u.inline = o.isRereadInline t) ?_ (hrel.and_left hf) 0
  rintro t u ⟨ht, hfields, hinline⟩
  exact taskLines_writtenFields ht.wellFormed (.inr ht.names_ne_nil)
    (hfields.trans ht.rereadFields_eq) hinline

/-- A task that was on more than one line, though no field of it needs that, and one below it whose
title and shorthand come after a block and names. -/
theorem Layout.lines_stable_reordered :
    let parent : Task :=
      { fields := [(Key.id, .text "a b"), (Key.title, .text "t"), (Key.completed, .flag false)],
        inline := false }
    let child : Task :=
      { fields := [("note", .text "one\n\n  two"), (Key.tags, .names ["x y", "z"]),
          (Key.skipped, .flag false), (Key.title, .text "u"), ("cost", .number (.int (-7))),
          (Key.priority, .text "A"), (Key.id, .text "c")] }
    let f : Forest Task := .cons parent (.cons child .nil .nil) .nil
    (∀ t ∈ f.toList, t.Writable 25) ∧
      ∃ ls f', ({} : Layout).lines f = .ok ls ∧ Document.readTasks 2 8 none ls = .ok f' ∧
        ({} : Layout).lines f' = .ok ls := by
  intro parent child f
  have hparent : parent.Writable 25 :=
    ⟨by decide, by decide, by decide, "a b", by decide, by decide, by decide⟩
  have hchild : child.Writable 25 :=
    ⟨by decide, by decide, by decide, "c", by decide, by decide, by decide⟩
  have hf : ∀ t ∈ f.toList, t.Writable 25 := by
    intro t ht
    rcases List.mem_cons.mp ht with rfl | ht
    · exact hparent
    · rw [List.mem_singleton.mp ht]
      exact hchild
  exact ⟨hf, lines_stable {} (by decide) rfl 8 f hf⟩

end Agenda
