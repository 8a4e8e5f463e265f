import TemplateLint.Proofs.Fixing.Handler

namespace TemplateLint

namespace Concrete

variable (f : Fixers)

mutual

theorem Expr.settled_onlyConditions : ∀ e : Expr, e.settled f.onlyConditions = e.settled f
  | .word _ => rfl
  | .quoted _ _ => rfl
  | .group call => by
    rw [Expr.settled, Call.settledParts_onlyConditions call]
    rfl

theorem Call.settledParts_onlyConditions :
    ∀ c : Call, c.settledParts f.onlyConditions = c.settledParts f
  | ⟨lead, callee, args, trail⟩ => by
    rw [Call.settledParts, Expr.settled_onlyConditions callee, Arg.settledAll_onlyConditions args]
    rfl

theorem Arg.settledAll_onlyConditions :
    ∀ as : List Arg, Arg.settledAll f.onlyConditions as = Arg.settledAll f as
  | [] => rfl
  | ⟨lead, key, value⟩ :: args => by
    rw [Arg.settledAll, Expr.settled_onlyConditions value, Arg.settledAll_onlyConditions args]
    rfl

end

mutual

theorem Expr.depth_onlyConditions : ∀ e : Expr, e.depth f.onlyConditions = e.depth f
  | .word _ => rfl
  | .quoted _ _ => rfl
  | .group call => by
    rw [Expr.depth, Call.depth_onlyConditions call]
    rfl

theorem Call.depth_onlyConditions : ∀ c : Call, c.depth f.onlyConditions = c.depth f
  | ⟨lead, callee, args, trail⟩ => by
    rw [Call.depth, Expr.depth_onlyConditions callee, Arg.depthAll_onlyConditions args]
    rfl

theorem Arg.depthAll_onlyConditions :
    ∀ as : List Arg, Arg.depthAll f.onlyConditions as = Arg.depthAll f as
  | [] => rfl
  | ⟨lead, key, value⟩ :: args => by
    rw [Arg.depthAll, Expr.depth_onlyConditions value, Arg.depthAll_onlyConditions args]
    rfl

end

mutual

theorem Expr.depth_onlyArguments : ∀ e : Expr, e.depth f.onlyArguments = 0
  | .word _ => rfl
  | .quoted _ _ => rfl
  | .group call => by
    rw [Expr.depth, Call.depth_onlyArguments call]
    rfl

theorem Call.depth_onlyArguments : ∀ c : Call, c.depth f.onlyArguments = 0
  | ⟨lead, callee, args, trail⟩ => by
    rw [Call.depth, Expr.depth_onlyArguments callee, Arg.depthAll_onlyArguments args]
    rfl

theorem Arg.depthAll_onlyArguments : ∀ as : List Arg, Arg.depthAll f.onlyArguments as = 0
  | [] => rfl
  | ⟨lead, key, value⟩ :: args => by
    rw [Arg.depthAll, Expr.depth_onlyArguments value, Arg.depthAll_onlyArguments args]
    rfl

end

theorem Mustache.settled_onlyConditions (m : Mustache) :
    m.settled f.onlyConditions = m.settled f :=
  congrArg (fun c => m.withCall (f.unnegated c)) (Call.settledParts_onlyConditions f m.call)

theorem AttrValue.settled_onlyConditions (v : AttrValue) :
    v.settled f.onlyConditions = v.settled f := by
  cases v with
  | quoted mark parts =>
    refine congrArg (AttrValue.quoted mark) (List.map_congr_left fun p _ => ?_)
    cases p with
    | text cs => rfl
    | mustache m => exact congrArg Part.mustache (m.settled_onlyConditions f)
  | mustache m => exact congrArg AttrValue.mustache (m.settled_onlyConditions f)
  | bare cs => rfl

theorem Attribute.settledValue_onlyConditions (a : Attribute) :
    a.settledValue f.onlyConditions = a.settledValue f := by
  obtain ⟨name, assigned⟩ := a
  cases assigned with
  | none => rfl
  | some v =>
    simp only [Attribute.settledValue, Option.map_some, Assigned.settled,
      AttrValue.settled_onlyConditions]

theorem Mustache.depth_onlyConditions (m : Mustache) :
    m.depth f.onlyConditions = m.depth f :=
  congrArg (level (f.unnegated? m.call) + ·) (Call.depth_onlyConditions f m.call)

theorem Part.depthAll_onlyConditions (ps : List Part) :
    Part.depthAll f.onlyConditions ps = Part.depthAll f ps := by
  induction ps with
  | nil => rfl
  | cons p ps ih =>
    cases p with
    | text cs => exact ih
    | mustache m => rw [Part.depthAll, ih, Mustache.depth_onlyConditions, Part.depthAll]

theorem Attribute.depth_onlyConditions (a : Attribute) :
    a.depth f.onlyConditions = a.depth f := by
  obtain ⟨name, assigned⟩ := a
  cases assigned with
  | none => rfl
  | some v =>
    show v.value.depth f.onlyConditions = v.value.depth f
    cases v.value with
    | quoted mark parts => exact Part.depthAll_onlyConditions f parts
    | mustache m => exact m.depth_onlyConditions f
    | bare cs => rfl

theorem Mustache.depth_onlyArguments (m : Mustache) : m.depth f.onlyArguments = 0 :=
  (Nat.zero_add _).trans (Call.depth_onlyArguments f m.call)

theorem Attribute.depth_onlyArguments (a : Attribute) : a.depth f.onlyArguments = 0 := by
  have hparts : ∀ ps : List Part, Part.depthAll f.onlyArguments ps = 0 := by
    intro ps
    induction ps with
    | nil => rfl
    | cons p ps ih =>
      cases p with
      | text cs => exact ih
      | mustache m => rw [Part.depthAll, ih, Mustache.depth_onlyArguments, Nat.max_self]
  obtain ⟨name, assigned⟩ := a
  cases assigned with
  | none => rfl
  | some v =>
    show v.value.depth f.onlyArguments = 0
    cases v.value with
    | quoted mark parts => exact hparts parts
    | mustache m => exact m.depth_onlyArguments f
    | bare cs => rfl

theorem Mustache.settledParts_onlyConditions (m : Mustache) :
    m.settledParts f.onlyConditions = m.settledParts f :=
  congrArg m.withCall (Call.settledParts_onlyConditions f m.call)

theorem Mustache.settledParts_onlyArguments (m : Mustache) : m.settledParts f.onlyArguments = m :=
  Mustache.settledParts_of_depth (Call.depth_onlyArguments f m.call)

theorem Attribute.settledValue_onlyArguments (a : Attribute) :
    a.settledValue f.onlyArguments = a :=
  Attribute.settledValue_of_depth (a.depth_onlyArguments f)

/-- With the rule for arguments first, the other one has the fixes inside of what these became. -/
theorem Item.settled_conditions_arguments (t t' : OpeningTag) (i : Item) :
    (i.settled f.onlyArguments t).settled f.onlyConditions t' = i.settled f t := by
  match i with
  | .attribute a =>
    have hchange : f.onlyArguments.change? t a = f.change? t a := rfl
    have hnone : ∀ b, f.onlyConditions.change? t' b = none := fun _ => rfl
    rw [Item.settled, Item.settled, hchange, Attribute.settledValue_onlyArguments]
    cases f.change? t a with
    | none => simp only [Item.settled, hnone, Attribute.settledValue_onlyConditions]
    | some c =>
      cases c with
      | name new =>
        simp only [Item.settled, hnone]
        exact congrArg (fun b => Item.attribute (b.named new)) (a.settledValue_onlyConditions f)
      | whole text =>
        dsimp only
        split
        · next m _ =>
          rw [Mustache.settledParts_onlyArguments]
          exact congrArg Item.modifier (m.settledParts_onlyConditions f)
        · simp only [Item.settled, hnone, Attribute.settledValue_onlyConditions]
  | .modifier m =>
    simp only [Item.settled, Mustache.settledParts_onlyArguments,
      Mustache.settledParts_onlyConditions]
  | .note n => rfl
  | .params p => rfl

theorem OpeningTag.settled_conditions_arguments (t : OpeningTag) :
    (t.settled f.onlyArguments).settled f.onlyConditions = t.settled f := by
  have hitems : (t.items.map (Spaced.settled f.onlyArguments t)).map
      (Spaced.settled f.onlyConditions (t.settled f.onlyArguments)) =
        t.items.map (Spaced.settled f t) := by
    rw [List.map_map]
    refine List.map_congr_left fun s _ => ?_
    exact congrArg (Spaced.mk s.lead) (s.item.settled_conditions_arguments f t _)
  exact congrArg (OpeningTag.mk t.name · t.trail t.selfClosing) hitems

variable {f}

theorem Spaced.depthAll_le {t : OpeningTag} {ss : List Spaced} {n : Nat} :
    Spaced.depthAll f t ss ≤ n ↔ ∀ s ∈ ss, s.item.depth f t ≤ n := by
  induction ss with
  | nil => simp [Spaced.depthAll]
  | cons s ss ih => rw [Spaced.depthAll, Nat.max_le, ih, List.forall_mem_cons]

theorem OpeningTag.depth_le {t : OpeningTag} {n : Nat} :
    t.depth f ≤ n ↔ ∀ s ∈ t.items, s.item.depth f t ≤ n := Spaced.depthAll_le

theorem Item.depth_le_of_mem {t : OpeningTag} {s : Spaced} (h : s ∈ t.items) :
    s.item.depth f t ≤ t.depth f := OpeningTag.depth_le.1 (Nat.le_refl _) s h

/-- Changed arguments have no changed ones in them. -/
theorem Item.depth_onlyArguments (t : OpeningTag) (i : Item) :
    i.depth f.onlyArguments t ≤ 1 := by
  match i with
  | .attribute a =>
    have ha := a.depth_onlyArguments f
    rw [Item.depth]
    split
    · omega
    · omega
    · split
      · next m _ => exact Nat.le_of_eq (congrArg (1 + ·) (Call.depth_onlyArguments f m.call))
      · exact Nat.le_refl _
  | .modifier m =>
    rw [Item.depth, Call.depth_onlyArguments]
    exact Nat.zero_le _
  | .note n => exact Nat.zero_le _
  | .params p => exact Nat.zero_le _

/-- After the rule for arguments the other one has no more levels than there were for both. -/
theorem Item.depth_conditions_arguments {t : OpeningTag} {i : Item} (h : i.reads f t = true)
    (t' : OpeningTag) : (i.settled f.onlyArguments t).depth f.onlyConditions t' ≤ i.depth f t := by
  match i with
  | .attribute a =>
    have hchange : f.onlyArguments.change? t a = f.change? t a := rfl
    have hnone : ∀ b, f.onlyConditions.change? t' b = none := fun _ => rfl
    have ha := a.depth_onlyConditions f
    rw [Item.settled, hchange, Item.depth.eq_1 f, Attribute.settledValue_onlyArguments]
    cases hc : f.change? t a with
    | none =>
      simp only [Item.depth, hnone]
      omega
    | some c =>
      cases c with
      | name new =>
        simp only [Item.depth, hnone]
        exact Nat.le_trans (Nat.le_of_eq ha) (Nat.le_max_right _ _)
      | whole text =>
        obtain ⟨i, hi⟩ := Option.isSome_iff_exists.1 (Item.reads_attribute h hc)
        obtain ⟨m, rfl, -, -⟩ := eq_of_modifier? hi
        simp only [hi, Mustache.settledParts_onlyArguments, Item.depth, Call.depth_onlyConditions]
        omega
  | .modifier m =>
    simp only [Item.settled, Mustache.settledParts_onlyArguments, Item.depth,
      Call.depth_onlyConditions, Nat.le_refl]
  | .note n => exact Nat.zero_le _
  | .params p => exact Nat.zero_le _

theorem OpeningTag.depth_conditions_arguments {t : OpeningTag} (h : t.reads f = true) :
    (t.settled f.onlyArguments).depth f.onlyConditions ≤ t.depth f := by
  refine OpeningTag.depth_le.2 fun s hs => ?_
  obtain ⟨s', hs', rfl⟩ := List.mem_map.1 hs
  exact Nat.le_trans (Item.depth_conditions_arguments (List.all_eq_true.1 h s' hs') _)
    (Item.depth_le_of_mem hs')

theorem hasName_settled (t : OpeningTag) (name : String) :
    ((t.settled f.onlyConditions).items.any fun s => s.item.hasName name) =
      t.items.any fun s => s.item.hasName name := by
  show (t.items.map (Spaced.settled f.onlyConditions t)).any _ = _
  rw [List.any_map]
  congr 1
  funext s
  obtain ⟨lead, item⟩ := s
  cases item <;> rfl

/-- With the rule for conditions first, the other one finds the same arguments to change, and what
it makes of them has the same fixes inside of it. -/
theorem Item.Stands.settled_arguments_conditions {t : OpeningTag} {i : Item} {rest : List Char}
    (h : i.Stands rest) (hk : ∀ v, i.eventValue? t = some v → v.Carried f) :
    (i.settled f.onlyConditions t).settled f.onlyArguments (t.settled f.onlyConditions) =
        i.settled f t ∧
      (i.settled f.onlyConditions t).reads f.onlyArguments (t.settled f.onlyConditions) = true ∧
      i.depth f.onlyConditions t ≤ i.depth f t := by
  match i, h with
  | .attribute a, ha =>
    have hnone : f.onlyConditions.change? t a = none := rfl
    have hdepth := a.depth_onlyConditions f
    have hsettles : Change.Settles f (a.depth f) (f.change? t a)
        (f.onlyArguments.change? (t.settled f.onlyConditions) (a.settledValue f)) := by
      unfold Fixers.change?
      rw [show f.onlyArguments.arguments = f.arguments from rfl]
      cases hf : f.arguments with
      | false => exact .none
      | true => exact change?_settles ha rfl (hasName_settled t) hk
    have hitem : (Item.attribute a).settled f.onlyConditions t = .attribute (a.settledValue f) :=
      congrArg Item.attribute (a.settledValue_onlyConditions f)
    rw [hitem]
    generalize hc : f.change? t a = c at hsettles
    generalize hc' : f.onlyArguments.change? (t.settled f.onlyConditions) (a.settledValue f) = c'
      at hsettles
    cases hsettles with
    | none =>
      refine ⟨?_, by simp [Item.reads, hc'], ?_⟩
      · simp only [Item.settled, hc', hc, Attribute.settledValue_onlyArguments]
      · simp only [Item.depth, hnone, hc]
        omega
    | name new =>
      refine ⟨?_, by simp [Item.reads, hc', Change.reads], ?_⟩
      · simp only [Item.settled, hc', hc, Attribute.settledValue_onlyArguments]
      · simp only [Item.depth, hnone, hc]
        omega
    | @whole event handler hevent hh hd =>
      have hbefore := modifier?_eventText hevent hh
      have hafter := modifier?_eventText hevent (hh.settled (f := f))
      refine ⟨?_, by simp [Item.reads, hc', Change.reads, hafter], ?_⟩
      · simp only [Item.settled, hc', hc, hbefore, hafter]
        rw [Mustache.settledParts_onlyArguments, onModifier_settledParts]
      · simp only [Item.depth, hnone, hc, hbefore, onModifier_depth]
        omega
  | .modifier m, _ =>
    refine ⟨?_, rfl, Nat.le_of_eq (Call.depth_onlyConditions f m.call)⟩
    simp only [Item.settled, Mustache.settledParts_onlyConditions,
      Mustache.settledParts_onlyArguments]
  | .note n, _ => exact ⟨rfl, rfl, Nat.zero_le _⟩
  | .params p, _ => exact ⟨rfl, rfl, Nat.zero_le _⟩

theorem Spaced.AllStand.item_stands {ss : List Spaced} {rest : List Char}
    (h : Spaced.AllStand ss rest) {s : Spaced} (hs : s ∈ ss) : ∃ u, s.item.Stands u := by
  induction ss with
  | nil => cases hs
  | cons s' ss ih =>
    obtain ⟨-, hitem, hss⟩ := h
    rcases List.mem_cons.1 hs with rfl | hs
    · exact ⟨_, hitem⟩
    · exact ih hss hs

theorem OpeningTag.Stands.settled_arguments_conditions {t : OpeningTag} (h : t.Stands)
    (hk : ∀ v ∈ t.eventValues, v.Carried f) :
    (t.settled f.onlyConditions).settled f.onlyArguments = t.settled f ∧
      (t.settled f.onlyConditions).reads f.onlyArguments = true ∧
      t.depth f.onlyConditions ≤ t.depth f := by
  have hitem : ∀ s ∈ t.items,
      (s.item.settled f.onlyConditions t).settled f.onlyArguments (t.settled f.onlyConditions) =
          s.item.settled f t ∧
        (s.item.settled f.onlyConditions t).reads f.onlyArguments (t.settled f.onlyConditions) =
          true ∧
        s.item.depth f.onlyConditions t ≤ s.item.depth f t := by
    intro s hs
    obtain ⟨rest, hstands⟩ := h.2.2.2.1.item_stands hs
    exact hstands.settled_arguments_conditions fun v hv =>
      hk v (List.mem_filterMap.2 ⟨s, hs, hv⟩)
  refine ⟨?_, ?_, ?_⟩
  · have hitems : (t.items.map (Spaced.settled f.onlyConditions t)).map
        (Spaced.settled f.onlyArguments (t.settled f.onlyConditions)) =
          t.items.map (Spaced.settled f t) := by
      rw [List.map_map]
      exact List.map_congr_left fun s hs => congrArg (Spaced.mk s.lead) (hitem s hs).1
    exact congrArg (OpeningTag.mk t.name · t.trail t.selfClosing) hitems
  · refine List.all_eq_true.2 fun s hs => ?_
    obtain ⟨s', hs', rfl⟩ := List.mem_map.1 hs
    exact (hitem s' hs').2.1
  · exact OpeningTag.depth_le.2 fun s hs =>
      Nat.le_trans (hitem s hs).2.2 (Item.depth_le_of_mem hs)

variable (f)

theorem BlockTag.mapParts_onlyConditions (t : BlockTag) :
    t.mapParts (Expr.settled f.onlyConditions) = t.mapParts (Expr.settled f) := by
  rw [funext (Expr.settled_onlyConditions f)]

theorem BlockTag.mapParts_onlyArguments (t : BlockTag) :
    t.mapParts (Expr.settled f.onlyArguments) = t :=
  BlockTag.mapParts_of_depth (Call.depth_onlyArguments f t.call)

theorem ElseTag.mapParts_onlyConditions (t : ElseTag) :
    t.mapParts (Expr.settled f.onlyConditions) = t.mapParts (Expr.settled f) := by
  rw [funext (Expr.settled_onlyConditions f)]

theorem ElseTag.depth_onlyArguments (t : ElseTag) : t.depth f.onlyArguments = 0 := by
  obtain ⟨tilde, lead, tail⟩ := t
  cases tail with
  | plain trail after => rfl
  | chained call ending => exact Call.depth_onlyArguments f call

theorem ElseTag.mapParts_onlyArguments (t : ElseTag) :
    t.mapParts (Expr.settled f.onlyArguments) = t :=
  ElseTag.mapParts_of_depth (t.depth_onlyArguments f)

theorem ElseTag.depth_onlyConditions (t : ElseTag) :
    t.depth f.onlyConditions = t.depth f := by
  obtain ⟨tilde, lead, tail⟩ := t
  cases tail with
  | plain trail after => rfl
  | chained call ending => exact Call.depth_onlyConditions f call

variable {f}

mutual

theorem Statement.depth_onlyArguments : ∀ s : Statement, s.depth f.onlyArguments ≤ 1
  | .text _ => Nat.zero_le _
  | .comment _ => Nat.zero_le _
  | .note _ => Nat.zero_le _
  | .mustache m => Nat.le_trans (Nat.le_of_eq (m.depth_onlyArguments f)) (Nat.zero_le _)
  | .block opening program sections closing => by
    have h₁ := Call.depth_onlyArguments f opening.call
    have h₂ := Statement.depthAll_onlyArguments program
    have h₃ := Section.depthAll_onlyArguments sections
    have hlevel : level (f.onlyArguments.unnegatedBlock?
        (.block opening program sections closing)) = 0 := rfl
    rw [Statement.depth]
    omega
  | .whole opening => OpeningTag.depth_le.2 fun s _ => s.item.depth_onlyArguments opening
  | .element opening children _ =>
    Nat.max_le.2 ⟨OpeningTag.depth_le.2 fun s _ => s.item.depth_onlyArguments opening,
      Statement.depthAll_onlyArguments children⟩

theorem Statement.depthAll_onlyArguments : ∀ ss : List Statement,
    Statement.depthAll f.onlyArguments ss ≤ 1
  | [] => Nat.zero_le _
  | s :: ss => Nat.max_le.2 ⟨Statement.depth_onlyArguments s, Statement.depthAll_onlyArguments ss⟩

theorem Section.depthAll_onlyArguments : ∀ ss : List Section,
    Section.depthAll f.onlyArguments ss ≤ 1
  | [] => Nat.zero_le _
  | ⟨tag, body⟩ :: ss => by
    have h₁ := tag.depth_onlyArguments f
    have h₂ := Statement.depthAll_onlyArguments body
    have h₃ := Section.depthAll_onlyArguments ss
    rw [Section.depthAll]
    omega

end

theorem Statement.settled_onlyArguments_block (opening : BlockTag) (program : List Statement)
    (sections : List Section) (closing : CloseTag) :
    (Statement.block opening program sections closing).settled f.onlyArguments =
      .block opening (Statement.settledAll f.onlyArguments program)
        (Section.settledAll f.onlyArguments sections) closing := by
  rw [Statement.settled, BlockTag.mapParts_onlyArguments]
  rfl

/-- The rule for arguments leaves blocks as they are, but for their bodies. -/
theorem Statement.settled_onlyArguments_eq (opening : BlockTag) (program : List Statement)
    (sections : List Section) (closing : CloseTag) :
    (Statement.block opening program sections closing).settled f.onlyArguments =
      (Statement.block opening program sections closing).settledParts f.onlyArguments :=
  Statement.settled_block f.onlyArguments opening program sections closing

mutual

/-- With the rule for arguments first, the other one leaves what both leave together, all its fixes
are read as they are meant, and they are nested no deeper than those of both. -/
theorem Statement.settled_conditions_arguments : ∀ {s : Statement}, s.reads f = true →
    (s.settled f.onlyArguments).settled f.onlyConditions = s.settled f ∧
      (s.settled f.onlyArguments).reads f.onlyConditions = true ∧
      (s.settled f.onlyArguments).depth f.onlyConditions ≤ s.depth f
  | .text _, _ => ⟨rfl, rfl, Nat.le_refl _⟩
  | .comment _, _ => ⟨rfl, rfl, Nat.le_refl _⟩
  | .note _, _ => ⟨rfl, rfl, Nat.le_refl _⟩
  | .mustache m, _ => by
    have hm : m.settled f.onlyArguments = m :=
      Mustache.settled_of_depth (m.depth_onlyArguments f)
    rw [Statement.settled, hm]
    exact ⟨congrArg Statement.mustache (m.settled_onlyConditions f), rfl,
      Nat.le_of_eq (m.depth_onlyConditions f)⟩
  | .block opening program sections closing, h => by
    simp only [Statement.reads, Bool.and_eq_true] at h
    obtain ⟨hp, hpr, hpd⟩ := Statement.settledAll_conditions_arguments h.1.2
    obtain ⟨hs, hsr, hsd⟩ := Section.settledAll_conditions_arguments h.2
    have hjoins := Statement.joins_mapParts (Expr.inner_settled f.onlyArguments)
      (Statement.settledAll f.onlyArguments) (.block opening program sections closing)
    have hplace := Fixers.unnegatedBlock?_settledParts f.onlyArguments f.onlyConditions
      (.block opening program sections closing)
    rw [← Statement.settled_onlyArguments_eq, Statement.settled_onlyArguments_block] at hplace
    rw [← Statement.settledParts, ← Statement.settled_onlyArguments_eq,
      Statement.settled_onlyArguments_block] at hjoins
    rw [Statement.settled_onlyArguments_block]
    refine ⟨?_, ?_, ?_⟩
    · rw [Statement.settled, BlockTag.mapParts_onlyConditions, hp, hs]
      rfl
    · rw [Statement.reads, hjoins, hpr, hsr, Bool.and_true, Bool.and_true]
      exact h.1.1
    · have hlevel : level (f.onlyConditions.unnegatedBlock? (.block opening
          (Statement.settledAll f.onlyArguments program)
            (Section.settledAll f.onlyArguments sections) closing)) =
          level (f.unnegatedBlock? (.block opening program sections closing)) := by
        rw [hplace, level, Option.isSome_map]
        rfl
      have hcall := Call.depth_onlyConditions f opening.call
      rw [Statement.depth, Statement.depth, hlevel]
      omega
  | .whole opening, h => by
    rw [Statement.settled]
    refine ⟨congrArg Statement.whole (opening.settled_conditions_arguments f),
      OpeningTag.reads_onlyConditions _ _, opening.depth_conditions_arguments h⟩
  | .element opening children closing, h => by
    simp only [Statement.reads, Bool.and_eq_true] at h
    obtain ⟨hc, hcr, hcd⟩ := Statement.settledAll_conditions_arguments h.2
    have hopening := opening.depth_conditions_arguments h.1
    have ho := opening.settled_conditions_arguments f
    refine ⟨by simp only [Statement.settled, ho, hc],
      Bool.and_eq_true_iff.2 ⟨OpeningTag.reads_onlyConditions _ _, hcr⟩, ?_⟩
    rw [Statement.settled, Statement.depth, Statement.depth]
    omega

theorem Statement.settledAll_conditions_arguments : ∀ {ss : List Statement},
    Statement.readsAll f ss = true →
      Statement.settledAll f.onlyConditions (Statement.settledAll f.onlyArguments ss) =
          Statement.settledAll f ss ∧
        Statement.readsAll f.onlyConditions (Statement.settledAll f.onlyArguments ss) = true ∧
        Statement.depthAll f.onlyConditions (Statement.settledAll f.onlyArguments ss) ≤
          Statement.depthAll f ss
  | [], _ => ⟨rfl, rfl, Nat.le_refl _⟩
  | s :: ss, h => by
    simp only [Statement.readsAll, Bool.and_eq_true] at h
    obtain ⟨hs, hsr, hsd⟩ := Statement.settled_conditions_arguments h.1
    obtain ⟨hss, hssr, hssd⟩ := Statement.settledAll_conditions_arguments h.2
    refine ⟨by simp only [Statement.settledAll, hs, hss], Bool.and_eq_true_iff.2 ⟨hsr, hssr⟩, ?_⟩
    simp only [Statement.settledAll, Statement.depthAll]
    omega

theorem Section.settledAll_conditions_arguments : ∀ {ss : List Section},
    Section.readsAll f ss = true →
      Section.settledAll f.onlyConditions (Section.settledAll f.onlyArguments ss) =
          Section.settledAll f ss ∧
        Section.readsAll f.onlyConditions (Section.settledAll f.onlyArguments ss) = true ∧
        Section.depthAll f.onlyConditions (Section.settledAll f.onlyArguments ss) ≤
          Section.depthAll f ss
  | [], _ => ⟨rfl, rfl, Nat.le_refl _⟩
  | ⟨tag, body⟩ :: ss, h => by
    simp only [Section.readsAll, Bool.and_eq_true] at h
    obtain ⟨hb, hbr, hbd⟩ := Statement.settledAll_conditions_arguments h.1
    obtain ⟨hss, hssr, hssd⟩ := Section.settledAll_conditions_arguments h.2
    have htag := tag.depth_onlyConditions f
    refine ⟨?_, Bool.and_eq_true_iff.2 ⟨hbr, hssr⟩, ?_⟩
    · simp only [Section.settledAll, ElseTag.mapParts_onlyArguments,
        ElseTag.mapParts_onlyConditions, hb, hss]
    · simp only [Section.settledAll, Section.depthAll, ElseTag.mapParts_onlyArguments]
      omega

end

/-- Without its negation a block is a block with the same bodies. -/
theorem Fixers.unnegatedBlock_eq (f f' : Fixers) (opening : BlockTag) (program : List Statement)
    (sections : List Section) (closing : CloseTag) :
    ∃ o p ss c, f.unnegatedBlock (.block opening program sections closing) = .block o p ss c ∧
      (Statement.readsAll f' p && Section.readsAll f' ss) =
        (Statement.readsAll f' program && Section.readsAll f' sections) := by
  unfold Fixers.unnegatedBlock
  cases hs : f.unnegatedBlock? (.block opening program sections closing) with
  | none => exact ⟨_, _, _, _, rfl, rfl⟩
  | some s' =>
    obtain ⟨n, -, ⟨tilde, lead, trail, after, body, more, -, rfl, rfl⟩ | rfl⟩ :=
      eq_of_blockUnnegated? (Fixers.eq_of_unnegatedBlock? hs).2
    · exact ⟨_, _, _, _, rfl, Bool.and_left_comm _ _ _⟩
    · exact ⟨_, _, _, _, rfl, rfl⟩

mutual

/-- With the rule for conditions first, the other one leaves what both leave together, all its fixes
are read as they are meant, and there were no more levels for the first one than for both. -/
theorem Statement.Stands.settled_arguments_conditions : ∀ {s : Statement} {rest : List Char},
    s.Stands rest → (∀ v ∈ s.eventValues, v.Carried f) →
      (s.settled f.onlyConditions).settled f.onlyArguments = s.settled f ∧
        (s.settled f.onlyConditions).reads f.onlyArguments = true ∧
        s.depth f.onlyConditions ≤ s.depth f
  | .text _, _, _, _ => ⟨rfl, rfl, Nat.le_refl _⟩
  | .comment _, _, _, _ => ⟨rfl, rfl, Nat.le_refl _⟩
  | .note _, _, _, _ => ⟨rfl, rfl, Nat.le_refl _⟩
  | .mustache m, _, _, _ => by
    have hm : (m.settled f).settled f.onlyArguments = m.settled f :=
      Mustache.settled_of_depth (Mustache.depth_onlyArguments f _)
    rw [Statement.settled, m.settled_onlyConditions f, Statement.settled, hm]
    exact ⟨rfl, rfl, Nat.le_of_eq (m.depth_onlyConditions f)⟩
  | .block opening program sections closing, _, h, hk => by
    obtain ⟨-, hprogram, hsections, -⟩ := h
    rw [Statement.eventValues, List.forall_mem_append] at hk
    obtain ⟨hp, hpr, hpd⟩ := Statement.AllStand.settled_arguments_conditions hprogram hk.1
    obtain ⟨hs, hsr, hsd⟩ := Section.AllStand.settled_arguments_conditions hsections hk.2
    obtain ⟨o, p, ss, c, hblock, hreads⟩ := Fixers.unnegatedBlock_eq f.onlyConditions
      f.onlyArguments (opening.mapParts (Expr.settled f.onlyConditions))
        (Statement.settledAll f.onlyConditions program)
        (Section.settledAll f.onlyConditions sections) closing
    have hsettled : (Statement.block opening program sections closing).settled f.onlyConditions =
        .block o p ss c := hblock
    rw [hsettled]
    refine ⟨?_, ?_, ?_⟩
    · rw [Statement.settled_onlyArguments_eq, ← hblock, ← Fixers.unnegatedBlock_settledParts,
        Statement.settledParts_block, BlockTag.mapParts_onlyArguments,
        BlockTag.mapParts_onlyConditions, hp, hs]
      rfl
    · rw [Statement.reads, Bool.and_assoc, hreads, hpr, hsr]
      rfl
    · have hcall := Call.depth_onlyConditions f opening.call
      have hlevel : level (f.onlyConditions.unnegatedBlock?
          (.block opening program sections closing)) =
        level (f.unnegatedBlock? (.block opening program sections closing)) := rfl
      rw [Statement.depth, Statement.depth, hlevel]
      omega
  | .whole opening, _, h, hk => by
    obtain ⟨hsettled, hr, hd⟩ := h.1.settled_arguments_conditions hk
    exact ⟨congrArg Statement.whole hsettled, hr, hd⟩
  | .element opening children closing, _, h, hk => by
    obtain ⟨hopening, -, hchildren, -⟩ := h
    rw [Statement.eventValues, List.forall_mem_append] at hk
    obtain ⟨ho, hor, hod⟩ := hopening.settled_arguments_conditions hk.1
    obtain ⟨hc, hcr, hcd⟩ := Statement.AllStand.settled_arguments_conditions hchildren hk.2
    refine ⟨by simp only [Statement.settled, ho, hc],
      Bool.and_eq_true_iff.2 ⟨hor, hcr⟩, ?_⟩
    rw [Statement.depth, Statement.depth]
    omega

theorem Statement.AllStand.settled_arguments_conditions :
    ∀ {ss : List Statement} {rest : List Char}, Statement.AllStand ss rest →
      (∀ v ∈ Statement.eventValuesAll ss, v.Carried f) →
        Statement.settledAll f.onlyArguments (Statement.settledAll f.onlyConditions ss) =
            Statement.settledAll f ss ∧
          Statement.readsAll f.onlyArguments (Statement.settledAll f.onlyConditions ss) = true ∧
          Statement.depthAll f.onlyConditions ss ≤ Statement.depthAll f ss
  | [], _, _, _ => ⟨rfl, rfl, Nat.le_refl _⟩
  | s :: ss, _, h, hk => by
    rw [Statement.eventValuesAll, List.forall_mem_append] at hk
    obtain ⟨hs, hsr, hsd⟩ := Statement.Stands.settled_arguments_conditions h.1 hk.1
    obtain ⟨hss, hssr, hssd⟩ := Statement.AllStand.settled_arguments_conditions h.2 hk.2
    refine ⟨by simp only [Statement.settledAll, hs, hss], Bool.and_eq_true_iff.2 ⟨hsr, hssr⟩, ?_⟩
    rw [Statement.depthAll, Statement.depthAll]
    omega

theorem Section.AllStand.settled_arguments_conditions :
    ∀ {ss : List Section} {rest : List Char}, Section.AllStand ss rest →
      (∀ v ∈ Section.eventValuesAll ss, v.Carried f) →
        Section.settledAll f.onlyArguments (Section.settledAll f.onlyConditions ss) =
            Section.settledAll f ss ∧
          Section.readsAll f.onlyArguments (Section.settledAll f.onlyConditions ss) = true ∧
          Section.depthAll f.onlyConditions ss ≤ Section.depthAll f ss
  | [], _, _, _ => ⟨rfl, rfl, Nat.le_refl _⟩
  | ⟨tag, body⟩ :: ss, _, h, hk => by
    obtain ⟨-, hbody, -, hss⟩ := h
    rw [Section.eventValuesAll, List.forall_mem_append] at hk
    obtain ⟨hb, hbr, hbd⟩ := Statement.AllStand.settled_arguments_conditions hbody hk.1
    obtain ⟨hss, hssr, hssd⟩ := Section.AllStand.settled_arguments_conditions hss hk.2
    have htag := tag.depth_onlyConditions f
    refine ⟨?_, Bool.and_eq_true_iff.2 ⟨hbr, hssr⟩, ?_⟩
    · simp only [Section.settledAll, ElseTag.mapParts_onlyArguments,
        ElseTag.mapParts_onlyConditions, hb, hss]
    · rw [Section.depthAll, Section.depthAll]
      omega

end

end Concrete

end TemplateLint
