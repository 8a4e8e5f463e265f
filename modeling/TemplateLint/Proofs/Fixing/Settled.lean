import TemplateLint.Proofs.Fixing.Depth
import TemplateLint.Proofs.Negation.Mapped

namespace TemplateLint

open Text (size)

namespace Fixers

/-- A call without its negation, or as it is if there is none to take out. -/
def unnegated (f : Fixers) (c : Concrete.Call) : Concrete.Call := (f.unnegated? c).getD c

def unnegatedBlock (f : Fixers) (s : Concrete.Statement) : Concrete.Statement :=
  (f.unnegatedBlock? s).getD s

end Fixers

namespace Concrete

open NegatedCondition (Conditional)

variable (f : Fixers)

mutual

/-- What is left of an expression when no fix is. -/
def Expr.settled : Expr → Expr
  | .word w => .word w
  | .quoted mark raw => .quoted mark raw
  | .group call => .group (f.unnegated (Call.settledParts call))

/-- A call with only the fixes inside of its parts. -/
def Call.settledParts : Call → Call
  | ⟨lead, callee, args, trail⟩ => ⟨lead, Expr.settled callee, Arg.settledAll args, trail⟩

def Arg.settledAll : List Arg → List Arg
  | [] => []
  | ⟨lead, key, value⟩ :: args => ⟨lead, key, Expr.settled value⟩ :: Arg.settledAll args

end

def Call.settled (c : Call) : Call := f.unnegated (c.settledParts f)

theorem Arg.settledAll_eq (as : List Arg) :
    Arg.settledAll f as = as.map (Arg.mapValue (Expr.settled f)) := by
  induction as with
  | nil => rfl
  | cons a as ih =>
    obtain ⟨lead, key, value⟩ := a
    rw [List.map_cons, ← ih]
    rfl

theorem Call.settledParts_eq (c : Call) : c.settledParts f = c.mapParts (Expr.settled f) := by
  obtain ⟨lead, callee, args, trail⟩ := c
  rw [Call.settledParts, Arg.settledAll_eq]
  rfl

variable {f}

theorem Expr.eq_word_of_settled {e : Expr} {w : List Char} (h : e.settled f = .word w) :
    e = .word w := by
  cases e with
  | word w' => exact h
  | quoted mark raw => cases h
  | group call => cases h

theorem Expr.eq_of_settled {e x : Expr} (h : e.settled f = x) (hx : x.isGroup = false) :
    e = x := by
  cases e with
  | word w => exact h
  | quoted mark raw => exact h
  | group call =>
    rw [← h] at hx
    cases hx

theorem Expr.settled_eq_self {e : Expr} (h : e.isGroup = false) : e.settled f = e := by
  cases e with
  | word w => rfl
  | quoted mark raw => rfl
  | group call => cases h

/-- A call that begins with no helper has no negation to take out. -/
theorem Fixers.unnegated_of_callee {c : Call} {w : List Char}
    (h : (f.unnegated c).callee = .word ('n' :: w)) : f.unnegated c = c := by
  unfold Fixers.unnegated at h ⊢
  cases hc : f.unnegated? c with
  | none => rfl
  | some c' =>
    obtain ⟨d, v, hcallee, hd⟩ := callee_unnegated (Fixers.eq_of_unnegated? hc).2
    rw [hc, Option.getD_some, hcallee] at h
    cases h
    exact absurd rfl hd

/-- A negation stays one, and nothing becomes one. -/
theorem operand?_settled (e : Expr) : operand? (e.settled f) = operand? e := by
  cases e with
  | word w => rfl
  | quoted mark raw => rfl
  | group call =>
    obtain ⟨lead, callee, args, trail⟩ := call
    cases ho : operand? (.group ⟨lead, callee, args, trail⟩) with
    | some x =>
      obtain ⟨lead, gap, trail, he, hx⟩ := eq_of_operand? ho
      cases he
      have hparts : (Call.mk lead (.word ['n', 'o', 't']) [⟨gap, none, x⟩] trail).settledParts f =
          ⟨lead, .word ['n', 'o', 't'], [⟨gap, none, x⟩], trail⟩ := by
        simp [Call.settledParts, Arg.settledAll, Expr.settled_eq_self hx, Expr.settled]
      have hnone : f.unnegated? ⟨lead, .word ['n', 'o', 't'], [⟨gap, none, x⟩], trail⟩ = none := by
        unfold Fixers.unnegated?
        exact ite_self _
      rw [Expr.settled, hparts, Fixers.unnegated, hnone]
      exact ho
    | none =>
      rw [Option.eq_none_iff_forall_ne_some]
      intro x hx
      obtain ⟨l, gap, t, he, hgroup⟩ := eq_of_operand? hx
      rw [Expr.settled, Expr.group.injEq] at he
      rw [Fixers.unnegated_of_callee (congrArg Call.callee he), Call.settledParts] at he
      simp only [Call.mk.injEq] at he
      obtain ⟨-, hcallee, hargs, -⟩ := he
      obtain rfl := Expr.eq_word_of_settled hcallee
      match args, hargs with
      | [⟨gap', key, value⟩], hargs =>
        simp only [Arg.settledAll, List.cons.injEq, Arg.mk.injEq, and_true] at hargs
        obtain ⟨-, rfl, hvalue⟩ := hargs
        obtain rfl := Expr.eq_of_settled hvalue hgroup
        simp [operand?, hgroup] at ho
      | ⟨_, _, _⟩ :: ⟨_, _, _⟩ :: _, hargs => simp [Arg.settledAll] at hargs

variable (f) in
theorem Expr.inner_settled : Expr.Inner (Expr.settled f) where
  alone _ h := Expr.settled_eq_self h
  group _ := rfl
  operand := operand?_settled

theorem Fixers.unnegated?_mapParts (f : Fixers) {h : Expr → Expr} (hh : Expr.Inner h) (c : Call) :
    f.unnegated? (c.mapParts h) = (f.unnegated? c).map (Call.mapParts h) := by
  unfold Fixers.unnegated?
  rw [Call.unnegated?_mapParts hh]
  cases f.conditions <;> rfl

/-- The negation of a call can as well be taken out before the fixes inside of it. -/
theorem Call.settled_eq (c : Call) : c.settled f = (f.unnegated c).settledParts f := by
  rw [Call.settled, Call.settledParts_eq, Call.settledParts_eq, Fixers.unnegated,
    Fixers.unnegated, Fixers.unnegated?_mapParts f (Expr.inner_settled f)]
  cases f.unnegated? c <;> rfl

theorem Expr.settled_group (c : Call) : (Expr.group c).settled f = .group (c.settled f) := rfl

theorem Call.settled_of_unnegated? {c c' : Call} (h : f.unnegated? c = some c') :
    c.settled f = c'.settledParts f := by
  rw [Call.settled_eq, Fixers.unnegated, h, Option.getD_some]

theorem Call.settled_of_none {c : Call} (h : f.unnegated? c = none) :
    c.settled f = c.settledParts f := by
  rw [Call.settled_eq, Fixers.unnegated, h, Option.getD_none]

/-- A call that was freed of its negation has only fixes inside of it. -/
theorem Call.Stands.settled_unnegated {c c' : Call} {rest : List Char} (h : c.Stands rest)
    (hc : f.unnegated? c = some c') : c'.settled f = c.settled f := by
  have hnone := Fixers.unnegated?_unnegated (f := f) h (Fixers.eq_of_unnegated? hc).2
  rw [Call.settled_of_none hnone, Call.settled_of_unnegated? hc]

mutual

/-- A pass changes nothing of what is left of an expression. -/
theorem Expr.Stands.settled_edit : ∀ {e : Expr} {s : List Char}, e.Stands s → ∀ k : Nat,
    (e.edit f everywhere k).settled f = e.settled f
  | .word _, _, _, _ => rfl
  | .quoted _ _, _, _, _ => rfl
  | .group call, _, h, k => by
    rw [Expr.Stands] at h
    rw [Expr.edit, everywhere, pick_true]
    cases hc : f.unnegated? call with
    | none =>
      have hparts := Call.Stands.settledParts_edit h (k + 1)
      rw [Option.map_none, Option.getD_none, Expr.settled_group, Expr.settled_group, Call.settled,
        Call.settled, hparts]
    | some c =>
      rw [Option.map_some, Option.getD_some, Expr.settled_group, Expr.settled_group,
        Call.Stands.settled_unnegated h hc]

theorem Call.Stands.settledParts_edit : ∀ {c : Call} {s : List Char}, c.Stands s → ∀ k : Nat,
    (c.edit f everywhere k).settledParts f = c.settledParts f
  | ⟨lead, callee, args, trail⟩, _, h, k => by
    obtain ⟨-, hcallee, hargs, -⟩ := h
    have h₁ := Expr.Stands.settled_edit hcallee (k + size lead)
    have h₂ := Arg.AllStand.settledAll_edit hargs (k + size lead + size callee.chars)
    simp only [Call.edit, Call.settledParts, h₁, h₂]

theorem Arg.AllStand.settledAll_edit : ∀ {as : List Arg} {named : Bool} {s : List Char},
    Arg.AllStand named as s → ∀ k : Nat,
      Arg.settledAll f (Arg.editAll f everywhere k as) = Arg.settledAll f as
  | [], _, _, _, _ => rfl
  | ⟨lead, key, value⟩ :: args, _, _, h, k => by
    obtain ⟨s, hv⟩ : ∃ s, value.Stands s := by
      cases key with
      | none => exact ⟨_, h.2.2.1⟩
      | some key => exact ⟨_, h.2.2.1⟩
    obtain ⟨named, hargs⟩ : ∃ named, Arg.AllStand named args _ := by
      cases key with
      | none => exact ⟨_, h.2.2.2⟩
      | some key => exact ⟨_, h.2.2.2⟩
    have h₁ := Expr.Stands.settled_edit hv (k + size (lead ++ keyChars key))
    have h₂ := Arg.AllStand.settledAll_edit hargs
      (k + size (lead ++ keyChars key) + size value.chars)
    simp only [Arg.editAll, Arg.settledAll, h₁, h₂]

end

theorem Fixers.unnegated_of_level {c : Call} (h : level (f.unnegated? c) = 0) :
    f.unnegated c = c := by
  rw [Fixers.unnegated, level_eq_zero.1 h, Option.getD_none]

mutual

/-- An expression without fixes is what is left of it. -/
theorem Expr.settled_of_depth : ∀ {e : Expr}, e.depth f = 0 → e.settled f = e
  | .word _, _ => rfl
  | .quoted _ _, _ => rfl
  | .group call, h => by
    rw [Expr.depth, Nat.add_eq_zero_iff] at h
    rw [Expr.settled, Call.settledParts_of_depth h.2, Fixers.unnegated_of_level h.1]

theorem Call.settledParts_of_depth : ∀ {c : Call}, c.depth f = 0 → c.settledParts f = c
  | ⟨lead, callee, args, trail⟩, h => by
    rw [Call.depth, Nat.max_eq_zero_iff] at h
    rw [Call.settledParts, Expr.settled_of_depth h.1, Arg.settledAll_of_depth h.2]

theorem Arg.settledAll_of_depth : ∀ {as : List Arg}, Arg.depthAll f as = 0 →
    Arg.settledAll f as = as
  | [], _ => rfl
  | ⟨lead, key, value⟩ :: args, h => by
    rw [Arg.depthAll, Nat.max_eq_zero_iff] at h
    rw [Arg.settledAll, Expr.settled_of_depth h.1, Arg.settledAll_of_depth h.2]

end

/-- What is left of an expression stands where the expression stood. -/
theorem Expr.Stands.settled {e : Expr} {s : List Char} (h : e.Stands s) :
    (e.settled f).Stands s := by
  -- by the passes that take away one level each
  induction hn : e.depth f generalizing e with
  | zero => rwa [Expr.settled_of_depth hn]
  | succ n ih =>
    have hdepth := Expr.Stands.depth_edit (f := f) h 0
    rw [← Expr.Stands.settled_edit h 0]
    exact ih (Expr.Stands.edit f everywhere h 0) (by omega)

variable (f)

def Mustache.settled (m : Mustache) : Mustache := m.withCall (m.call.settled f)

/-- A mustache that is no place itself. -/
def Mustache.settledParts (m : Mustache) : Mustache := m.withCall (m.call.settledParts f)

def Part.settled : Part → Part
  | .text cs => .text cs
  | .mustache m => .mustache (m.settled f)

def AttrValue.settled : AttrValue → AttrValue
  | .quoted mark parts => .quoted mark (parts.map (Part.settled f))
  | .mustache m => .mustache (m.settled f)
  | .bare cs => .bare cs

def Assigned.settled (v : Assigned) : Assigned := ⟨v.before, v.after, v.value.settled f⟩

def Attribute.settledValue (a : Attribute) : Attribute :=
  ⟨a.name, a.assigned.map (Assigned.settled f)⟩

/-- What is left of an item. An argument that becomes a modifier has the fixes of the modifier. -/
def Item.settled (t : OpeningTag) : Item → Item
  | .attribute a =>
    match f.change? t a with
    | none => .attribute (a.settledValue f)
    | some (.name new) => .attribute ((a.settledValue f).named new)
    | some (.whole text) =>
      match modifier? text with
      | some (.modifier m) => .modifier (m.settledParts f)
      | _ => .attribute (a.settledValue f)
  | .modifier m => .modifier (m.settledParts f)
  | .note n => .note n
  | .params p => .params p

def Spaced.settled (t : OpeningTag) (s : Spaced) : Spaced := ⟨s.lead, s.item.settled f t⟩

def OpeningTag.settled (t : OpeningTag) : OpeningTag :=
  ⟨t.name, t.items.map (Spaced.settled f t), t.trail, t.selfClosing⟩

variable {f}

theorem Mustache.Stands.settledParts_editInner {m : Mustache} (h : m.Stands) (k : Nat) :
    (m.editInner f everywhere k).settledParts f = m.settledParts f :=
  congrArg m.withCall (Call.Stands.settledParts_edit h (k + size m.opening))

theorem Mustache.Stands.settled_edit {m : Mustache} (h : m.Stands) (k : Nat) :
    (m.edit f everywhere k).settled f = m.settled f := by
  rw [Mustache.edit, everywhere, pick_true]
  cases hc : f.unnegated? m.call with
  | none =>
    have hparts := Call.Stands.settledParts_edit (f := f) h (k + size m.opening)
    exact congrArg (fun c => m.withCall (f.unnegated c)) hparts
  | some c => exact congrArg m.withCall (Call.Stands.settled_unnegated h hc)

theorem Part.AllStand.settled_edit {mark : Char} {ps : List Part} (h : Part.AllStand mark ps)
    (k : Nat) : (Part.editAll f everywhere k ps).map (Part.settled f) = ps.map (Part.settled f) := by
  induction ps generalizing k with
  | nil => rfl
  | cons p ps ih =>
    cases p with
    | text cs => exact congrArg (Part.text cs :: ·) (ih h.2.2.2 _)
    | mustache m =>
      simp only [Part.editAll, List.map_cons, Part.settled, h.1.settled_edit, ih h.2]

theorem AttrValue.Stands.settled_edit {v : AttrValue} {rest : List Char} (h : v.Stands rest)
    (k : Nat) : (v.edit f everywhere k).settled f = v.settled f := by
  cases v with
  | quoted mark parts => exact congrArg (AttrValue.quoted mark) (h.2.settled_edit _)
  | mustache m => exact congrArg AttrValue.mustache (Mustache.Stands.settled_edit h k)
  | bare cs => rfl

theorem Attribute.Stands.settledValue_edit {a : Attribute} {rest : List Char} (h : a.Stands rest)
    (k : Nat) : (a.editValue f everywhere k).settledValue f = a.settledValue f := by
  obtain ⟨name, assigned⟩ := a
  cases assigned with
  | none => rfl
  | some v =>
    obtain ⟨-, -, -, -, hv⟩ := h
    simp only [Attribute.editValue, Attribute.settledValue, Option.map_some, Assigned.edit,
      Assigned.settled, hv.settled_edit]

theorem Item.Stands.settled_edit {t : OpeningTag} {i : Item} {rest : List Char} (h : i.Stands rest)
    (hr : i.reads f t = true) (j k : Nat) :
    (i.edit f everywhere t k).settled f (t.edit f everywhere j) = i.settled f t := by
  match i, h with
  | .attribute a, ha =>
    have hvalue := Attribute.Stands.settledValue_edit (f := f) ha k
    cases hc : f.change? t a with
    | none => simp [Item.edit, hc, Attribute.edit, Item.settled, change?_edit hc, hvalue]
    | some c =>
      obtain ⟨-, ⟨new, rfl, hplain, -⟩ | ⟨s, rfl⟩⟩ := eq_of_change? (Fixers.eq_of_change? hc).2
      · have hnamed : ((a.editValue f everywhere k).named new).settledValue f =
            (a.settledValue f).named new := congrArg (Attribute.named · new) hvalue
        simpa [Item.edit, hc, Attribute.edit, everywhere, pick_true, Item.settled,
          change?_named hplain] using hnamed
      · obtain ⟨i, hi⟩ := Option.isSome_iff_exists.1 (Item.reads_attribute hr hc)
        obtain ⟨m, rfl, -, -⟩ := eq_of_modifier? hi
        simp [Item.edit, hc, Attribute.edit, everywhere, pick_true, Item.settled, hi]
  | .modifier m, hm => exact congrArg Item.modifier (hm.1.settledParts_editInner k)
  | .note n, _ => rfl
  | .params p, _ => rfl

theorem Spaced.AllStand.settled_edit {t : OpeningTag} {ss : List Spaced} {rest : List Char}
    (h : Spaced.AllStand ss rest) (hr : ∀ s ∈ ss, s.item.reads f t = true) (j k : Nat) :
    (Spaced.editAll f everywhere t k ss).map (Spaced.settled f (t.edit f everywhere j)) =
      ss.map (Spaced.settled f t) := by
  induction ss generalizing k with
  | nil => rfl
  | cons s ss ih =>
    obtain ⟨-, hitem, hss⟩ := h
    have h₁ := hitem.settled_edit (hr s (by simp)) j (k + size s.lead)
    have h₂ := ih hss (fun s hs => hr s (List.mem_cons_of_mem _ hs)) (k + size s.chars)
    simp only [Spaced.editAll, List.map_cons, Spaced.settled, h₁, h₂]

theorem OpeningTag.Stands.settled_edit {t : OpeningTag} (h : t.Stands) (hr : t.reads f = true)
    (k : Nat) : (t.edit f everywhere k).settled f = t.settled f := by
  have hitems := h.2.2.2.1.settled_edit (List.all_eq_true.1 hr) k
    (k + size (Token.tagOpen.chars ++ t.name))
  exact congrArg (OpeningTag.mk t.name · t.trail t.selfClosing) hitems

theorem Mustache.settledParts_of_depth {m : Mustache} (h : m.call.depth f = 0) :
    m.settledParts f = m := congrArg m.withCall (Call.settledParts_of_depth h)

theorem Mustache.settled_of_depth {m : Mustache} (h : m.depth f = 0) : m.settled f = m := by
  rw [Mustache.depth, Nat.add_eq_zero_iff] at h
  rw [Mustache.settled, Call.settled, Call.settledParts_of_depth h.2, Fixers.unnegated_of_level h.1]
  rfl

theorem Part.settled_of_depth {ps : List Part} (h : Part.depthAll f ps = 0) :
    ps.map (Part.settled f) = ps := by
  induction ps with
  | nil => rfl
  | cons p ps ih =>
    cases p with
    | text cs => exact congrArg (Part.text cs :: ·) (ih h)
    | mustache m =>
      rw [Part.depthAll, Nat.max_eq_zero_iff] at h
      rw [List.map_cons, Part.settled, Mustache.settled_of_depth h.1, ih h.2]

theorem AttrValue.settled_of_depth {v : AttrValue} (h : v.depth f = 0) : v.settled f = v := by
  cases v with
  | quoted mark parts => exact congrArg (AttrValue.quoted mark) (Part.settled_of_depth h)
  | mustache m => exact congrArg AttrValue.mustache (Mustache.settled_of_depth h)
  | bare cs => rfl

theorem Attribute.settledValue_of_depth {a : Attribute} (h : a.depth f = 0) :
    a.settledValue f = a := by
  obtain ⟨name, assigned⟩ := a
  cases assigned with
  | none => rfl
  | some v =>
    have hv : v.value.depth f = 0 := h
    simp only [Attribute.settledValue, Option.map_some, Assigned.settled,
      AttrValue.settled_of_depth hv]

theorem Item.settled_of_depth {t : OpeningTag} {i : Item} (h : i.depth f t = 0) :
    i.settled f t = i := by
  match i with
  | .attribute a =>
    rw [Item.depth] at h
    rw [Item.settled]
    cases hc : f.change? t a with
    | none =>
      rw [hc] at h
      exact congrArg Item.attribute (Attribute.settledValue_of_depth h)
    | some c =>
      cases c with
      | name new =>
        simp only [hc] at h
        omega
      | whole text =>
        simp only [hc] at h
        split at h <;> omega
  | .modifier m => exact congrArg Item.modifier (Mustache.settledParts_of_depth h)
  | .note n => rfl
  | .params p => rfl

theorem Spaced.settled_of_depth {t : OpeningTag} {ss : List Spaced}
    (h : Spaced.depthAll f t ss = 0) : ss.map (Spaced.settled f t) = ss := by
  induction ss with
  | nil => rfl
  | cons s ss ih =>
    rw [Spaced.depthAll, Nat.max_eq_zero_iff] at h
    rw [List.map_cons, Spaced.settled, Item.settled_of_depth h.1, ih h.2]

theorem OpeningTag.settled_of_depth {t : OpeningTag} (h : t.depth f = 0) : t.settled f = t :=
  congrArg (OpeningTag.mk t.name · t.trail t.selfClosing) (Spaced.settled_of_depth h)

variable (f)

mutual

/-- What is left of a statement when no fix is. -/
def Statement.settled : Statement → Statement
  | .text cs => .text cs
  | .comment value => .comment value
  | .note n => .note n
  | .mustache m => .mustache (m.settled f)
  | .block opening program sections closing =>
    f.unnegatedBlock (.block (opening.mapParts (Expr.settled f)) (Statement.settledAll program)
      (Section.settledAll sections) closing)
  | .whole opening => .whole (opening.settled f)
  | .element opening children closing =>
    .element (opening.settled f) (Statement.settledAll children) closing

def Statement.settledAll : List Statement → List Statement
  | [] => []
  | s :: ss => Statement.settled s :: Statement.settledAll ss

def Section.settledAll : List Section → List Section
  | [] => []
  | ⟨tag, body⟩ :: ss =>
    ⟨tag.mapParts (Expr.settled f), Statement.settledAll body⟩ :: Section.settledAll ss

end

/-- A block with only the fixes inside of its tags and its bodies. -/
def Statement.settledParts (s : Statement) : Statement :=
  s.mapParts (Expr.settled f) (Statement.settledAll f)

theorem Section.settledAll_eq (ss : List Section) :
    Section.settledAll f ss =
      ss.map (Section.mapParts (Expr.settled f) (Statement.settledAll f)) := by
  induction ss with
  | nil => rfl
  | cons s ss ih =>
    obtain ⟨tag, body⟩ := s
    rw [List.map_cons, ← ih]
    rfl

theorem Statement.settledParts_block (opening : BlockTag) (program : List Statement)
    (sections : List Section) (closing : CloseTag) :
    (Statement.block opening program sections closing).settledParts f =
      .block (opening.mapParts (Expr.settled f)) (Statement.settledAll f program)
        (Section.settledAll f sections) closing := by
  rw [Section.settledAll_eq]
  rfl

theorem Statement.settled_block (opening : BlockTag) (program : List Statement)
    (sections : List Section) (closing : CloseTag) :
    (Statement.block opening program sections closing).settled f =
      f.unnegatedBlock ((Statement.block opening program sections closing).settledParts f) := by
  rw [Statement.settledParts_block]
  rfl

theorem Fixers.unnegatedBlock?_settledParts (f' : Fixers) (s : Statement) :
    f'.unnegatedBlock? (s.settledParts f) =
      (f'.unnegatedBlock? s).map (Statement.settledParts f) := by
  unfold Fixers.unnegatedBlock?
  cases f'.conditions with
  | false => rfl
  | true => exact Statement.unnegated?_mapParts (Expr.inner_settled f) _ s

theorem Fixers.unnegatedBlock_settledParts (f' : Fixers) (s : Statement) :
    f'.unnegatedBlock (s.settledParts f) = (f'.unnegatedBlock s).settledParts f := by
  rw [Fixers.unnegatedBlock, Fixers.unnegatedBlock, Fixers.unnegatedBlock?_settledParts]
  cases f'.unnegatedBlock? s <;> rfl

variable {f}

theorem Fixers.unnegatedBlock_of_none {s : Statement} (h : f.unnegatedBlock? s = none) :
    f.unnegatedBlock s = s := by
  rw [Fixers.unnegatedBlock, h, Option.getD_none]

theorem ElseTag.Stands.mapParts_edit {t : ElseTag} (h : t.Stands) (k : Nat) :
    (t.edit f everywhere k).mapParts (Expr.settled f) = t.mapParts (Expr.settled f) := by
  obtain ⟨tilde, lead, tail⟩ := t
  cases tail with
  | plain trail after => rfl
  | chained call ending =>
    have hcall := Call.Stands.settledParts_edit (f := f) h.2.2.1
      (k + size (ElseTag.mk tilde lead (.chained call ending)).front)
    rw [Call.settledParts_eq, Call.settledParts_eq] at hcall
    simp only [ElseTag.edit, ElseTag.mapParts, hcall]

theorem BlockTag.Stands.mapParts_edit {t : BlockTag} (h : t.Stands) (k : Nat) :
    (t.edit f everywhere k).mapParts (Expr.settled f) = t.mapParts (Expr.settled f) := by
  have hcall := Call.Stands.settledParts_edit (f := f) h.1 (k + size t.front)
  rw [Call.settledParts_eq, Call.settledParts_eq] at hcall
  exact congrArg t.withCall hcall

/-- A block that was freed of its negation has only fixes inside of it. -/
theorem Statement.Stands.settled_unnegated {s s' : Statement} {rest : List Char}
    (h : s.Stands rest) (hs : f.unnegatedBlock? s = some s') : s'.settled f = s.settled f := by
  obtain ⟨-, hs'⟩ := Fixers.eq_of_unnegatedBlock? hs
  match s, h with
  | .block opening program sections closing, h =>
    have hsettled : ∀ o p ss c, s' = .block o p ss c → f.unnegatedBlock? s' = none →
        s'.settled f = (Statement.block opening program sections closing).settled f := by
      rintro o p ss c rfl hnone
      rw [Statement.settled_block, Statement.settled_block, Fixers.unnegatedBlock_settledParts,
        Fixers.unnegatedBlock_settledParts, Fixers.unnegatedBlock_of_none hnone,
        Fixers.unnegatedBlock, hs, Option.getD_some]
    obtain ⟨n, hn, ⟨tilde, lead, trail, after, body, more, -, rfl, rfl⟩ | rfl⟩ :=
      eq_of_blockUnnegated? hs'
    · exact hsettled _ _ _ _ rfl
        (unnegatedBlock?_of_negated? _ _ _ (BlockTag.negated?_freed h.1 hn n.helper))
    · exact hsettled _ _ _ _ rfl
        (unnegatedBlock?_of_negated? _ _ _ (BlockTag.negated?_freed h.1 hn n.helper.flip))

mutual

/-- A pass changes nothing of what is left of a statement. -/
theorem Statement.Stands.settled_edit : ∀ {s : Statement} {rest : List Char}, s.Stands rest →
    s.reads f = true → ∀ k : Nat, (s.edit f everywhere k).settled f = s.settled f
  | .text _, _, _, _, _ => rfl
  | .comment _, _, _, _, _ => rfl
  | .note _, _, _, _, _ => rfl
  | .mustache m, _, h, _, k => congrArg Statement.mustache (h.1.settled_edit k)
  | .block opening program sections closing, rest, h, hr, k => by
    simp only [Statement.reads, Bool.and_eq_true] at hr
    rw [Statement.edit, everywhere, pick_true]
    cases hs : f.unnegatedBlock? (.block opening program sections closing) with
    | some s' => exact Statement.Stands.settled_unnegated h hs
    | none =>
      obtain ⟨hopening, hprogram, hsections, -⟩ := h
      have h₁ := hopening.mapParts_edit (f := f) k
      have h₂ := Statement.AllStand.settled_edit hprogram hr.1.2 (k + size opening.chars)
      have h₃ := Section.AllStand.settled_edit hsections hr.2
        (k + size opening.chars + size (Statement.charsAll program))
      simp only [Option.getD_none, Statement.settled, h₁, h₂, h₃]
  | .whole opening, _, h, hr, k => congrArg Statement.whole (h.1.settled_edit hr k)
  | .element opening children closing, _, h, hr, k => by
    simp only [Statement.reads, Bool.and_eq_true] at hr
    obtain ⟨hopening, -, hchildren, -⟩ := h
    have h₁ := hopening.settled_edit hr.1 k
    have h₂ := Statement.AllStand.settled_edit hchildren hr.2 (k + size opening.chars)
    simp only [Statement.edit, Statement.settled, h₁, h₂]

theorem Statement.AllStand.settled_edit : ∀ {ss : List Statement} {rest : List Char},
    Statement.AllStand ss rest → Statement.readsAll f ss = true → ∀ k : Nat,
      Statement.settledAll f (Statement.editAll f everywhere k ss) = Statement.settledAll f ss
  | [], _, _, _, _ => rfl
  | s :: ss, _, h, hr, k => by
    simp only [Statement.readsAll, Bool.and_eq_true] at hr
    have h₁ := Statement.Stands.settled_edit h.1 hr.1 k
    have h₂ := Statement.AllStand.settled_edit h.2 hr.2 (k + size s.chars)
    simp only [Statement.editAll, Statement.settledAll, h₁, h₂]

theorem Section.AllStand.settled_edit : ∀ {ss : List Section} {rest : List Char},
    Section.AllStand ss rest → Section.readsAll f ss = true → ∀ k : Nat,
      Section.settledAll f (Section.editAll f everywhere k ss) = Section.settledAll f ss
  | [], _, _, _, _ => rfl
  | ⟨tag, body⟩ :: ss, _, h, hr, k => by
    simp only [Section.readsAll, Bool.and_eq_true] at hr
    obtain ⟨htag, hbody, -, hss⟩ := h
    have h₁ := htag.mapParts_edit (f := f) k
    have h₂ := Statement.AllStand.settled_edit hbody hr.1 (k + size tag.chars)
    have h₃ := Section.AllStand.settled_edit hss hr.2
      (k + size tag.chars + size (Statement.charsAll body))
    simp only [Section.editAll, Section.settledAll, h₁, h₂, h₃]

end

theorem BlockTag.mapParts_of_depth {t : BlockTag} (h : t.call.depth f = 0) :
    t.mapParts (Expr.settled f) = t := by
  rw [BlockTag.mapParts, ← Call.settledParts_eq, Call.settledParts_of_depth h]
  rfl

theorem ElseTag.mapParts_of_depth {t : ElseTag} (h : t.depth f = 0) :
    t.mapParts (Expr.settled f) = t := by
  obtain ⟨tilde, lead, tail⟩ := t
  cases tail with
  | plain trail after => rfl
  | chained call ending =>
    have hcall : call.depth f = 0 := h
    simp only [ElseTag.mapParts, ← Call.settledParts_eq, Call.settledParts_of_depth hcall]

mutual

/-- A statement without fixes is what is left of it. -/
theorem Statement.settled_of_depth : ∀ {s : Statement}, s.depth f = 0 → s.settled f = s
  | .text _, _ => rfl
  | .comment _, _ => rfl
  | .note _, _ => rfl
  | .mustache _, h => congrArg Statement.mustache (Mustache.settled_of_depth h)
  | .block opening program sections closing, h => by
    rw [Statement.depth, Nat.add_eq_zero_iff, Nat.max_eq_zero_iff, Nat.max_eq_zero_iff] at h
    obtain ⟨hplace, hopening, hprogram, hsections⟩ := h
    rw [Statement.settled, BlockTag.mapParts_of_depth hopening,
      Statement.settledAll_of_depth hprogram, Section.settledAll_of_depth hsections,
      Fixers.unnegatedBlock_of_none (level_eq_zero.1 hplace)]
  | .whole _, h => congrArg Statement.whole (OpeningTag.settled_of_depth h)
  | .element opening children closing, h => by
    rw [Statement.depth, Nat.max_eq_zero_iff] at h
    rw [Statement.settled, OpeningTag.settled_of_depth h.1, Statement.settledAll_of_depth h.2]

theorem Statement.settledAll_of_depth : ∀ {ss : List Statement}, Statement.depthAll f ss = 0 →
    Statement.settledAll f ss = ss
  | [], _ => rfl
  | s :: ss, h => by
    rw [Statement.depthAll, Nat.max_eq_zero_iff] at h
    rw [Statement.settledAll, Statement.settled_of_depth h.1, Statement.settledAll_of_depth h.2]

theorem Section.settledAll_of_depth : ∀ {ss : List Section}, Section.depthAll f ss = 0 →
    Section.settledAll f ss = ss
  | [], _ => rfl
  | ⟨tag, body⟩ :: ss, h => by
    rw [Section.depthAll, Nat.max_eq_zero_iff, Nat.max_eq_zero_iff] at h
    rw [Section.settledAll, ElseTag.mapParts_of_depth h.1, Statement.settledAll_of_depth h.2.1,
      Section.settledAll_of_depth h.2.2]

end

end Concrete

end TemplateLint
