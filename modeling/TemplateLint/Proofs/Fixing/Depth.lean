import TemplateLint.Proofs.Fixing.Statement

namespace TemplateLint

open Text (size opens)

theorem pick_true {α : Type} (fixed : Option α) (kept : α) :
    pick true fixed kept = fixed.getD kept := by
  cases fixed <;> rfl

/-- One level for a place. -/
def level {α : Type} (place : Option α) : Nat := if place.isSome then 1 else 0

@[simp] theorem level_none {α : Type} : level (none : Option α) = 0 := rfl

@[simp] theorem level_some {α : Type} (a : α) : level (some a) = 1 := rfl

namespace Concrete

open NegatedCondition (Conditional)

/-- The choice of all places. -/
def everywhere (_ : Span) : Bool := true

variable (f : Fixers)

mutual

/-- How many places enclose each other in an expression at most. -/
def Expr.depth : Expr → Nat
  | .group call => level (f.unnegated? call) + Call.depth call
  | _ => 0

def Call.depth : Call → Nat
  | ⟨_, callee, args, _⟩ => max (Expr.depth callee) (Arg.depthAll args)

def Arg.depthAll : List Arg → Nat
  | [] => 0
  | ⟨_, _, value⟩ :: args => max (Expr.depth value) (Arg.depthAll args)

end

variable {f}

@[simp] theorem Expr.depth_word (w : List Char) : (Expr.word w).depth f = 0 := rfl

@[simp] theorem Arg.depthAll_nil : Arg.depthAll f [] = 0 := rfl

@[simp] theorem Arg.depthAll_cons (a : Arg) (as : List Arg) :
    Arg.depthAll f (a :: as) = max (a.value.depth f) (Arg.depthAll f as) := by
  cases a
  rfl

theorem Expr.depth_eq_zero {e : Expr} (h : e.isGroup = false) : e.depth f = 0 := by
  cases e with
  | group call => cases h
  | word w => rfl
  | quoted mark raw => rfl

theorem Arg.depthAll_join (lead : List Char) (e : Expr) (args : List Arg) :
    Arg.depthAll f (Arg.join lead e args) = max (e.depth f) (Arg.depthAll f args) := by
  unfold Arg.join
  split
  · next v w args => simp
  · next v key value args => simp
  · rfl

theorem Call.depth_join (lead : List Char) (e : Expr) (args : List Arg) (trail : List Char) :
    (Call.join lead e args trail).depth f = max (e.depth f) (Arg.depthAll f args) := by
  unfold Call.join
  split
  · next v w args trail => simp [Call.depth]
  · rfl

theorem depth_operand {e x : Expr} (h : operand? e = some x) : e.depth f = 0 ∧ x.depth f = 0 := by
  obtain ⟨lead, gap, trail, rfl, hx⟩ := eq_of_operand? h
  have hx := Expr.depth_eq_zero (f := f) hx
  have hnone : f.unnegated? ⟨lead, .word ['n', 'o', 't'], [⟨gap, none, x⟩], trail⟩ = none := by
    unfold Fixers.unnegated?
    have hcall : (Call.mk lead (.word ['n', 'o', 't']) [⟨gap, none, x⟩] trail).unnegated? = none := by
      unfold Call.unnegated? Call.negated?
      rfl
    rw [hcall, ite_self]
  exact ⟨by simp [Expr.depth, Call.depth, hnone, hx], hx⟩

theorem Call.depth_negated {c : Call} {n : Negated} (h : c.negated? = some n) :
    c.depth f = Arg.depthAll f n.rest ∧ n.operand.depth f = 0 := by
  obtain ⟨condition, hc, hh, ho⟩ := eq_of_negated? h
  obtain ⟨hcondition, hoperand⟩ := depth_operand (f := f) ho
  rw [hc, eq_of_helper? hh]
  exact ⟨by simp [Call.depth, hcondition, helperWord], hoperand⟩

theorem Call.depth_freed {c : Call} {n : Negated} (h : c.negated? = some n) (helper : Conditional) :
    (c.freed n (helperWord helper)).depth f = c.depth f := by
  obtain ⟨hc, hoperand⟩ := Call.depth_negated (f := f) h
  rw [Call.freed, Call.depth_join, Arg.depthAll_join, hoperand, hc]
  simp [helperWord]

theorem Arg.depthAll_append (as bs : List Arg) :
    Arg.depthAll f (as ++ bs) = max (Arg.depthAll f as) (Arg.depthAll f bs) := by
  induction as with
  | nil => simp
  | cons a as ih =>
    simp only [List.cons_append, Arg.depthAll_cons, ih]
    omega

theorem Call.depth_unnegated {c c' : Call} (h : c.unnegated? = some c') :
    c'.depth f = c.depth f := by
  obtain ⟨n, hn, ⟨v₁, v₂, -, hvs, rfl⟩ | ⟨v, vs, -, -, rfl⟩⟩ := eq_of_unnegated? h
  · obtain ⟨hc, hoperand⟩ := Call.depth_negated (f := f) hn
    obtain ⟨-, -, hh, -⟩ := eq_of_negated? hn
    have hrest := congrArg (Arg.depthAll f) (Arg.values_append_named n.rest)
    rw [Arg.depthAll_append, hvs] at hrest
    simp only [Arg.depthAll_cons, Arg.depthAll_nil] at hrest
    rw [Call.flipped, Call.depth_join, Arg.depthAll_join, Arg.depthAll_join, Arg.depthAll_join,
      hoperand, hc, eq_of_helper? hh, ← hrest]
    simp only [helperWord, Expr.depth_word]
    omega
  · exact Call.depth_freed hn _

theorem operand?_of_not_group {e : Expr} (h : e.isGroup = false) : operand? e = none := by
  cases e with
  | group call => cases h
  | word w => rfl
  | quoted mark raw => rfl

theorem negated?_join (lead gap trail : List Char) (callee : Expr) {e : Expr} (args : List Arg)
    (he : e.isGroup = false) :
    (Call.mk lead callee (Arg.join gap e args) trail).negated? = none := by
  have hnone : ∀ {e : Expr} (rest : List Arg) (gap : List Char), e.isGroup = false →
      (Call.mk lead callee (⟨gap, none, e⟩ :: rest) trail).negated? = none := by
    intro e rest gap he
    simp [Call.negated?, operand?_of_not_group he]
  unfold Arg.join
  split
  · exact hnone _ _ rfl
  · rfl
  · exact hnone _ _ he

theorem helper?_append (c : Conditional) {w : List Char} (hw : w ≠ []) :
    helper? (.word (c.helper.toList ++ w)) = none := by
  obtain ⟨d, w, rfl⟩ := List.exists_cons_of_ne_nil hw
  cases c with
  | whenTrue => rfl
  | whenFalse =>
    have hne : ∀ h : Conditional, Conditional.whenFalse.helper.toList ++ d :: w ≠ h.helper.toList := by
      intro h he
      have hlength := congrArg List.length he
      cases h <;> simp [Conditional.helper] at hlength
    simp only [helper?, if_neg (hne _)]

/-- With a condition that is no call, a call is not negated. -/
theorem negated?_joined {lead gap trail : List Char} {c : Conditional} {e : Expr} {args : List Arg}
    (he : e.isGroup = false) (hs : ∃ s, e.Stands s) :
    (Call.join lead (helperWord c) (Arg.join gap e args) trail).negated? = none := by
  have hnone := negated?_join lead gap trail (helperWord c) args he
  generalize hargs : Arg.join gap e args = as at hnone ⊢
  unfold Call.join
  split
  · next v w as hv =>
    obtain rfl : v = c.helper.toList := by
      cases hv
      rfl
    have hw : w ≠ [] := by
      obtain ⟨s, hs⟩ := hs
      unfold Arg.join at hargs
      split at hargs
      · next v' w' args' =>
        simp only [List.cons.injEq, Arg.mk.injEq, Expr.word.injEq, true_and] at hargs
        obtain ⟨⟨-, rfl⟩, -⟩ := hargs
        simp [hs.1.1]
      · simp at hargs
      · simp only [List.cons.injEq, Arg.mk.injEq, true_and] at hargs
        obtain ⟨⟨-, rfl⟩, -⟩ := hargs
        exact hs.1.1
    unfold Call.negated?
    split
    · next hcall =>
      cases hcall
      simp [helper?_append c hw]
    · rfl
  · exact hnone

theorem Call.Stands.negated?_freed {c : Call} {rest : List Char} (h : c.Stands rest) {n : Negated}
    (hn : c.negated? = some n) (helper : Conditional) :
    (c.freed n (helperWord helper)).negated? = none := by
  obtain ⟨-, -, -, hoperand, -⟩ := h.negated hn
  obtain ⟨condition, -, -, ho⟩ := eq_of_negated? hn
  obtain ⟨-, -, -, -, hgroup⟩ := eq_of_operand? ho
  exact negated?_joined hgroup ⟨_, hoperand⟩

theorem Call.Stands.negated?_unnegated {c c' : Call} {rest : List Char} (h : c.Stands rest)
    (hc : c.unnegated? = some c') : c'.negated? = none := by
  obtain ⟨n, hn, ⟨v₁, v₂, -, -, rfl⟩ | ⟨v, vs, -, -, rfl⟩⟩ := eq_of_unnegated? hc
  · obtain ⟨-, -, -, hoperand, -⟩ := h.negated hn
    obtain ⟨condition, -, hh, ho⟩ := eq_of_negated? hn
    obtain ⟨-, -, -, -, hgroup⟩ := eq_of_operand? ho
    rw [Call.flipped, eq_of_helper? hh]
    exact negated?_joined hgroup ⟨_, hoperand⟩
  · exact h.negated?_freed hn _

theorem unnegated?_isSome {c : Call} :
    c.unnegated?.isSome ↔ ∃ n, c.negated? = some n ∧
      ((Arg.values n.rest).length = 1 ∨ (Arg.values n.rest).length = 2) := by
  unfold Call.unnegated?
  cases c.negated? with
  | none => simp
  | some n =>
    simp only [Option.bind_some, Option.some.injEq, exists_eq_left']
    unfold Call.without?
    rcases Arg.values n.rest with _ | ⟨v₁, _ | ⟨v₂, _ | ⟨v₃, vs⟩⟩⟩ <;> cases n.helper <;> simp

theorem Arg.length_values_edit (f : Fixers) (g : Span → Bool) (k : Nat) (as : List Arg) :
    (Arg.values (Arg.editAll f g k as)).length = (Arg.values as).length := by
  induction as generalizing k with
  | nil => rfl
  | cons a as ih =>
    obtain ⟨lead, key, value⟩ := a
    cases key with
    | some key => rfl
    | none =>
      show (Arg.values _).length + 1 = (Arg.values as).length + 1
      rw [ih]

/-- A call without its negation is no negation either. -/
theorem callee_unnegated {c c' : Call} (h : c.unnegated? = some c') :
    ∃ d w, c'.callee = .word (d :: w) ∧ d ≠ 'n' := by
  have hjoin : ∀ (helper : Conditional) lead args trail, ∃ d w,
      (Call.join lead (helperWord helper) args trail).callee = .word (d :: w) ∧ d ≠ 'n' := by
    intro helper lead args trail
    unfold Call.join
    split
    · next v w args hv =>
      cases hv
      cases helper
      · exact ⟨'i', 'f' :: w, rfl, by decide⟩
      · exact ⟨'u', _, rfl, by decide⟩
    · cases helper
      · exact ⟨'i', ['f'], rfl, by decide⟩
      · exact ⟨'u', _, rfl, by decide⟩
  obtain ⟨n, hn, ⟨v₁, v₂, -, -, rfl⟩ | ⟨v, vs, -, -, rfl⟩⟩ := eq_of_unnegated? h
  · obtain ⟨condition, -, hh, -⟩ := eq_of_negated? hn
    rw [Call.flipped, eq_of_helper? hh]
    exact hjoin _ _ _ _
  · exact hjoin _ _ _ _

variable (f) (g : Span → Bool)

theorem Expr.isGroup_edit (e : Expr) (k : Nat) : (e.edit f g k).isGroup = e.isGroup := by
  cases e with
  | word w => rfl
  | quoted mark raw => rfl
  | group call =>
    apply pick_induction (p := fun e : Expr => e.isGroup = true)
    · intro e he
      obtain ⟨c, -, rfl⟩ := Option.map_eq_some_iff.1 he
      rfl
    · rfl

theorem Expr.eq_word_of_edit {e : Expr} {k : Nat} {w : List Char}
    (h : e.edit f g k = .word w) : e = .word w := by
  have hgroup := e.isGroup_edit f g k
  cases e with
  | word w' => exact h
  | quoted mark raw => cases h
  | group call =>
    rw [h] at hgroup
    cases hgroup

/-- Fixes inside of an expression do not make it a negation. -/
theorem operand?_edit {e x : Expr} {k : Nat} (h : operand? (e.edit f g k) = some x) :
    ∃ y, operand? e = some y := by
  obtain ⟨lead, gap, trail, he, hx⟩ := eq_of_operand? h
  cases e with
  | word w => cases he
  | quoted mark raw => cases he
  | group call =>
    rw [Expr.edit] at he
    revert he
    apply pick_induction (p := fun e : Expr => e = .group ⟨lead, .word ['n', 'o', 't'],
      [⟨gap, none, x⟩], trail⟩ → ∃ y, operand? (.group call) = some y)
    · rintro e hfixed rfl
      obtain ⟨c, hc, hcall⟩ := Option.map_eq_some_iff.1 hfixed
      obtain ⟨d, w, hw, hd⟩ := callee_unnegated (Fixers.eq_of_unnegated? hc).2
      cases hcall
      cases hw
      exact absurd rfl hd
    · intro he
      obtain ⟨l, callee, args, t⟩ := call
      simp only [Call.edit, Expr.group.injEq, Call.mk.injEq] at he
      obtain ⟨-, hcallee, hargs, -⟩ := he
      obtain rfl := Expr.eq_word_of_edit f g hcallee
      match args, hargs with
      | [⟨gap', key, value⟩], hargs =>
        simp only [Arg.editAll, List.cons.injEq, Arg.mk.injEq, and_true] at hargs
        obtain ⟨-, rfl, rfl⟩ := hargs
        rw [Expr.isGroup_edit] at hx
        exact ⟨value, by simp [operand?, hx]⟩
      | ⟨_, _, _⟩ :: ⟨_, _, _⟩ :: _, hargs => simp [Arg.editAll] at hargs

theorem Call.negated?_edit {c : Call} {k : Nat} {n : Negated}
    (h : (c.edit f g k).negated? = some n) :
    ∃ m, c.negated? = some m ∧ m.helper = n.helper ∧
      (Arg.values m.rest).length = (Arg.values n.rest).length := by
  obtain ⟨condition, hc, hh, ho⟩ := eq_of_negated? h
  obtain ⟨lead, callee, args, trail⟩ := c
  simp only [Call.edit, Call.mk.injEq, true_and] at hc hh
  obtain ⟨hargs, -⟩ := hc
  have hcallee := Expr.eq_word_of_edit f g (eq_of_helper? hh)
  match args, hargs with
  | ⟨gap, key, value⟩ :: rest, hargs =>
    simp only [Arg.editAll, List.cons.injEq, Arg.mk.injEq] at hargs
    obtain ⟨⟨-, rfl, rfl⟩, hrest⟩ := hargs
    obtain ⟨y, hy⟩ := operand?_edit f g ho
    refine ⟨⟨n.helper, gap, y, rest⟩, ?_, rfl, ?_⟩
    · have hhelper : helper? callee = some n.helper := by
        rw [hcallee]
        cases n.helper <;> rfl
      simp [Call.negated?, hhelper, hy]
    · rw [← hrest, Arg.length_values_edit]

theorem Call.unnegated?_edit {c : Call} {k : Nat} (h : f.unnegated? c = none) :
    f.unnegated? (c.edit f g k) = none := by
  unfold Fixers.unnegated? at h ⊢
  cases hf : f.conditions with
  | false => rfl
  | true =>
    simp only [hf, if_true] at h ⊢
    rw [← Option.not_isSome_iff_eq_none] at h ⊢
    intro hs
    apply h
    obtain ⟨n, hn, hvs⟩ := unnegated?_isSome.1 hs
    obtain ⟨m, hm, -, hlength⟩ := Call.negated?_edit f g hn
    exact unnegated?_isSome.2 ⟨m, hm, by rwa [hlength]⟩

variable {f g}

theorem Fixers.unnegated?_unnegated {c c' : Call} {rest : List Char} (h : c.Stands rest)
    (hc : c.unnegated? = some c') : f.unnegated? c' = none := by
  unfold Fixers.unnegated? Call.unnegated?
  rw [h.negated?_unnegated hc]
  exact ite_self _

mutual

/-- With all of its fixes applied an expression is nested one level less. -/
theorem Expr.Stands.depth_edit : ∀ {e : Expr} {s : List Char}, e.Stands s → ∀ k : Nat,
    (e.edit f everywhere k).depth f = e.depth f - 1
  | .word _, _, _, _ => rfl
  | .quoted _ _, _, _, _ => rfl
  | .group call, _, h, k => by
    rw [Expr.Stands] at h
    rw [Expr.edit, everywhere, pick_true]
    cases hc : f.unnegated? call with
    | none =>
      have hcall := Call.Stands.depth_edit h (k + 1)
      simp [Expr.depth, Call.unnegated?_edit f everywhere hc, hc, hcall]
    | some c =>
      obtain ⟨-, hc'⟩ := Fixers.eq_of_unnegated? hc
      simp [Expr.depth, Fixers.unnegated?_unnegated h hc', hc, Call.depth_unnegated hc']

theorem Call.Stands.depth_edit : ∀ {c : Call} {s : List Char}, c.Stands s → ∀ k : Nat,
    (c.edit f everywhere k).depth f = c.depth f - 1
  | ⟨lead, callee, args, trail⟩, _, h, k => by
    obtain ⟨-, hcallee, hargs, -⟩ := h
    have h₁ := Expr.Stands.depth_edit hcallee (k + size lead)
    have h₂ := Arg.AllStand.depth_edit hargs (k + size lead + size callee.chars)
    simp only [Call.edit, Call.depth, h₁, h₂]
    omega

theorem Arg.AllStand.depth_edit : ∀ {as : List Arg} {named : Bool} {s : List Char},
    Arg.AllStand named as s → ∀ k : Nat,
      Arg.depthAll f (Arg.editAll f everywhere k as) = Arg.depthAll f as - 1
  | [], _, _, _, _ => rfl
  | ⟨lead, none, value⟩ :: args, _, _, h, k => by
    obtain ⟨-, -, hv, hargs⟩ := h
    have h₁ := Expr.Stands.depth_edit hv (k + size (lead ++ keyChars none))
    have h₂ := Arg.AllStand.depth_edit hargs
      (k + size (lead ++ keyChars none) + size value.chars)
    simp only [Arg.editAll, Arg.depthAll, h₁, h₂]
    omega
  | ⟨lead, some key, value⟩ :: args, _, _, h, k => by
    obtain ⟨-, -, hv, hargs⟩ := h
    have h₁ := Expr.Stands.depth_edit hv (k + size (lead ++ keyChars (some key)))
    have h₂ := Arg.AllStand.depth_edit hargs
      (k + size (lead ++ keyChars (some key)) + size value.chars)
    simp only [Arg.editAll, Arg.depthAll, h₁, h₂]
    omega

end

variable (f)

def Mustache.depth (m : Mustache) : Nat := level (f.unnegated? m.call) + m.call.depth f

def Part.depthAll : List Part → Nat
  | [] => 0
  | .text _ :: ps => Part.depthAll ps
  | .mustache m :: ps => max (m.depth f) (Part.depthAll ps)

def AttrValue.depth : AttrValue → Nat
  | .quoted _ parts => Part.depthAll f parts
  | .mustache m => m.depth f
  | .bare _ => 0

def Attribute.depth (a : Attribute) : Nat := (a.assigned.map fun v => v.value.depth f).getD 0

/-- An argument that becomes a modifier encloses the places that the modifier has. -/
def Item.depth (t : OpeningTag) : Item → Nat
  | .attribute a =>
    match f.change? t a with
    | none => a.depth f
    | some (.name _) => max 1 (a.depth f)
    | some (.whole text) =>
      match modifier? text with
      | some (.modifier m) => 1 + m.call.depth f
      | _ => 1
  | .modifier m => m.call.depth f
  | _ => 0

def Spaced.depthAll (t : OpeningTag) : List Spaced → Nat
  | [] => 0
  | s :: ss => max (s.item.depth f t) (Spaced.depthAll t ss)

def OpeningTag.depth (t : OpeningTag) : Nat := Spaced.depthAll f t t.items

variable {f}

theorem Mustache.Stands.depth_edit {m : Mustache} (h : m.Stands) (k : Nat) :
    (m.edit f everywhere k).depth f = m.depth f - 1 := by
  rw [Mustache.edit, everywhere, pick_true]
  cases hc : f.unnegated? m.call with
  | none =>
    have hcall := Call.Stands.depth_edit (f := f) h (k + size m.opening)
    simp [Mustache.depth, Mustache.editInner, Mustache.withCall,
      Call.unnegated?_edit f everywhere hc, hc, hcall]
  | some c =>
    obtain ⟨-, hc'⟩ := Fixers.eq_of_unnegated? hc
    simp [Mustache.depth, Mustache.withCall, Fixers.unnegated?_unnegated h hc', hc,
      Call.depth_unnegated hc']

theorem Part.AllStand.depth_edit {mark : Char} {ps : List Part} (h : Part.AllStand mark ps)
    (k : Nat) : Part.depthAll f (Part.editAll f everywhere k ps) = Part.depthAll f ps - 1 := by
  induction ps generalizing k with
  | nil => rfl
  | cons p ps ih =>
    cases p with
    | text cs => exact ih h.2.2.2 _
    | mustache m =>
      have hm := h.1.depth_edit (f := f) k
      have hps := ih h.2 (k + size m.chars)
      simp only [Part.editAll, Part.depthAll, hm, hps]
      omega

theorem AttrValue.Stands.depth_edit {v : AttrValue} {rest : List Char} (h : v.Stands rest)
    (k : Nat) : (v.edit f everywhere k).depth f = v.depth f - 1 := by
  cases v with
  | quoted mark parts => exact h.2.depth_edit _
  | mustache m => exact Mustache.Stands.depth_edit h k
  | bare cs => rfl

theorem Attribute.Stands.depth_edit {a : Attribute} {rest : List Char} (h : a.Stands rest)
    (k : Nat) : (a.editValue f everywhere k).depth f = a.depth f - 1 := by
  obtain ⟨name, assigned⟩ := a
  cases assigned with
  | none => rfl
  | some v =>
    obtain ⟨-, -, -, -, hv⟩ := h
    exact hv.depth_edit _

theorem AttrValue.handler?_edit (v : AttrValue) (k : Nat) :
    (v.edit f g k).handler?.isSome = v.handler?.isSome := by
  cases v <;> rfl

/-- A name that arguments become stays where it is. -/
theorem hasName_edit {t : OpeningTag} {ss : List Spaced} {name : String} {k : Nat}
    (hn : isPlainName name.toList = true) (h : (ss.any fun s => s.item.hasName name) = true) :
    ((Spaced.editAll f g t k ss).any fun s => s.item.hasName name) = true := by
  induction ss generalizing k with
  | nil => cases h
  | cons s ss ih =>
    obtain ⟨lead, item⟩ := s
    simp only [List.any_cons, Bool.or_eq_true, Spaced.editAll] at h ⊢
    rcases h with h | h
    · left
      cases item with
      | modifier m => cases h
      | note n => cases h
      | params p => cases h
      | «attribute» a =>
        have hname : a.name = name.toList := by
          have he : String.ofList a.name = name := by simpa [Item.hasName] using h
          rw [← he, String.toList_ofList]
        have hnone : f.change? t a = none := by
          cases hc : f.change? t a with
          | none => rfl
          | some c =>
            obtain ⟨⟨rest, hat⟩, -⟩ := eq_of_change? (Fixers.eq_of_change? hc).2
            rw [← hname, hat] at hn
            exact absurd hn (by simp [isPlainName])
        simp only [Item.edit, hnone]
        exact h
    · exact Or.inr (ih h)

theorem change?_named {t : OpeningTag} {a : Attribute} {name : List Char}
    (hn : isPlainName name = true) : f.change? t (a.named name) = none := by
  cases hc : f.change? t (a.named name) with
  | none => rfl
  | some c =>
    obtain ⟨⟨rest, hat⟩, -⟩ := eq_of_change? (Fixers.eq_of_change? hc).2
    have hat : name = '@' :: rest := hat
    rw [hat] at hn
    exact absurd hn (by simp [isPlainName])

/-- An attribute for which there is no fix does not get one. -/
theorem change?_edit {t : OpeningTag} {a : Attribute} {j k : Nat} (h : f.change? t a = none) :
    f.change? (t.edit f g j) (a.editValue f g k) = none := by
  unfold Fixers.change? at h ⊢
  cases hf : f.arguments with
  | false => rfl
  | true =>
    simp only [hf, if_true, OpeningTag.change?_eq] at h ⊢
    rw [show (t.edit f g j).migration? (a.editValue f g k) = t.migration? a from rfl]
    cases hm : t.migration? a with
    | none => rfl
    | some migration =>
      rw [hm, Option.bind_some] at h
      rw [Option.bind_some]
      cases migration with
      | «attribute» name =>
        have hplain := (Bool.and_eq_true_iff.1 (OpeningTag.eq_of_migration? hm).2).1
        simp only [OpeningTag.changeBy?, ite_eq_left_iff, reduceCtorEq, imp_false,
          Bool.not_eq_true, Bool.not_eq_false] at h ⊢
        exact hasName_edit hplain h
      | event name =>
        obtain ⟨attr, assigned⟩ := a
        cases assigned with
        | none => rfl
        | some v =>
          have hv := v.value.handler?_edit (f := f) (g := g)
            (k + size attr + size (v.before ++ ['='] ++ v.after))
          have hnone : v.value.handler? = none := Option.map_eq_none_iff.1 h
          rw [hnone, Option.isSome_none, Option.isSome_eq_false_iff, Option.isNone_iff_eq_none] at hv
          exact Option.map_eq_none_iff.2 hv

/-- With all fixes applied a tag has no argument left that is to change. -/
theorem Item.reads_edit {t : OpeningTag} {i : Item} (h : i.reads f t = true) (j k : Nat) :
    (i.edit f everywhere t k).reads f (t.edit f everywhere j) = true := by
  match i with
  | .attribute a =>
    cases hc : f.change? t a with
    | none => simp [Item.edit, hc, Attribute.edit, Item.reads, change?_edit hc]
    | some c =>
      obtain ⟨-, ⟨new, rfl, hplain, -⟩ | ⟨s, rfl⟩⟩ := eq_of_change? (Fixers.eq_of_change? hc).2
      · simp [Item.edit, hc, Attribute.edit, Item.reads, everywhere, pick_true, change?_named hplain]
      · obtain ⟨i, hi⟩ := Option.isSome_iff_exists.1 (Item.reads_attribute h hc)
        obtain ⟨m, rfl, -, -⟩ := eq_of_modifier? hi
        simp [Item.edit, hc, Attribute.edit, everywhere, pick_true, hi, Item.reads]
  | .modifier m => rfl
  | .note n => rfl
  | .params p => rfl

theorem Item.Stands.depth_edit {t : OpeningTag} {i : Item} {rest : List Char} (h : i.Stands rest)
    (hr : i.reads f t = true) (j k : Nat) :
    (i.edit f everywhere t k).depth f (t.edit f everywhere j) = i.depth f t - 1 := by
  match i, h with
  | .attribute a, ha =>
    have hvalue := Attribute.Stands.depth_edit (f := f) ha k
    cases hc : f.change? t a with
    | none => simp [Item.edit, hc, Attribute.edit, Item.depth, change?_edit hc, hvalue]
    | some c =>
      obtain ⟨-, ⟨new, rfl, hplain, -⟩ | ⟨s, rfl⟩⟩ := eq_of_change? (Fixers.eq_of_change? hc).2
      · have hnamed : ((a.editValue f everywhere k).named new).depth f = a.depth f - 1 := hvalue
        simp only [Item.edit, hc, Attribute.edit, everywhere, pick_true, Item.depth,
          Option.getD_some, change?_named hplain]
        rw [hnamed]
        omega
      · have hreads := Item.reads_attribute hr hc
        obtain ⟨i, hi⟩ := Option.isSome_iff_exists.1 hreads
        obtain ⟨m, rfl, -, -⟩ := eq_of_modifier? hi
        simp [Item.edit, hc, Attribute.edit, everywhere, pick_true, Item.depth, hi]
  | .modifier m, hm => exact Call.Stands.depth_edit hm.1 _
  | .note n, _ => rfl
  | .params p, _ => rfl

theorem Spaced.AllStand.depth_edit {t : OpeningTag} {ss : List Spaced} {rest : List Char}
    (h : Spaced.AllStand ss rest) (hr : ∀ s ∈ ss, s.item.reads f t = true) (j k : Nat) :
    Spaced.depthAll f (t.edit f everywhere j) (Spaced.editAll f everywhere t k ss) =
      Spaced.depthAll f t ss - 1 := by
  induction ss generalizing k with
  | nil => rfl
  | cons s ss ih =>
    obtain ⟨-, hitem, hss⟩ := h
    have h₁ := hitem.depth_edit (hr s (by simp)) j (k + size s.lead)
    have h₂ := ih hss (fun s hs => hr s (List.mem_cons_of_mem _ hs)) (k + size s.chars)
    simp only [Spaced.editAll, Spaced.depthAll, h₁, h₂]
    omega

theorem OpeningTag.Stands.depth_edit {t : OpeningTag} (h : t.Stands) (hr : t.reads f = true)
    (k : Nat) : (t.edit f everywhere k).depth f = t.depth f - 1 :=
  h.2.2.2.1.depth_edit (List.all_eq_true.1 hr) k _

theorem Spaced.reads_edit {t : OpeningTag} {ss : List Spaced}
    (h : ∀ s ∈ ss, s.item.reads f t = true) (j k : Nat) :
    (Spaced.editAll f everywhere t k ss).all (fun s => s.item.reads f (t.edit f everywhere j)) =
      true := by
  induction ss generalizing k with
  | nil => rfl
  | cons s ss ih =>
    simp only [Spaced.editAll, List.all_cons, Bool.and_eq_true]
    exact ⟨Item.reads_edit (h s (by simp)) j _,
      ih (fun s hs => h s (List.mem_cons_of_mem _ hs)) _⟩

theorem OpeningTag.reads_edit {t : OpeningTag} (h : t.reads f = true) (k : Nat) :
    (t.edit f everywhere k).reads f = true := Spaced.reads_edit (List.all_eq_true.1 h) k _

variable (f)

def ElseTag.depth (t : ElseTag) : Nat :=
  match t.tail with
  | .plain _ _ => 0
  | .chained call _ => call.depth f

mutual

/-- How many places enclose each other in a statement at most. -/
def Statement.depth : Statement → Nat
  | .mustache m => m.depth f
  | .block opening program sections closing =>
    level (f.unnegatedBlock? (.block opening program sections closing)) +
      max (opening.call.depth f) (max (Statement.depthAll program) (Section.depthAll sections))
  | .whole opening => opening.depth f
  | .element opening children _ => max (opening.depth f) (Statement.depthAll children)
  | _ => 0

def Statement.depthAll : List Statement → Nat
  | [] => 0
  | s :: ss => max (Statement.depth s) (Statement.depthAll ss)

def Section.depthAll : List Section → Nat
  | [] => 0
  | ⟨tag, body⟩ :: ss =>
    max (tag.depth f) (max (Statement.depthAll body) (Section.depthAll ss))

end

variable {f}

theorem BlockTag.call_withCall (t : BlockTag) (c : Call) : (t.withCall c).call = c := rfl

theorem BlockTag.negated?_freed {t : BlockTag} (h : t.Stands) {n : Negated}
    (hn : t.negated? = some n) (helper : Conditional) :
    (t.withCall (t.call.freed n (helperWord helper))).negated? = none := by
  unfold BlockTag.negated?
  rw [show (t.withCall (t.call.freed n (helperWord helper))).call =
    t.call.freed n (helperWord helper) from rfl,
    h.1.negated?_freed (eq_of_blockNegated? hn).1]
  rfl

theorem unnegatedBlock?_of_negated? {opening : BlockTag} (program : List Statement)
    (sections : List Section) (closing : CloseTag) (h : opening.negated? = none) :
    f.unnegatedBlock? (.block opening program sections closing) = none := by
  have hnone : (Statement.block opening program sections closing).unnegated? = none := by
    simp [Statement.unnegated?, h]
  rw [Fixers.unnegatedBlock?, hnone, ite_self]

/-- A block without its negation is no place, and it encloses what the block did. -/
theorem Statement.Stands.depth_unnegated {s s' : Statement} {rest : List Char} (h : s.Stands rest)
    (hs : f.unnegatedBlock? s = some s') : s'.depth f = s.depth f - 1 := by
  obtain ⟨-, hs'⟩ := Fixers.eq_of_unnegatedBlock? hs
  match s, h with
  | .block opening program sections closing, h =>
    obtain ⟨hopening, -⟩ := h
    obtain ⟨n, hn, ⟨tilde, lead, trail, after, body, more, -, rfl, rfl⟩ | rfl⟩ :=
      eq_of_blockUnnegated? hs'
    · have hcall := Call.depth_freed (f := f) (eq_of_blockNegated? hn).1 n.helper
      simp only [Statement.depth, hs, level_some,
        unnegatedBlock?_of_negated? _ _ _ (BlockTag.negated?_freed hopening hn n.helper), level_none,
        BlockTag.call_withCall, hcall, Section.depthAll, ElseTag.depth]
      omega
    · have hcall := Call.depth_freed (f := f) (eq_of_blockNegated? hn).1 n.helper.flip
      simp only [Statement.depth, hs, level_some,
        unnegatedBlock?_of_negated? _ _ _ (BlockTag.negated?_freed hopening hn n.helper.flip),
        level_none, BlockTag.call_withCall, hcall]
      omega

theorem BlockTag.negated?_edit {t : BlockTag} {k : Nat} {n : Negated}
    (h : (t.edit f g k).negated? = some n) : ∃ m, t.negated? = some m ∧ m.helper = n.helper := by
  obtain ⟨hn, hvs⟩ := eq_of_blockNegated? h
  obtain ⟨m, hm, hhelper, hlength⟩ := Call.negated?_edit f g hn
  refine ⟨m, ?_, hhelper⟩
  rw [hvs] at hlength
  have hvs' : Arg.values m.rest = [] := List.eq_nil_of_length_eq_zero hlength
  simp [BlockTag.negated?, hm, hvs']

/-- A block for which there is no fix does not get one. -/
theorem unnegatedBlock?_edit {opening : BlockTag} {program : List Statement}
    {sections : List Section} {closing : CloseTag} (i j k : Nat)
    (h : f.unnegatedBlock? (.block opening program sections closing) = none) :
    f.unnegatedBlock? (.block (opening.edit f g i) (Statement.editAll f g j program)
      (Section.editAll f g k sections) closing) = none := by
  unfold Fixers.unnegatedBlock? at h ⊢
  cases hf : f.conditions with
  | false => rfl
  | true =>
    simp only [hf, if_true] at h ⊢
    cases hn : (opening.edit f g i).negated? with
    | none => simp [Statement.unnegated?, hn]
    | some n =>
      obtain ⟨m, hm, hhelper⟩ := BlockTag.negated?_edit hn
      rw [Statement.unnegated?_eq hm] at h
      rw [Statement.unnegated?_eq hn]
      unfold BlockTag.without? at h ⊢
      rw [hhelper] at h
      cases sections with
      | nil => cases hh : n.helper <;> simp [hh] at h
      | cons first more =>
        obtain ⟨⟨tilde, lead, tail⟩, body⟩ := first
        cases tail with
        | plain trail after => cases hh : n.helper <;> simp [hh] at h
        | chained call ending =>
          cases hh : n.helper with
          | whenTrue => rfl
          | whenFalse => simp [hh] at h

theorem ElseTag.Stands.depth_edit {t : ElseTag} (h : t.Stands) (k : Nat) :
    (t.edit f everywhere k).depth f = t.depth f - 1 := by
  obtain ⟨tilde, lead, tail⟩ := t
  cases tail with
  | plain trail after => rfl
  | chained call ending => exact Call.Stands.depth_edit h.2.2.1 _

mutual

/-- With all of its fixes applied a statement is nested one level less. -/
theorem Statement.Stands.depth_edit : ∀ {s : Statement} {rest : List Char}, s.Stands rest →
    s.reads f = true → ∀ k : Nat, (s.edit f everywhere k).depth f = s.depth f - 1
  | .text _, _, _, _, _ => rfl
  | .comment _, _, _, _, _ => rfl
  | .note _, _, _, _, _ => rfl
  | .mustache m, _, h, _, k => h.1.depth_edit k
  | .block opening program sections closing, rest, h, hr, k => by
    simp only [Statement.reads, Bool.and_eq_true] at hr
    rw [Statement.edit, everywhere, pick_true]
    cases hs : f.unnegatedBlock? (.block opening program sections closing) with
    | some s' => exact Statement.Stands.depth_unnegated h hs
    | none =>
      obtain ⟨hopening, hprogram, hsections, -⟩ := h
      have h₁ : (opening.edit f everywhere k).call.depth f = opening.call.depth f - 1 :=
        Call.Stands.depth_edit hopening.1 _
      have h₂ := Statement.AllStand.depth_edit hprogram hr.1.2 (k + size opening.chars)
      have h₃ := Section.AllStand.depth_edit hsections hr.2
        (k + size opening.chars + size (Statement.charsAll program))
      simp only [Option.getD_none, Statement.depth, unnegatedBlock?_edit _ _ _ hs, hs, level_none,
        h₁, h₂, h₃]
      omega
  | .whole opening, _, h, hr, k => h.1.depth_edit hr k
  | .element opening children closing, _, h, hr, k => by
    simp only [Statement.reads, Bool.and_eq_true] at hr
    obtain ⟨hopening, -, hchildren, -⟩ := h
    have h₁ := hopening.depth_edit hr.1 k
    have h₂ := Statement.AllStand.depth_edit hchildren hr.2 (k + size opening.chars)
    simp only [Statement.edit, Statement.depth, h₁, h₂]
    omega

theorem Statement.AllStand.depth_edit : ∀ {ss : List Statement} {rest : List Char},
    Statement.AllStand ss rest → Statement.readsAll f ss = true → ∀ k : Nat,
      Statement.depthAll f (Statement.editAll f everywhere k ss) = Statement.depthAll f ss - 1
  | [], _, _, _, _ => rfl
  | s :: ss, _, h, hr, k => by
    simp only [Statement.readsAll, Bool.and_eq_true] at hr
    have h₁ := Statement.Stands.depth_edit h.1 hr.1 k
    have h₂ := Statement.AllStand.depth_edit h.2 hr.2 (k + size s.chars)
    simp only [Statement.editAll, Statement.depthAll, h₁, h₂]
    omega

theorem Section.AllStand.depth_edit : ∀ {ss : List Section} {rest : List Char},
    Section.AllStand ss rest → Section.readsAll f ss = true → ∀ k : Nat,
      Section.depthAll f (Section.editAll f everywhere k ss) = Section.depthAll f ss - 1
  | [], _, _, _, _ => rfl
  | ⟨tag, body⟩ :: ss, _, h, hr, k => by
    simp only [Section.readsAll, Bool.and_eq_true] at hr
    obtain ⟨htag, hbody, -, hss⟩ := h
    have h₁ := htag.depth_edit (f := f) k
    have h₂ := Statement.AllStand.depth_edit hbody hr.1 (k + size tag.chars)
    have h₃ := Section.AllStand.depth_edit hss hr.2
      (k + size tag.chars + size (Statement.charsAll body))
    simp only [Section.editAll, Section.depthAll, h₁, h₂, h₃]
    omega

end

theorem joins_of_unnegatedBlock? {b : Bool} (hb : b = true → f.conditions = true)
    {s : Statement} (h : f.unnegatedBlock? s = none) : (b && s.joins) = false := by
  cases b with
  | false => rfl
  | true =>
    have hnone : s.unnegated? = none := by simpa [Fixers.unnegatedBlock?, hb rfl] using h
    cases s <;> simp [Statement.joins, hnone]

variable {b : Bool}

mutual

/-- With all of its fixes applied a statement has only fixes that are read as they are meant, if it
had no others, with the joined conditions counted or not. -/
theorem Statement.Stands.reads_edit (hb : b = true → f.conditions = true) :
    ∀ {s : Statement} {rest : List Char}, s.Stands rest → s.reads ⟨b, f.arguments⟩ = true →
      ∀ k : Nat, (s.edit f everywhere k).reads ⟨b, f.arguments⟩ = true
  | .text _, _, _, _, _ => rfl
  | .comment _, _, _, _, _ => rfl
  | .note _, _, _, _, _ => rfl
  | .mustache _, _, _, _, _ => rfl
  | .block opening program sections closing, rest, h, hr, k => by
    simp only [Statement.reads, Bool.and_eq_true] at hr
    obtain ⟨⟨-, hrp⟩, hrs⟩ := hr
    rw [Statement.edit, everywhere, pick_true]
    cases hs : f.unnegatedBlock? (.block opening program sections closing) with
    | some s' =>
      obtain ⟨-, hs'⟩ := Fixers.eq_of_unnegatedBlock? hs
      obtain ⟨hopening, -⟩ := h
      obtain ⟨n, hn, ⟨tilde, lead, trail, after, body, more, -, rfl, rfl⟩ | rfl⟩ :=
        eq_of_blockUnnegated? hs'
      · have hnone := joins_of_unnegatedBlock? hb (unnegatedBlock?_of_negated? (f := f)
          body (⟨⟨tilde, lead, .plain trail after⟩, program⟩ :: more) closing
            (BlockTag.negated?_freed hopening hn n.helper))
        simp only [Section.readsAll, Bool.and_eq_true] at hrs
        simp [Statement.reads, hnone, hrp, hrs, Section.readsAll]
      · have hnone := joins_of_unnegatedBlock? hb (unnegatedBlock?_of_negated? (f := f)
          program sections (closing.withName n.helper.flip.helper.toList)
          (BlockTag.negated?_freed hopening hn n.helper.flip))
        simp [Statement.reads, hnone, hrp, hrs]
    | none =>
      obtain ⟨-, hprogram, hsections, -⟩ := h
      have hnone := joins_of_unnegatedBlock? hb (unnegatedBlock?_edit (g := everywhere) k
        (k + size opening.chars) (k + size opening.chars + size (Statement.charsAll program)) hs)
      have h₂ := Statement.AllStand.reads_edit hb hprogram hrp (k + size opening.chars)
      have h₃ := Section.AllStand.reads_edit hb hsections hrs
        (k + size opening.chars + size (Statement.charsAll program))
      simp [Statement.reads, hnone, h₂, h₃]
  | .whole opening, _, _, hr, k => OpeningTag.reads_edit (f := f) hr k
  | .element opening children closing, _, h, hr, k => by
    simp only [Statement.reads, Bool.and_eq_true] at hr
    obtain ⟨-, -, hchildren, -⟩ := h
    have h₁ : (opening.edit f everywhere k).reads ⟨b, f.arguments⟩ = true :=
      OpeningTag.reads_edit (f := f) hr.1 k
    have h₂ := Statement.AllStand.reads_edit hb hchildren hr.2 (k + size opening.chars)
    simp [Statement.edit, Statement.reads, h₁, h₂]

theorem Statement.AllStand.reads_edit (hb : b = true → f.conditions = true) :
    ∀ {ss : List Statement} {rest : List Char}, Statement.AllStand ss rest →
      Statement.readsAll ⟨b, f.arguments⟩ ss = true →
        ∀ k : Nat, Statement.readsAll ⟨b, f.arguments⟩ (Statement.editAll f everywhere k ss) = true
  | [], _, _, _, _ => rfl
  | s :: ss, _, h, hr, k => by
    simp only [Statement.readsAll, Bool.and_eq_true] at hr
    have h₁ := Statement.Stands.reads_edit hb h.1 hr.1 k
    have h₂ := Statement.AllStand.reads_edit hb h.2 hr.2 (k + size s.chars)
    simp [Statement.editAll, Statement.readsAll, h₁, h₂]

theorem Section.AllStand.reads_edit (hb : b = true → f.conditions = true) :
    ∀ {ss : List Section} {rest : List Char}, Section.AllStand ss rest →
      Section.readsAll ⟨b, f.arguments⟩ ss = true →
        ∀ k : Nat, Section.readsAll ⟨b, f.arguments⟩ (Section.editAll f everywhere k ss) = true
  | [], _, _, _, _ => rfl
  | ⟨tag, body⟩ :: ss, _, h, hr, k => by
    simp only [Section.readsAll, Bool.and_eq_true] at hr
    obtain ⟨-, hbody, -, hss⟩ := h
    have h₁ := Statement.AllStand.reads_edit hb hbody hr.1 (k + size tag.chars)
    have h₂ := Section.AllStand.reads_edit hb hss hr.2
      (k + size tag.chars + size (Statement.charsAll body))
    simp [Section.editAll, Section.readsAll, h₁, h₂]

end

theorem level_eq_zero {α : Type} {place : Option α} : level place = 0 ↔ place = none := by
  cases place <;> simp

theorem placed_fixes_eq_nil {d : Draft} {r : Option (List Char)} {k : Nat} :
    (d.placed r).fixes k = [] ↔ r = none ∧ d.fixes k = [] := by
  cases r <;> simp [Draft.placed, Draft.fixes]

mutual

theorem Expr.fixes_eq_nil : ∀ (e : Expr) (k : Nat), (e.draft f).fixes k = [] ↔ e.depth f = 0
  | .word _, _ => by simp [Expr.draft, Draft.fixes]
  | .quoted _ _, _ => by simp [Expr.draft, Draft.fixes, Expr.depth]
  | .group call, k => by
    rw [Expr.draft, placed_fixes_eq_nil, Expr.depth, Nat.add_eq_zero_iff, level_eq_zero,
      ← Call.fixes_eq_nil call (k + size ['('])]
    simp [Draft.fixes, Draft.chars]

theorem Call.fixes_eq_nil : ∀ (c : Call) (k : Nat), (c.draft f).fixes k = [] ↔ c.depth f = 0
  | ⟨lead, callee, args, trail⟩, k => by
    rw [Call.draft, Call.depth, Nat.max_eq_zero_iff, ← Expr.fixes_eq_nil callee (k + size lead),
      ← Arg.fixes_eq_nil args (k + size lead + size callee.chars)]
    simp [Draft.fixes, Draft.chars]

theorem Arg.fixes_eq_nil : ∀ (as : List Arg) (k : Nat),
    (Arg.draftAll f as).fixes k = [] ↔ Arg.depthAll f as = 0
  | [], _ => by simp [Arg.draftAll, Draft.fixes]
  | ⟨lead, key, value⟩ :: args, k => by
    rw [Arg.draftAll, Arg.depthAll, Nat.max_eq_zero_iff,
      ← Expr.fixes_eq_nil value (k + size (lead ++ keyChars key)),
      ← Arg.fixes_eq_nil args (k + size (lead ++ keyChars key) + size value.chars)]
    simp [Draft.fixes, Draft.chars]

end

theorem Mustache.fixes_eq_nil (m : Mustache) (k : Nat) :
    (m.draft f).fixes k = [] ↔ m.depth f = 0 := by
  rw [Mustache.draft, placed_fixes_eq_nil, Mustache.depth, Nat.add_eq_zero_iff, level_eq_zero,
    ← Call.fixes_eq_nil m.call (k + size m.opening)]
  simp [Mustache.innerDraft, Draft.fixes, Draft.chars]

theorem Part.fixes_eq_nil (ps : List Part) (k : Nat) :
    (Part.draftAll f ps).fixes k = [] ↔ Part.depthAll f ps = 0 := by
  induction ps generalizing k with
  | nil => simp [Part.draftAll, Draft.fixes, Part.depthAll]
  | cons p ps ih =>
    cases p with
    | text cs => simp [Part.draftAll, Draft.fixes, Part.depthAll, ih]
    | mustache m =>
      simp [Part.draftAll, Draft.fixes, Part.depthAll, ih, Mustache.fixes_eq_nil]

theorem AttrValue.fixes_eq_nil (v : AttrValue) (k : Nat) :
    (v.draft f).fixes k = [] ↔ v.depth f = 0 := by
  cases v with
  | quoted mark parts =>
    simp [AttrValue.draft, Draft.fixes, AttrValue.depth, Part.fixes_eq_nil]
  | mustache m => exact m.fixes_eq_nil k
  | bare cs => simp [AttrValue.draft, Draft.fixes, AttrValue.depth]

theorem Attribute.fixes_eq_nil (a : Attribute) (k : Nat) :
    (a.valueDraft f).fixes k = [] ↔ a.depth f = 0 := by
  obtain ⟨name, assigned⟩ := a
  cases assigned with
  | none => simp [Attribute.valueDraft, Draft.fixes, Attribute.depth]
  | some v => simp [Attribute.valueDraft, Draft.fixes, Attribute.depth, AttrValue.fixes_eq_nil]

theorem Item.fixes_eq_nil (t : OpeningTag) (i : Item) (k : Nat) :
    (i.draft f t).fixes k = [] ↔ i.depth f t = 0 := by
  match i with
  | .attribute a =>
    rw [Item.draft, Item.depth]
    match f.change? t a with
    | none => simp [Attribute.draft, Draft.fixes, Attribute.fixes_eq_nil]
    | some (.name new) =>
      have hpos : max 1 (a.depth f) ≠ 0 := by omega
      simp [Attribute.draft, Draft.fixes, hpos]
    | some (.whole text) =>
      simp only [Attribute.draft, Draft.fixes]
      split <;> simp
  | .modifier m =>
    rw [Item.draft, Item.depth, ← Call.fixes_eq_nil m.call (k + size m.opening)]
    simp [Mustache.innerDraft, Draft.fixes, Draft.chars]
  | .note n => simp [Item.draft, Draft.fixes, Item.depth]
  | .params p => simp [Item.draft, Draft.fixes, Item.depth]

theorem Spaced.fixes_eq_nil (t : OpeningTag) (ss : List Spaced) (k : Nat) :
    (Spaced.draftAll f t ss).fixes k = [] ↔ Spaced.depthAll f t ss = 0 := by
  induction ss generalizing k with
  | nil => simp [Spaced.draftAll, Draft.fixes, Spaced.depthAll]
  | cons s ss ih =>
    simp [Spaced.draftAll, Draft.fixes, Spaced.depthAll, ih, Item.fixes_eq_nil]

theorem OpeningTag.fixes_eq_nil (t : OpeningTag) (k : Nat) :
    (t.draft f).fixes k = [] ↔ t.depth f = 0 := by
  simp [OpeningTag.draft, Draft.fixes, OpeningTag.depth, Spaced.fixes_eq_nil]

theorem BlockTag.fixes_eq_nil (t : BlockTag) (k : Nat) :
    (t.draft f).fixes k = [] ↔ t.call.depth f = 0 := by
  simp [BlockTag.draft, Draft.fixes, Call.fixes_eq_nil]

theorem ElseTag.fixes_eq_nil (t : ElseTag) (k : Nat) :
    (t.draft f).fixes k = [] ↔ t.depth f = 0 := by
  obtain ⟨tilde, lead, tail⟩ := t
  cases tail with
  | plain trail after => simp [ElseTag.draft, Draft.fixes, ElseTag.depth]
  | chained call ending => simp [ElseTag.draft, Draft.fixes, ElseTag.depth, Call.fixes_eq_nil]

mutual

/-- A statement has places exactly when it has depth. -/
theorem Statement.fixes_eq_nil : ∀ (s : Statement) (k : Nat),
    (s.draft f).fixes k = [] ↔ s.depth f = 0
  | .text _, _ => by simp [Statement.draft, Draft.fixes, Statement.depth]
  | .comment _, _ => by simp [Statement.draft, Draft.fixes, Statement.depth]
  | .note _, _ => by simp [Statement.draft, Draft.fixes, Statement.depth]
  | .mustache m, k => m.fixes_eq_nil k
  | .block opening program sections closing, k => by
    rw [Statement.draft, placed_fixes_eq_nil, Statement.depth, Nat.add_eq_zero_iff, level_eq_zero]
    simp [Draft.fixes, BlockTag.fixes_eq_nil, Statement.fixes_eq_nil_all program,
      Section.fixes_eq_nil_all sections]
  | .whole opening, k => opening.fixes_eq_nil k
  | .element opening children closing, k => by
    simp [Statement.draft, Draft.fixes, Statement.depth, OpeningTag.fixes_eq_nil,
      Statement.fixes_eq_nil_all children]

theorem Statement.fixes_eq_nil_all : ∀ (ss : List Statement) (k : Nat),
    (Statement.draftAll f ss).fixes k = [] ↔ Statement.depthAll f ss = 0
  | [], _ => by simp [Statement.draftAll, Draft.fixes, Statement.depthAll]
  | s :: ss, k => by
    simp [Statement.draftAll, Draft.fixes, Statement.depthAll, Statement.fixes_eq_nil s,
      Statement.fixes_eq_nil_all ss]

theorem Section.fixes_eq_nil_all : ∀ (ss : List Section) (k : Nat),
    (Section.draftAll f ss).fixes k = [] ↔ Section.depthAll f ss = 0
  | [], _ => by simp [Section.draftAll, Draft.fixes, Section.depthAll]
  | ⟨tag, body⟩ :: ss, k => by
    simp [Section.draftAll, Draft.fixes, Section.depthAll, ElseTag.fixes_eq_nil,
      Statement.fixes_eq_nil_all body, Section.fixes_eq_nil_all ss]

end

end Concrete

end TemplateLint
