import TemplateLint.Proofs.Reading.Expr
import TemplateLint.Rule.NegatedCondition

namespace TemplateLint.Concrete

open Text (isBlank opens AllBlank)
open NegatedCondition (Conditional)

/-- An argument put in front of others. A word goes on with a word that no blank divides from it. -/
def Arg.join (lead : List Char) : Expr → List Arg → List Arg
  | .word v, ⟨[], none, .word w⟩ :: args => ⟨lead, none, .word (v ++ w)⟩ :: args
  | .word v, ⟨[], some key, value⟩ :: args => ⟨lead, some (v ++ key), value⟩ :: args
  | e, args => ⟨lead, none, e⟩ :: args

/-- A callee put in front of arguments, in the same way. -/
def Call.join (lead : List Char) : Expr → List Arg → List Char → Call
  | .word v, ⟨[], none, .word w⟩ :: args, trail => ⟨lead, .word (v ++ w), args, trail⟩
  | e, args, trail => ⟨lead, e, args, trail⟩

theorem Arg.charsAll_join (lead : List Char) (e : Expr) (args : List Arg) :
    Arg.charsAll (Arg.join lead e args) = lead ++ (e.chars ++ Arg.charsAll args) := by
  unfold Arg.join
  split <;> simp [Arg.charsAll, Arg.chars, Expr.chars, keyChars]

theorem Call.chars_join (lead : List Char) (e : Expr) (args : List Arg) (trail : List Char) :
    (Call.join lead e args trail).chars = lead ++ (e.chars ++ (Arg.charsAll args ++ trail)) := by
  unfold Call.join
  split <;> simp [Call.chars, Arg.charsAll, Arg.chars, Expr.chars, keyChars]

/-- The conditional whose name an expression is. -/
def helper? : Expr → Option Conditional
  | .word w =>
    if w = Conditional.whenTrue.helper.toList then some .whenTrue
    else if w = Conditional.whenFalse.helper.toList then some .whenFalse
    else none
  | _ => none

def Expr.isGroup : Expr → Bool
  | .group _ => true
  | _ => false

/-- The `x` of `(not x)`, unless it is a call. -/
def operand? : Expr → Option Expr
  | .group ⟨_, .word w, [⟨_, none, operand⟩], _⟩ =>
    if w = ['n', 'o', 't'] ∧ operand.isGroup = false then some operand else none
  | _ => none

/-- The parts of a call of a conditional whose condition is negated: the blanks before the
condition, its operand and the arguments after it. -/
structure Negated where
  helper : Conditional
  gap : List Char
  operand : Expr
  rest : List Arg

def Call.negated? : Call → Option Negated
  | ⟨_, callee, ⟨gap, none, condition⟩ :: rest, _⟩ => do
    let helper ← helper? callee
    let operand ← operand? condition
    some ⟨helper, gap, operand, rest⟩
  | _ => none

def Arg.isPositional (a : Arg) : Bool := a.key.isNone

/-- The positional arguments at the front. -/
def Arg.values (args : List Arg) : List Arg := args.takeWhile Arg.isPositional

def Arg.named (args : List Arg) : List Arg := args.dropWhile Arg.isPositional

/-- How a helper is written. -/
def helperWord (c : Conditional) : Expr := .word c.helper.toList

/-- The call with its condition in place of the negation, under a helper. -/
def Call.freed (c : Call) (n : Negated) (helper : Expr) : Call :=
  Call.join c.lead helper (Arg.join n.gap n.operand n.rest) c.trail

/-- The same with the two values after the condition in each other's place. -/
def Call.flipped (c : Call) (n : Negated) (v₁ v₂ : Arg) : Call :=
  Call.join c.lead c.callee (Arg.join n.gap n.operand
    (Arg.join v₁.lead v₂.value (Arg.join v₂.lead v₁.value (Arg.named n.rest)))) c.trail

/-- The inline call without a negation of it: with two values after `if` these change places, else
the helper does. -/
def Call.without? (c : Call) (n : Negated) : Option Call :=
  match n.helper, Arg.values n.rest with
  | .whenTrue, [v₁, v₂] => some (c.flipped n v₁ v₂)
  | .whenTrue, [_] | .whenFalse, [_] | .whenFalse, [_, _] =>
    some (c.freed n (helperWord n.helper.flip))
  | _, _ => none

/-- The inline call without its negation, if it has one. -/
def Call.unnegated? (c : Call) : Option Call := c.negated?.bind c.without?

theorem Call.unnegated?_eq {c : Call} {n : Negated} (hn : c.negated? = some n) :
    c.unnegated? = c.without? n := by
  rw [Call.unnegated?, hn, Option.bind_some]

/-- The two ways to take the negation out of an inline call. -/
theorem eq_of_unnegated? {c c' : Call} (h : c.unnegated? = some c') :
    ∃ n, c.negated? = some n ∧
      ((∃ v₁ v₂, n.helper = .whenTrue ∧ Arg.values n.rest = [v₁, v₂] ∧ c' = c.flipped n v₁ v₂) ∨
        (∃ v vs, Arg.values n.rest = v :: vs ∧ (vs = [] ∨ n.helper = .whenFalse ∧ vs.length = 1) ∧
          c' = c.freed n (helperWord n.helper.flip))) := by
  obtain ⟨n, hn, h⟩ := Option.bind_eq_some_iff.1 h
  refine ⟨n, hn, ?_⟩
  unfold Call.without? at h
  split at h
  · next v₁ v₂ hhelper hvalues =>
    cases h
    exact Or.inl ⟨v₁, v₂, hhelper, hvalues, rfl⟩
  · next v _ hvalues =>
    cases h
    exact Or.inr ⟨v, [], hvalues, Or.inl rfl, rfl⟩
  · next v _ hvalues =>
    cases h
    exact Or.inr ⟨v, [], hvalues, Or.inl rfl, rfl⟩
  · next v w hhelper hvalues =>
    cases h
    exact Or.inr ⟨v, [w], hvalues, Or.inr ⟨hhelper, rfl⟩, rfl⟩
  · cases h

theorem IsWord.append {v w : List Char} (hv : IsWord v) (hw : ∀ c ∈ w, isWordChar c = true) :
    IsWord (v ++ w) := by
  refine ⟨by simp [hv.1], ?_⟩
  intro c hc
  rcases List.mem_append.1 hc with hc | hc
  · exact hv.2 c hc
  · exact hw c hc

/-- Whether an argument begins with a word right away. -/
theorem Arg.AllStand.opens_word {named : Bool} {lead : List Char} {key : Option (List Char)}
    {value : Expr} {args : List Arg} {rest : List Char}
    (h : Arg.AllStand named (⟨lead, key, value⟩ :: args) rest)
    (hno : lead = [] → key = none ∧ ∀ w, value ≠ .word w) (s : List Char) :
    opens isWordChar (Arg.charsAll (⟨lead, key, value⟩ :: args) ++ s) = false := by
  rw [Arg.charsAll_cons]
  cases lead with
  | cons c lead =>
    have hc : isBlank c = true := h.lead c (by simp)
    simp [isWordChar, hc]
  | nil =>
    obtain ⟨rfl, hw⟩ := hno rfl
    obtain ⟨-, -, hv, -⟩ := h
    cases value with
    | word w => exact absurd rfl (hw w)
    | quoted mark raw =>
      obtain ⟨hm, -⟩ := hv
      rcases hm with rfl | rfl <;> rfl
    | group call => rfl

theorem Arg.AllStand.positional {named : Bool} {args : List Arg} {rest : List Char}
    (h : Arg.AllStand named args rest) : Arg.AllStand false args rest := by
  cases args with
  | nil => trivial
  | cons a args =>
    obtain ⟨lead, key, value⟩ := a
    cases key with
    | none =>
      obtain ⟨hl, -, hv, hargs⟩ := h
      exact ⟨hl, rfl, hv, hargs⟩
    | some key => exact h

/-- A joined argument stands in front of the others. -/
theorem Arg.AllStand.join {named : Bool} {lead : List Char} {e : Expr} {args : List Arg}
    {rest : List Char} (hl : AllBlank lead) (he : e.Stands []) (h : Arg.AllStand named args rest)
    (hr : args = [] → ∀ w, e = .word w → opens isWordChar rest = false) :
    Arg.AllStand false (Arg.join lead e args) rest := by
  unfold Arg.join
  split
  · next v w args =>
    obtain ⟨-, -, hw, hargs⟩ := h
    exact ⟨hl, rfl, ⟨he.1.append hw.1.2, hw.2⟩, hargs⟩
  · next v key value args =>
    obtain ⟨-, hkey, hv, hargs⟩ := h
    exact ⟨hl, he.1.append hkey.2, hv, hargs⟩
  · next hword hkey =>
    refine ⟨hl, rfl, ?_, h.positional⟩
    cases e with
    | quoted mark raw => exact he
    | group call => exact he
    | word v =>
      refine ⟨he.1, ?_⟩
      cases args with
      | nil => exact hr rfl v rfl
      | cons a args =>
        obtain ⟨gap, key, value⟩ := a
        apply h.opens_word
        rintro rfl
        cases key with
        | some key => exact absurd rfl (hkey v key value args rfl)
        | none =>
          refine ⟨rfl, ?_⟩
          rintro w rfl
          exact hword v w args rfl rfl

/-- A joined call stands, unless its callee would have to go on with the key of an argument. -/
theorem Call.stands_join {lead : List Char} {e : Expr} {args : List Arg} {trail rest : List Char}
    (hl : AllBlank lead) (he : e.Stands []) (h : Arg.AllStand false args (trail ++ rest))
    (ht : AllBlank trail) (hne : args ≠ [])
    (hkey : ∀ v key value args', e = .word v → args ≠ ⟨[], some key, value⟩ :: args') :
    (Call.join lead e args trail).Stands rest := by
  unfold Call.join
  split
  · next v w args trail =>
    obtain ⟨-, -, hw, hargs⟩ := h
    exact ⟨hl, ⟨he.1.append hw.1.2, hw.2⟩, hargs, ht⟩
  · next hword =>
    refine ⟨hl, ?_, h, ht⟩
    cases e with
    | quoted mark raw => exact he
    | group call => exact he
    | word v =>
      refine ⟨he.1, ?_⟩
      cases args with
      | nil => exact absurd rfl hne
      | cons a args =>
        obtain ⟨gap, key, value⟩ := a
        apply h.opens_word
        rintro rfl
        cases key with
        | some key => exact absurd rfl (hkey v key value args rfl)
        | none =>
          refine ⟨rfl, ?_⟩
          rintro w rfl
          exact hword v w args rfl rfl

theorem Arg.join_ne_nil (lead : List Char) (e : Expr) (args : List Arg) :
    Arg.join lead e args ≠ [] := by
  unfold Arg.join
  split <;> simp

theorem Expr.Stands.alone {e : Expr} {s : List Char} (h : e.Stands s) : e.Stands [] := by
  cases e with
  | word w => exact ⟨h.1, rfl⟩
  | quoted mark raw => exact h
  | group call => exact h

theorem helperWord_stands (c : Conditional) : (helperWord c).Stands [] := by
  cases c <;> exact ⟨⟨by decide, List.all_eq_true.1 (by decide)⟩, rfl⟩

/-- A joined argument has a key only when it is a word that goes on with one. -/
theorem Arg.join_key {lead l key : List Char} {e value : Expr} {args args' : List Arg}
    (h : Arg.join lead e args = ⟨l, some key, value⟩ :: args') :
    l = lead ∧ (∃ v, e = .word v) ∧ ∃ key', args = ⟨[], some key', value⟩ :: args' := by
  unfold Arg.join at h
  split at h
  · simp at h
  · next v key' value' args =>
    simp only [List.cons.injEq, Arg.mk.injEq, Option.some.injEq] at h
    obtain ⟨⟨rfl, rfl, rfl⟩, rfl⟩ := h
    exact ⟨rfl, ⟨v, rfl⟩, key', rfl⟩
  · simp at h

theorem Arg.values_append_named (args : List Arg) : Arg.values args ++ Arg.named args = args :=
  List.takeWhile_append_dropWhile

theorem Arg.key_of_mem_values (args : List Arg) {a : Arg} (h : a ∈ Arg.values args) :
    a.key = none := by
  have hp := List.all_eq_true.1 (List.all_takeWhile (p := Arg.isPositional) (l := args)) a h
  simpa [Arg.isPositional] using hp

theorem eq_of_negated? {c : Call} {n : Negated} (h : c.negated? = some n) :
    ∃ condition, c = ⟨c.lead, c.callee, ⟨n.gap, none, condition⟩ :: n.rest, c.trail⟩ ∧
      helper? c.callee = some n.helper ∧ operand? condition = some n.operand := by
  obtain ⟨lead, callee, args, trail⟩ := c
  match args, h with
  | ⟨gap, none, condition⟩ :: rest, h =>
    simp only [Call.negated?] at h
    obtain ⟨helper, hh, h⟩ := Option.bind_eq_some_iff.1 h
    obtain ⟨operand, ho, h⟩ := Option.bind_eq_some_iff.1 h
    cases h
    exact ⟨condition, rfl, hh, ho⟩

theorem eq_of_helper? {e : Expr} {c : Conditional} (h : helper? e = some c) : e = helperWord c := by
  unfold helper? at h
  split at h
  · split at h
    · next hw =>
      cases h
      rw [hw, helperWord]
    · split at h
      · next hw =>
        cases h
        rw [hw, helperWord]
      · cases h
  · cases h

theorem eq_of_operand? {e x : Expr} (h : operand? e = some x) :
    ∃ lead gap trail, e = .group ⟨lead, .word ['n', 'o', 't'], [⟨gap, none, x⟩], trail⟩ ∧
      x.isGroup = false := by
  unfold operand? at h
  split at h
  · next lead w gap operand trail =>
    split at h
    · next hw =>
      cases h
      obtain ⟨rfl, hg⟩ := hw
      exact ⟨lead, gap, trail, rfl, hg⟩
    · cases h
  · cases h

theorem Expr.Stands.operand {e x : Expr} {s : List Char} (h : e.Stands s)
    (hx : operand? e = some x) : x.Stands [] := by
  obtain ⟨lead, gap, trail, rfl, -⟩ := eq_of_operand? hx
  rw [Expr.Stands] at h
  obtain ⟨-, -, ⟨-, -, hv, -⟩, -⟩ := h
  exact hv.alone

/-- What the parts of a negated call have to be, so that its fix can be put together of them. -/
theorem Call.Stands.negated {c : Call} {rest : List Char} (h : c.Stands rest) {n : Negated}
    (hn : c.negated? = some n) :
    AllBlank c.lead ∧ AllBlank n.gap ∧ AllBlank c.trail ∧ n.operand.Stands [] ∧
      Arg.AllStand false n.rest (c.trail ++ rest) := by
  obtain ⟨condition, hc, -, ho⟩ := eq_of_negated? hn
  rw [hc] at h
  obtain ⟨hlead, -, ⟨hgap, -, hcondition, hargs⟩, htrail⟩ := h
  exact ⟨hlead, hgap, htrail, hcondition.operand ho, hargs⟩

theorem opens_word_blank {lead : List Char} (hl : AllBlank lead) (hne : lead ≠ [])
    (rest : List Char) : opens isWordChar (lead ++ rest) = false := by
  cases lead with
  | nil => exact absurd rfl hne
  | cons c lead =>
    have hc := hl c (by simp)
    simp [isWordChar, hc]

theorem opens_word_lead {trail rest : List Char} (ht : AllBlank trail)
    (hr : opens isWordChar rest = false) : opens isWordChar (trail ++ rest) = false := by
  cases trail with
  | nil => exact hr
  | cons c trail => exact opens_word_blank ht (List.cons_ne_nil c trail) rest

/-- The freed call stands, unless its helper would have to go on with the key of an argument. -/
theorem Call.Stands.freed {c : Call} {rest : List Char} (h : c.Stands rest) {n : Negated}
    (hn : c.negated? = some n) {helper : Expr} (hh : helper.Stands [])
    (hr : n.rest = [] → ∀ w, n.operand = .word w → opens isWordChar (c.trail ++ rest) = false)
    (hkey : n.gap = [] → ∀ w, n.operand = .word w →
      ∀ key value args, n.rest ≠ ⟨[], some key, value⟩ :: args) :
    (c.freed n helper).Stands rest := by
  obtain ⟨hlead, hgap, htrail, hoperand, hargs⟩ := h.negated hn
  apply Call.stands_join hlead hh (Arg.AllStand.join hgap hoperand hargs hr) htrail
    (Arg.join_ne_nil _ _ _)
  rintro w key value args' - hjoin
  obtain ⟨hlead, ⟨w', hw'⟩, key', hrest⟩ := Arg.join_key hjoin
  exact hkey hlead.symm w' hw' key' value args' hrest

/-- Exchanging the two values of a call joins no words. -/
theorem Call.Stands.flipped {c : Call} {rest : List Char} (h : c.Stands rest) {n : Negated}
    (hn : c.negated? = some n) {v₁ v₂ : Arg} (hvs : Arg.values n.rest = [v₁, v₂])
    (hr : opens isWordChar (c.trail ++ rest) = false) : (c.flipped n v₁ v₂).Stands rest := by
  obtain ⟨hlead, hgap, htrail, hoperand, hargs⟩ := h.negated hn
  obtain ⟨condition, hc, hhelper, -⟩ := eq_of_negated? hn
  have hcallee : c.callee.Stands [] := by
    rw [eq_of_helper? hhelper]
    exact helperWord_stands n.helper
  have hvalues := Arg.values_append_named n.rest
  have hk₁ : v₁.key = none := Arg.key_of_mem_values n.rest (by simp [hvs])
  have hk₂ : v₂.key = none := Arg.key_of_mem_values n.rest (by simp [hvs])
  obtain ⟨l₁, k₁, e₁⟩ := v₁
  obtain ⟨l₂, k₂, e₂⟩ := v₂
  obtain rfl : k₁ = none := hk₁
  obtain rfl : k₂ = none := hk₂
  rw [← hvalues, hvs] at hargs
  obtain ⟨hl₁, -, he₁, hl₂, -, he₂, hnamed⟩ := hargs
  have h₃ := Arg.AllStand.join hl₂ he₁.alone hnamed fun _ _ _ => hr
  have h₂ := Arg.AllStand.join hl₁ he₂.alone h₃ fun _ _ _ => hr
  have h₁ := Arg.AllStand.join hgap hoperand h₂ fun _ _ _ => hr
  apply Call.stands_join hlead hcallee h₁ htrail (Arg.join_ne_nil _ _ _)
  rintro w key value args' - hjoin
  obtain ⟨-, -, key₁, hjoin₁⟩ := Arg.join_key hjoin
  obtain ⟨-, ⟨w₂, rfl⟩, key₂, hjoin₂⟩ := Arg.join_key hjoin₁
  obtain ⟨rfl, ⟨w₁, rfl⟩, key₃, -⟩ := Arg.join_key hjoin₂
  have hword : opens isWordChar (w₂ ++ (Arg.charsAll (Arg.named n.rest) ++ (c.trail ++ rest))) =
      false := by
    simpa [Arg.charsAll, Arg.chars, keyChars, Expr.chars] using he₁.2
  obtain ⟨hne, hw⟩ := he₂.1
  cases w₂ with
  | nil => exact absurd rfl hne
  | cons d w₂ =>
    have hd : isWordChar d = false := hword
    rw [hw d (by simp)] at hd
    cases hd

/-- An inline call without its negation stands where the call did, even where words were joined. -/
theorem Call.Stands.unnegated {c c' : Call} {rest : List Char} (h : c.Stands rest)
    (hr : opens isWordChar rest = false) (hc : c.unnegated? = some c') : c'.Stands rest := by
  obtain ⟨n, hn, hc⟩ := eq_of_unnegated? hc
  obtain ⟨-, -, htrail, -, -⟩ := h.negated hn
  have hr := opens_word_lead htrail hr
  rcases hc with ⟨v₁, v₂, -, hvs, rfl⟩ | ⟨v, vs, hvs, -, rfl⟩
  · exact h.flipped hn hvs hr
  · apply h.freed hn (helperWord_stands _) fun _ _ _ => hr
    intro _ _ _ key value args hrest
    have hvalues := Arg.values_append_named n.rest
    have hv : v.key = none := Arg.key_of_mem_values n.rest (by simp [hvs])
    rw [hvs, List.cons_append, hrest] at hvalues
    rw [(List.cons.inj hvalues).1] at hv
    cases hv

end TemplateLint.Concrete
