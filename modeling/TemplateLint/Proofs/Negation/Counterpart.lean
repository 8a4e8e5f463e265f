import TemplateLint.Rule.NegatedCondition

namespace TemplateLint

namespace Tree

open NegatedCondition (Conditional negatedOperand?)

/-- The parts of a call of a conditional whose condition is negated: the operand of the negation and
the values after it. -/
def Call.negated? (c : Call) : Option (Conditional × Expr × List Expr) := do
  let helper ← Conditional.ofCall? c
  let condition :: values := c.params | none
  let operand ← negatedOperand? condition
  some (helper, operand, values)

/-- The call under the other helper. -/
def Call.renamed (c : Call) (helper : Conditional) (params : List Expr) : Call :=
  ⟨.path ⟨helper.flip.helper, c.callee.span⟩, params, c.hash⟩

/-- An inline call of a conditional with `x` in place of the negation of it: two values after `if`
change places, else the helper is the other one. -/
def Call.without? (c : Call) (helper : Conditional) (x : Expr) (values : List Expr) : Option Call :=
  match helper, values with
  | .whenTrue, [v, w] => some ⟨c.callee, [x, w, v], c.hash⟩
  | .whenTrue, [_] | .whenFalse, [_] | .whenFalse, [_, _] => some (c.renamed helper (x :: values))
  | _, _ => none

/-- An inline call without its negation, if it has one. -/
def Call.unnegated? (c : Call) : Option Call :=
  c.negated?.bind fun n => c.without? n.1 n.2.1 n.2.2

/-- A block of a conditional with `x` in place of the negation of it: the two bodies of `if` with a
plain `else` change places, else the helper is the other one. An `if` with a chain is left alone. -/
def Block.without? (b : Block) (helper : Conditional) (x : Expr) : Option Block :=
  match helper, b.inverse with
  | .whenTrue, .chained _ => none
  | .whenTrue, .final elseSpan body =>
    some ⟨⟨b.call.callee, [x], b.call.hash⟩, b.blockParams, b.openSpan, body,
      .final elseSpan b.program, b.close, b.span⟩
  | _, _ =>
    some ⟨b.call.renamed helper [x], b.blockParams, b.openSpan, b.program, b.inverse, b.close,
      b.span⟩

/-- A block without its negation, if that is its only positional argument. The segments of a chain
are left alone. -/
def Block.unnegated? (b : Block) : Option Block :=
  b.close.bind fun _ => b.call.negated?.bind fun n =>
    if n.2.2.isEmpty then b.without? n.1 n.2.1 else none

/-- Whether a condition holds, when `holds` tells it of conditions that are not negated. -/
def Expr.truth (holds : Expr → Bool) (condition : Expr) : Bool :=
  match negatedOperand? condition with
  | some x => !holds x
  | none => holds condition

/-- Whether a conditional takes its first branch. -/
def takesFirst (helper : Conditional) (condition : Bool) : Bool :=
  match helper with
  | .whenTrue => condition
  | .whenFalse => !condition

def Call.takesFirst? (holds : Expr → Bool) (c : Call) : Option Bool := do
  let helper ← Conditional.ofCall? c
  let condition ← c.params.head?
  some (takesFirst helper (condition.truth holds))

/-- The value that an inline call of a conditional gives, if there is one for its condition. -/
def Call.value? (holds : Expr → Bool) (c : Call) : Option (Option Expr) :=
  (c.takesFirst? holds).map fun first => if first then c.params[1]? else c.params[2]?

/-- The body that a block of a conditional renders, if there is one for its condition. -/
def Block.rendered? (holds : Expr → Bool) (b : Block) : Option (Option Body) :=
  (b.call.takesFirst? holds).map fun first => if first then some b.program else b.inverse.body?

theorem negatedOperand?_operand {condition x : Expr} (h : negatedOperand? condition = some x) :
    negatedOperand? x = none := by
  unfold negatedOperand? at h
  split at h
  · split at h
    · split at h
      · cases h
      · next hx =>
        cases h
        unfold negatedOperand?
        split
        · next e he =>
          rw [he] at hx
          exact absurd rfl hx
        · rfl
    · cases h
  · cases h

theorem Call.eq_of_negated? {c : Call} {helper : Conditional} {x : Expr} {values : List Expr}
    (h : c.negated? = some (helper, x, values)) :
    ∃ condition, Conditional.ofCall? c = some helper ∧ c.params = condition :: values ∧
      negatedOperand? condition = some x := by
  unfold Call.negated? at h
  obtain ⟨helper', hhelper, h⟩ := Option.bind_eq_some_iff.1 h
  split at h
  · next condition values' hparams =>
    obtain ⟨x', hx, h⟩ := Option.bind_eq_some_iff.1 h
    cases h
    exact ⟨condition, hhelper, hparams, hx⟩
  · cases h

theorem Call.takesFirst?_negated {c : Call} {helper : Conditional} {x : Expr} {values : List Expr}
    (h : c.negated? = some (helper, x, values)) (holds : Expr → Bool) :
    c.takesFirst? holds = some (takesFirst helper (!holds x)) := by
  obtain ⟨condition, hhelper, hparams, hx⟩ := Call.eq_of_negated? h
  simp [Call.takesFirst?, hhelper, hparams, Expr.truth, hx]

theorem Call.takesFirst?_renamed (c : Call) (helper : Conditional) {x : Expr}
    (hx : negatedOperand? x = none) (values : List Expr) (holds : Expr → Bool) :
    (c.renamed helper (x :: values)).takesFirst? holds = some (takesFirst helper (!holds x)) := by
  cases helper <;> simp [Call.takesFirst?, Call.renamed, Conditional.ofCall?, Call.helperName?,
    Expr.path?, Conditional.flip, Conditional.helper, Expr.truth, hx, takesFirst]

theorem Call.takesFirst?_freed {c : Call} {helper : Conditional} {x : Expr}
    (hc : Conditional.ofCall? c = some helper) (hx : negatedOperand? x = none) (values : List Expr)
    (hash : List HashPair) (holds : Expr → Bool) :
    (Call.mk c.callee (x :: values) hash).takesFirst? holds = some (takesFirst helper (holds x)) := by
  have hc' : Conditional.ofCall? ⟨c.callee, x :: values, hash⟩ = some helper := hc
  simp [Call.takesFirst?, hc', Expr.truth, hx]

/-- The counterpart of an inline call gives the same value, whatever the condition is. -/
theorem Call.value?_unnegated {c c' : Call} (h : c.unnegated? = some c') (holds : Expr → Bool) :
    c'.value? holds = c.value? holds := by
  obtain ⟨⟨helper, x, values⟩, hn, h⟩ := Option.bind_eq_some_iff.1 h
  have htakes := Call.takesFirst?_negated hn holds
  obtain ⟨condition, hhelper, hparams, hx⟩ := Call.eq_of_negated? hn
  have hnone := negatedOperand?_operand hx
  have hrenamed := Call.takesFirst?_renamed c helper hnone values holds
  unfold Call.value?
  rw [htakes, hparams]
  change c.without? helper x values = some c' at h
  unfold Call.without? at h
  split at h
  · cases h
    rw [Call.takesFirst?_freed hhelper hnone]
    cases holds x <;> rfl
  · cases h
    rw [hrenamed]
    rfl
  · cases h
    rw [hrenamed]
    rfl
  · cases h
    rw [hrenamed]
    rfl
  · cases h

/-- The counterpart of a block renders the same body, whatever the condition is. -/
theorem Block.rendered?_unnegated {b b' : Block} (h : b.unnegated? = some b')
    (holds : Expr → Bool) : b'.rendered? holds = b.rendered? holds := by
  obtain ⟨close, -, h⟩ := Option.bind_eq_some_iff.1 h
  obtain ⟨⟨helper, x, values⟩, hn, h⟩ := Option.bind_eq_some_iff.1 h
  have htakes := Call.takesFirst?_negated hn holds
  obtain ⟨condition, hhelper, -, hx⟩ := Call.eq_of_negated? hn
  have hnone := negatedOperand?_operand hx
  have hrenamed := Call.takesFirst?_renamed b.call helper hnone [] holds
  unfold Block.rendered?
  rw [htakes]
  change (if values.isEmpty then b.without? helper x else none) = some b' at h
  split at h
  · unfold Block.without? at h
    split at h
    · cases h
    · next hinverse =>
      cases h
      rw [Call.takesFirst?_freed hhelper hnone, hinverse]
      cases holds x <;> rfl
    · cases h
      rw [hrenamed]
  · cases h

end Tree

end TemplateLint
