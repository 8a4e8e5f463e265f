import TemplateLint.Edit.Builder
import TemplateLint.Rule.Basic

namespace TemplateLint.NegatedCondition

open TemplateLint.Tree

def metadata : RuleMetadata where
  id := "no-negated-condition"
  description := "Disallow `if`/`unless` conditions wrapped in `(not ...)`"
  category := .style
  defaultSeverity := .error
  fixable := true
  docsUrl := none

def useUnless : String :=
  "Use \x7b\x7bunless condition\x7d\x7d instead of \x7b\x7bif (not condition)\x7d\x7d."

def useIf : String :=
  "Use \x7b\x7bif condition\x7d\x7d instead of \x7b\x7bunless (not condition)\x7d\x7d."

def flipIf : String :=
  "Use \x7b\x7bif condition\x7d\x7d \x7b\x7belse\x7d\x7d \x7b\x7b/if\x7d\x7d instead of " ++
    "\x7b\x7bif (not condition)\x7d\x7d \x7b\x7belse\x7d\x7d \x7b\x7b/if\x7d\x7d."

inductive Conditional where
  | whenTrue
  | whenFalse
  deriving DecidableEq, Repr

namespace Conditional

def helper : Conditional → String
  | .whenTrue => "if"
  | .whenFalse => "unless"

def flip : Conditional → Conditional
  | .whenTrue => .whenFalse
  | .whenFalse => .whenTrue

/-- What advises against the negated form, when the helper is to be exchanged. -/
def message : Conditional → String
  | .whenTrue => useUnless
  | .whenFalse => useIf

/-- The conditional that a call is of. -/
def ofCall? (c : Call) : Option Conditional :=
  match c.helperName? with
  | some "if" => some .whenTrue
  | some "unless" => some .whenFalse
  | _ => none

end Conditional

/-- The `x` of `(not x)`, unless it is a call itself. -/
def negatedOperand? (condition : Expr) : Option Expr :=
  match condition.subExpression? with
  | some e =>
    match e.call.helperName?, e.call.params, e.call.hash with
    | some "not", [operand], [] => if operand.subExpression?.isSome then none else some operand
    | _, _, _ => none
  | none => none

/-- What a negated block gets: its message, and the builder with the edits but for the condition. -/
def blockEdits (helper : Conditional) (b : Block) (close : CloseTag) (fix : FixBuilder) :
    Option (String × FixBuilder) :=
  let exchange := (fix.replace b.call.callee.span helper.flip.helper).replace close.pathSpan
    helper.flip.helper
  match helper, b.inverse with
  | .whenTrue, .chained _ => none
  | .whenTrue, .final _ body => some (flipIf, fix.swap b.program.span body.span)
  | _, _ => some (helper.message, exchange)

/-- Segments of a chain belong to the block around them and are not reported. -/
def blockFinding? (source : String) (b : Block) : Option Finding := do
  let helper ← Conditional.ofCall? b.call
  let close ← b.close
  let [condition] := b.call.params | none
  let operand ← negatedOperand? condition
  let (message, fix) ← blockEdits helper b close (FixBuilder.new source b.span)
  let fix := fix.replace condition.span (Text.slice operand.span source)
  some ⟨message, b.span, .block, some fix.build⟩

/-- What a negated inline call gets, by the values after its condition: one or two of them. -/
def inlineEdits (helper : Conditional) (callee : Expr) (values : List Expr) (fix : FixBuilder) :
    Option (String × FixBuilder) :=
  let exchange := fix.replace callee.span helper.flip.helper
  match helper, values with
  | .whenTrue, [whenTrue, whenFalse] => some (flipIf, fix.swap whenTrue.span whenFalse.span)
  | .whenTrue, [_] | .whenFalse, [_] | .whenFalse, [_, _] => some (helper.message, exchange)
  | _, _ => none

def inlineFinding? (source : String) (call : Call) (span : Span) (kind : NodeKind) :
    Option Finding := do
  let helper ← Conditional.ofCall? call
  let condition :: values := call.params | none
  let operand ← negatedOperand? condition
  let (message, fix) ← inlineEdits helper call.callee values (FixBuilder.new source span)
  let fix := fix.replace condition.span (Text.slice operand.span source)
  some ⟨message, span, kind, some fix.build⟩

def findings (source : String) : Node → List Finding
  | .block b => (blockFinding? source b).toList
  | .mustache m => (inlineFinding? source m.call m.span .mustache).toList
  | .subExpression e => (inlineFinding? source e.call e.span .subExpression).toList
  | _ => []

/-- `if` and `unless` whose condition is `(not x)`. A negated call is left alone. -/
def rule : Rule := ⟨metadata, [.block, .mustache, .subExpression], findings⟩

end TemplateLint.NegatedCondition
