import TemplateLint.Flagged.Statement
import TemplateLint.Rule.NegatedCondition

namespace TemplateLint.Flagged

open NegatedCondition (Conditional negatedOperand? flipIf)

/-- How the check of a block ends. -/
inductive Check where
  /-- The block is a segment, which the block around it answers for. -/
  | segment
  /-- Nothing is negated, or there is no other way to write it. -/
  | silent
  /-- There is no closing tag to rename. -/
  | unclosed
  | report (finding : Finding)

def Check.finding? : Check → Option Finding
  | .report finding => some finding
  | _ => none

/-- What a negated block gets: its message, and the builder with the edits but for the condition. -/
def blockEdits (helper : Conditional) (b : Block) (close : Tree.CloseTag) (fix : FixBuilder) :
    Option (String × FixBuilder) :=
  match helper, b.inverse with
  | .whenTrue, some inverse =>
    if inverse.chained then none else some (flipIf, fix.swap b.program.span inverse.body.span)
  | _, _ =>
    some (helper.message, (fix.replace b.call.callee.span helper.flip.helper).replace close.pathSpan
      helper.flip.helper)

def checkBlock (source : String) (b : Block) : Check :=
  if b.chained then .segment
  else match Conditional.ofCall? b.call, b.call.params with
    | some helper, [condition] =>
      match negatedOperand? condition with
      | none => .silent
      | some operand =>
        match b.close with
        | none => .unclosed
        | some close =>
          match blockEdits helper b close (FixBuilder.new source b.span) with
          | none => .silent
          | some (message, fix) =>
            let fix := fix.replace condition.span (Text.slice operand.span source)
            .report ⟨message, b.span, .block, some fix.build⟩
    | _, _ => .silent

end TemplateLint.Flagged
