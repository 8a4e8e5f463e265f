import TemplateLint.Text.Span

namespace TemplateLint.Tree

inductive LiteralValue where
  | string (value : String)
  /-- A number, kept as written. -/
  | number (text : String)
  | boolean (value : Bool)
  | null
  | undefined
  deriving DecidableEq, Repr

structure Path where
  /-- The whole path, as written. -/
  text : String
  span : Span
  deriving DecidableEq, Repr

structure Literal where
  value : LiteralValue
  span : Span
  deriving DecidableEq, Repr

mutual

inductive Expr where
  | path (p : Path)
  | literal (l : Literal)
  | subExpression (e : SubExpression)

/-- A callee with its positional and its named arguments, each in source order. -/
structure Call where
  callee : Expr
  params : List Expr
  hash : List HashPair

/-- `(helper params hash)` -/
structure SubExpression where
  call : Call
  span : Span

/-- `key=value` -/
structure HashPair where
  key : String
  value : Expr
  span : Span

end

namespace Expr

def span : Expr → Span
  | .path p => p.span
  | .literal l => l.span
  | .subExpression e => e.span

def path? : Expr → Option Path
  | .path p => some p
  | _ => none

def subExpression? : Expr → Option SubExpression
  | .subExpression e => some e
  | _ => none

end Expr

/-- The name of the helper that is called, when the callee is a path. -/
def Call.helperName? (c : Call) : Option String := c.callee.path?.map Path.text

end TemplateLint.Tree
