import TemplateLint.Tree.Expr

namespace TemplateLint.Tree

/-- Text as it stands in the source; the range of a quoted value includes its quotes. -/
structure TextRun where
  chars : String
  span : Span
  deriving DecidableEq, Repr

structure Comment where
  value : String
  span : Span
  deriving DecidableEq, Repr

/-- `{{helper params hash}}`, or `{{{helper params hash}}}` when trusting. -/
structure Mustache where
  call : Call
  trusting : Bool
  span : Span

/-- `{{modifier params hash}}` inside an opening tag -/
structure ElementModifier where
  call : Call
  span : Span

inductive ConcatPart where
  | text (t : TextRun)
  | mustache (m : Mustache)

inductive AttrValue where
  | valueless
  | text (t : TextRun)
  | mustache (m : Mustache)
  /-- A quoted value with mustaches in it. -/
  | concat (parts : List ConcatPart) (span : Span)

/-- An attribute, or an argument when its name begins with `@`. -/
structure Attribute where
  name : String
  nameSpan : Span
  value : AttrValue
  span : Span

/-- `{{/helper}}` -/
structure CloseTag where
  span : Span
  pathSpan : Span
  deriving DecidableEq, Repr

mutual

inductive Statement where
  | text (t : TextRun)
  | comment (c : Comment)
  | mustacheComment (c : Comment)
  | mustache (m : Mustache)
  | block (b : Block)
  | element (e : Element)

structure Block where
  call : Call
  blockParams : List String
  /-- The opening tag; of a chained segment, its `{{else helper ...}}`. -/
  openSpan : Span
  program : Body
  inverse : ElsePart
  /-- A chained segment has none: it ends where the tag that closes the whole block starts. -/
  close : Option CloseTag
  span : Span

/-- Statements and the range that they cover. -/
structure Body where
  statements : List Statement
  span : Span

inductive ElsePart where
  | absent
  | final (elseSpan : Span) (body : Body)
  | chained (segment : Block)

structure Element where
  tag : String
  tagSpan : Span
  attributes : List Attribute
  modifiers : List ElementModifier
  comments : List Comment
  blockParams : List String
  children : List Statement
  selfClosing : Bool
  openSpan : Span
  closeSpan : Option Span
  span : Span

end

/-- The root of a template. -/
structure Template where
  body : List Statement
  span : Span

def Statement.span : Statement → Span
  | .text t => t.span
  | .comment c => c.span
  | .mustacheComment c => c.span
  | .mustache m => m.span
  | .block b => b.span
  | .element e => e.span

namespace ElsePart

/-- Whether the block goes on with `{{else helper ...}}`. -/
def isChained : ElsePart → Bool
  | .chained _ => true
  | _ => false

/-- The `else` tag. -/
def elseSpan? : ElsePart → Option Span
  | .absent => none
  | .final elseSpan _ => some elseSpan
  | .chained segment => some segment.openSpan

/-- What the `else` tag leads to; of a chain, the segment that the tag opens. -/
def body? : ElsePart → Option Body
  | .absent => none
  | .final _ body => some body
  | .chained segment => some ⟨[.block segment], segment.span⟩

end ElsePart

/-- Whether a block is a segment of an `else` chain. -/
def Block.isSegment (b : Block) : Bool := b.close.isNone

namespace Attribute

/-- The name without `@` of an argument. -/
def argumentName? (a : Attribute) : Option String :=
  match a.name.toList with
  | '@' :: name => some (String.ofList name)
  | _ => none

def valueSpan? (a : Attribute) : Option Span :=
  match a.value with
  | .valueless => none
  | .text t => some t.span
  | .mustache m => some m.span
  | .concat _ span => some span

end Attribute

namespace Element

/-- The arguments with their names, in source order. -/
def arguments (e : Element) : List (String × Attribute) :=
  e.attributes.filterMap fun a => a.argumentName?.map fun name => (name, a)

def hasArgument (e : Element) (name : String) : Bool :=
  e.attributes.any fun a => a.argumentName? == some name

/-- Whether an attribute is written with exactly this name. -/
def hasAttribute (e : Element) (name : String) : Bool := e.attributes.any fun a => a.name == name

end Element

end TemplateLint.Tree
