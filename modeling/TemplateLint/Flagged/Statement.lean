import TemplateLint.Tree.Statement

namespace TemplateLint.Flagged

mutual

inductive Statement where
  | text (t : Tree.TextRun)
  | comment (c : Tree.Comment)
  | mustacheComment (c : Tree.Comment)
  | mustache (m : Tree.Mustache)
  | block (b : Block)
  | element (e : Element)

/-- A block of its own, or a segment of a chain: only the flag tells them apart. -/
structure Block where
  call : Tree.Call
  blockParams : List String
  /-- The opening tag; of a segment, its `{{else helper ...}}`. -/
  openSpan : Span
  program : Body
  inverse : Option Inverse
  close : Option Tree.CloseTag
  chained : Bool
  span : Span

/-- Statements and the range that they cover. -/
structure Body where
  statements : List Statement
  span : Span

/-- The `else` part of a block. -/
structure Inverse where
  elseSpan : Span
  body : Body
  chained : Bool

structure Element where
  tag : String
  tagSpan : Span
  attributes : List Tree.Attribute
  modifiers : List Tree.ElementModifier
  comments : List Tree.Comment
  blockParams : List String
  children : List Statement
  selfClosing : Bool
  openSpan : Span
  closeSpan : Option Span
  span : Span

end

/-- The root of a template. -/
structure Template where
  body : List Statement
  span : Span

/-- An element that has nothing in it, as its opening tag tells. -/
def Element.ofOpening (e : Tree.Element) : Element where
  tag := e.tag
  tagSpan := e.tagSpan
  attributes := e.attributes
  modifiers := e.modifiers
  comments := e.comments
  blockParams := e.blockParams
  children := []
  selfClosing := e.selfClosing
  openSpan := e.openSpan
  closeSpan := e.closeSpan
  span := e.span

/-- What holds a list of statements. A block does so with its program, its `else` part for itself. -/
inductive Holder where
  | template (t : Template)
  | block (b : Block)
  | inverse (i : Inverse)
  | element (e : Element)

def Holder.statements : Holder → List Statement
  | .template t => t.body
  | .block b => b.program.statements
  | .inverse i => i.body.statements
  | .element e => e.children

mutual

def Statement.holders : Statement → List Holder
  | .block b => b.holders
  | .element e => e.holders
  | .text _ | .comment _ | .mustacheComment _ | .mustache _ => []

def Block.holders : Block → List Holder
  | ⟨call, blockParams, openSpan, program, inverse, close, chained, span⟩ =>
    .block ⟨call, blockParams, openSpan, program, inverse, close, chained, span⟩ ::
      (program.holders ++ Inverse.holders? inverse)

def Body.holders : Body → List Holder
  | ⟨statements, _⟩ => Statement.holdersAll statements

def Inverse.holders? : Option Inverse → List Holder
  | none => []
  | some ⟨elseSpan, body, chained⟩ => .inverse ⟨elseSpan, body, chained⟩ :: body.holders

def Element.holders : Element → List Holder
  | ⟨tag, tagSpan, attributes, modifiers, comments, params, children, single, opening, closing,
      span⟩ =>
    .element ⟨tag, tagSpan, attributes, modifiers, comments, params, children, single, opening,
      closing, span⟩ :: Statement.holdersAll children

def Statement.holdersAll : List Statement → List Holder
  | [] => []
  | s :: ss => s.holders ++ Statement.holdersAll ss

end

/-- All that holds statements in a template, at any depth, itself the first. -/
def Template.holders (t : Template) : List Holder := .template t :: Statement.holdersAll t.body

end TemplateLint.Flagged
