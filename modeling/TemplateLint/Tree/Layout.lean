import TemplateLint.Concrete.Read.Tag
import TemplateLint.Concrete.Statement
import TemplateLint.Tree.Statement

namespace TemplateLint

open Text (size)

/-- The range that a text takes at an offset. -/
def Span.over (k : Nat) (cs : List Char) : Span := ⟨k, k + size cs⟩

namespace Concrete

/-- What a word means: the literal that it names, or a path. -/
def wordAt (k : Nat) (w : List Char) : Tree.Expr :=
  let literal (value : Tree.LiteralValue) : Tree.Expr := .literal ⟨value, .over k w⟩
  if w = ['t', 'r', 'u', 'e'] then literal (.boolean true)
  else if w = ['f', 'a', 'l', 's', 'e'] then literal (.boolean false)
  else if w = ['n', 'u', 'l', 'l'] then literal .null
  else if w = ['u', 'n', 'd', 'e', 'f', 'i', 'n', 'e', 'd'] then literal .undefined
  else if isNumber w then literal (.number (String.ofList w))
  else .path ⟨String.ofList w, .over k w⟩

mutual

/-- An expression laid out at a byte offset. The sizes of its written parts decide the ranges in it.
-/
def Expr.at (k : Nat) : Expr → Tree.Expr
  | .word w => wordAt k w
  | .quoted mark raw =>
    .literal ⟨.string (String.ofList (unescape raw)), ⟨k, k + (Expr.quoted mark raw).width⟩⟩
  | .group call => .subExpression ⟨call.at (k + 1), ⟨k, k + (Expr.group call).width⟩⟩

def Call.at (k : Nat) : Call → Tree.Call
  | ⟨lead, callee, args, _⟩ =>
    let k := k + size lead
    let afterCallee := k + callee.width
    ⟨callee.at k, Arg.paramsAt afterCallee args, Arg.hashAt afterCallee args⟩

/-- The positional arguments of a list of arguments that starts at `k`. -/
def Arg.paramsAt (k : Nat) : List Arg → List Tree.Expr
  | [] => []
  | ⟨lead, key, value⟩ :: args =>
    let next := k + size lead + size (keyChars key) + value.width
    match key with
    | none => value.at (k + size lead) :: Arg.paramsAt next args
    | some _ => Arg.paramsAt next args

/-- The named arguments of a list of arguments that starts at `k`. -/
def Arg.hashAt (k : Nat) : List Arg → List Tree.HashPair
  | [] => []
  | ⟨lead, key, value⟩ :: args =>
    let start := k + size lead
    let next := start + size (keyChars key) + value.width
    match key with
    | none => Arg.hashAt next args
    | some name =>
      ⟨String.ofList name, value.at (start + size name + 1), ⟨start, next⟩⟩ :: Arg.hashAt next args

end

/-- The part of a text that comes before its call: the braces and marks around it. -/
def Mustache.opening (m : Mustache) : List Char :=
  Token.mustacheOpen.chars ++ flagged m.trusting ['{'] ++ flagged m.tildeBefore ['~']

def Mustache.at (k : Nat) (m : Mustache) : Tree.Mustache :=
  ⟨m.call.at (k + size m.opening), m.trusting, .over k m.chars⟩

def Note.at (k : Nat) (n : Note) : Tree.Comment := ⟨String.ofList n.value, .over k n.chars⟩

/-- The names that are bound. -/
def BlockParams.bound (p : BlockParams) : List String := (Text.words p.names).map String.ofList

def TagEnd.bound (e : TagEnd) : List String := (e.params.map BlockParams.bound).getD []

/-- The parts of a quoted value, the first of them at `k`. -/
def Part.atAll (k : Nat) : List Part → List Tree.ConcatPart
  | [] => []
  | .text cs :: ps => .text ⟨String.ofList cs, .over k cs⟩ :: Part.atAll (k + size cs) ps
  | .mustache m :: ps => .mustache (m.at k) :: Part.atAll (k + size m.chars) ps

def Part.isMustache : Part → Bool
  | .mustache _ => true
  | .text _ => false

def AttrValue.at (k : Nat) : AttrValue → Tree.AttrValue
  | .quoted mark parts =>
    let span := Span.over k (AttrValue.quoted mark parts).chars
    if parts.any Part.isMustache then .concat (Part.atAll (k + size [mark]) parts) span
    else .text ⟨String.ofList (parts.flatMap Part.chars), span⟩
  | .mustache m => .mustache (m.at k)
  | .bare cs => .text ⟨String.ofList cs, .over k cs⟩

def Attribute.at (k : Nat) (a : Attribute) : Tree.Attribute :=
  let value := match a.assigned with
    | none => .valueless
    | some v => v.value.at (k + size a.name + size v.before + 1 + size v.after)
  ⟨String.ofList a.name, .over k a.name, value, .over k a.chars⟩

/-- The items of an opening tag with their offsets, the blanks before the first at `k`. -/
def Spaced.offsets (k : Nat) : List Spaced → List (Nat × Item)
  | [] => []
  | s :: ss => (k + size s.lead, s.item) :: Spaced.offsets (k + size s.chars) ss

/-- The element of an opening tag at `k`, as far as that tag tells. -/
def OpeningTag.at (k : Nat) (t : OpeningTag) : Tree.Element :=
  let items := Spaced.offsets (k + 1 + size t.name) t.items
  { tag := String.ofList t.name
    tagSpan := .over (k + 1) t.name
    attributes := items.filterMap fun
      | (k, .attribute a) => some (a.at k)
      | _ => none
    modifiers := items.filterMap fun
      | (k, .modifier m) => some ⟨(m.at k).call, (m.at k).span⟩
      | _ => none
    comments := items.filterMap fun
      | (k, .note n) => some (n.at k)
      | _ => none
    blockParams := items.foldl (fun names item => match item with
      | (_, .params p) => p.bound
      | _ => names) []
    children := []
    selfClosing := t.selfClosing
    openSpan := .over k t.chars
    closeSpan := none
    span := .over k t.chars }

def BlockTag.callOffset (t : BlockTag) : Nat :=
  size (Token.mustacheOpen.chars ++ flagged t.tilde ['~'] ++ Token.hash.chars)

def ElseTag.tailOffset (t : ElseTag) : Nat :=
  size (Token.mustacheOpen.chars ++ flagged t.tilde ['~'] ++ t.lead ++ Token.elseWord.chars)

def CloseTag.nameOffset (t : CloseTag) : Nat :=
  size (Token.mustacheOpen.chars ++ flagged t.tildeBefore ['~'] ++ Token.slash.chars ++ t.lead)

def CloseTag.at (k : Nat) (t : CloseTag) : Tree.CloseTag :=
  ⟨.over k t.chars, .over (k + t.nameOffset) t.name⟩

mutual

def Statement.at (k : Nat) : Statement → Tree.Statement
  | .text cs => .text ⟨String.ofList cs, .over k cs⟩
  | .comment value => .comment ⟨String.ofList value, .over k (Statement.comment value).chars⟩
  | .note n => .mustacheComment (n.at k)
  | .mustache m => .mustache (m.at k)
  | .block opening program sections closing =>
    let programStart := k + size opening.chars
    let programEnd := programStart + Statement.widthAll program
    let closeStart := programEnd + Section.widthAll sections
    .block {
      call := opening.call.at (k + opening.callOffset)
      blockParams := opening.ending.bound
      openSpan := .over k opening.chars
      program := ⟨Statement.atAll programStart program, ⟨programStart, programEnd⟩⟩
      inverse := Section.atAll programEnd sections
      close := some (closing.at closeStart)
      span := ⟨k, closeStart + size closing.chars⟩ }
  | .whole opening => .element (opening.at k)
  | .element opening children closing =>
    let childrenStart := k + size opening.chars
    let childrenEnd := childrenStart + Statement.widthAll children
    let stop := childrenEnd + size (Token.closingTagOpen.chars ++ closing ++ ['>'])
    .element { opening.at k with
      children := Statement.atAll childrenStart children
      closeSpan := some ⟨childrenEnd, stop⟩
      span := ⟨k, stop⟩ }

/-- Statements one after the other, the first of them at `k`. -/
def Statement.atAll (k : Nat) : List Statement → List Tree.Statement
  | [] => []
  | s :: ss => s.at k :: Statement.atAll (k + s.width) ss

/-- The `else` sections of a block, the first of them at `k`. A chained section is a block that
holds all sections after it and ends with the last. -/
def Section.atAll (k : Nat) : List Section → Tree.ElsePart
  | [] => .absent
  | ⟨tag, body⟩ :: more =>
    let bodyStart := k + size tag.chars
    let bodyEnd := bodyStart + Statement.widthAll body
    let program : Tree.Body := ⟨Statement.atAll bodyStart body, ⟨bodyStart, bodyEnd⟩⟩
    match tag.tail with
    | .plain _ _ => .final (.over k tag.chars) program
    | .chained call ending =>
      .chained {
        call := call.at (k + tag.tailOffset)
        blockParams := ending.bound
        openSpan := .over k tag.chars
        program := program
        inverse := Section.atAll bodyEnd more
        close := none
        span := ⟨k, bodyEnd + Section.widthAll more⟩ }

end

end Concrete

end TemplateLint
