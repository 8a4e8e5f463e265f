import TemplateLint.Cursor.Element

namespace TemplateLint.Cursor

open Text (size startsWith)
open Concrete (Token)

/-- What a list of statements stands in. At the top nothing may close anything. -/
inductive Context where
  | top
  | block
  | element
  deriving DecidableEq

def text : Cursor Tree.TextRun := do
  let start ← get
  let _ ← bump
  bumpTo Concrete.textBoundaryAhead
  let stop ← get
  return ⟨String.ofList (← slice start stop), ⟨start, stop⟩⟩

/-- The closing tag of the element `tag`, opened at `start`. -/
def closingTag (tag : List Char) (start : Nat) : Cursor Span := do
  let closeStart ← get
  if ← isAt (startsWith Token.closingTagOpen.chars) then
    expect .closingTagOpen
    match Text.find? ['>'] (← rest) with
    | none => fail (.unclosedElement tag) start
    | some length =>
      let s ← rest
      let found := Text.trim (← check (Text.cut ⟨0, length⟩ s))
      if found ≠ tag then fail (.tagMismatch found tag) closeStart
      else
        goto ((← get) + (length + 1))
        return ⟨closeStart, ← get⟩
  else fail (.unclosedElement tag) start

/-- The closing tag of the block `name` behind its last `else` part. -/
def lastClose (name : List Char) (opener : Nat) : Cursor Tree.CloseTag := do
  if ← isAt (startsWith Token.mustacheOpen.chars) then
    if (← inBraces) = .closeTag then closeTag name
    else fail .elseAfterElse (← get)
  else fail (.unclosedBlock name) opener

def body (content : Cursor (List Tree.Statement)) : Cursor Tree.Body := do
  let start ← get
  let found ← content
  return ⟨found, ⟨start, ← get⟩⟩

/-- The last `else` part, from the end of its tag on; that tag starts at `start`. -/
def finalElse (content : Cursor (List Tree.Statement)) (name : List Char) (opener start : Nat) :
    Cursor (Tree.ElsePart × Tree.CloseTag) := do
  let _ ← eat ['~']
  expect .mustacheClose
  let stop ← get
  let last ← body content
  let close ← lastClose name opener
  return (.final ⟨start, stop⟩ last, close)

/-- A segment of a chain, from the helper in its tag on; that tag starts at `start`, and `rest` reads
what follows it. -/
def chainedElse (rest : Cursor (Tree.Body × Tree.ElsePart × Tree.CloseTag)) (start : Nat) :
    Cursor (Tree.ElsePart × Tree.CloseTag) := do
  let callee ← expr
  let (params, hash) ← args true
  let bound ← tagEnd
  let openStop ← get
  let (program, inverse, close) ← rest
  let segment : Tree.Block := {
    call := ⟨callee, params, hash⟩
    blockParams := bound
    openSpan := ⟨start, openStop⟩
    program := program
    inverse := inverse
    close := none
    span := ⟨start, close.span.start⟩ }
  return (.chained segment, close)

/-- The `else` part and the closing tag of a block, from an `else` tag on. -/
def elseRest (content : Cursor (List Tree.Statement))
    (rest : Cursor (Tree.Body × Tree.ElsePart × Tree.CloseTag)) (name : List Char) (opener : Nat) :
    Cursor (Tree.ElsePart × Tree.CloseTag) := do
  let start ← get
  expect .mustacheOpen
  let _ ← eat ['~']
  skipBlanks
  expect .elseWord
  skipBlanks
  if ← isAt Concrete.tagEndAhead then finalElse content name opener start
  else chainedElse rest start

/-- The program, the `else` part and the closing tag of the block `name`, opened at `opener`, or of a
segment of its chain. -/
def blockRestWith (content : Cursor (List Tree.Statement)) (name : List Char) (opener : Nat) :
    Nat → Cursor (Tree.Body × Tree.ElsePart × Tree.CloseTag)
  | 0 => throw .rounds
  | k + 1 => do
    let program ← body content
    if ← isAt (startsWith Token.mustacheOpen.chars) then
      if (← inBraces) = .closeTag then
        let close ← closeTag name
        return (program, .absent, close)
      else
        let (inverse, close) ← elseRest content (blockRestWith content name opener k) name opener
        return (program, inverse, close)
    else fail (.unclosedBlock name) opener

def block (content : Cursor (List Tree.Statement)) : Cursor Tree.Block := do
  let start ← get
  expect .mustacheOpen
  let _ ← eat ['~']
  expect .hash
  skipBlanks
  let callee ← expr
  match callee.path? with
  | none => fail .blockNameNotPath callee.span.start
  | some path =>
    let (params, hash) ← args true
    let bound ← tagEnd
    let openStop ← get
    let (program, inverse, close) ←
      blockRestWith content path.text.toList start (← rounds)
    return {
      call := ⟨callee, params, hash⟩
      blockParams := bound
      openSpan := ⟨start, openStop⟩
      program := program
      inverse := inverse
      close := some close
      span := ⟨start, close.span.stop⟩ }

def element (content : Cursor (List Tree.Statement)) : Cursor Tree.Element := do
  let start ← get
  let e ← openingTag
  if e.selfClosing || e.tag ∈ Concrete.voidElements then return e
  else
    let children ← content
    let close ← closingTag e.tag.toList start
    return { e with
      children := children
      closeSpan := some close
      span := ⟨start, close.stop⟩ }

/-- The statements up to the end of the source or a tag that is for the context to take, behind those
that were read before. -/
def contentWithin : Nat → Context → List Tree.Statement → Cursor (List Tree.Statement)
  | 0, _, _ => throw .rounds
  | k + 1, context, found => do
    if ← atEnd then return found
    else if ← isAt (startsWith Token.mustacheOpen.chars) then
      match ← inBraces with
      | .note =>
        let c ← note
        contentWithin k context (found ++ [.mustacheComment c])
      | .block =>
        let b ← block (contentWithin k .block [])
        contentWithin k context (found ++ [.block b])
      | .closeTag => if context = .top then fail .strayClose (← get) else return found
      | .elseTag => if context = .top then fail .strayElse (← get) else return found
      | _ =>
        let m ← mustache
        contentWithin k context (found ++ [.mustache m])
    else if ← isAt (startsWith Token.commentOpen.chars) then
      let c ← comment
      contentWithin k context (found ++ [.comment c])
    else if ← isAt (startsWith Token.closingTagOpen.chars) then
      if context = .top then fail .strayClosingTag (← get) else return found
    else if ← isAt Concrete.tagStartAhead then
      let e ← element (contentWithin k .element [])
      contentWithin k context (found ++ [.element e])
    else
      let t ← text
      contentWithin k context (found ++ [.text t])

def template : Cursor Tree.Template := do
  let found ← contentWithin (← rounds) .top []
  return ⟨found, ⟨0, size (← read)⟩⟩

/-- What the cursor makes of a source, from its start on. -/
def parse (source : String) : Except Stop Tree.Template :=
  (runAt source.toList 0 template).map Prod.fst

end TemplateLint.Cursor
