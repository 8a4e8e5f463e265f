import TemplateLint.Cursor.Statement
import TemplateLint.Flagged.Statement

namespace TemplateLint.Flagged

open Text (size startsWith)
open Concrete (Token)
open Cursor (Context)

def body (content : Cursor (List Statement)) : Cursor Body := do
  let start ← get
  let found ← content
  return ⟨found, ⟨start, ← get⟩⟩

/-- The last `else` part, from the end of its tag on; that tag starts at `start`. -/
def finalElse (content : Cursor (List Statement)) (name : List Char) (opener start : Nat) :
    Cursor (Option Inverse × Tree.CloseTag) := do
  let _ ← Cursor.eat ['~']
  Cursor.expect .mustacheClose
  let stop ← get
  let last ← body content
  let close ← Cursor.lastClose name opener
  return (some { elseSpan := ⟨start, stop⟩, body := last, chained := false }, close)

/-- A segment of a chain, from the helper in its tag on; that tag starts at `start`, and `rest`
reads what follows it. The closing tag is that of the whole chain. -/
def chainedElse (rest : Cursor (Body × Option Inverse × Tree.CloseTag)) (start : Nat) :
    Cursor (Option Inverse × Tree.CloseTag) := do
  let callee ← Cursor.expr
  let (params, hash) ← Cursor.args true
  let bound ← Cursor.tagEnd
  let openStop ← get
  let (program, inverse, close) ← rest
  let span : Span := ⟨start, close.span.start⟩
  let segment : Block := {
    call := ⟨callee, params, hash⟩
    blockParams := bound
    openSpan := ⟨start, openStop⟩
    program := program
    inverse := inverse
    close := none
    chained := true
    span := span }
  return (some { elseSpan := ⟨start, openStop⟩, body := ⟨[.block segment], span⟩, chained := true },
    close)

/-- The `else` part and the closing tag of a block, from an `else` tag on. -/
def elseRest (content : Cursor (List Statement))
    (rest : Cursor (Body × Option Inverse × Tree.CloseTag)) (name : List Char) (opener : Nat) :
    Cursor (Option Inverse × Tree.CloseTag) := do
  let start ← get
  Cursor.expect .mustacheOpen
  let _ ← Cursor.eat ['~']
  Cursor.skipBlanks
  Cursor.expect .elseWord
  Cursor.skipBlanks
  if ← Cursor.isAt Concrete.tagEndAhead then finalElse content name opener start
  else chainedElse rest start

/-- The program, the `else` part and the closing tag of the block `name`, opened at `opener`, or of a
segment of its chain. -/
def blockRestWith (content : Cursor (List Statement)) (name : List Char) (opener : Nat) :
    Nat → Cursor (Body × Option Inverse × Tree.CloseTag)
  | 0 => throw .rounds
  | k + 1 => do
    let program ← body content
    if ← Cursor.isAt (startsWith Token.mustacheOpen.chars) then
      if (← Cursor.inBraces) = .closeTag then
        let close ← Cursor.closeTag name
        return (program, none, close)
      else
        let (inverse, close) ← elseRest content (blockRestWith content name opener k) name opener
        return (program, inverse, close)
    else Cursor.fail (.unclosedBlock name) opener

def block (content : Cursor (List Statement)) : Cursor Block := do
  let start ← get
  Cursor.expect .mustacheOpen
  let _ ← Cursor.eat ['~']
  Cursor.expect .hash
  Cursor.skipBlanks
  let callee ← Cursor.expr
  match callee.path? with
  | none => Cursor.fail .blockNameNotPath callee.span.start
  | some path =>
    let (params, hash) ← Cursor.args true
    let bound ← Cursor.tagEnd
    let openStop ← get
    let (program, inverse, close) ←
      blockRestWith content path.text.toList start (← Cursor.rounds)
    return {
      call := ⟨callee, params, hash⟩
      blockParams := bound
      openSpan := ⟨start, openStop⟩
      program := program
      inverse := inverse
      close := some close
      chained := false
      span := ⟨start, close.span.stop⟩ }

def element (content : Cursor (List Statement)) : Cursor Element := do
  let start ← get
  let e ← Cursor.openingTag
  if e.selfClosing || e.tag ∈ Concrete.voidElements then return .ofOpening e
  else
    let children ← content
    let close ← Cursor.closingTag e.tag.toList start
    return { Element.ofOpening e with
      children := children
      closeSpan := some close
      span := ⟨start, close.stop⟩ }

/-- The statements up to the end of the source or a tag that is for the context to take, behind those
that were read before. -/
def contentWithin : Nat → Context → List Statement → Cursor (List Statement)
  | 0, _, _ => throw .rounds
  | k + 1, context, found => do
    if ← Cursor.atEnd then return found
    else if ← Cursor.isAt (startsWith Token.mustacheOpen.chars) then
      match ← Cursor.inBraces with
      | .note =>
        let c ← Cursor.note
        contentWithin k context (found ++ [.mustacheComment c])
      | .block =>
        let b ← block (contentWithin k .block [])
        contentWithin k context (found ++ [.block b])
      | .closeTag => if context = .top then Cursor.fail .strayClose (← get) else return found
      | .elseTag => if context = .top then Cursor.fail .strayElse (← get) else return found
      | _ =>
        let m ← Cursor.mustache
        contentWithin k context (found ++ [.mustache m])
    else if ← Cursor.isAt (startsWith Token.commentOpen.chars) then
      let c ← Cursor.comment
      contentWithin k context (found ++ [.comment c])
    else if ← Cursor.isAt (startsWith Token.closingTagOpen.chars) then
      if context = .top then Cursor.fail .strayClosingTag (← get) else return found
    else if ← Cursor.isAt Concrete.tagStartAhead then
      let e ← element (contentWithin k .element [])
      contentWithin k context (found ++ [.element e])
    else
      let t ← Cursor.text
      contentWithin k context (found ++ [.text t])

def template : Cursor Template := do
  let found ← contentWithin (← Cursor.rounds) .top []
  return ⟨found, ⟨0, size (← read)⟩⟩

/-- What the cursor makes of a source, from its start on. -/
def parse (source : String) : Except Stop Template :=
  (Cursor.runAt source.toList 0 template).map Prod.fst

end TemplateLint.Flagged
