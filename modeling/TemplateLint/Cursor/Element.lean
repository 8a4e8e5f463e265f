import TemplateLint.Cursor.Expr

namespace TemplateLint.Cursor

open Text (isBlank size after? startsWith minus)
open Concrete (Token)

/-- The parts with the text between two offsets behind them, if there is any. -/
def pushText (start stop : Nat) (parts : List Tree.ConcatPart) : Cursor (List Tree.ConcatPart) := do
  if start < stop then
    let text ← slice start stop
    return parts ++ [.text ⟨String.ofList text, ⟨start, stop⟩⟩]
  else return parts

/-- The parts of a quoted value and whether there is a mustache among them. The text from `textStart`
on is behind the cursor and in no part yet. -/
def quotedPartsWithin (mark : Char) (start : Nat) :
    Nat → Nat → List Tree.ConcatPart → Bool → Cursor (List Tree.ConcatPart × Bool)
  | 0, _, _, _ => throw .rounds
  | k + 1, textStart, parts, hasMustache => do
    if ← atEnd then fail .unterminatedValue start
    else if ← isAt (fun s => startsWith [mark] s || startsWith Token.mustacheOpen.chars s) then
      let parts ← pushText textStart (← get) parts
      if ← eat [mark] then return (parts, hasMustache)
      else
        let m ← mustache
        quotedPartsWithin mark start k (← get) (parts ++ [.mustache m]) true
    else
      let _ ← bump
      quotedPartsWithin mark start k textStart parts hasMustache

def quotedValue : Cursor Tree.AttrValue := do
  let start ← get
  match ← bump with
  | none => throw (.fault .noQuote)
  | some mark =>
    let (parts, hasMustache) ← quotedPartsWithin mark start (← rounds) (← get) [] false
    let stop ← get
    if hasMustache then return .concat parts ⟨start, stop⟩
    else
      let text ← slice (start + 1) (← check (minus stop 1))
      return .text ⟨String.ofList text, ⟨start, stop⟩⟩

/-- The value behind the `=` of the attribute that starts at `start`. -/
def attrValue (name : List Char) (start : Nat) : Cursor Tree.AttrValue := do
  match ← peek with
  | some c =>
    if c = '"' ∨ c = '\'' then quotedValue
    else if ← isAt (startsWith Token.mustacheOpen.chars) then
      let m ← mustache
      return .mustache m
    else
      let valueStart ← get
      bumpTo Concrete.bareEndAhead
      let valueStop ← get
      let text ← slice valueStart valueStop
      return .text ⟨String.ofList text, ⟨valueStart, valueStop⟩⟩
  | none => fail (.missingValue name) start

/-- An attribute. Without a value it ends where its name does, not behind the blanks after that. -/
def «attribute» : Cursor Tree.Attribute := do
  let start ← get
  bumpTo Concrete.attributeEndAhead
  let nameStop ← get
  if nameStop = start then fail .expectedAttributeName start
  else
    let name ← slice start nameStop
    skipBlanks
    if ← eat ['='] then
      skipBlanks
      let value ← attrValue name start
      return ⟨String.ofList name, ⟨start, nameStop⟩, value, ⟨start, ← get⟩⟩
    else
      goto nameStop
      return ⟨String.ofList name, ⟨start, nameStop⟩, .valueless, ⟨start, nameStop⟩⟩

/-- What an opening tag holds beside its name. -/
structure TagItems where
  attributes : List Tree.Attribute
  modifiers : List Tree.ElementModifier
  comments : List Tree.Comment
  blockParams : List String

/-- The items up to the end of the opening tag at `start`, behind those that were read before, and
whether that end closes the element. -/
def tagItemsWithin (tag : List Char) (start : Nat) : Nat → TagItems → Cursor (TagItems × Bool)
  | 0, _ => throw .rounds
  | k + 1, items => do
    skipBlanks
    if ← atEnd then fail (.unclosedOpeningTag tag) start
    else if ← eat ['/', '>'] then return (items, true)
    else if ← eat ['>'] then return (items, false)
    else if ← isAt (startsWith Token.mustacheOpen.chars) then
      match ← inBraces with
      | .note =>
        let c ← note
        tagItemsWithin tag start k { items with comments := items.comments ++ [c] }
      | .mustache =>
        let m ← mustache
        tagItemsWithin tag start k { items with modifiers := items.modifiers ++ [⟨m.call, m.span⟩] }
      | _ => fail .blockInOpeningTag (← get)
    else if ← isAt Concrete.paramsAhead then
      let bound ← blockParams
      tagItemsWithin tag start k { items with blockParams := bound }
    else
      let a ← «attribute»
      tagItemsWithin tag start k { items with attributes := items.attributes ++ [a] }

/-- The element of an opening tag, as far as that tag tells. -/
def openingTag : Cursor Tree.Element := do
  let start ← get
  expect .tagOpen
  let tagStart ← get
  bumpTo Concrete.bareEndAhead
  let tagStop ← get
  let tag ← slice tagStart tagStop
  let (items, selfClosing) ← tagItemsWithin tag start (← rounds) ⟨[], [], [], []⟩
  let stop ← get
  return {
    tag := String.ofList tag
    tagSpan := ⟨tagStart, tagStop⟩
    attributes := items.attributes
    modifiers := items.modifiers
    comments := items.comments
    blockParams := items.blockParams
    children := []
    selfClosing := selfClosing
    openSpan := ⟨start, stop⟩
    closeSpan := none
    span := ⟨start, stop⟩ }

end TemplateLint.Cursor
