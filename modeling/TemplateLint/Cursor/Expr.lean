import TemplateLint.Cursor.Basic

namespace TemplateLint.Cursor

open Text (isBlank size after? startsWith minus)
open Concrete (Token flagged)

/-- What the string says whose opening quote at `start` is behind the cursor; `value` is what it said
so far. -/
def quotedWithin (mark : Char) (start : Nat) : Nat → List Char → Cursor (List Char)
  | 0, _ => throw .rounds
  | k + 1, value => do
    match ← bump with
    | none => fail .unterminatedString start
    | some c =>
      if c = '\\' then
        match ← bump with
        | some escaped => quotedWithin mark start k (value ++ [escaped])
        | none => quotedWithin mark start k value
      else if c = mark then return value
      else quotedWithin mark start k (value ++ [c])

def quoted (mark : Char) (start : Nat) : Cursor (List Char) := do
  quotedWithin mark start (← rounds) []

def word : Cursor Tree.Expr := do
  let start ← get
  let stop ← wordEnd start
  if stop = start then fail .expectedExpression start
  else
    goto stop
    return Concrete.wordAt start (← slice start stop)

/-- Whether the word between two offsets is the key of a named argument. -/
def isKey (start stop : Nat) : Cursor Bool := do
  if start < stop then return startsWith ['='] (← sliceFrom stop)
  else return false

/-- The arguments up to the end of a call, behind those that were read before. -/
def argsWith (expr : Cursor Tree.Expr) (bindsNames : Bool) :
    Nat → List Tree.Expr → List Tree.HashPair → Cursor (List Tree.Expr × List Tree.HashPair)
  | 0, _, _ => throw .rounds
  | k + 1, params, hash => do
    skipBlanks
    if ← atEnd then fail .unclosedExpression (← get)
    else if ← isAt (Concrete.argsEndAhead bindsNames) then return (params, hash)
    else
      let start ← get
      let stop ← wordEnd start
      if ← isKey start stop then
        let key ← slice start stop
        goto (stop + 1)
        let value ← expr
        let pair : Tree.HashPair := ⟨String.ofList key, value, ⟨start, value.span.stop⟩⟩
        argsWith expr bindsNames k params (hash ++ [pair])
      else if !hash.isEmpty then fail .positionalAfterNamed (← get)
      else
        let value ← expr
        argsWith expr bindsNames k (params ++ [value]) hash

def group (expr : Cursor Tree.Expr) : Cursor Tree.Expr := do
  let start ← get
  expect .groupOpen
  skipBlanks
  let callee ← expr
  let (params, hash) ← argsWith expr false (← rounds) [] []
  skipBlanks
  expect .groupClose
  return .subExpression ⟨⟨callee, params, hash⟩, ⟨start, ← get⟩⟩

def exprWithin : Nat → Cursor Tree.Expr
  | 0 => throw .rounds
  | k + 1 => do
    let start ← get
    match ← peek with
    | some c =>
      if c = '(' then group (exprWithin k)
      else if c = '"' ∨ c = '\'' then
        let _ ← bump
        let value ← quoted c start
        return .literal ⟨.string (String.ofList value), ⟨start, ← get⟩⟩
      else word
    | none => word

def expr : Cursor Tree.Expr := do exprWithin (← rounds)

def args (bindsNames : Bool) : Cursor (List Tree.Expr × List Tree.HashPair) := do
  argsWith expr bindsNames (← rounds) [] []

def mustache : Cursor Tree.Mustache := do
  let start ← get
  expect .mustacheOpen
  let trusting ← eat ['{']
  let _ ← eat ['~']
  skipBlanks
  let callee ← expr
  let (params, hash) ← args false
  skipBlanks
  let _ ← eat ['~']
  expect (if trusting then .tripleClose else .mustacheClose)
  return ⟨⟨callee, params, hash⟩, trusting, ⟨start, ← get⟩⟩

/-- The text from the closing braces on, if a comment ends here. -/
def noteEnd? (dashes : Bool) (s : List Char) : Option (List Char) :=
  match after? (flagged dashes ['-', '-']) s with
  | some rest =>
    let rest := (Text.eat '~' rest).2
    if startsWith Token.mustacheClose.chars rest then some rest else none
  | none => none

/-- The comment whose opening at `start` is behind the cursor, with its value from `valueStart` on. -/
def noteWithin (start valueStart : Nat) (dashes : Bool) : Nat → Cursor Tree.Comment
  | 0 => throw .rounds
  | k + 1 => do
    if ← atEnd then fail .unclosedComment start
    else
      match noteEnd? dashes (← rest) with
      | some closing =>
        let value ← slice valueStart (← get)
        goto ((← check (minus (size (← read)) (size closing))) + 2)
        return ⟨String.ofList value, ⟨start, ← get⟩⟩
      | none =>
        let _ ← bump
        noteWithin start valueStart dashes k

def note : Cursor Tree.Comment := do
  let start ← get
  expect .mustacheOpen
  let _ ← eat ['~']
  expect .bang
  let dashes ← eat ['-', '-']
  noteWithin start (← get) dashes (← rounds)

def comment : Cursor Tree.Comment := do
  let start ← get
  expect .commentOpen
  match Text.find? ['-', '-', '>'] (← rest) with
  | none => fail .unclosedComment start
  | some length =>
    let s ← rest
    let value ← check (Text.cut ⟨0, length⟩ s)
    goto ((← get) + (length + 3))
    return ⟨String.ofList value, ⟨start, ← get⟩⟩

/-- The names up to the closing bar, behind those that were read before. -/
def namesWithin : Nat → List String → Cursor (List String)
  | 0, _ => throw .rounds
  | k + 1, found => do
    skipBlanks
    if ← eat Token.bar.chars then return found
    else
      let start ← get
      let stop ← wordEnd start
      if stop = start then fail .invalidBlockParameter start
      else
        let name ← slice start stop
        goto stop
        namesWithin k (found ++ [String.ofList name])

/-- The names between the bars of `as |names|`; none, and no move, when that does not stand here. -/
def blockParams : Cursor (List String) := do
  let start ← get
  skipBlanks
  if ← isAt Concrete.paramsAhead then
    expect .asWord
    skipBlanks
    expect .bar
    namesWithin (← rounds) []
  else
    goto start
    return []

/-- The end of a tag that can bind names. -/
def tagEnd : Cursor (List String) := do
  let bound ← blockParams
  skipBlanks
  let _ ← eat ['~']
  expect .mustacheClose
  return bound

/-- The tag that closes the block `name`. -/
def closeTag (name : List Char) : Cursor Tree.CloseTag := do
  let start ← get
  expect .mustacheOpen
  let _ ← eat ['~']
  expect .slash
  skipBlanks
  let pathStart ← get
  let pathStop ← wordEnd pathStart
  let found ← slice pathStart pathStop
  if found ≠ name then fail (.closeMismatch found name) start
  else
    goto pathStop
    skipBlanks
    let _ ← eat ['~']
    expect .mustacheClose
    return ⟨⟨start, ← get⟩, ⟨pathStart, pathStop⟩⟩

end TemplateLint.Cursor
