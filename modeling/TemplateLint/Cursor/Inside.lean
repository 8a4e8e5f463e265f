import TemplateLint.Cursor.Statement

namespace TemplateLint.Cursor

open Concrete (Token)

/-- A mustache whose expressions are read by `expr`, as those of the constructs below are. -/
def mustacheWith (expr : Cursor Tree.Expr) : Cursor Tree.Mustache := do
  let start ← get
  expect .mustacheOpen
  let trusting ← eat ['{']
  let _ ← eat ['~']
  skipBlanks
  let callee ← expr
  let (params, hash) ← argsWith expr false (← rounds) [] []
  skipBlanks
  let _ ← eat ['~']
  expect (if trusting then .tripleClose else .mustacheClose)
  return ⟨⟨callee, params, hash⟩, trusting, ⟨start, ← get⟩⟩

theorem mustache_eq : mustache = mustacheWith expr := rfl

def chainedElseWith (expr : Cursor Tree.Expr)
    (rest : Cursor (Tree.Body × Tree.ElsePart × Tree.CloseTag)) (start : Nat) :
    Cursor (Tree.ElsePart × Tree.CloseTag) := do
  let callee ← expr
  let (params, hash) ← argsWith expr true (← rounds) [] []
  let bound ← tagEnd
  let openStop ← get
  let (program, inverse, close) ← rest
  let segment : Tree.Block := {
    call := ⟨callee, params, hash⟩
    blockParams := bound
    openSpan := ⟨start, openStop⟩
    program := program
    inverse := inverse
    close := none
    span := ⟨start, close.span.start⟩ }
  return (.chained segment, close)

def elseRestWith (expr : Cursor Tree.Expr) (content : Cursor (List Tree.Statement))
    (rest : Cursor (Tree.Body × Tree.ElsePart × Tree.CloseTag)) (name : List Char) (opener : Nat) :
    Cursor (Tree.ElsePart × Tree.CloseTag) := do
  let start ← get
  expect .mustacheOpen
  let _ ← eat ['~']
  skipBlanks
  expect .elseWord
  skipBlanks
  if ← isAt Concrete.tagEndAhead then finalElse content name opener start
  else chainedElseWith expr rest start

theorem elseRest_eq (content : Cursor (List Tree.Statement))
    (rest : Cursor (Tree.Body × Tree.ElsePart × Tree.CloseTag)) (name : List Char) (opener : Nat) :
    elseRest content rest name opener = elseRestWith expr content rest name opener := rfl

/-- What a chain goes on with when `j` segments are left to it, and `k` rounds to what they hold. -/
abbrev chainRest (j k : Nat) (name : List Char) (opener : Nat) :
    Cursor (Tree.Body × Tree.ElsePart × Tree.CloseTag) :=
  blockRestWith (contentWithin k .block []) name opener j

def blockWith (expr : Cursor Tree.Expr) (content : Cursor (List Tree.Statement)) :
    Cursor Tree.Block := do
  let start ← get
  expect .mustacheOpen
  let _ ← eat ['~']
  expect .hash
  skipBlanks
  let callee ← expr
  match callee.path? with
  | none => fail .blockNameNotPath callee.span.start
  | some path =>
    let (params, hash) ← argsWith expr true (← rounds) [] []
    let bound ← tagEnd
    let openStop ← get
    let (program, inverse, close) ←
      blockRestWith content path.text.toList start (← rounds)
    return {
      call := ⟨callee, params, hash⟩
      blockParams := bound
      openSpan := ⟨start, openStop⟩
      program := program
      inverse := inverse
      close := some close
      span := ⟨start, close.span.stop⟩ }

theorem block_eq (content : Cursor (List Tree.Statement)) : block content = blockWith expr content :=
  rfl

end TemplateLint.Cursor
