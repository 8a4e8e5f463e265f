import TemplateLint.Text.Checked
import TemplateLint.Tree.Parse

namespace TemplateLint

open Text (isBlank size isBoundary slice? startsWith minus cut)
open Concrete (Token Ahead isWordChar startsTag)

/-- What ends a run early. -/
inductive Stop where
  /-- A step that cannot be made. -/
  | fault (f : Fault)
  /-- A place where the source is no template. -/
  | failure (e : SyntaxError)
  /-- A loop that took all its rounds. -/
  | rounds

/-- A routine that reads a source from a byte offset on. -/
abbrev Cursor := ReaderT (List Char) (StateT Nat (Except Stop))

/-- How a run ends: with a value and the offset reached, or early. -/
abbrev Outcome (α : Type) := Except Stop (α × Nat)

namespace Cursor

variable {α : Type}

def runAt (source : List Char) (n : Nat) (m : Cursor α) : Outcome α := m source n

def check (x : Except Fault α) : Cursor α :=
  match x with
  | .ok a => pure a
  | .error f => throw (.fault f)

def slice (start stop : Nat) : Cursor (List Char) := do check (cut ⟨start, stop⟩ (← read))

/-- The text from an offset up to the end of the source. -/
def sliceFrom (start : Nat) : Cursor (List Char) := do slice start (size (← read))

def rest : Cursor (List Char) := do sliceFrom (← get)

/-- Every move of the cursor is one of these. -/
def goto (n : Nat) : Cursor Unit := do
  if isBoundary n (← read) then set n else throw (.fault (.move n))

/-- Reports why the source is no template, with the line and the column of an offset. -/
def fail (cause : Concrete.ParseError) (n : Nat) : Cursor α := do
  let source ← read
  let position ← check (Text.lookup (Text.lineStarts source) n source)
  throw (.failure ⟨cause, position⟩)

def atEnd : Cursor Bool := do return size (← read) ≤ (← get)

/-- Whether the text that is left passes a test. -/
def isAt (test : List Char → Bool) : Cursor Bool := do return test (← rest)

def peek : Cursor (Option Char) := do return (← rest).head?

def bump : Cursor (Option Char) := do
  match ← peek with
  | some c =>
    goto ((← get) + c.utf8Size)
    return some c
  | none => return none

/-- Moves past a mark if it stands here. -/
def eat (mark : List Char) : Cursor Bool := do
  if ← isAt (startsWith mark) then
    goto ((← get) + size mark)
    return true
  else return false

def expect (t : Token) : Cursor Unit := do
  if ← eat t.chars then return ()
  else fail (.expected t (← atEnd)) (← get)

/-- How many rounds a loop is given. -/
def rounds : Cursor Nat := do return (← read).length + 1

def skipBlanksWithin : Nat → Cursor Unit
  | 0 => throw .rounds
  | k + 1 => do
    match ← peek with
    | some c =>
      if isBlank c then
        goto ((← get) + c.utf8Size)
        skipBlanksWithin k
      else return ()
    | none => return ()

def skipBlanks : Cursor Unit := do skipBlanksWithin (← rounds)

def bumpToWithin (stop : List Char → Bool) : Nat → Cursor Unit
  | 0 => throw .rounds
  | k + 1 => do
    if ← atEnd then return ()
    else if ← isAt stop then return ()
    else
      let _ ← bump
      bumpToWithin stop k

/-- Moves to the first place where the test holds, or to the end. -/
def bumpTo (stop : List Char → Bool) : Cursor Unit := do bumpToWithin stop (← rounds)

/-- Where the word that starts at an offset ends. -/
def wordEnd (start : Nat) : Cursor Nat := do
  return start + size ((← sliceFrom start).takeWhile isWordChar)

/-- What the two braces here open; they have to stand here. -/
def inBraces : Cursor Ahead := do
  let s ← rest
  return Ahead.inBraces (← check (cut ⟨2, size s⟩ s))

end Cursor

/-- The number of bytes before the first place where a mark stands. -/
def Text.find? (mark s : List Char) : Option Nat :=
  match scanTo (startsWith mark) s with
  | (_, []) => none
  | (front, _ :: _) => some (size front)

/-- Whether `<` stands here with a character that makes it the start of an element. -/
def Concrete.tagStartAhead : List Char → Bool
  | '<' :: c :: _ => startsTag c
  | _ => false

/-- Whether something else than text begins here. -/
def Concrete.textBoundaryAhead (s : List Char) : Bool :=
  startsWith Token.mustacheOpen.chars s || startsWith Token.closingTagOpen.chars s ||
    startsWith Token.commentOpen.chars s || tagStartAhead s

end TemplateLint
