import TemplateLint.Concrete.Read.Element
import TemplateLint.Concrete.Statement

namespace TemplateLint.Concrete

open Text (after? scanTo startsWith)

/-- What stands between `</` and `>` of the closing tag of the element `tag`, opened at `start`. -/
def readClosingTag (tag start s : List Char) : Result (List Char × List Char) := do
  match after? Token.closingTagOpen.chars s with
  | none => .error ⟨.unclosedElement tag, start⟩
  | some rest =>
    let (closing, rest) := scanTo (startsWith ['>']) rest
    match after? ['>'] rest with
    | none => .error ⟨.unclosedElement tag, start⟩
    | some rest =>
      if Text.trim closing ≠ tag then .error ⟨.tagMismatch (Text.trim closing) tag, s⟩
      else .ok (closing, rest)

mutual

/-- The statements at the front of a text of at most `n` characters. They end with the text or
before a tag that closes something, and it is for the construct around them to say which tag that
may be. -/
def statementsWithin : Nat → List Char → Result (List Statement × List Char)
  | 0, s => .ok ([], s)
  | n + 1, s =>
    match Ahead.of s with
    | .ending | .closingTag | .elseTag | .closeTag => .ok ([], s)
    | .text => do
      let (text, s) := scanTo (fun s => Ahead.of s ≠ .text) s
      let (more, s) ← statementsWithin n s
      .ok (.text text :: more, s)
    | .comment => do
      let (value, s) ← readComment s
      let (more, s) ← statementsWithin n s
      .ok (.comment value :: more, s)
    | .note => do
      let (note, s) ← Note.read s
      let (more, s) ← statementsWithin n s
      .ok (.note note :: more, s)
    | .mustache => do
      let (m, s) ← Mustache.read s
      let (more, s) ← statementsWithin n s
      .ok (.mustache m :: more, s)
    | .block => do
      let ((opening, name), rest) ← BlockTag.read s
      let (program, rest) ← statementsWithin n rest
      let ((sections, closing), rest) ← sectionsWithin name s n rest
      let (more, rest) ← statementsWithin n rest
      .ok (.block opening program sections closing :: more, rest)
    | .element => do
      let (opening, rest) ← OpeningTag.read s
      if opening.isWhole then
        let (more, rest) ← statementsWithin n rest
        .ok (.whole opening :: more, rest)
      else
        let (children, rest) ← statementsWithin n rest
        let (closing, rest) ← readClosingTag opening.name s rest
        let (more, rest) ← statementsWithin n rest
        .ok (.element opening children closing :: more, rest)

/-- What follows the program of the block `name`, opened at `start`: its `else` sections and its
closing tag. -/
def sectionsWithin (name start : List Char) :
    Nat → List Char → Result ((List Section × CloseTag) × List Char)
  | 0, _ => .error ⟨.unclosedBlock name, start⟩
  | n + 1, s =>
    match Ahead.of s with
    | .closeTag => do
      let (closing, s) ← CloseTag.read name s
      .ok (([], closing), s)
    | .elseTag => do
      let (tag, s) ← ElseTag.read s
      let (body, s) ← statementsWithin n s
      match tag.tail, Ahead.of s with
      | .plain .., .elseTag => .error ⟨.elseAfterElse, s⟩
      | _, _ =>
        let ((more, closing), s) ← sectionsWithin name start n s
        .ok ((⟨tag, body⟩ :: more, closing), s)
    | _ => .error ⟨.unclosedBlock name, start⟩

end

/-- Why a text stops being content at a tag that closes nothing. -/
def strayCause (s : List Char) : ParseError :=
  match Ahead.of s with
  | .closeTag => .strayClose
  | .elseTag => .strayElse
  | _ => .strayClosingTag

/-- The statements that make up a whole text. -/
def Statement.readAll (s : List Char) : Result (List Statement) := do
  let (statements, rest) ← statementsWithin s.length s
  if rest.isEmpty then .ok statements else .error ⟨strayCause rest, rest⟩

end TemplateLint.Concrete
