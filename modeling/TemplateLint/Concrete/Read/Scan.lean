import TemplateLint.Concrete.Expr
import TemplateLint.Concrete.Failure
import TemplateLint.Text.Front

namespace TemplateLint.Concrete

open Text (isBlank after? eat startsWith)

/-- What a reader gives: mostly a part and the text after it. -/
abbrev Result := Except Failure

/-- The text after a mark that has to stand here. -/
def expect (t : Token) (s : List Char) : Result (List Char) :=
  match after? t.chars s with
  | some rest => .ok rest
  | none => .error ⟨.expected t s.isEmpty, s⟩

/-- What a construct at the front of a text is, as far as its first marks tell. -/
inductive Ahead where
  | ending
  | text
  | comment
  | element
  | closingTag
  | note
  | block
  | elseTag
  | closeTag
  | mustache
  deriving DecidableEq, Repr

/-- Whether blanks, then `else`, then a blank, `~` or `}` stand here. -/
def elseAhead (s : List Char) : Bool :=
  match after? Token.elseWord.chars (s.dropWhile isBlank) with
  | some (c :: _) => isBlank c || c == '~' || c == '}'
  | _ => false

/-- The construct that double braces open, from the text after them. -/
def Ahead.inBraces (s : List Char) : Ahead :=
  match (eat '~' s).2 with
  | '!' :: _ => .note
  | '#' :: _ => .block
  | '/' :: _ => .closeTag
  | rest => if elseAhead rest then .elseTag else .mustache

/-- Whether a character after `<` makes it the start of an element. -/
def startsTag (c : Char) : Bool := c.isAlpha || c == ':' || c == '@'

def Ahead.of : List Char → Ahead
  | [] => .ending
  | '{' :: '{' :: s => .inBraces s
  | '<' :: '!' :: '-' :: '-' :: _ => .comment
  | '<' :: '/' :: _ => .closingTag
  | '<' :: c :: _ => if startsTag c then .element else .text
  | _ :: _ => .text

/-- Whether the braces that end a tag stand here, with or without `~`. -/
def tagEndAhead (s : List Char) : Bool := startsWith Token.mustacheClose.chars (eat '~' s).2

/-- Whether `as`, blanks and a bar stand here. -/
def paramsAhead (s : List Char) : Bool :=
  match after? Token.asWord.chars s with
  | some (c :: rest) => isBlank c && startsWith Token.bar.chars ((c :: rest).dropWhile isBlank)
  | _ => false

end TemplateLint.Concrete
