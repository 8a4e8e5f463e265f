import TemplateLint.Concrete.Expr

namespace TemplateLint.Concrete

/-- `cs` if a flag is set, else nothing. -/
def flagged (flag : Bool) (cs : List Char) : List Char := if flag then cs else []

/-- `{{call}}`, or `{{{call}}}` when it is trusted not to need escaping. A `~` beside the braces
asks to trim the text there. -/
structure Mustache where
  trusting : Bool
  tildeBefore : Bool
  call : Call
  tildeAfter : Bool

def Mustache.chars (m : Mustache) : List Char :=
  Token.mustacheOpen.chars ++ flagged m.trusting ['{'] ++ flagged m.tildeBefore ['~'] ++
    m.call.chars ++ flagged m.tildeAfter ['~'] ++
    (if m.trusting then Token.tripleClose.chars else Token.mustacheClose.chars)

/-- A template comment, `{{! ... }}` or `{{!-- ... --}}`. -/
structure Note where
  tildeBefore : Bool
  dashes : Bool
  value : List Char
  tildeAfter : Bool

def Note.chars (n : Note) : List Char :=
  Token.mustacheOpen.chars ++ flagged n.tildeBefore ['~'] ++ Token.bang.chars ++
    flagged n.dashes ['-', '-'] ++ n.value ++ flagged n.dashes ['-', '-'] ++
    flagged n.tildeAfter ['~'] ++ Token.mustacheClose.chars

/-- `as |names|`: `gap` is the blank before the bar, `names` all that stands between the bars. -/
structure BlockParams where
  gap : List Char
  names : List Char

def BlockParams.chars (p : BlockParams) : List Char :=
  Token.asWord.chars ++ p.gap ++ Token.bar.chars ++ p.names ++ Token.bar.chars

/-- The end of a tag that can bind names: `as |names|` if any, blanks and the closing braces. -/
structure TagEnd where
  params : Option BlockParams
  trail : List Char
  tilde : Bool

def TagEnd.chars (e : TagEnd) : List Char :=
  ((e.params.map BlockParams.chars).getD []) ++ e.trail ++ flagged e.tilde ['~'] ++
    Token.mustacheClose.chars

/-- `{{#helper ... as |names|}}` -/
structure BlockTag where
  tilde : Bool
  call : Call
  ending : TagEnd

def BlockTag.chars (t : BlockTag) : List Char :=
  Token.mustacheOpen.chars ++ flagged t.tilde ['~'] ++ Token.hash.chars ++ t.call.chars ++
    t.ending.chars

/-- What stands in an `else` tag after the word: nothing, or the call of a chained segment. -/
inductive ElseTail where
  | plain (trail : List Char) (tilde : Bool)
  | chained (call : Call) (ending : TagEnd)

def ElseTail.chars : ElseTail → List Char
  | .plain trail tilde => trail ++ flagged tilde ['~'] ++ Token.mustacheClose.chars
  | .chained call ending => call.chars ++ ending.chars

/-- `{{else}}` or `{{else helper ...}}` -/
structure ElseTag where
  tilde : Bool
  lead : List Char
  tail : ElseTail

def ElseTag.chars (t : ElseTag) : List Char :=
  Token.mustacheOpen.chars ++ flagged t.tilde ['~'] ++ t.lead ++ Token.elseWord.chars ++
    t.tail.chars

/-- `{{/helper}}` -/
structure CloseTag where
  tildeBefore : Bool
  lead : List Char
  name : List Char
  trail : List Char
  tildeAfter : Bool

def CloseTag.chars (t : CloseTag) : List Char :=
  Token.mustacheOpen.chars ++ flagged t.tildeBefore ['~'] ++ Token.slash.chars ++ t.lead ++
    t.name ++ t.trail ++ flagged t.tildeAfter ['~'] ++ Token.mustacheClose.chars

/-- A piece of a quoted attribute value. -/
inductive Part where
  | text (chars : List Char)
  | mustache (m : Mustache)

def Part.chars : Part → List Char
  | .text cs => cs
  | .mustache m => m.chars

inductive AttrValue where
  | quoted (mark : Char) (parts : List Part)
  | mustache (m : Mustache)
  | bare (chars : List Char)

def AttrValue.chars : AttrValue → List Char
  | .quoted mark parts => mark :: (parts.flatMap Part.chars ++ [mark])
  | .mustache m => m.chars
  | .bare cs => cs

/-- `= value` with the blanks on both sides of the sign. -/
structure Assigned where
  before : List Char
  after : List Char
  value : AttrValue

def Assigned.chars (a : Assigned) : List Char := a.before ++ ['='] ++ a.after ++ a.value.chars

structure Attribute where
  name : List Char
  assigned : Option Assigned

def Attribute.chars (a : Attribute) : List Char :=
  a.name ++ (a.assigned.map Assigned.chars).getD []

/-- What can stand in the opening tag of an element after its name. -/
inductive Item where
  | attribute (a : Attribute)
  | modifier (m : Mustache)
  | note (n : Note)
  | params (p : BlockParams)

def Item.chars : Item → List Char
  | .attribute a => a.chars
  | .modifier m => m.chars
  | .note n => n.chars
  | .params p => p.chars

/-- An item with the blanks before it. -/
structure Spaced where
  lead : List Char
  item : Item

def Spaced.chars (s : Spaced) : List Char := s.lead ++ s.item.chars

/-- `<name ...>` or `<name ... />` -/
structure OpeningTag where
  name : List Char
  items : List Spaced
  trail : List Char
  selfClosing : Bool

def OpeningTag.chars (t : OpeningTag) : List Char :=
  Token.tagOpen.chars ++ t.name ++ t.items.flatMap Spaced.chars ++ t.trail ++
    (if t.selfClosing then ['/', '>'] else ['>'])

/-- The elements that never have a closing tag. -/
def voidElements : List String :=
  ["area", "base", "br", "col", "command", "embed", "hr", "img", "input", "keygen", "link", "meta",
    "param", "source", "track", "wbr"]

/-- Whether the element ends with its opening tag. -/
def OpeningTag.isWhole (t : OpeningTag) : Bool :=
  t.selfClosing || String.ofList t.name ∈ voidElements

end TemplateLint.Concrete
