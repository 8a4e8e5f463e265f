import TemplateLint.Concrete.Read.Expr
import TemplateLint.Concrete.Tag

namespace TemplateLint.Concrete

open Text (isBlank after? eat run scanTo startsWith)

def Mustache.read (s : List Char) : Result (Mustache × List Char) := do
  let s ← expect .mustacheOpen s
  let (trusting, s) := eat '{' s
  let (tildeBefore, s) := eat '~' s
  let (lead, s) := run isBlank s
  let (callee, s) ← Expr.read s
  let ((args, trail), s) ← Arg.readAll false s
  let (tildeAfter, s) := eat '~' s
  let s ← expect (if trusting then .tripleClose else .mustacheClose) s
  .ok (⟨trusting, tildeBefore, ⟨lead, callee, args, trail⟩, tildeAfter⟩, s)

/-- Whether a comment ends here; with dashes it takes two more to end it. -/
def noteEndAhead (dashes : Bool) (s : List Char) : Bool :=
  match after? (flagged dashes ['-', '-']) s with
  | some rest => tagEndAhead rest
  | none => false

def Note.read (start : List Char) : Result (Note × List Char) := do
  let s ← expect .mustacheOpen start
  let (tildeBefore, s) := eat '~' s
  let s ← expect .bang s
  let dashes := startsWith ['-', '-'] s
  let (value, s) := scanTo (noteEndAhead dashes) (s.drop (flagged dashes ['-', '-']).length)
  if s.isEmpty then .error ⟨.unclosedComment, start⟩
  else
    let (tildeAfter, s) := eat '~' (s.drop (flagged dashes ['-', '-']).length)
    let s ← expect .mustacheClose s
    .ok (⟨tildeBefore, dashes, value, tildeAfter⟩, s)

/-- The value of `<!-- value -->`. -/
def readComment (start : List Char) : Result (List Char × List Char) := do
  let s ← expect .commentOpen start
  let (value, s) := scanTo (startsWith ['-', '-', '>']) s
  match after? ['-', '-', '>'] s with
  | some s => .ok (value, s)
  | none => .error ⟨.unclosedComment, start⟩

def BlockParams.read (s : List Char) : Result (BlockParams × List Char) := do
  let s ← expect .asWord s
  let (gap, s) := run isBlank s
  let s ← expect .bar s
  let (names, s) := run (fun c => isBlank c || isWordChar c) s
  match after? Token.bar.chars s with
  | some s => .ok (⟨gap, names⟩, s)
  | none => .error ⟨.invalidBlockParameter, s⟩

def BlockParams.read? (s : List Char) : Result (Option BlockParams × List Char) :=
  if paramsAhead s then do
    let (params, s) ← BlockParams.read s
    .ok (some params, s)
  else .ok (none, s)

def TagEnd.read (s : List Char) : Result (TagEnd × List Char) := do
  let (params, s) ← BlockParams.read? s
  let (trail, s) := run isBlank s
  let (tilde, s) := eat '~' s
  let s ← expect .mustacheClose s
  .ok (⟨params, trail, tilde⟩, s)

/-- The words that stand for a value of their own and are no path. -/
def isKeyword (w : List Char) : Bool :=
  [['t', 'r', 'u', 'e'], ['f', 'a', 'l', 's', 'e'], ['n', 'u', 'l', 'l'],
    ['u', 'n', 'd', 'e', 'f', 'i', 'n', 'e', 'd']].contains w

/-- What may follow the leading digits of a number: a point and digits, then an exponent. -/
def isNumberTail (s : List Char) : Bool :=
  let s := match s with
    | '.' :: s => s.dropWhile Char.isDigit
    | _ => s
  match s with
  | [] => true
  | c :: s =>
    let s := if (eat '-' s).1 then (eat '-' s).2 else (eat '+' s).2
    (c == 'e' || c == 'E') && !s.isEmpty && s.all Char.isDigit

/-- A number is an optional minus sign, digits, an optional fraction and an optional exponent. -/
def isNumber (w : List Char) : Bool :=
  match run Char.isDigit (eat '-' w).2 with
  | ([], _) => false
  | (_ :: _, tail) => isNumberTail tail

/-- The name of a helper: the word that is called, unless it is a literal. -/
def Expr.path? : Expr → Option (List Char)
  | .word w => if isKeyword w || isNumber w then none else some w
  | _ => none

def BlockTag.read (s : List Char) : Result ((BlockTag × List Char) × List Char) := do
  let s ← expect .mustacheOpen s
  let (tilde, s) := eat '~' s
  let s ← expect .hash s
  let (lead, s) := run isBlank s
  let (callee, rest) ← Expr.read s
  match callee.path? with
  | none => .error ⟨.blockNameNotPath, s⟩
  | some name =>
    let ((args, trail), s) ← Arg.readAll true rest
    let (ending, s) ← TagEnd.read s
    .ok ((⟨tilde, ⟨lead, callee, args, trail⟩, ending⟩, name), s)

def ElseTail.read (s : List Char) : Result (ElseTail × List Char) := do
  let (lead, s) := run isBlank s
  if tagEndAhead s then
    let (tilde, s) := eat '~' s
    let s ← expect .mustacheClose s
    .ok (.plain lead tilde, s)
  else
    let (callee, s) ← Expr.read s
    let ((args, trail), s) ← Arg.readAll true s
    let (ending, s) ← TagEnd.read s
    .ok (.chained ⟨lead, callee, args, trail⟩ ending, s)

def ElseTag.read (s : List Char) : Result (ElseTag × List Char) := do
  let s ← expect .mustacheOpen s
  let (tilde, s) := eat '~' s
  let (lead, s) := run isBlank s
  let s ← expect .elseWord s
  let (tail, s) ← ElseTail.read s
  .ok (⟨tilde, lead, tail⟩, s)

/-- The tag that closes the block `name`. -/
def CloseTag.read (name start : List Char) : Result (CloseTag × List Char) := do
  let s ← expect .mustacheOpen start
  let (tildeBefore, s) := eat '~' s
  let s ← expect .slash s
  let (lead, s) := run isBlank s
  let (found, s) := run isWordChar s
  if found ≠ name then .error ⟨.closeMismatch found name, start⟩
  else
    let (trail, s) := run isBlank s
    let (tildeAfter, s) := eat '~' s
    let s ← expect .mustacheClose s
    .ok (⟨tildeBefore, lead, found, trail, tildeAfter⟩, s)

end TemplateLint.Concrete
