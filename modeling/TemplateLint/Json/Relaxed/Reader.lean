import TemplateLint.Json.Reader
import TemplateLint.Json.Relaxed.Written
import TemplateLint.Text.Front

namespace TemplateLint.Json.Relaxed

open Text (after? eat run)

/-- What ends a line. -/
def endsLine (c : Char) : Bool :=
  c == '\n' || c == '\r' || c == '\u2028' || c == '\u2029'

/-- The Unicode blanks other than U+0085, and the byte order mark. -/
def isBlank (c : Char) : Bool := (Text.isBlank c && c != '\u0085') || c == '\ufeff'

/-- Where a comment that is skipped ends. -/
inductive Comment where
  | none
  | line
  | block
  deriving DecidableEq, Repr

/-- What follows the blanks and comments; nothing when a comment is not closed. -/
def skipIn : Comment → List Char → Option (List Char)
  | .none, '/' :: '/' :: s => skipIn .line s
  | .none, '/' :: '*' :: s => skipIn .block s
  | .none, c :: s => if isBlank c then skipIn .none s else some (c :: s)
  | .none, [] => some []
  | .line, c :: s => skipIn (if endsLine c then .none else .line) s
  | .line, [] => some []
  | .block, '*' :: '/' :: s => skipIn .none s
  | .block, _ :: s => skipIn .block s
  | .block, [] => .none

def skip (s : List Char) : Option (List Char) := skipIn .none s

/-- A number of `n` hexadecimal digits. -/
def readHex? (n : Nat) (s : List Char) : Option (Nat × List Char) :=
  if (s.take n).length = n then (hexNumber? (s.take n)).map fun v => (v, s.drop n) else none

/-- What an escape stands for, from the text after the backslash; a line end stands for nothing. -/
def readEscape? (s : List Char) : Option (List Piece × List Char) :=
  match s with
  | [] => none
  | 'b' :: s => some ([.char '\x08'], s)
  | 'f' :: s => some ([.char '\x0c'], s)
  | 'n' :: s => some ([.char '\n'], s)
  | 'r' :: s => some ([.char '\r'], s)
  | 't' :: s => some ([.char '\t'], s)
  | 'v' :: s => some ([.char '\x0b'], s)
  | '0' :: s => some ([.char '\x00'], s)
  | 'x' :: s => (readHex? 2 s).map fun (n, s) => ([.char (Char.ofNat n)], s)
  | 'u' :: s => (readHex? 4 s).map fun (n, s) => ([.unit n], s)
  | '\r' :: '\n' :: s => some ([], s)
  | c :: s =>
    if c.isDigit then none else if endsLine c then some ([], s) else some ([.char c], s)

/-- The string after its opening quote, in a text of at most `n` characters. -/
def stringWithin (mark : Char) : Nat → List Char → Option (List Piece × List Char)
  | 0, _ => none
  | n + 1, s =>
    match s with
    | [] => none
    | '\\' :: s => do
      let (part, s) ← readEscape? s
      let (ps, s) ← stringWithin mark n s
      some (part ++ ps, s)
    | c :: s =>
      if c = mark then some ([], s)
      else if endsLine c then none
      else do
        let (ps, s) ← stringWithin mark n s
        some (.char c :: ps, s)

def startsName (c : Char) : Bool := Text.isLetter c || c == '$' || c == '_'

def continuesName (c : Char) : Bool :=
  startsName c || Text.isContinuing c || c == '\u200c' || c == '\u200d'

/-- A key without quotes, of which `first` tells whether this is its beginning, in a text of at most
`n` characters. An escape can stand for any character. -/
def nameWithin : Nat → Bool → List Char → Option (List Piece × List Char)
  | 0, first, s => if first then none else some ([], s)
  | n + 1, first, s =>
    match s with
    | '\\' :: 'u' :: s => do
      let (code, s) ← readHex? 4 s
      let (ps, s) ← nameWithin n false s
      some (.unit code :: ps, s)
    | c :: rest =>
      if (if first then startsName c else continuesName c) then do
        let (ps, s) ← nameWithin n false rest
        some (.char c :: ps, s)
      else if first then none else some ([], s)
    | [] => if first then none else some ([], [])

/-- A key in a text of at most `n` characters. -/
def keyWithin (n : Nat) (s : List Char) : Option (List Piece × List Char) :=
  match s with
  | '"' :: s => stringWithin '"' n s
  | '\'' :: s => stringWithin '\'' n s
  | s => nameWithin n true s

/-- The value of decimal digits. -/
def decimalNumber (ds : List Char) : Nat := ds.foldl (fun n c => 10 * n + digitValue c) 0

/-- A sign, if one stands here. -/
def readSign (s : List Char) : Option Sign × List Char :=
  match s with
  | '+' :: s => (some .plus, s)
  | '-' :: s => (some .minus, s)
  | s => (none, s)

/-- An exponent, if one stands here. -/
def readExponent (s : List Char) : Option (Int × List Char) :=
  match s with
  | c :: s =>
    if c = 'e' || c = 'E' then
      let (sign, s) := readSign s
      match run Char.isDigit s with
      | ([], _) => none
      | (ds, s) =>
        some (if sign = some .minus then -(decimalNumber ds : Int) else decimalNumber ds, s)
    else none
  | [] => none

/-- The digits before a point: a lone zero, or digits that begin with another. -/
def readWhole (s : List Char) : List Char × List Char :=
  match s with
  | '0' :: s => (['0'], s)
  | s => run Char.isDigit s

/-- A number of decimal digits. Without a point and an exponent it is whole. -/
def readDecimal? (s : List Char) : Option (Magnitude × List Char) :=
  let (whole, s) := readWhole s
  let (point, s) := eat '.' s
  let (fraction, s) := if point then run Char.isDigit s else ([], s)
  if whole.isEmpty && fraction.isEmpty then none
  else match point, readExponent s with
    | false, none => some (.whole (decimalNumber whole), s)
    | _, exponent =>
      let (e, s) := exponent.getD (0, s)
      some (.decimal (decimalNumber (whole ++ fraction)) (e - fraction.length), s)

def readMagnitude? (s : List Char) : Option (Magnitude × List Char) :=
  match s with
  | '0' :: 'x' :: s | '0' :: 'X' :: s =>
    match run (fun c => (hexValue? c).isSome) s with
    | ([], _) => none
    | (ds, s) => (hexNumber? ds).map fun n => (.hex n, s)
  | 'I' :: s => (after? ['n', 'f', 'i', 'n', 'i', 't', 'y'] s).map fun s => (.infinity, s)
  | 'N' :: s => (after? ['a', 'N'] s).map fun s => (.nan, s)
  | s => readDecimal? s

def readNumeral? (s : List Char) : Option (Numeral × List Char) :=
  let (sign, s) := readSign s
  (readMagnitude? s).map fun (magnitude, s) => (⟨sign, magnitude⟩, s)

/-- The elements of an array up to and with its bracket, in a text of at most `n` characters. -/
def elementsWith (value : List Char → Option (Written × List Char)) :
    Nat → List Char → Option (List Written × List Char)
  | 0, _ => none
  | n + 1, s => do
    match ← skip s with
    | ']' :: s => some ([], s)
    | s =>
      let (w, s) ← value s
      match ← skip s with
      | ']' :: s => some ([w], s)
      | ',' :: s => do
        let (ws, s) ← elementsWith value n s
        some (w :: ws, s)
      | _ => none

/-- The members of an object up to and with its brace, in a text of at most `n` characters. -/
def membersWith (value : List Char → Option (Written × List Char)) :
    Nat → List Char → Option (List (List Piece × Written) × List Char)
  | 0, _ => none
  | n + 1, s => do
    match ← skip s with
    | '}' :: s => some ([], s)
    | s =>
      let (key, s) ← keyWithin (n + 1) s
      let s ← after? [':'] (← skip s)
      let (w, s) ← value (← skip s)
      match ← skip s with
      | '}' :: s => some ([(key, w)], s)
      | ',' :: s => do
        let (ms, s) ← membersWith value n s
        some ((key, w) :: ms, s)
      | _ => none

/-- A value in a text of at most `n` characters. -/
def valueWithin : Nat → List Char → Option (Written × List Char)
  | 0, _ => none
  | n + 1, s =>
    match s with
    | '"' :: s => (stringWithin '"' n s).map fun (pieces, s) => (.string pieces, s)
    | '\'' :: s => (stringWithin '\'' n s).map fun (pieces, s) => (.string pieces, s)
    | '[' :: s => (elementsWith (valueWithin n) n s).map fun (items, s) => (.array items, s)
    | '{' :: s => (membersWith (valueWithin n) n s).map fun (ms, s) => (.object ms, s)
    | 'n' :: s => (after? ['u', 'l', 'l'] s).map fun s => (.null, s)
    | 't' :: s => (after? ['r', 'u', 'e'] s).map fun s => (.bool true, s)
    | 'f' :: s => (after? ['a', 'l', 's', 'e'] s).map fun s => (.bool false, s)
    | s => (readNumeral? s).map fun (n, s) => (.number n, s)

/-- What the whole of a text writes, blanks and comments around it apart. It is only checked for how
it is written. -/
def read? (text : String) : Option Written := do
  let s ← skip text.toList
  let (w, s) ← valueWithin s.length s
  match ← skip s with
  | [] => some w
  | _ => none

end TemplateLint.Json.Relaxed
