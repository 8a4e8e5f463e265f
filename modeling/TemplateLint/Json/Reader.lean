import TemplateLint.Json.ReadNumber
import TemplateLint.Text.Span

namespace TemplateLint.Json

/-- The blanks of JSON. -/
def isBlank (c : Char) : Bool := c == ' ' || c == '\n' || c == '\t' || c == '\r'

def skip (s : List Char) : List Char := s.dropWhile isBlank

/-- The rest of a word whose first character was read. -/
def readIdent : List Char → List Char → Result (List Char)
  | [], s => .ok s
  | _ :: _, [] => .error (.unfinished .value)
  | w :: word, c :: s => if w = c then readIdent word s else .error .expectedIdent

def hexValue? (c : Char) : Option Nat :=
  if c.isDigit then some (c.toNat - '0'.toNat)
  else if 'a' ≤ c && c ≤ 'f' then some (c.toNat - 'a'.toNat + 10)
  else if 'A' ≤ c && c ≤ 'F' then some (c.toNat - 'A'.toNat + 10)
  else none

/-- The value of hexadecimal digits. -/
def hexNumber? (cs : List Char) : Option Nat :=
  cs.foldlM (fun n c => (hexValue? c).map (16 * n + ·)) 0

/-- The four digits of a hexadecimal escape. Four bytes have to follow for it to be looked at. -/
def readHex (s : List Char) : Result (Nat × List Char) :=
  if Text.size (s.take 4) < 4 then .error (.unfinished .string)
  else match hexNumber? (s.take 4) with
    | some n => if (s.take 4).length = 4 then .ok (n, s.drop 4) else .error .invalidEscape
    | none => .error .invalidEscape

/-- The character of two surrogates. -/
def joinSurrogates (high low : Nat) : Char :=
  Char.ofNat ((high - 0xD800) * 0x400 + (low - 0xDC00) + 0x10000)

/-- The escape of a second surrogate up to its digits. -/
def readSecond (s : List Char) : Result (List Char) :=
  match s with
  | [] => .error (.unfinished .string)
  | '\\' :: [] => .error (.unfinished .string)
  | '\\' :: 'u' :: rest => .ok rest
  | _ => .error .endOfHexEscape

/-- The character of an escape, from the text after the backslash. -/
def readEscape (s : List Char) : Result (Char × List Char) :=
  match s with
  | [] => .error (.unfinished .string)
  | '"' :: s => .ok ('"', s)
  | '\\' :: s => .ok ('\\', s)
  | '/' :: s => .ok ('/', s)
  | 'b' :: s => .ok ('\x08', s)
  | 'f' :: s => .ok ('\x0c', s)
  | 'n' :: s => .ok ('\n', s)
  | 'r' :: s => .ok ('\r', s)
  | 't' :: s => .ok ('\t', s)
  | 'u' :: s => do
    let (n, s) ← readHex s
    if 0xDC00 ≤ n && n ≤ 0xDFFF then .error .loneSurrogate
    else if n < 0xD800 || 0xDBFF < n then .ok (Char.ofNat n, s)
    else
      let s ← readSecond s
      let (low, s) ← readHex s
      if low < 0xDC00 || 0xDFFF < low then .error .loneSurrogate
      else .ok (joinSurrogates n low, s)
  | _ => .error .invalidEscape

/-- The string after its opening quote, in a text of at most `n` characters. -/
def stringWithin : Nat → List Char → Result (List Char × List Char)
  | 0, _ => .error (.unfinished .string)
  | n + 1, s =>
    match s with
    | [] => .error (.unfinished .string)
    | '"' :: s => .ok ([], s)
    | '\\' :: s => do
      let (c, s) ← readEscape s
      let (cs, s) ← stringWithin n s
      .ok (c :: cs, s)
    | c :: s =>
      if c.toNat < 0x20 then .error .controlCharacter
      else do
        let (cs, s) ← stringWithin n s
        .ok (c :: cs, s)

/-- The string after its opening quote. -/
def readString (s : List Char) : Result (String × List Char) := do
  let (cs, s) ← stringWithin s.length s
  .ok (String.ofList cs, s)

/-- The text at the next element of an array; nothing when the array ends, the text being then at
its bracket. -/
def nextElement? (first : Bool) (s : List Char) : Result (Option (List Char)) :=
  match skip s with
  | [] => .error (.unfinished .list)
  | c :: s =>
    if c = ']' then .ok none
    else if first then .ok (some (c :: s))
    else if c = ',' then
      match skip s with
      | [] => .error (.unfinished .value)
      | ']' :: _ => .error .trailingComma
      | s => .ok (some s)
    else .error .expectedCommaOrBracket

/-- The text after the quote of the next key; nothing when the object ends. -/
def nextKey? (first : Bool) (s : List Char) : Result (Option (List Char)) :=
  match skip s with
  | [] => .error (.unfinished .object)
  | c :: s =>
    if c = '}' then .ok none
    else if first then if c = '"' then .ok (some s) else .error .keyNotString
    else if c = ',' then
      match skip s with
      | [] => .error (.unfinished .value)
      | '"' :: s => .ok (some s)
      | '}' :: _ => .error .trailingComma
      | _ => .error .keyNotString
    else .error .expectedCommaOrBrace

/-- The text after the colon behind a key. -/
def readColon (s : List Char) : Result (List Char) :=
  match skip s with
  | [] => .error (.unfinished .object)
  | ':' :: s => .ok s
  | _ => .error .expectedColon

/-- The elements of an array up to and with its bracket. -/
def elementsWith (value : List Char → Result (Value × List Char)) :
    Nat → Bool → List Char → Result (List Value × List Char)
  | 0, _, _ => .error (.unfinished .list)
  | n + 1, first, s => do
    match ← nextElement? first s with
    | none => .ok ([], (skip s).drop 1)
    | some s =>
      let (v, s) ← value s
      let (vs, s) ← elementsWith value n false s
      .ok (v :: vs, s)

/-- The members of an object up to and with its brace, as they are written. -/
def membersWith (value : List Char → Result (Value × List Char)) :
    Nat → Bool → List Char → Result (List (String × Value) × List Char)
  | 0, _, _ => .error (.unfinished .object)
  | n + 1, first, s => do
    match ← nextKey? first s with
    | none => .ok ([], (skip s).drop 1)
    | some s =>
      let (key, s) ← readString s
      let s ← readColon s
      let (v, s) ← value s
      let (ms, s) ← membersWith value n false s
      .ok ((key, v) :: ms, s)

/-- A value in which arrays and objects may be nested `depth` deep. -/
def valueWithin (depth : Nat) (s : List Char) : Result (Value × List Char) :=
  match skip s with
  | [] => .error (.unfinished .value)
  | 'n' :: s => do
    let s ← readIdent ['u', 'l', 'l'] s
    .ok (.null, s)
  | 't' :: s => do
    let s ← readIdent ['r', 'u', 'e'] s
    .ok (.bool true, s)
  | 'f' :: s => do
    let s ← readIdent ['a', 'l', 's', 'e'] s
    .ok (.bool false, s)
  | '"' :: s => do
    let (text, s) ← readString s
    .ok (.string text, s)
  | '[' :: s =>
    match depth with
    | 0 => .error .recursionLimit
    | depth + 1 => do
      let (items, s) ← elementsWith (valueWithin depth) s.length true s
      .ok (.array items, s)
  | '{' :: s =>
    match depth with
    | 0 => .error .recursionLimit
    | depth + 1 => do
      let (read, s) ← membersWith (valueWithin depth) s.length true s
      .ok (.object (members read), s)
  | '-' :: s => readNumber true s
  | c :: s => if c.isDigit then readNumber false (c :: s) else .error .expectedValue

/-- How deep arrays and objects may be nested in a document. -/
def maxDepth : Nat := 127

/-- A value that is the whole of a text. -/
def Value.read (text : String) : Result Value := do
  let (value, rest) ← valueWithin maxDepth text.toList
  if (skip rest).isEmpty then .ok value else .error .trailingCharacters

/-- The error for a value of another kind than expected. The value is read first, as far as it has
no parts, and its own errors count. -/
def mismatch (expected : Expected) (s : List Char) : ReadError :=
  match s with
  | '[' :: _ => .invalidType .sequence expected
  | '{' :: _ => .invalidType .map expected
  | _ =>
    match valueWithin 0 s with
    | .error e => e
    | .ok (value, _) =>
      .invalidType (match value with
        | .null => .null
        | .bool b => .bool b
        | .int i => .int i
        | .float x => .float x
        | .string text => .string text
        | .array _ => .sequence
        | .object _ => .map) expected

end TemplateLint.Json
