import TemplateLint.Decimal.Shortest
import TemplateLint.Json.Value

namespace TemplateLint.Json

/-- Positional from five places after the point up to sixteen digits before it. -/
def layout : DecimalLayout := ⟨-5, 15⟩

/-- The last hexadecimal digit of a number, in lower case. -/
def hexDigit (n : Nat) : Char := (n % 16).digitChar

/-- A character inside a string. -/
def escape (c : Char) : List Char :=
  if c = '"' then ['\\', '"']
  else if c = '\\' then ['\\', '\\']
  else if c = '\x08' then ['\\', 'b']
  else if c = '\x0c' then ['\\', 'f']
  else if c = '\n' then ['\\', 'n']
  else if c = '\r' then ['\\', 'r']
  else if c = '\t' then ['\\', 't']
  else if c.toNat < 0x20 then ['\\', 'u', '0', '0', hexDigit (c.toNat / 16), hexDigit c.toNat]
  else [c]

def stringChars (s : String) : List Char := '"' :: (s.toList.flatMap escape ++ ['"'])

def intChars : Int → List Char
  | .ofNat n => Nat.toDigits 10 n
  | .negSucc n => '-' :: Nat.toDigits 10 (n + 1)

/-- Puts a comma before each of some texts. -/
def afterCommas (texts : List (List Char)) : List Char := texts.flatMap (',' :: ·)

/-- Texts with commas between them. -/
def commaSeparated : List (List Char) → List Char
  | [] => []
  | t :: ts => t ++ afterCommas ts

mutual

def Value.chars : Value → List Char
  | .null => ['n', 'u', 'l', 'l']
  | .bool true => ['t', 'r', 'u', 'e']
  | .bool false => ['f', 'a', 'l', 's', 'e']
  | .int i => intChars i
  | .float x => layout.write x
  | .string s => stringChars s
  | .array items => '[' :: (commaSeparated (Value.charsAll items) ++ [']'])
  | .object ms => '{' :: (commaSeparated (memberChars ms) ++ ['}'])

def Value.charsAll : List Value → List (List Char)
  | [] => []
  | v :: vs => v.chars :: Value.charsAll vs

/-- The texts of members: each a key, a colon and a value. -/
def memberChars : List (String × Value) → List (List Char)
  | [] => []
  | (key, value) :: ms => (stringChars key ++ ':' :: value.chars) :: memberChars ms

end

/-- The compact text: no blanks, and no escape where the character itself can stand. -/
def Value.compact (v : Value) : String := String.ofList v.chars

end TemplateLint.Json
