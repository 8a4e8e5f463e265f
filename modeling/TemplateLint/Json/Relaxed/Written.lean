import TemplateLint.Json.ReadNumber

namespace TemplateLint.Json.Relaxed

inductive Sign where
  | plus
  | minus
  deriving DecidableEq, Repr

/-- A number after its sign. A decimal one, which has a point or an exponent, is
`digits · 10 ^ exponent`. -/
inductive Magnitude where
  | hex (n : Nat)
  | whole (n : Nat)
  | decimal (digits : Nat) (exponent : Int)
  | infinity
  | nan
  deriving DecidableEq, Repr

structure Numeral where
  sign : Option Sign
  magnitude : Magnitude
  deriving DecidableEq, Repr

/-- A part of a string or a name: a character, or an escape of sixteen bits. -/
inductive Piece where
  | char (c : Char)
  | unit (code : Nat)
  deriving DecidableEq, Repr

/-- Relaxed JSON as it is written. It can have no value all the same, as a number can be too large
for its kind and half a character can stand alone. -/
inductive Written where
  | null
  | bool (b : Bool)
  | number (n : Numeral)
  | string (pieces : List Piece)
  | array (items : List Written)
  | object (members : List (List Piece × Written))
  deriving Repr, Inhabited

/-- The number nearest to `digits · 10 ^ exponent`. One that is sure to be too large or to vanish
is not worked out. -/
def nearest? (negative : Bool) (digits : Nat) (exponent : Int) : Option Binary64 :=
  let length := (Nat.toDigits 10 digits).length
  if digits = 0 || exponent + length < -400 then some ⟨negative, 0, -1074⟩
  else if exponent + length > 400 then none
  else Binary64.round negative (digits * Nat.pow 10 exponent.toNat) (Nat.pow 10 (-exponent).toNat)

/-- The value of a number. A hexadecimal one has no sign and 32 bits, a whole one has to fit 64 bits
with its sign. Those that are not finite are `null`, and a plus does not go with them. -/
def Numeral.value? (n : Numeral) : Option Value :=
  match n.magnitude with
  | .hex h => if n.sign.isNone && h ≤ 0xFFFFFFFF then some (.int h) else none
  | .whole m =>
    if n.sign = some .minus then if m ≤ maxSigned + 1 then some (.int (-m)) else none
    else if m ≤ maxSigned then some (.int m) else none
  | .decimal digits exponent =>
    (nearest? (n.sign = some .minus) digits exponent).map .float
  | .infinity | .nan => if n.sign = some .plus then none else some .null

/-- Whether sixteen bits are the first half of a character. -/
def isHigh (code : Nat) : Bool := 0xD800 ≤ code && code ≤ 0xDBFF

/-- Whether sixteen bits are the second half of a character. -/
def isLow (code : Nat) : Bool := 0xDC00 ≤ code && code ≤ 0xDFFF

/-- The character of two halves, each of which gives ten bits. Bit 16 is set in it and not added to
it, so that the halves of a character of an even plane give one of the plane before. -/
def joinHalves (high low : Nat) : Char :=
  Char.ofNat (((high - 0xD800) * 0x400 + (low - 0xDC00)) ||| 0x10000)

/-- The characters that pieces stand for. The halves of a character stand side by side. -/
def chars? : List Piece → Option (List Char)
  | [] => some []
  | .char c :: ps => (chars? ps).map (c :: ·)
  | .unit code :: ps =>
    if isLow code then none
    else if isHigh code then
      match ps with
      | .unit low :: ps =>
        if isLow low then (chars? ps).map (joinHalves code low :: ·) else none
      | _ => none
    else (chars? ps).map (Char.ofNat code :: ·)

@[simp] theorem chars?_map_char (cs : List Char) : chars? (cs.map .char) = some cs := by
  induction cs with
  | nil => rfl
  | cons c cs ih => simp [chars?, ih]

def text? (pieces : List Piece) : Option String := (chars? pieces).map String.ofList

mutual

def Written.value? : Written → Option Value
  | .null => some .null
  | .bool b => some (.bool b)
  | .number n => n.value?
  | .string pieces => (text? pieces).map .string
  | .array items => (values? items).map .array
  | .object ms => (memberValues? ms).map fun read => .object (members read)

def values? : List Written → Option (List Value)
  | [] => some []
  | w :: ws => do some ((← w.value?) :: (← values? ws))

/-- The members of an object one by one, a repeated key as often as it is written. -/
def memberValues? : List (List Piece × Written) → Option (List (String × Value))
  | [] => some []
  | (key, w) :: ms => do some ((← text? key, ← w.value?) :: (← memberValues? ms))

end

end TemplateLint.Json.Relaxed
