import TemplateLint.Json.ReadError

namespace TemplateLint.Json

def digitValue (c : Char) : Nat := c.toNat - '0'.toNat

/-- The greatest number of 64 bits. -/
def maxUnsigned : Nat := 0xFFFFFFFFFFFFFFFF

/-- The greatest number of 64 bits of which one is the sign; the least is one further from zero. -/
def maxSigned : Nat := 0x7FFFFFFFFFFFFFFF

/-- The greatest exponent. -/
def maxExponent : Nat := 0x7FFFFFFF

/-- Takes digits into a sum that stays within a limit: the sum, the digits taken, and the rest. -/
def gather (limit : Nat) (sum : Nat) : List Char → Nat × Nat × List Char
  | [] => (sum, 0, [])
  | c :: s =>
    if c.isDigit && sum * 10 + digitValue c ≤ limit then
      let (sum, taken, rest) := gather limit (sum * 10 + digitValue c) s
      (sum, taken + 1, rest)
    else (sum, 0, c :: s)

/-- A power of ten as the nearest binary number; at most 308 is asked for. -/
def powerOfTen (k : Nat) : Binary64 := (Binary64.round false (Nat.pow 10 k) 1).getD default

/-- `f · 10 ^ (r - 308 · steps)`, one rounded step after the other; `r` is negative or zero. -/
def scaleDown (f : Binary64) (r : Nat) : Nat → Option Binary64
  | 0 => f.div? (powerOfTen r)
  | steps + 1 => if f.isZero then some f else do scaleDown (← f.div? (powerOfTen 308)) r steps

/-- The number with these digits and this power of ten. Both are rounded before they are multiplied,
so a long number can come out beside its nearest neighbour. -/
def assemble (negative : Bool) (digits : Nat) (exponent : Int) : Result Value :=
  let number := do
    let f ← Binary64.round negative digits 1
    if 0 ≤ exponent then
      if exponent ≤ 308 then f.mul? (powerOfTen exponent.toNat)
      else if f.isZero then some f else none
    else
      let k := (-exponent).toNat
      let steps := (k - 1) / 308
      scaleDown f (k - 308 * steps) steps
  match number with
  | some f => .ok (.float f)
  | none => .error .numberOutOfRange

/-- The exponent after its sign, and the number that it ends. -/
def readPower (negative : Bool) (digits : Nat) (exponent : Int) (up : Bool) (s : List Char) :
    Result (Value × List Char) :=
  match s with
  | [] => .error (.unfinished .value)
  | c :: _ =>
    if !c.isDigit then .error .invalidNumber
    else
      let (power, _, rest) := gather maxExponent 0 s
      match rest with
      | d :: _ =>
        if !d.isDigit then finish power rest
        else if digits != 0 && up then .error .numberOutOfRange
        else .ok (.float ⟨negative, 0, -1074⟩, rest.dropWhile Char.isDigit)
      | [] => finish power rest
where
  finish (power : Nat) (rest : List Char) : Result (Value × List Char) := do
    let e :=
      if up then min (exponent + power) maxExponent else max (exponent - power) (-maxExponent - 1)
    let value ← assemble negative digits e
    .ok (value, rest)

/-- An exponent if one stands here, and the number that ends after it. -/
def readExponent (negative : Bool) (digits : Nat) (exponent : Int) (s : List Char) :
    Result (Value × List Char) :=
  match s with
  | c :: '+' :: rest =>
    if c = 'e' || c = 'E' then readPower negative digits exponent true rest else plain
  | c :: '-' :: rest =>
    if c = 'e' || c = 'E' then readPower negative digits exponent false rest else plain
  | c :: rest =>
    if c = 'e' || c = 'E' then readPower negative digits exponent true rest else plain
  | [] => plain
where
  plain : Result (Value × List Char) := do
    let value ← assemble negative digits exponent
    .ok (value, s)

/-- What follows a point. -/
def readFraction (negative : Bool) (digits : Nat) (exponent : Int) (s : List Char) :
    Result (Value × List Char) :=
  match s with
  | [] => .error (.unfinished .value)
  | c :: _ =>
    if !c.isDigit then .error .invalidNumber
    else
      let (digits, taken, rest) := gather maxUnsigned digits s
      readExponent negative digits (exponent - taken) (rest.dropWhile Char.isDigit)

/-- What follows the digits before the point, of which `dropped` did not fit. -/
def readTail (negative : Bool) (digits dropped : Nat) (s : List Char) :
    Result (Value × List Char) :=
  match s with
  | '.' :: rest => readFraction negative digits dropped rest
  | 'e' :: _ | 'E' :: _ => readExponent negative digits dropped s
  | _ =>
    if dropped != 0 then readExponent negative digits dropped s
    else if !negative then .ok (.int digits, s)
    else if digits = 0 || maxSigned + 1 < digits then do
      let value ← assemble true digits 0
      .ok (value, s)
    else .ok (.int (-digits), s)

/-- A number after its sign. -/
def readNumber (negative : Bool) (s : List Char) : Result (Value × List Char) :=
  match s with
  | [] => .error (.unfinished .value)
  | '0' :: c :: rest =>
    if c.isDigit then .error .invalidNumber else readTail negative 0 0 (c :: rest)
  | c :: _ =>
    if !c.isDigit then .error .invalidNumber
    else
      let (digits, _, rest) := gather maxUnsigned 0 s
      let after := rest.dropWhile Char.isDigit
      readTail negative digits (rest.length - after.length) after

end TemplateLint.Json
