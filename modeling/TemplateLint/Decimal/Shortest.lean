import TemplateLint.Decimal.Binary64

namespace TemplateLint

namespace Binary64

/-- The multiple of `10 ^ k` nearest to a positive number, as its factor, when it reads back as that
number. What reads back lies between the middles to the two neighbours of the number; the middles
themselves do if the mantissa is even. All of them are taken over one denominator. -/
def onGrid? (x : Binary64) (k : Int) : Option Nat :=
  let below := if x.mantissa = leadingBit && x.exponent > -1074 then 1 else 2
  let unit := Nat.pow 10 (-k).toNat <<< (x.exponent - 2).toNat
  let step := Nat.pow 10 k.toNat <<< (2 - x.exponent).toNat
  let value := 4 * x.mantissa * unit
  let low := (4 * x.mantissa - below) * unit
  let high := (4 * x.mantissa + 2) * unit
  let readsBack (d : Nat) : Bool :=
    if x.mantissa % 2 = 0 then low ≤ d * step && d * step ≤ high
    else low < d * step && d * step < high
  let nearest := roundDiv value step
  let other := if nearest * step ≤ value then nearest + 1 else nearest - 1
  if readsBack nearest then some nearest
  else if readsBack other then some other
  else none

/-- The first grid from `10 ^ k` downwards that has a decimal for the number. -/
def gridFrom (x : Binary64) (k : Int) : Nat → Nat × Int
  | 0 => (0, k)
  | n + 1 =>
    match x.onGrid? k with
    | some d => (d, k)
    | none => gridFrom x (k - 1) n

/-- The decimal `d · 10 ^ k` with the fewest digits that reads back as the number, without sign. -/
def shortest (x : Binary64) : Nat × Int :=
  if x.mantissa = 0 then (0, 0) else gridFrom x 309 640

end Binary64

/-- How decimals are written: positionally when the exponent of the first digit is from `least` to
`greatest`, else with an exponent behind a sign. -/
structure DecimalLayout where
  least : Int
  greatest : Int

namespace DecimalLayout

def digits (n : Nat) : List Char := Nat.toDigits 10 n

def zeros (n : Nat) : List Char := List.replicate n '0'

/-- The digits with a point after the first `n`, and zeros where a digit is missing. -/
def pointed (ds : List Char) (n : Int) : List Char :=
  if n ≤ 0 then '0' :: '.' :: (zeros (-n).toNat ++ ds)
  else if ds.length ≤ n.toNat then ds ++ zeros (n.toNat - ds.length) ++ ['.', '0']
  else ds.take n.toNat ++ '.' :: ds.drop n.toNat

/-- One digit, a point before the others if there are any, and the exponent. -/
def scientific (ds : List Char) (e : Int) : List Char :=
  let fraction := if ds.tail.isEmpty then [] else '.' :: ds.tail
  ds.take 1 ++ fraction ++ 'e' :: (if e < 0 then '-' else '+') :: digits e.natAbs

def write (layout : DecimalLayout) (x : Binary64) : List Char :=
  let (d, k) := x.shortest
  let ds := digits d
  let e := k + ds.length - 1
  (if x.negative then ['-'] else []) ++
    if layout.least ≤ e && e ≤ layout.greatest then pointed ds (e + 1) else scientific ds e

end DecimalLayout

end TemplateLint
