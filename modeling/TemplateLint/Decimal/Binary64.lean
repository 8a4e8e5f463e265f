
namespace TemplateLint

/-- A finite number `± mantissa · 2 ^ exponent`. Those that `Binary64.round` gives have a mantissa
of 53 bits, or the least exponent, -1074. -/
structure Binary64 where
  negative : Bool
  mantissa : Nat
  exponent : Int
  deriving DecidableEq, Repr, Inhabited

namespace Binary64

/-- The first of the 53 bits of a mantissa. -/
def leadingBit : Nat := 1 <<< 52

/-- The whole number nearest to `num / den`; from the middle between two, the even one. -/
def roundDiv (num den : Nat) : Nat :=
  let q := num / den
  let r := num % den
  if 2 * r > den || (2 * r == den && q % 2 == 1) then q + 1 else q

/-- `num / den / 2 ^ e` as a ratio of whole numbers. -/
def scale (num den : Nat) (e : Int) : Nat × Nat :=
  (num <<< (-e).toNat, den <<< e.toNat)

/-- The number nearest to `num / den`, with the given sign; nothing when that is too large. -/
def round (negative : Bool) (num den : Nat) : Option Binary64 :=
  if num = 0 then some ⟨negative, 0, -1074⟩
  else
    let guess : Int := (Nat.log2 num : Int) - Nat.log2 den - 53
    let (n, d) := scale num den guess
    let e := max (-1074) (if n / d < 2 * leadingBit then guess else guess + 1)
    let (n, d) := scale num den e
    let q := roundDiv n d
    let (m, e) := if q = 2 * leadingBit then (leadingBit, e + 1) else (q, e)
    if e ≤ 971 then some ⟨negative, m, e⟩ else none

def isZero (x : Binary64) : Bool := x.mantissa == 0

/-- The size of a number as a ratio of whole numbers. -/
def ratio (x : Binary64) : Nat × Nat := scale x.mantissa 1 (-x.exponent)

/-- The product, rounded. -/
def mul? (x y : Binary64) : Option Binary64 :=
  round (x.negative != y.negative) (x.ratio.1 * y.ratio.1) (x.ratio.2 * y.ratio.2)

/-- The quotient by a number other than zero, rounded. -/
def div? (x y : Binary64) : Option Binary64 :=
  round (x.negative != y.negative) (x.ratio.1 * y.ratio.2) (x.ratio.2 * y.ratio.1)

end Binary64

end TemplateLint
