/-! # Binary floating-point numbers of 64 bits

A word of 64 bits is a sign, eleven bits of exponent and fifty-two bits of fraction.  `Binary`
says what such a word means: not a number, an infinity, or the exact value
`mantissa · 2 ^ exponent`.
`roundToWord` is the other direction, the word nearest to a positive fraction `num / den`; of two
equally near words the one with the even mantissa is taken. -/

namespace Quill.Decimal

/-- The meaning of a word of 64 bits. -/
inductive Binary where
  | nan
  | infinite (negative : Bool)
  | finite (negative : Bool) (mantissa : Nat) (exponent : Int)
  deriving DecidableEq, Repr

/-- The number of fraction bits, and the weight of the exponent field above them. -/
def fractionBits : Nat := 52
def fieldWeight : Nat := 0x10000000000000

/-- The exponent of the smallest positive value. -/
def leastExponent : Int := -1074

/-- The word of positive infinity, and the sign bit. -/
def infinityWord : Nat := 0x7FF0000000000000
def signWord : Nat := 0x8000000000000000

def Binary.ofBits (bits : UInt64) : Binary :=
  let word := bits.toNat
  let negative := signWord ≤ word
  let field := word / fieldWeight % 2048
  let fraction := word % fieldWeight
  if field = 2047 then
    if fraction = 0 then .infinite negative else .nan
  else if field = 0 then .finite negative fraction leastExponent
  else .finite negative (fieldWeight + fraction) (leastExponent + (field - 1 : Nat))

/-- The quotient of two natural numbers rounded to the nearest, a tie to the even one. -/
def divNearest (num den : Nat) : Nat :=
  let q := num / den
  let twice := 2 * (num % den)
  if den < twice || (twice = den && q % 2 = 1) then q + 1 else q

/-- The power of two with a possibly negative exponent, as a fraction. -/
def twoPow (e : Int) : Nat × Nat := (Nat.pow 2 e.toNat, Nat.pow 2 (-e).toNat)

/-- The power of ten with a possibly negative exponent, as a fraction. -/
def tenPow (e : Int) : Nat × Nat := (Nat.pow 10 e.toNat, Nat.pow 10 (-e).toNat)

/-- A number `e` with `2 ^ e ≤ num / den < 2 ^ (e + 1)`, for positive `num` and `den`. -/
def binaryExponent (num den : Nat) : Int :=
  let guess : Int := (num.log2 : Int) - (den.log2 : Int)
  let (up, down) := twoPow guess
  if num * down < den * up then guess - 1 else guess

/-- The word nearest to `num / den`, without sign.  Values from the midpoint above the largest
finite one become infinite. -/
def roundToWord (num den : Nat) : Nat :=
  if num = 0 then 0 else
    let unit := max (binaryExponent num den - fractionBits) leastExponent
    let (up, down) := twoPow unit
    let mantissa := divNearest (num * down) (den * up)
    -- A mantissa of 53 bits carries into the exponent field, and one that was rounded up to
    -- the next power of two carries once more, so the sum below is the word in every case.
    let word := (unit - leastExponent).toNat * fieldWeight + mantissa
    min word infinityWord

end Quill.Decimal
