import Quill.Decimal.Binary

/-! # The shortest decimal of a binary number

A positive binary number `m · 2 ^ e` stands for an interval of reals, those that round to it; the
two ends belong to the interval exactly if `m` is even.  `shortest m e` is the decimal with the
fewest digits inside that interval; of two such decimals the one nearer to the number is taken,
and the larger one if both are equally near. -/

namespace Quill.Decimal

/-- The decimal `0.d₁d₂… · 10 ^ point`. -/
structure Digits where
  digits : List Char
  point : Int
  deriving DecidableEq, Repr

/-- The interval of reals that round to `m · 2 ^ e`, in quarters of `2 ^ e`. -/
structure Interval where
  low : Nat
  value : Nat
  high : Nat
  closed : Bool
  deriving DecidableEq, Repr

/-- The interval of a mantissa and an exponent.  Below a power of two the gap is half as wide. -/
def Interval.of (m : Nat) (e : Int) : Interval :=
  let narrow := m = fieldWeight ∧ leastExponent < e
  { low := if narrow then 4 * m - 1 else 4 * m - 2
    value := 4 * m
    high := 4 * m + 2
    closed := m % 2 = 0 }

/-- A number `d` with `10 ^ (d - 1) ≤ num / den < 10 ^ d`, for the values that words have. -/
def decimalPoint (num den : Nat) : Int :=
  let scaled := num * Nat.pow 10 340 / den
  ((Nat.toDigits 10 scaled).length : Int) - 340

/-- The text of a positive number and of the number of places it is shifted, without trailing
zeros. -/
def Digits.ofNat (n : Nat) (shift : Int) : Digits :=
  let all := Nat.toDigits 10 n
  { digits := (all.reverse.dropWhile (· == '0')).reverse, point := all.length + shift }

/-- The candidate on the grid of multiples of `10 ^ k`: the neighbour of the number, below or
above it, that lies in the interval and is nearer. -/
def onGrid (i : Interval) (e k : Int) : Option Nat :=
  let (two, twoDen) := twoPow (e - 2)
  let (ten, tenDen) := tenPow k
  -- A multiple `t` of the grid is compared with `x` quarters as `t * grid` with `x * quarter`.
  let quarter := two * tenDen
  let grid := ten * twoDen
  let below := i.value * quarter / grid
  let above := below + 1
  let lowHit :=
    if i.closed then i.low * quarter ≤ below * grid else i.low * quarter < below * grid
  let highHit :=
    if i.closed then above * grid ≤ i.high * quarter else above * grid < i.high * quarter
  let aboveNearer := above * grid - i.value * quarter ≤ i.value * quarter - below * grid
  if lowHit then
    if highHit ∧ aboveNearer then some above else some below
  else if highHit then some above
  else none

/-- The first grid with a candidate, from `count` digits on for `fuel` grids. -/
def searchGrid (i : Interval) (e point : Int) : Nat → Nat → Option (Nat × Int)
  | 0, _ => none
  | fuel + 1, count =>
    let k := point - count
    match onGrid i e k with
    | some t => some (t, k)
    | none => searchGrid i e point fuel (count + 1)

/-- The most digits that a word can need. -/
def maxDigits : Nat := 17

/-- The shortest decimal of `m · 2 ^ e`, for positive `m`. -/
def shortest (m : Nat) (e : Int) : Digits :=
  let i := Interval.of m e
  let (up, down) := twoPow e
  let point := decimalPoint (m * up) down
  match searchGrid i e point maxDigits 1 with
  | some (t, k) => .ofNat t k
  | none => .ofNat m 0

end Quill.Decimal
