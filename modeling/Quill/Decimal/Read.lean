import Quill.Decimal.Binary

/-! # Reading binary numbers

The texts that spell a binary number: an optional sign, then `inf`, `infinity` or `nan` in any
case, or digits with an optional point (at least one digit on one side of it) and an optional
exponent.  The result is the word nearest to the exact decimal. -/

namespace Quill.Decimal

/-- An unsigned decimal `0.d₁d₂… · 10 ^ point` with a first digit that is not zero; zero has no
digits. -/
structure Scientific where
  digits : List Char
  point : Int
  deriving DecidableEq, Repr

/-- The digits of an exponent are taken into account until their value reaches this. -/
def exponentCap : Nat := 0x10000

/-- The value of an exponent's digits: those after the cap is reached do not count. -/
def exponentValue (digits : List Char) : Nat :=
  digits.foldl (fun n c => if n < exponentCap then 10 * n + (c.toNat - '0'.toNat) else n) 0

/-- The optional exponent at the end of a number. -/
def readExponent? : List Char → Option Int
  | [] => some 0
  | c :: rest =>
    if c == 'e' || c == 'E' then
      let (negative, digits) := match rest with
        | '-' :: ds => (true, ds)
        | '+' :: ds => (false, ds)
        | ds => (false, ds)
      if digits.isEmpty || !digits.all Char.isDigit then none
      else
        let n : Int := exponentValue digits
        some (if negative then -n else n)
    else none

namespace Scientific

/-- Digits, an optional point with more digits, and an optional exponent. -/
def ofChars? (cs : List Char) : Option Scientific :=
  let whole := cs.takeWhile Char.isDigit
  let (fraction, rest) := match cs.dropWhile Char.isDigit with
    | '.' :: tail => (tail.takeWhile Char.isDigit, tail.dropWhile Char.isDigit)
    | tail => ([], tail)
  if whole.isEmpty && fraction.isEmpty then none
  else (readExponent? rest).map fun e =>
    let digits := (whole ++ fraction).dropWhile (· == '0')
    { digits, point := digits.length + e - fraction.length }

/-- The number of digits after which only zero and not zero are told apart. -/
def digitLimit : Nat := 800

/-- A decimal of few digits that lies on the same side of every word and of every midpoint
between two words: these have at most 768 digits, so that of the digits after the limit it only
matters whether one of them is not zero. -/
def shorten (s : Scientific) : Scientific :=
  let leading := s.digits.take digitLimit
  if (s.digits.drop digitLimit).all (· == '0') then { s with digits := leading }
  else { s with digits := leading ++ ['1'] }

def fraction (s : Scientific) : Nat × Nat :=
  let (up, down) := tenPow (s.point - s.digits.length)
  (Nat.ofDigitChars 10 s.digits 0 * up, down)

/-- The word nearest to a decimal, without sign.  Magnitudes far outside the range are decided
by the position of their first digit, so that no large power is computed. -/
def toWord (s : Scientific) : Nat :=
  if s.digits.isEmpty then 0
  else if 310 < s.point then infinityWord
  else if s.point < -330 then 0
  else
    let (num, den) := s.shorten.fraction
    roundToWord num den

end Scientific

/-- The word of a number that is none. -/
def quietNanWord : Nat := 0x7FF8000000000000

def unsignedWord? (cs : List Char) : Option Nat :=
  let lower := String.ofList (cs.map Char.toLower)
  if lower == "inf" || lower == "infinity" then some infinityWord
  else if lower == "nan" then some quietNanWord
  else (Scientific.ofChars? cs).map Scientific.toWord

def toBits? : List Char → Option UInt64
  | '-' :: cs => (unsignedWord? cs).map fun w => (w + signWord).toUInt64
  | '+' :: cs => (unsignedWord? cs).map Nat.toUInt64
  | cs => (unsignedWord? cs).map Nat.toUInt64

end Quill.Decimal
