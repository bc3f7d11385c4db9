import Quill.Decimal.Shortest

/-! # Layouts of decimals

A layout says how the shortest decimal of a binary number is spelled: which magnitudes are
written positionally, and whether a whole number keeps a fraction of zero.  All layouts write
`NaN`, `inf` and `-inf`, and the sign of a negative zero. -/

namespace Quill.Decimal

/-- The decisions of a format for binary numbers. -/
structure Layout where
  /-- The positions of the point between which a number is written without exponent; `none` if
  every number is. -/
  positional : Option (Int × Int)
  /-- Whether a whole number in positional notation ends in `.0`. -/
  keepsFraction : Bool
  deriving Repr

def Layout.positionalText (l : Layout) (d : Digits) : String :=
  let count : Int := d.digits.length
  let zeros (n : Int) : List Char := List.replicate n.toNat '0'
  if d.point ≤ 0 then
    String.ofList ('0' :: '.' :: zeros (-d.point) ++ d.digits)
  else if count ≤ d.point then
    let fraction := if l.keepsFraction then ['.', '0'] else []
    String.ofList (d.digits ++ zeros (d.point - count) ++ fraction)
  else
    String.ofList (d.digits.take d.point.toNat ++ '.' :: d.digits.drop d.point.toNat)

/-- One digit, the fraction if there is one, and the exponent. -/
def scientificText (d : Digits) : String :=
  let mantissa := match d.digits with
    | [] => []
    | [c] => [c]
    | c :: rest => c :: '.' :: rest
  String.ofList mantissa ++ "e" ++ toString (d.point - 1)

def Layout.digitsText (l : Layout) (d : Digits) : String :=
  match l.positional with
  | none => l.positionalText d
  | some (first, last) =>
    if first ≤ d.point && d.point ≤ last then l.positionalText d else scientificText d

def Layout.text (l : Layout) : Binary → String
  | .nan => "NaN"
  | .infinite negative => if negative then "-inf" else "inf"
  | .finite negative m e =>
    let magnitude :=
      if m = 0 then if l.keepsFraction then "0.0" else "0" else l.digitsText (shortest m e)
    if negative then "-" ++ magnitude else magnitude

/-- The text of the number that a word means. -/
def Layout.ofBits (l : Layout) (bits : UInt64) : String := l.text (.ofBits bits)

end Quill.Decimal
