import Workboard.Decimal.Shortest

/-! How a decimal is written: in positional form or with an exponent, and with or without a fraction of
zero. The decisions of one style are one `Layout` value. -/

namespace Workboard

/-- The decisions of one style of number text. The leading digit's exponent lies in
    `positionalFrom ..< positionalTo` for numbers written in positional form. -/
structure Layout where
  positionalFrom : Int
  positionalTo : Int
  /-- Whether a whole number in positional form ends in `.0`. -/
  keepPointZero : Bool

namespace Layout

def zeros (n : Nat) : String := String.ofList (List.replicate n '0')

/-- Positional form of the digits with the point after the first `point` of them. -/
def positional (l : Layout) (digits : List Char) (point : Int) : String :=
  if point ≤ 0 then "0." ++ zeros (-point).toNat ++ String.ofList digits
  else if (digits.length : Int) ≤ point then
    String.ofList digits ++ zeros (point.toNat - digits.length) ++ if l.keepPointZero then ".0" else ""
  else String.ofList (digits.take point.toNat) ++ "." ++ String.ofList (digits.drop point.toNat)

/-- One digit, the point, the other digits and the exponent with its sign. -/
def scientific (digits : List Char) (lead : Int) : String :=
  let fraction := digits.drop 1
  String.ofList (digits.take 1) ++ (if fraction.isEmpty then "" else "." ++ String.ofList fraction) ++ "e"
    ++ (if lead < 0 then "-" else "+") ++ toString lead.natAbs

def unsigned (l : Layout) (d : Decimal) : String :=
  let digits := Nat.toDigits 10 d.digits
  let lead := d.exponent + digits.length - 1
  if d.digits = 0 then l.positional digits 1
  else if l.positionalFrom ≤ lead ∧ lead < l.positionalTo then l.positional digits (lead + 1)
  else scientific digits lead

/-- The text of a finite number. -/
def write (l : Layout) (negative : Bool) (d : Decimal) : String :=
  (if negative then "-" else "") ++ l.unsigned d

end Layout

/-- Places after the point, zero-filled. -/
def fixedText (negative : Bool) (b : Binary) (places : Nat) : String :=
  let units := b.fixed places
  let fraction := toString (units % Nat.pow 10 places)
  (if negative then "-" else "") ++ toString (units / Nat.pow 10 places)
    ++ (if places = 0 then "" else "." ++ Layout.zeros (places - fraction.length) ++ fraction)

end Workboard
