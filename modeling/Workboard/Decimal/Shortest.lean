/-! Decimals for binary floating-point values.

A finite positive value is a mantissa times a power of two (`Binary`), and its neighbours leave an
interval of reals that round to it. `Binary.shortest` is the decimal with the fewest digits inside that
interval, and of those the nearest to the value; `Binary.fixed` rounds the value to a number of places.
Both work in whole numbers only. -/

namespace Workboard

/-- The decimal `digits · 10 ^ exponent`. -/
structure Decimal where
  digits : Nat
  exponent : Int
  deriving DecidableEq, Repr

/-- A binary value `mantissa · 2 ^ exponent`. When `narrowBelow` is set, the gap to the next smaller
    value is half of the gap to the next larger one. -/
structure Binary where
  mantissa : Nat
  exponent : Int
  narrowBelow : Bool
  deriving DecidableEq, Repr

namespace Binary

/-- Reads the parts of an interchange format with `fractionBits` bits of fraction and the given exponent
    bias. Exponent field zero holds the subnormal values. -/
def ofFields (fractionBits bias exponentField fraction : Nat) : Binary :=
  if exponentField = 0 then ⟨fraction, 1 - (bias : Int) - fractionBits, false⟩
  else ⟨Nat.pow 2 fractionBits + fraction, (exponentField : Int) - bias - fractionBits, fraction = 0 ∧ 1 < exponentField⟩

/-- The positive part of a quotient of powers, `base ^ e` for `0 ≤ e` and `1` otherwise. -/
def raise (base : Nat) (e : Int) : Nat := Nat.pow base e.toNat

/-- `x / 4 · 2 ^ q` and `d · 10 ^ p` on one scale, as a pair of whole numbers. -/
def scaled (x : Nat) (q : Int) (d : Nat) (p : Int) : Nat × Nat :=
  (x * raise 2 (q - 2) * raise 10 (-p), d * raise 10 p * raise 2 (2 - q))

/-- Whether `d · 10 ^ p` rounds to the value. The ends of the interval round to an even mantissa. -/
def admits (b : Binary) (d : Nat) (p : Int) : Bool :=
  let low := scaled (4 * b.mantissa - if b.narrowBelow then 1 else 2) b.exponent d p
  let high := scaled (4 * b.mantissa + 2) b.exponent d p
  if b.mantissa % 2 = 0 then low.1 ≤ low.2 && high.2 ≤ high.1 else low.1 < low.2 && high.2 < high.1

/-- The number of decimal digits. -/
def digitCount (n : Nat) : Nat := (Nat.toDigits 10 n).length

/-- The exponent of the leading decimal digit of `num / den`. -/
def magnitude (num den : Nat) : Int :=
  let guess : Int := (digitCount num : Int) - digitCount den
  -- The numbers of digits leave two exponents possible.
  if den * raise 10 guess ≤ num * raise 10 (-guess) then guess else guess - 1

/-- The value as a fraction. -/
def fraction (b : Binary) : Nat × Nat := (b.mantissa * raise 2 b.exponent, raise 2 (-b.exponent))

/-- Of the two neighbours of the value on the grid of step `10 ^ p`, the one that rounds to the value,
    and of two such the nearer, or the even one when both are as near. -/
def onGrid? (b : Binary) (p : Int) : Option Nat :=
  let num := b.fraction.1 * raise 10 (-p)
  let den := b.fraction.2 * raise 10 p
  let below := num / den
  match b.admits below p, b.admits (below + 1) p with
  | true, false => some below
  | false, true => some (below + 1)
  | false, false => none
  | true, true =>
    let rest := 2 * (num % den)
    if rest < den || (rest = den && below % 2 = 0) then some below else some (below + 1)

/-- Tries grids from coarse to fine. -/
def firstOnGrid (b : Binary) : Nat → Int → Decimal
  | 0, p => ⟨b.fraction.1 * raise 10 (-p) / (b.fraction.2 * raise 10 p), p⟩
  | fuel + 1, p =>
    match b.onGrid? p with
    | some d => ⟨d, p⟩
    | none => firstOnGrid b fuel (p - 1)

/-- Moves the trailing zeros of the digits into the exponent. -/
def trim : Nat → Decimal → Decimal
  | 0, d => d
  | fuel + 1, d => if d.digits ≠ 0 ∧ d.digits % 10 = 0 then trim fuel ⟨d.digits / 10, d.exponent + 1⟩ else d

/-- The decimal with the fewest digits that rounds to the value. Seventeen digits always suffice. -/
def shortest (b : Binary) : Decimal :=
  if b.mantissa = 0 then ⟨0, 0⟩
  else trim 17 (b.firstOnGrid 17 (magnitude b.fraction.1 b.fraction.2))

/-- The value in units of `10 ^ -places`, rounded to nearest, ties to even. -/
def fixed (b : Binary) (places : Nat) : Nat :=
  let num := b.fraction.1 * Nat.pow 10 places
  let den := b.fraction.2
  let below := num / den
  let rest := 2 * (num % den)
  if rest < den || (rest = den && below % 2 = 0) then below else below + 1

end Binary

/-- A floating-point number taken apart. -/
inductive Reading where
  | finite (negative : Bool) (value : Binary)
  | infinite (negative : Bool)
  | undefined

namespace Reading

/-- Takes the bit pattern of an interchange format apart. -/
def ofBits (exponentBits fractionBits : Nat) (bits : Nat) : Reading :=
  let fraction := bits % Nat.pow 2 fractionBits
  let exponentField := bits / Nat.pow 2 fractionBits % Nat.pow 2 exponentBits
  let negative := bits / Nat.pow 2 (fractionBits + exponentBits) % 2 = 1
  if exponentField = Nat.pow 2 exponentBits - 1 then
    if fraction = 0 then .infinite negative else .undefined
  else .finite negative (Binary.ofFields fractionBits (Nat.pow 2 (exponentBits - 1) - 1) exponentField fraction)

def ofFloat (x : Float) : Reading := ofBits 11 52 x.toBits.toNat

def ofFloat32 (x : Float32) : Reading := ofBits 8 23 x.toBits.toNat

end Reading

end Workboard
