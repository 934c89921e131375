import Workboard.Json.Basic

/-! Number literals of JSON text.

A literal has a sign, a whole part without leading zeros, and perhaps a fraction and an exponent. Whole
literals in the range of 64-bit integers stay whole. Every other literal becomes a binary64 number:
the digits are gathered into 64 bits as far as they fit, and the result is scaled by powers of ten. -/

namespace Workboard

/-- Why a JSON text or value is refused: the text breaks the grammar, it ends too early, or the value has
    another shape than asked for. -/
inductive Fault where
  | malformed
  | unfinished
  | mismatched
  deriving DecidableEq, Repr

/-- The name of a fault in messages. -/
def Fault.name : Fault → String
  | .malformed => "<json:syntax>"
  | .unfinished => "<json:eof>"
  | .mismatched => "<json:data>"

/-- The parts of a number literal. Digits are kept as numbers, most significant first. -/
structure Numeral where
  negative : Bool
  whole : List Nat
  /-- The digits after the point; none without a point. -/
  fraction : List Nat
  /-- The exponent, where one is written. -/
  exponent : Option Int
  deriving DecidableEq, Repr

namespace Numeral

/-- The largest number of 64 bits. -/
def wordMax : Nat := 0xFFFFFFFFFFFFFFFF

/-- Digits gathered so far: a significand that fits 64 bits, and the power of ten that it is short of. -/
structure Gathered where
  significand : Nat
  exponent : Int

def digitsValue (ds : List Nat) : Nat := ds.foldl (fun n d => 10 * n + d) 0

/-- Takes digits before the point while the significand fits; the others only move the exponent. -/
def gatherWhole (n : Nat) : List Nat → Gathered
  | [] => ⟨n, 0⟩
  | d :: r => if 10 * n + d ≤ wordMax then gatherWhole (10 * n + d) r else ⟨n, (r.length : Int) + 1⟩

/-- Takes digits after the point while the significand fits, and drops the others. -/
def gatherFraction (g : Gathered) : List Nat → Gathered
  | [] => g
  | d :: r =>
    if 10 * g.significand + d ≤ wordMax then gatherFraction ⟨10 * g.significand + d, g.exponent - 1⟩ r else g

/-- Scales by a power of ten, in steps of the largest power that a binary64 number holds. There is no
    result beyond the range of binary64. Three steps take any 64-bit significand to zero. -/
def scale : Nat → Float → Int → Option Float
  | 0, _, _ => some 0
  | fuel + 1, x, e =>
    if e.natAbs ≤ 308 then
      if e < 0 then some (x / Float.ofScientific 1 false e.natAbs)
      else
        let y := x * Float.ofScientific 1 false e.natAbs
        if y.isInf then none else some y
    else if x == 0 then some x
    else if 0 < e then none
    else scale fuel (x / Float.ofScientific 1 false 308) (e + 308)

/-- The binary64 value of a literal. -/
def toFloat? (n : Numeral) : Option Float :=
  let g := gatherFraction (gatherWhole 0 n.whole) n.fraction
  (scale 4 (UInt64.ofNat g.significand).toFloat (g.exponent + n.exponent.getD 0)).map
    fun x => if n.negative then -x else x

/-- The number of a literal; a literal beyond the range of binary64 has none. -/
def value (n : Numeral) : Option JsonNumber :=
  if n.fraction.isEmpty ∧ n.exponent.isNone then
    let m := digitsValue n.whole
    if n.negative then
      -- Negative zero is no whole number.
      if 0 < m ∧ m ≤ 0x8000000000000000 then some (.whole (-(m : Int))) else n.toFloat?.map .real
    else if m ≤ wordMax then some (.whole m)
    else n.toFloat?.map .real
  else n.toFloat?.map .real

/-! ### Reading -/

def isDigit (c : Char) : Bool := '0' ≤ c && c ≤ '9'

/-- The leading digits and the rest. -/
def spanDigits : List Char → List Nat × List Char
  | [] => ([], [])
  | c :: r => if isDigit c then ((c.toNat - 48) :: (spanDigits r).1, (spanDigits r).2) else ([], c :: r)

/-- What a missing digit means: the text ended, or something else stands there. -/
def missingDigit (rest : List Char) : Fault := if rest.isEmpty then .unfinished else .malformed

/-- Reads the exponent, if one follows. -/
def readExponent (negative : Bool) (whole fraction : List Nat) : List Char → Except Fault (Numeral × List Char)
  | 'e' :: r => afterMark r
  | 'E' :: r => afterMark r
  | r => .ok (⟨negative, whole, fraction, none⟩, r)
where
  afterMark (r : List Char) : Except Fault (Numeral × List Char) :=
    match r with
    | '-' :: r => digits true r
    | '+' :: r => digits false r
    | r => digits false r
  digits (down : Bool) (r : List Char) : Except Fault (Numeral × List Char) :=
    match spanDigits r with
    | ([], r) => .error (missingDigit r)
    | (ds, r) =>
      let e : Int := digitsValue ds
      .ok (⟨negative, whole, fraction, some (if down then -e else e)⟩, r)

/-- Reads the fraction, if one follows, and the exponent. -/
def readFraction (negative : Bool) (whole : List Nat) : List Char → Except Fault (Numeral × List Char)
  | '.' :: r =>
    match spanDigits r with
    | ([], r) => .error (missingDigit r)
    | (ds, r) => readExponent negative whole ds r
  | r => readExponent negative whole [] r

/-- Reads the part after the sign. -/
def readWhole (negative : Bool) (r : List Char) : Except Fault (Numeral × List Char) :=
  match spanDigits r with
  | ([], r) => .error (missingDigit r)
  | (0 :: _ :: _, _) => .error .malformed
  | (ds, r) => readFraction negative ds r

/-- Reads a number literal from the front of a text. -/
def read : List Char → Except Fault (Numeral × List Char)
  | '-' :: r => readWhole true r
  | r => readWhole false r

end Numeral

end Workboard
