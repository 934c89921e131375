import Workboard.Text.CaseTable

/-! Lower case by the full Unicode mapping.

The capital I with a dot becomes two characters, and a capital sigma becomes the final form at the end of
a word: behind a cased character and not before one, case-ignorable characters skipped. -/

namespace Workboard.Text

def isUpper (c : Char) : Bool :=
  if c.toNat < 128 then 'A' ≤ c && c ≤ 'Z' else upperSpans.has c.toNat

def isCased (c : Char) : Bool := casedSpans.has c.toNat

def isCaseIgnorable (c : Char) : Bool := ignorableSpans.has c.toNat

/-- The lower-case form of one character, by itself. -/
def lowerChar (c : Char) : List Char :=
  if c.toNat < 128 then [c.toLower]
  else if c.toNat = 0x130 then ['i', '\u0307']
  else [match lowerShifts.image? c.toNat with
    | some n => .ofNat n
    | none => c]

/-- Whether a cased character comes first, once case-ignorable characters are skipped. -/
def casedFirst (l : List Char) : Bool :=
  match l.dropWhile isCaseIgnorable with
  | [] => false
  | c :: _ => isCased c

/-- The lower-case form of a text that stands behind the given characters, nearest first. -/
def lowerChars (before : List Char) : List Char → List Char
  | [] => []
  | c :: r =>
    -- The one mapping that looks at the text around a character.
    (if c = 'Σ' then [if casedFirst before && !casedFirst r then 'ς' else 'σ'] else lowerChar c)
      ++ lowerChars (c :: before) r

def lower (s : String) : String := .ofList (lowerChars [] s.toList)

/-- The form in which characters are compared without regard to case: lower case, and one small sigma. -/
def foldChar (c : Char) : List Char := (lowerChar c).map fun x => if x = 'ς' then 'σ' else x

end Workboard.Text
