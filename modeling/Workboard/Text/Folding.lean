import Workboard.Text.FoldTable
import Workboard.Text.LetterTable
import Workboard.Text.PlainTable
import Workboard.Text.Blank

/-! Character classes and lenient forms of characters for approximate matching. -/

namespace Workboard.Text

/-- A character after simple case folding. -/
def simpleFold (c : Char) : Char :=
  match foldShifts.image? c.toNat with
  | some n => .ofNat n
  | none => c

/-- The ASCII letter that stands for a letter with marks, or the character itself. -/
def plain (c : Char) : Char :=
  if c.toNat < 128 then c
  else
    match plainLetters.find? (·.1 = c.toNat) with
    | some (_, n) => .ofNat n
    | none => c

/-- The classes of characters that a matcher scores by. -/
inductive CharClass where
  | blank
  | mark
  | delimiter
  | lower
  | upper
  | letter
  | digit
  deriving DecidableEq, Repr

/-- Characters that separate the parts of a path or list. -/
def isDelimiter (c : Char) : Bool := c = '/' || c = ',' || c = ':' || c = ';' || c = '|'

/-- White space of ASCII as it is scored: no vertical tab. -/
def isAsciiBlank (c : Char) : Bool := c = ' ' || c = '\t' || c = '\n' || c = '\x0c' || c = '\r'

def charClass (c : Char) : CharClass :=
  if c.toNat < 128 then
    if 'a' ≤ c && c ≤ 'z' then .lower
    else if 'A' ≤ c && c ≤ 'Z' then .upper
    else if '0' ≤ c && c ≤ '9' then .digit
    else if isAsciiBlank c then .blank
    else if isDelimiter c then .delimiter
    else .mark
  else if lowerSpans.has c.toNat then .lower
  else if (foldShifts.image? c.toNat).isSome then .upper
  else if numericSpans.has c.toNat then .digit
  else if alphabeticSpans.has c.toNat then .letter
  else if isBlank c then .blank
  else .mark

end Workboard.Text
