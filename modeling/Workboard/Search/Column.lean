import Workboard.Text.Cluster
import Workboard.Text.Folding

/-! Words and needles as they are compared.

A word is seen as the first characters of its clusters, one column for each. A column knows the forms in
which its character is compared, and what a match is worth there. A needle is what is looked for. -/

namespace Workboard.Search

/-- What a match of a character is worth besides its 16, by the class of the character and of the one
    before it. -/
def bonus (before c : Text.CharClass) : Nat :=
  let isWord := c = .lower || c = .upper || c = .digit || c = .letter
  if isWord && before = .blank then 10
  else if isWord && before = .delimiter then 9
  else if isWord && before = .mark then 8
  else if before = .lower && c = .upper then 5
  else if before ≠ .digit && c = .digit then 5
  else if c = .blank then 10
  else if c = .mark then 8
  else 0

/-- A bonus from this on starts a run anew. -/
def boundaryBonus : Nat := 8

/-- What a run is worth per character at least. -/
def runBonus : Nat := 4

def matchScore : Nat := 16

/-- How characters are compared. -/
structure Comparison where
  ignoreCase : Bool
  /-- Whether a letter with marks counts as the plain letter that stands for it. -/
  ignoreMarks : Bool

namespace Comparison

/-- The plain letter in the place of a letter with marks, if marks are ignored. -/
def letter (m : Comparison) (c : Char) : Char := if m.ignoreMarks then Text.plain c else c

/-- The form in which a character is looked for. -/
def soughtForm (m : Comparison) (c : Char) : Char :=
  if m.ignoreCase then Text.simpleFold (m.letter c) else m.letter c

/-- The form in which a character of a class counts for the score. A small letter with a folding of its own,
    such as the final sigma, keeps its form if marks count. -/
def scoredForm (m : Comparison) (kind : Text.CharClass) (c : Char) : Char :=
  if m.ignoreCase && (m.ignoreMarks || kind = .upper) then Text.simpleFold (m.letter c) else m.letter c

end Comparison

/-- A place of a word. -/
structure Column where
  /-- The character as it is written. -/
  char : Char
  /-- The form that is looked for. -/
  sought : Char
  /-- The form that counts for the score. -/
  scored : Char
  kind : Text.CharClass
  /-- The bonus of a match. -/
  bonus : Nat

/-- The first characters of the clusters of a word. -/
structure Word where
  chars : List Char
  isAscii : Bool

namespace Word

def ofText (s : String) : Word :=
  let l := s.toList
  let isAscii := l.all (·.toNat < 128)
  ⟨if isAscii then l else Text.heads l, isAscii⟩

/-- The columns of characters that stand behind one of the given class. -/
def columnsFrom (m : Comparison) : Text.CharClass → List Char → List Column
  | _, [] => []
  | before, c :: r =>
    let kind := Text.charClass c
    ⟨c, m.soughtForm c, m.scoredForm kind c, kind, Search.bonus before kind⟩ :: columnsFrom m kind r

/-- Before the first character there is white space. -/
def columns (w : Word) (m : Comparison) : List Column := columnsFrom m .blank w.chars

def isBlankChar (w : Word) (c : Char) : Bool := if w.isAscii then Text.isAsciiBlank c else Text.isBlank c

/-- How many blank characters the word starts with; none if there are no others. -/
def leadingBlanks (w : Word) : Nat := (w.chars.findIdx? fun c => !w.isBlankChar c).getD 0

def trailingBlanks (w : Word) : Nat := (w.chars.reverse.findIdx? fun c => !w.isBlankChar c).getD 0

end Word

/-- Characters that are looked for. -/
structure Needle where
  chars : List Char
  isAscii : Bool
  comparison : Comparison

end Workboard.Search
