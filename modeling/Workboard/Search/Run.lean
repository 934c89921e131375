import Workboard.Search.Column

/-! The score of columns against a needle, from the first column on.

Every matched character counts 16, and more at the beginning of words and where it continues a run; gaps
between matched characters cost. -/

namespace Workboard.Search

/-- Scores are counted modulo this number. -/
def scoreModulus : Nat := 0x10000

/-- The score behind a matched character. -/
def addMatch (score worth : Nat) : Nat := (score + matchScore + worth) % scoreModulus

/-- The score of further columns: `start` is the bonus that the current run has by its beginning, `inGap`
    tells that there is no current run. When the needle is used up, its last character is looked for again.
    A gap costs 3, and 1 for every further column. -/
def runScoreFrom (last : Char) (needle : List Char) (start : Nat) (inGap : Bool) (score : Nat) : List Column → Nat
  | [] => score
  | k :: r =>
    if k.scored = needle.headD last then
      if inGap then runScoreFrom last needle.tail k.bonus false (addMatch score k.bonus) r
      else
        let start := if boundaryBonus ≤ k.bonus ∧ start < k.bonus then k.bonus else start
        runScoreFrom last needle.tail start false (addMatch score (max (max k.bonus start) runBonus)) r
    else runScoreFrom last needle start true (score - if inGap then 1 else 3) r

namespace Needle

/-- The score of columns that begin with the needle's first character. Its bonus counts twice. -/
def runScore (n : Needle) : List Column → Nat
  | [] => 0
  | k :: r => runScoreFrom (n.chars.getLastD k.scored) n.chars.tail k.bonus false (matchScore + 2 * k.bonus) r

/-- Whether columns are just the needle. -/
def isFoundIn (n : Needle) (columns : List Column) : Bool := columns.map (·.sought) = n.chars

/-- The score of the needle at columns of a word, if they are just the needle. In a word of ASCII characters
    a needle with capitals has to be the whole word. -/
def exactScore? (n : Needle) (w : Word) (columns : List Column) : Option Nat :=
  if (if w.isAscii && !n.comparison.ignoreCase then w.chars = n.chars else n.isFoundIn columns) then
    some (n.runScore columns)
  else none

/-- Whether the blanks around a word count for a needle with the given outermost character. -/
def keepsBlanks (c : Option Char) : Bool := c.any Text.isBlank

/-- The columns behind the blanks that a word starts with. -/
def behindBlanks (n : Needle) (w : Word) (columns : List Column) : List Column :=
  if keepsBlanks n.chars.head? then columns else columns.drop w.leadingBlanks

/-- The columns before the blanks that a word ends in. -/
def beforeBlanks (n : Needle) (w : Word) (columns : List Column) : List Column :=
  if keepsBlanks n.chars.getLast? then columns else columns.take (columns.length - w.trailingBlanks)

/-- The score of the needle at the beginning of a word. -/
def headScore? (n : Needle) (w : Word) (columns : List Column) : Option Nat :=
  n.exactScore? w ((n.behindBlanks w columns).take n.chars.length)

/-- The score of the needle at the end of a word. -/
def tailScore? (n : Needle) (w : Word) (columns : List Column) : Option Nat :=
  let columns := n.beforeBlanks w columns
  n.exactScore? w (columns.drop (columns.length - n.chars.length))

/-- The score of a word that is the needle. -/
def wholeScore? (n : Needle) (w : Word) (columns : List Column) : Option Nat :=
  n.exactScore? w (n.behindBlanks w (n.beforeBlanks w columns))

end Needle

end Workboard.Search
