import Workboard.Search.Occurrence

/-! How well a needle matches a word with gaps.

The characters of the needle are matched in order. All ways to do so are weighed in a table with a row for
each character, as long as the table is small; a larger one gives way to the first match that there is,
made as narrow as it can be. -/

namespace Workboard.Search

/-! ### All matches -/

/-- The best match of the needle's beginning that ends at a column. -/
structure Cell where
  score : Nat
  /-- The bonus that a run through the column has. -/
  bonus : Nat

/-- The row of the needle's first character. -/
def firstRow (c : Char) (columns : List Column) : List (Option Cell) :=
  columns.map fun k => if k.scored = c then some ⟨matchScore + 2 * k.bonus, k.bonus⟩ else none

/-- The better way to match a column: to go on with the run that ends just before it, or to match it behind
    a gap, where `gap` is the best score that remains after the gap. -/
def extend (left : Option Cell) (gap : Nat) (k : Column) : Cell :=
  match left with
  | none => ⟨gap + k.bonus + matchScore, k.bonus⟩
  | some l =>
    let run := max l.bonus runBonus
    -- A run that comes to the beginning of a word takes its bonus over.
    let run := if boundaryBonus ≤ k.bonus ∧ run < k.bonus then k.bonus else run
    let going := l.score + max run k.bonus
    if gap + k.bonus < going then ⟨going + matchScore, run⟩ else ⟨gap + k.bonus + matchScore, k.bonus⟩

/-- The row of a character from the row above it. Known are whether the row above has a match to the left,
    its cell just to the left, and what remains of its scores after a gap. A gap costs 3, and 1 for every
    further column. -/
def nextRow (c : Char) : Bool → Option Cell → Nat → List Column → List (Option Cell) → List (Option Cell)
  | reached, left, gap, k :: columns, above :: row =>
    (if reached ∧ k.scored = c then some (extend left gap k) else none)
      :: nextRow c (reached || above.isSome) above (max ((left.elim 0 Cell.score) - 3) (gap - 1)) columns row
  | _, _, _, _, _ => []

/-- The row of the needle's last character. -/
def lastRow (columns : List Column) (row : List (Option Cell)) : List Char → List (Option Cell)
  | [] => row
  | c :: r => lastRow columns (nextRow c false none 0 columns row) r

/-- The best score of all matches of the characters. -/
def tableScore? (c : Char) (r : List Char) (columns : List Column) : Option Nat :=
  ((lastRow columns (firstRow c columns) r).filterMap fun x => x.map (·.score)).max?

/-- Whether the table of a span is small enough. Columns, rows and cells all take their share of the room;
    a column takes less in a word of ASCII characters. -/
def isRoomy (isAscii : Bool) (width height : Nat) : Bool :=
  let shifts := width + 1 - height
  let forColumns := width * if isAscii then 2 else 5
  width * height ≤ 102400 && forColumns + forColumns % 2 + 2 * height + 4 * shifts + shifts * height ≤ 124928

/-! ### One match -/

/-- How many columns it takes to find the characters in order. -/
def reach? : List Char → List Column → Option Nat
  | [], _ => some 0
  | _ :: _, [] => none
  | c :: r, k :: columns => (reach? (if k.sought = c then r else c :: r) columns).map (· + 1)

/-- The score of the first match, after its columns are taken from its end back to where they just suffice. -/
def Needle.tightScore? (n : Needle) (span : List Column) : Option Nat := do
  let reached := span.take (← reach? n.chars span)
  let width ← reach? n.chars.reverse reached.reverse
  return n.runScore (reached.drop (reached.length - width))

/-! ### The score -/

/-- The columns from the first one where the needle's first character is found to the last one with its last
    character. -/
def spanned (first last : Char) (columns : List Column) : List Column :=
  ((columns.dropWhile (·.sought ≠ first)).reverse.dropWhile (·.sought ≠ last)).reverse

/-- The score of the needle's characters in order, with gaps. -/
def Needle.gappedScore? (n : Needle) (w : Word) (columns : List Column) : Option Nat :=
  match n.chars with
  | [] => some 0
  | c :: r =>
    if columns.length < n.chars.length then none
    else if columns.length = n.chars.length then n.exactScore? w columns
    else if r.isEmpty then singleScore? w c columns
    else
      let span := spanned c (r.getLastD c) columns
      -- No gap fits into the span.
      if span.length ≤ n.chars.length then if n.isFoundIn span then some (n.runScore span) else none
      else if isRoomy w.isAscii span.length n.chars.length then tableScore? c r span
      else n.tightScore? span

end Workboard.Search
