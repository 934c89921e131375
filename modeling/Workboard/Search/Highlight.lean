import Workboard.Search.Terms

/-! Where the terms of a query stand in a text.

Text and terms are compared after folding, character by character; a folded character stands for the whole
character that it comes from. -/

namespace Workboard.Search

/-- A range of bytes of a text in UTF-8, the end not included. -/
structure ByteRange where
  start : Nat
  stop : Nat
  deriving DecidableEq, Repr

/-- Cuts a text behind a number of bytes, unless they end inside a character or there are not so many. -/
def splitBytes? : Nat → List Char → Option (List Char × List Char)
  | 0, text => some ([], text)
  | _ + 1, [] => none
  | n + 1, c :: r =>
    if c.utf8Size ≤ n + 1 then (splitBytes? (n + 1 - c.utf8Size) r).map fun (front, rest) => (c :: front, rest) else none

/-- The part of a text in a range, if the range starts and ends between characters. -/
def ByteRange.slice? (x : ByteRange) (text : List Char) : Option (List Char) :=
  if x.start ≤ x.stop then do
    let (_, rest) ← splitBytes? x.start text
    let (part, _) ← splitBytes? (x.stop - x.start) rest
    some part
  else none

/-- A folded character, and the bytes of the character that it comes from. -/
structure FoldedChar where
  char : Char
  source : ByteRange

/-- Folds a text that starts at a byte. -/
def foldFrom (start : Nat) : List Char → List FoldedChar
  | [] => []
  | c :: r =>
    let stop := start + c.utf8Size
    (Text.foldChar c).map (⟨·, ⟨start, stop⟩⟩) ++ foldFrom stop r

def fold (text : List Char) : List Char := text.flatMap Text.foldChar

/-- The ranges of a term that is found from left to right; the given number of characters still belong to
    the last range found. -/
def rangesOf (term : List Char) : Nat → List FoldedChar → List ByteRange
  | _, [] => []
  | skip + 1, _ :: r => rangesOf term skip r
  | 0, c :: r =>
    -- Near the end there are fewer characters, which are not the term then.
    let found := (c :: r).take term.length
    if found.map (·.char) = term then
      ⟨c.source.start, (found.getLastD c).source.stop⟩ :: rangesOf term (term.length - 1) r
    else rangesOf term 0 r

/-- Joins ranges that overlap or touch, given in ascending order behind a first one. -/
def joinFrom (current : ByteRange) : List ByteRange → List ByteRange
  | [] => [current]
  | x :: r =>
    if x.start ≤ current.stop then joinFrom ⟨current.start, max current.stop x.stop⟩ r
    else current :: joinFrom x r

def joinRanges : List ByteRange → List ByteRange
  | [] => []
  | x :: r => joinFrom x r

def ByteRange.isBefore (a b : ByteRange) : Bool := a.start < b.start || (a.start = b.start && a.stop ≤ b.stop)

/-- The ranges of a text in which terms of a query stand, ascending and apart from each other. -/
def highlight (text query : String) : List ByteRange :=
  let folded := foldFrom 0 text.toList
  let found := ((queryTerms query).map fun t => fold t.toList).flatMap fun term =>
    if term.isEmpty then [] else rangesOf term 0 folded
  joinRanges (found.mergeSort ByteRange.isBefore)

end Workboard.Search
