import Workboard.Search.Run

/-! Where a needle stands in one piece in a word.

A needle is looked for at every place where its first character matches, and the place with the best bonus
counts. A needle that is compared as it is written has no two places that overlap. -/

namespace Workboard.Search

/-- A place where a needle may start: the columns from there on, and the bonus of the first one. -/
structure Start where
  bonus : Nat
  columns : List Column

namespace Start

/-- The places where a character is matched. In a word with other characters than ASCII the bonus goes by
    the class of the match before, here that of the given class. -/
def matchesFrom (isAscii : Bool) (c : Char) : Text.CharClass → List Column → List Start
  | _, [] => []
  | before, k :: r =>
    if k.scored = c then
      ⟨if isAscii then k.bonus else Search.bonus before k.kind, k :: r⟩ :: matchesFrom isAscii c k.kind r
    else matchesFrom isAscii c before r

/-- The places where a character is matched, from the first one on where it is found. -/
def matching (isAscii : Bool) (c : Char) (columns : List Column) : List Start :=
  let skipped := columns.takeWhile (·.sought ≠ c)
  matchesFrom isAscii c ((skipped.getLast?.map (·.kind)).getD .blank) (columns.drop skipped.length)

/-- The places where characters stand as they are written, apart from each other. The first columns, as
    many as `skip` says, belong to the place before. -/
def apart (chars : List Char) : (skip : Nat) → List Column → List Start
  | _, [] => []
  | skip + 1, _ :: r => apart chars skip r
  | 0, k :: r =>
    if ((k :: r).take chars.length).map (·.char) = chars then ⟨k.bonus, k :: r⟩ :: apart chars (chars.length - 1) r
    else apart chars 0 r

/-- The first of the places with the best bonus. -/
def best? : List Start → Option Start
  | [] => none
  | s :: r => some (r.foldl (fun best s => if best.bonus < s.bonus then s else best) s)

end Start

namespace Needle

/-- The score of a single character, at its best match. -/
def singleScore? (w : Word) (c : Char) (columns : List Column) : Option Nat :=
  if columns.any (·.sought = c) then
    some (((Start.matching w.isAscii c columns).map fun s => matchScore + 2 * s.bonus).foldl max 0)
  else none

/-- Whether the columns behind the first one go on as the needle does. -/
def goesOn (n : Needle) (s : Start) : Bool :=
  ((s.columns.drop 1).take n.chars.tail.length).map (·.sought) = n.chars.tail

def isSmallLetter (c : Char) : Bool := 'a' ≤ c && c ≤ 'z'

/-- The places of a needle that starts with the given character. In a word of ASCII characters it is
    compared as it is written if case counts or it has no letter. If its first letter comes third or later, it
    is also compared as it is written, and is only found where its end keeps that of the word at a distance.
    In other words the last place of all is left out. -/
def places (n : Needle) (w : Word) (c : Char) (columns : List Column) : List Start :=
  if w.isAscii then
    match n.comparison.ignoreCase, n.chars.findIdx? isSmallLetter with
    | true, some (_ + 2) => Start.apart n.chars 0 (columns.take (columns.length - n.chars.length + 1))
    | true, some _ => (Start.matching true c columns).filter n.goesOn
    | _, _ => Start.apart n.chars 0 columns
  else (Start.matching false c columns).filter fun s => n.chars.length < s.columns.length && n.goesOn s

/-- The score of the needle in one piece. -/
def substringScore? (n : Needle) (w : Word) (columns : List Column) : Option Nat :=
  match n.chars with
  | [] => some 0
  | c :: r =>
    if columns.length < n.chars.length then none
    else if columns.length = n.chars.length then n.exactScore? w columns
    else if r.isEmpty then singleScore? w c columns
    else (Start.best? (n.places w c columns)).map fun s => n.runScore (s.columns.take n.chars.length)

end Needle

end Workboard.Search
