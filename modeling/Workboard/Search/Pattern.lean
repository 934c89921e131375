import Workboard.Search.Affinity

/-! Patterns for approximate matching.

A pattern is split at spaces into atoms, all of which have to match. An atom may be negated by `!`, bound to
the beginning by `^`, asked for in one piece by `'`, and bound to the end by `$`; a backslash takes the
meaning from these marks and from a space. An atom without capitals ignores case, and one without
accented letters ignores accents. -/

namespace Workboard.Search

inductive AtomKind where
  | gapped
  | substring
  | head
  | tail
  | whole
  deriving DecidableEq, Repr

structure Atom where
  kind : AtomKind
  negated : Bool
  needle : Needle

namespace Atom

/-- The texts between spaces that have no backslash before them. The current text is given last first. -/
def splitFrom (current : List Char) (afterBackslash : Bool) : List Char → List (List Char)
  | [] => [current.reverse]
  | c :: r =>
    if c = ' ' ∧ !afterBackslash then current.reverse :: splitFrom [] false r
    else splitFrom (c :: current) (c = '\\') r

/-- A backslash before a space goes. -/
def unescape : List Char → List Char
  | [] => []
  | '\\' :: ' ' :: r => ' ' :: unescape r
  | c :: r => c :: unescape r

/-- Among other characters than ASCII a backslash stays before a space, and is doubled before anything
    else. -/
def doubleEscapes (afterBackslash : Bool) : List Char → List Char
  | [] => []
  | c :: r =>
    if afterBackslash && c = ' ' then c :: doubleEscapes false r
    else (if afterBackslash then ['\\', c] else [c]) ++ doubleEscapes (c = '\\') r

/-- Takes the mark of negation off. -/
def takeNegation : List Char → Bool × List Char
  | '!' :: r => (true, r)
  | '\\' :: '!' :: r => (false, '!' :: r)
  | l => (false, l)

/-- Takes the mark at the beginning off. -/
def takeStart : List Char → AtomKind × List Char
  | '^' :: r => (.head, r)
  | '\'' :: r => (.substring, r)
  | '\\' :: '^' :: r => (.gapped, '^' :: r)
  | '\\' :: '\'' :: r => (.gapped, '\'' :: r)
  | l => (.gapped, l)

/-- Takes the mark at the end off, and tells the text that it stands for itself. -/
def takeEnd (kind : AtomKind) (l : List Char) : AtomKind × List Char × List Char :=
  match l.reverse with
  | '$' :: '\\' :: r => (kind, r.reverse, ['$'])
  | '$' :: r => (if kind = .gapped then .tail else .whole, r.reverse, [])
  | _ => (kind, l, [])

/-- The atom of a text. Its needle ignores case if it has no capital, and marks if it has no letter with
    marks. -/
def ofChars (l : List Char) : Atom :=
  let (negated, l) := takeNegation l
  let (kind, l) := takeStart l
  let (kind, l, mark) := takeEnd kind l
  let isAscii := l.all (·.toNat < 128)
  let chars := if isAscii then unescape l else doubleEscapes false (Text.heads l)
  { kind := if negated ∧ kind = .gapped then .substring else kind
    negated
    needle := ⟨chars ++ mark, isAscii, chars.all fun c => Text.simpleFold c = c, chars.all fun c => Text.plain c = c⟩ }

/-- The score of a match, negation aside. A word of ASCII characters never matches a needle with others. -/
def matchScore? (a : Atom) (w : Word) : Option Nat :=
  let columns := w.columns a.needle.comparison
  if w.isAscii && !a.needle.isAscii then none
  else
    match a.kind with
    | .gapped => a.needle.gappedScore? w columns
    | .substring => a.needle.substringScore? w columns
    | .head => a.needle.headScore? w columns
    | .tail => a.needle.tailScore? w columns
    | .whole => a.needle.wholeScore? w columns

def score? (a : Atom) (w : Word) : Option Nat :=
  if a.negated then (if (a.matchScore? w).isSome then none else some 0) else a.matchScore? w

end Atom

abbrev Pattern := List Atom

namespace Pattern

/-- The pattern of a text. Atoms with nothing to look for are dropped. -/
def ofText (s : String) : Pattern := ((Atom.splitFrom [] false s.toList).map Atom.ofChars).filter (!·.needle.chars.isEmpty)

/-- The sum of the scores of all atoms, if all match. -/
def score? (p : Pattern) (w : Word) : Option Nat :=
  (p.mapM fun (a : Atom) => a.score? w).map fun scores => scores.foldl (· + ·) 0

end Pattern

/-- A term that resembles another. -/
structure Similar where
  term : String
  /-- At most 1, the score of a perfect match. -/
  similarity : Float32

namespace Similar

/-- The better first; of equals the shorter, and then the smaller. -/
def isBefore (a b : Similar) : Bool :=
  if b.similarity < a.similarity then true
  else if a.similarity < b.similarity then false
  else if a.term.utf8ByteSize ≠ b.term.utf8ByteSize then a.term.utf8ByteSize < b.term.utf8ByteSize
  else a.term ≤ b.term

/-- The terms of a vocabulary that a term resembles, best first. Similarity is the score relative to the
    score that the term has with itself. -/
def expand (term : String) (vocabulary : List String) (limit : Nat) (least : Float32) : List Similar :=
  let p := Pattern.ofText term
  match p.score? (.ofText term) with
  -- Nothing can be compared with a term that does not match itself.
  | none | some 0 => []
  | some perfect =>
    let similar := (vocabulary.filter (· ≠ term)).filterMap fun candidate => do
      let score ← p.score? (.ofText candidate)
      let ratio := score.toFloat32 / perfect.toFloat32
      let similarity := if ratio < 1 then ratio else 1
      if least ≤ similarity then some ⟨candidate, similarity⟩ else none
    (similar.mergeSort isBefore).take limit

end Similar

end Workboard.Search
