import Workboard.Text.Case
import Workboard.Text.Blank
import Workboard.Text.Split

/-! The terms of a text: its words in lower case, the parts of words in camel case, and the beginnings of
longer words. -/

namespace Workboard.Search

/-- Marks that separate words, besides white space. -/
def separators : List Char :=
  ['-', '_', '.', '/', '\\', ':', ',', ';', '(', ')', '[', ']', '\x7b', '\x7d', '|', '#', '@', '\'', '"']

def isSeparator (c : Char) : Bool := Text.isBlank c || c ∈ separators

/-- The words of a text as they are written. -/
def rawWords (text : List Char) : List (List Char) := (Text.splitAt isSeparator text).filter (!·.isEmpty)

/-- The parts of a word: a capital that does not follow a capital starts one. The current part is given
    last first. -/
def camelPartsFrom (current : List Char) (afterCapital : Bool) : List Char → List (List Char)
  | [] => if current.isEmpty then [] else [current.reverse]
  | c :: r =>
    if Text.isUpper c then
      -- Capitals in a row stay in one part, with what follows them.
      if current.isEmpty || afterCapital then camelPartsFrom (c :: current) true r
      else current.reverse :: camelPartsFrom [c] true r
    else camelPartsFrom (c :: current) false r

def camelParts (word : List Char) : List (List Char) := camelPartsFrom [] false word

/-- A word in lower case, and its parts if there are several. -/
def wordTerms (word : List Char) : List String :=
  let lower (l : List Char) : String := .ofList (Text.lowerChars [] l)
  match camelParts word with
  | first :: second :: rest => lower word :: (first :: second :: rest).map lower
  | _ => [lower word]

/-- The terms of a text in order, repeats included. -/
def terms (text : String) : List String := (rawWords text.toList).flatMap wordTerms

def shortestPrefix : Nat := 3

def longestPrefix : Nat := 7

/-- The length from which on a term is also found by its beginnings. -/
def prefixSource : Nat := 5

/-- The beginnings by which a term is found. -/
def termPrefixes (term : String) : List String :=
  let l := term.toList
  if l.length < prefixSource then []
  else
    (List.range' shortestPrefix (min longestPrefix (l.length - 1) + 1 - shortestPrefix)).map fun n =>
      .ofList (l.take n)

/-- What a text is found by. -/
structure FieldTerms where
  terms : List String
  prefixes : List String
  deriving DecidableEq, Repr

namespace FieldTerms

def empty : FieldTerms := ⟨[], []⟩

def ofText (text : String) : FieldTerms :=
  let found := Search.terms text
  ⟨found, found.flatMap termPrefixes⟩

end FieldTerms

/-- The terms that a query asks for, each once. -/
def queryTerms (query : String) : List String := (terms query).eraseDups

end Workboard.Search
