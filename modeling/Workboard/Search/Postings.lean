import Workboard.KeyMap
import Workboard.Search.Document
import Workboard.Search.Profile
import Workboard.Search.Terms

/-! The inverted index of one field: for every term the documents in which it occurs, and how often. -/

namespace Workboard.Search

/-- How often a term occurs in the document of a number. -/
structure Posting where
  document : Nat
  count : Nat
  deriving DecidableEq, Repr

/-- Postings by term, ascending by document. -/
abbrev Postings := KeyMap (List Posting)

namespace Postings

def of (p : Postings) (term : String) : List Posting := (KeyMap.get? p term).getD []

/-- Adds the terms of a document, each with its number of occurrences. -/
def add (p : Postings) (document : Nat) (terms : List String) : Postings :=
  terms.eraseDups.foldl (fun p t => p.insert t (Postings.of p t ++ [⟨document, terms.count t⟩])) p

/-- The postings of documents, given by their terms and numbered from zero. -/
def ofTerms (documents : List (List String)) : Postings :=
  documents.zipIdx.foldl (fun p d => p.add d.2 d.1) KeyMap.empty

end Postings

structure FieldIndex where
  field : Field
  terms : Postings
  prefixes : Postings
  /-- How many terms the field has in every document. -/
  lengths : List Nat

namespace FieldIndex

/-- The terms of a field of a document; none if it has no such field. -/
def termsOf (f : Field) (d : Document) : FieldTerms := ((d.value? f).map FieldTerms.ofText).getD .empty

def ofDocuments (f : Field) (documents : List Document) : FieldIndex :=
  let found := documents.map (termsOf f)
  ⟨f, .ofTerms (found.map (·.terms)), .ofTerms (found.map (·.prefixes)), found.map (·.terms.length)⟩

/-- The mean number of terms. -/
def meanLength (x : FieldIndex) : Float32 := (x.lengths.foldl (· + ·) 0).toFloat32 / (max x.lengths.length 1).toFloat32

end FieldIndex

/-- How telling a term is that occurs in some of all documents. -/
def rarity (total documents : Nat) : Float32 :=
  ((total.toFloat32 - documents.toFloat32 + 0.5) / (documents.toFloat32 + 0.5) + 1).log

/-- The score of a term in a field: it grows with the number of occurrences, ever more slowly, and falls
    with the length of the field relative to the mean. -/
def Profile.termScore (p : Profile) (total documents count length : Nat) (meanLength : Float32) : Float32 :=
  let mean := if meanLength < 1e-3 then 1e-3 else meanLength
  let relative := 1 - p.lengthWeight + p.lengthWeight * length.toFloat32 / mean
  let scale := count.toFloat32 + p.saturation * relative
  if scale ≤ 0 then 0 else rarity total documents * (count.toFloat32 * (p.saturation + 1)) / scale

end Workboard.Search
