import Workboard.Search.Pattern
import Workboard.Search.Postings

/-! Searching the documents of a board.

Every term of a query adds to the scores of the documents in which it occurs, field by field; a term that
occurs nowhere is replaced by terms that resemble it. The results are in descending order of their scores,
one for every entity. -/

namespace Workboard.Search

/-- The score of a document so far, and the field that gave most to it at once. -/
structure Tally where
  total : Float32
  best : Option (Field × Float32)

namespace Tally

def none : Tally := ⟨0, .none⟩

def add (t : Tally) (f : Field) (score : Float32) : Tally :=
  ⟨t.total + score, if t.best.all fun b => b.2 < score then some (f, score) else t.best⟩

end Tally

/-- The documents of a board with an index for every field. -/
structure Index where
  documents : List Document
  fields : List FieldIndex
  /-- Every term of the documents, ascending. -/
  vocabulary : List String
  profile : Profile

/-- A result: a document, its score, and the field that gave most to it. -/
structure Hit where
  document : Document
  score : Float32
  field : Option Field

inductive SearchError where
  /-- The query has no terms. -/
  | emptyQuery
  deriving DecidableEq, Repr

def SearchError.kind : SearchError → String
  | emptyQuery => "EmptyQuery"

def SearchError.message : SearchError → String
  | emptyQuery => "Empty query"

namespace Index

def ofDocuments (documents : List Document) (profile : Profile) : Index :=
  let fields := Field.all.map fun f => FieldIndex.ofDocuments f documents
  ⟨documents, fields, (KeySet.ofList (fields.flatMap fun x => x.terms.keys)).toList, profile⟩

def ofBoard (b : Board) (profile : Profile) (orders : Board.Orders := {}) : Index :=
  ofDocuments (b.documents orders) profile

/-! ### Scores -/

/-- Adds the score of every posting of a term in a field, weighted. -/
def addPostings (x : Index) (f : FieldIndex) (weight : Float32) (postings : List Posting) (tallies : List Tally) :
    List Tally :=
  postings.foldl
    (fun tallies p =>
      let score := x.profile.termScore x.documents.length postings.length p.count (f.lengths.getD p.document 0)
        f.meanLength
      tallies.modify p.document (·.add f.field (score * x.profile.boost f.field * weight)))
    tallies

/-- The postings by which a term is found in a field: as a term, and as a beginning if it is direct. -/
def postingsOf (x : Index) (term : String) (weight : Float32) (direct : Bool) (f : FieldIndex) :
    List (List Posting × Float32) :=
  (f.terms.of term, weight) :: if direct then [(f.prefixes.of term, weight * x.profile.prefixWeight)] else []

/-- Adds the scores of a term in all fields. -/
def addTerm (x : Index) (term : String) (weight : Float32) (direct : Bool) (tallies : List Tally) : List Tally :=
  x.fields.foldl
    (fun tallies f =>
      (x.postingsOf term weight direct f).foldl (fun tallies l => x.addPostings f l.2 l.1 tallies) tallies)
    tallies

/-- Whether a term is found in some document as a term or as a beginning. -/
def isKnown (x : Index) (term : String) : Bool :=
  x.fields.any fun f => !(f.terms.of term).isEmpty || !(f.prefixes.of term).isEmpty

/-- The terms that stand in for one that is not known. Short terms have none. -/
def standIns (x : Index) (term : String) : List Similar :=
  let l := x.profile.leniency
  if term.length < l.shortestTerm then [] else Similar.expand term x.vocabulary l.mostTerms l.leastSimilarity

/-- Adds the scores of a term of the query. -/
def addQueryTerm (x : Index) (tallies : List Tally) (term : String) : List Tally :=
  if x.isKnown term then x.addTerm term 1 true tallies
  else
    -- Stand-ins are terms of documents already, so beginnings are left out.
    (x.standIns term).foldl
      (fun tallies s => x.addTerm s.term (x.profile.leniency.weight * s.similarity) false tallies) tallies

end Index

/-- Whether a query, trimmed and in lower case, is a document's whole name, or the type of a node. -/
def Document.isNamed (d : Document) (query : String) : Bool :=
  Text.lower d.name = query || (d.kind = .node && d.nodeName.any fun t => Text.lower t = query)

namespace Index

/-- The scores of all documents, in their order. -/
def tallies (x : Index) (query : String) : List Tally :=
  let scored := (queryTerms query).foldl x.addQueryTerm (x.documents.map fun _ => .none)
  -- Names are compared with the query as a whole.
  let named := Text.lower (Text.trim query)
  x.documents.zipWith (fun d t => if d.isNamed named then t.add .name x.profile.nameBonus else t) scored

end Index

/-! ### Results -/

namespace Hit

/-- A document as a result. One that has no value shows the text of the field that gave most. -/
def ofTally (d : Document) (t : Tally) : Hit :=
  let field := t.best.map (·.1)
  ⟨{ d with matchedValue := d.matchedValue.or (field.bind d.value?) }, t.total, field⟩

/-- Higher scores come first, and of equal scores the smaller id. -/
def isBefore (a b : Hit) : Bool :=
  if b.score < a.score then true
  else if a.score < b.score then false
  -- Scores that cannot be compared count as equal.
  else a.document.id ≤ b.document.id

/-- Keeps the first result of every entity. The entities met so far are given. -/
def distinct (seen : List EntityKey) : List Hit → List Hit
  | [] => []
  | h :: r =>
    if h.document.entity ∈ seen then distinct seen r else h :: distinct (h.document.entity :: seen) r

end Hit

namespace Index

/-- The documents that have a score, the best first, one for every entity. Before they are sorted they are in the given
    order of their positions. -/
def rank (x : Index) (tallies : List Tally) (order : List Nat := []) : List Hit :=
  let hits := (rearranged order (x.documents.zipWith Hit.ofTally tallies)).filter fun h => 0 < h.score
  -- Repeats go first, so they use up nothing of the limit.
  (Hit.distinct [] (hits.mergeSort Hit.isBefore)).take x.profile.limit

def search (x : Index) (query : String) (order : List Nat := []) : Except SearchError (List Hit) :=
  if (queryTerms query).isEmpty then .error .emptyQuery else .ok (x.rank (x.tallies query) order)

end Index

/-! ### JSON -/

namespace Hit

def toJson (h : Hit) : Json :=
  let d := h.document
  .ofMembers [
    ("id", .string d.id),
    ("type", .string d.kind.label),
    ("node_id", .ofText? d.node),
    ("layer_id", .ofText? d.layer),
    ("layer_path", .ofTexts d.layerPath),
    ("name", .string d.name),
    ("description", .ofText? d.description),
    ("matched_field", .ofText? (h.field.map (·.label))),
    ("matched_value", .ofText? d.matchedValue),
    ("category", .ofText? d.category),
    ("pin_name", .ofText? d.pinName),
    ("pin_type", .ofText? (d.direction.map (·.name))),
    ("data_type", .ofText? d.dataType),
    ("search_text", .string d.searchText),
    ("score", .single h.score)]

end Hit

/-- A document by itself, without a score. -/
def Document.toJson (d : Document) : Json := Hit.toJson ⟨d, 0, .none⟩

end Workboard.Search
