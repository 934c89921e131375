import Mathlib
import Workboard.Proofs.Keyed
import Workboard.Search.Index

/-! The inverted index and a plain scan of the documents.

`Scan.tally` scores one document by itself: it cuts every field of it into terms again and counts there,
and takes what it has to know of the others from the documents, too. The index reads all of this off posting
lists. A posting list names exactly the documents with a term, in their order (`Postings.of_ofTerms`), so
adding a list to the scores of all documents is adding to each what the scan adds (`addPostings_map`), and
the whole search comes to the same scores and best fields (`tallies_eq_scan`). -/

namespace Workboard.Search

/-! ### The scan -/

namespace Scan

/-- The terms of a field of a document. -/
def terms (f : Field) (d : Document) : List String := ((d.value? f).map Search.terms).getD []

/-- The beginnings by which the terms are found. -/
def prefixes (f : Field) (d : Document) : List String := (terms f d).flatMap termPrefixes

/-- The mean number of terms of a field over all documents. -/
def meanLength (docs : List Document) (f : Field) : Float32 :=
  (docs.map fun d => (terms f d).length).sum.toFloat32 / (max docs.length 1).toFloat32

/-- Every term of the documents, ascending. -/
def vocabulary (docs : List Document) : List String :=
  (KeySet.ofList (docs.flatMap fun d => Field.all.flatMap fun f => terms f d)).toList

/-- Whether a term is a term or a beginning of some document. -/
def isKnown (docs : List Document) (term : String) : Bool :=
  docs.any fun d => Field.all.any fun f => term ∈ terms f d || term ∈ prefixes f d

section
variable (p : Profile) (docs : List Document)

/-- The terms that stand in for one that is not known. Short terms have none. -/
def standIns (term : String) : List Similar :=
  if term.length < p.leniency.shortestTerm then []
  else Similar.expand term (vocabulary docs) p.leniency.mostTerms p.leniency.leastSimilarity

/-- Adds what a term gives to a document that has it among the given words of a field. -/
def addWords (f : Field) (words : Document → List String) (term : String) (weight : Float32) (d : Document)
    (t : Tally) : Tally :=
  if term ∈ words d then
    t.add f
      (p.termScore docs.length (docs.countP fun e => term ∈ words e) ((words d).count term) (terms f d).length
        (meanLength docs f) * p.boost f * weight)
  else t

/-- Adds what a term gives in a field: as a term, and as a beginning if it is direct. -/
def addField (term : String) (weight : Float32) (direct : Bool) (d : Document) (t : Tally) (f : Field) : Tally :=
  let t := addWords p docs f (terms f) term weight d t
  if direct then addWords p docs f (prefixes f) term (weight * p.prefixWeight) d t else t

/-- Adds what a term gives in all fields. -/
def addTerm (term : String) (weight : Float32) (direct : Bool) (d : Document) (t : Tally) : Tally :=
  Field.all.foldl (addField p docs term weight direct d) t

/-- Adds what a term of the query gives, or what the terms give that stand in for it. -/
def addQueryTerm (d : Document) (t : Tally) (term : String) : Tally :=
  if isKnown docs term then addTerm p docs term 1 true d t
  else
    (standIns p docs term).foldl
      (fun t s => addTerm p docs s.term (p.leniency.weight * s.similarity) false d t) t

/-- The score of a document. The bonus for its name comes last. -/
def tally (query : String) (d : Document) : Tally :=
  let t := (queryTerms query).foldl (addQueryTerm p docs d) .none
  if d.isNamed (Text.lower (Text.trim query)) then t.add .name p.nameBonus else t

end

end Scan

/-! ### Posting lists -/

theorem nodup_eraseDups {α : Type} [BEq α] [LawfulBEq α] : ∀ l : List α, l.eraseDups.Nodup
  | [] => List.nodup_nil
  | a :: r => by
    rw [List.eraseDups_cons, List.nodup_cons, List.mem_eraseDups]
    exact ⟨by simp, nodup_eraseDups _⟩
termination_by l => l.length
decreasing_by exact Nat.lt_succ_of_le (List.length_filter_le _ _)

namespace Postings

theorem of_insert (p : Postings) (key term : String) (l : List Posting) :
    Postings.of (p.insert key l) term = if key = term then l else Postings.of p term := by
  unfold Postings.of
  rw [KeyMap.get?_insert]
  split <;> rfl

/-- Adding the terms of a document adds a posting to the list of each of them. -/
theorem of_add (p : Postings) (n : Nat) (terms : List String) (term : String) :
    Postings.of (p.add n terms) term =
      Postings.of p term ++ if term ∈ terms then [⟨n, terms.count term⟩] else [] := by
  suffices main : ∀ (l : List String), l.Nodup → ∀ p : Postings,
      Postings.of (l.foldl (fun p t => p.insert t (Postings.of p t ++ [⟨n, terms.count t⟩])) p) term =
        Postings.of p term ++ if term ∈ l then [⟨n, terms.count term⟩] else [] by
    have h := main terms.eraseDups (nodup_eraseDups terms) p
    simp only [List.mem_eraseDups] at h
    exact h
  intro l hl
  induction l with
  | nil => simp
  | cons t r ih =>
    intro p
    obtain ⟨ht, hr⟩ := List.nodup_cons.mp hl
    rw [List.foldl_cons, ih hr, of_insert]
    by_cases heq : t = term
    · subst heq
      simp [ht]
    · simp [heq, Ne.symm heq]

theorem contains_add (p : Postings) (n : Nat) (terms : List String) (term : String) :
    (p.add n terms).contains term = true ↔ p.contains term = true ∨ term ∈ terms := by
  suffices main : ∀ (l : List String) (p : Postings),
      (l.foldl (fun p t => p.insert t (Postings.of p t ++ [⟨n, terms.count t⟩])) p).contains term = true ↔
        p.contains term = true ∨ term ∈ l by
    have h := main terms.eraseDups p
    rw [List.mem_eraseDups] at h
    exact h
  intro l
  induction l with
  | nil => simp
  | cons t r ih =>
    intro p
    rw [List.foldl_cons, ih, KeyMap.contains_insert]
    simp only [Bool.or_eq_true, decide_eq_true_eq, List.mem_cons]
    tauto

/-- The posting of a document with the given words. -/
def posting? (term : String) (d : List String × Nat) : Option Posting :=
  if term ∈ d.1 then some ⟨d.2, d.1.count term⟩ else none

/-- The posting list of a term names the documents that have it, in their order. -/
theorem of_ofTerms (documents : List (List String)) (term : String) :
    Postings.of (ofTerms documents) term = documents.zipIdx.filterMap (posting? term) := by
  suffices main : ∀ (l : List (List String × Nat)) (p : Postings),
      Postings.of (l.foldl (fun p d => p.add d.2 d.1) p) term = Postings.of p term ++ l.filterMap (posting? term) from
    main documents.zipIdx KeyMap.empty
  intro l
  induction l with
  | nil => simp
  | cons d r ih =>
    intro p
    rw [List.foldl_cons, ih, of_add, List.append_assoc]
    unfold posting?
    by_cases h : term ∈ d.1 <;> simp [h]

theorem mem_keys_ofTerms (documents : List (List String)) (term : String) :
    term ∈ (ofTerms documents).keys ↔ ∃ words ∈ documents, term ∈ words := by
  suffices main : ∀ (l : List (List String × Nat)) (p : Postings),
      (l.foldl (fun p d => p.add d.2 d.1) p).contains term = true ↔
        p.contains term = true ∨ ∃ words ∈ l.map (·.1), term ∈ words by
    have hempty : (KeyMap.empty : Postings).contains term = false := rfl
    have h := main documents.zipIdx KeyMap.empty
    rw [List.zipIdx_map_fst, hempty] at h
    rw [KeyMap.mem_keys]
    exact h.trans (by simp)
  intro l
  induction l with
  | nil => simp
  | cons d r ih =>
    intro p
    rw [List.foldl_cons, ih, contains_add]
    simp only [List.map_cons, List.mem_cons, exists_eq_or_imp]
    tauto

end Postings

/-! ### Lists of scores -/

section
variable {α β γ : Type}

theorem modify_length_append (change : β → β) (done : List β) (b : β) (rest : List β) :
    (done ++ b :: rest).modify done.length change = done ++ change b :: rest := by
  induction done with
  | nil => rfl
  | cons d r ih => simp [ih]

/-- Changes made one after the other at the numbers of some elements are a change of each of them. -/
theorem foldl_modify_zipIdx (change : γ → β → β) {hit : α × Nat → Option γ} {at' : γ → Nat} (g : α → β)
    (hat : ∀ d c, hit d = some c → at' c = d.2) (done : List β) (rest : List α) :
    ((rest.zipIdx done.length).filterMap hit).foldl (fun l c => l.modify (at' c) (change c)) (done ++ rest.map g) =
      done ++ (rest.zipIdx done.length).map fun d => (hit d).elim (g d.1) (change · (g d.1)) := by
  induction rest generalizing done with
  | nil => simp
  | cons a r ih =>
    have next (b : β) := ih (done ++ [b])
    simp only [List.length_append, List.length_cons, List.length_nil, List.append_assoc, List.singleton_append,
      Nat.zero_add] at next
    rw [List.zipIdx_cons, List.map_cons, List.map_cons]
    cases hc : hit (a, done.length) with
    | none => rw [List.filterMap_cons_none hc, next]; rfl
    | some c =>
      rw [List.filterMap_cons_some hc, List.foldl_cons, hat _ _ hc, modify_length_append, next]
      rfl

/-- Steps that treat every document by itself do so together, too. -/
theorem foldl_map_pointwise {docs : List α} {step : List β → γ → List β} {one : α → β → γ → β}
    (h : ∀ g x, step (docs.map g) x = docs.map fun d => one d (g d) x) (l : List γ) (g : α → β) :
    l.foldl step (docs.map g) = docs.map fun d => l.foldl (one d) (g d) := by
  induction l generalizing g with
  | nil => rfl
  | cons x r ih => rw [List.foldl_cons, h, ih]; rfl

end

/-! ### Fields -/

namespace FieldIndex

theorem termsOf_eq (f : Field) (d : Document) : termsOf f d = ⟨Scan.terms f d, Scan.prefixes f d⟩ := by
  unfold termsOf Scan.prefixes Scan.terms
  cases d.value? f <;> rfl

variable (f : Field) (docs : List Document)

theorem ofDocuments_terms : (ofDocuments f docs).terms = .ofTerms (docs.map (Scan.terms f)) := by
  simp only [ofDocuments, List.map_map, Function.comp_def, termsOf_eq]

theorem ofDocuments_prefixes : (ofDocuments f docs).prefixes = .ofTerms (docs.map (Scan.prefixes f)) := by
  simp only [ofDocuments, List.map_map, Function.comp_def, termsOf_eq]

theorem ofDocuments_lengths : (ofDocuments f docs).lengths = docs.map fun d => (Scan.terms f d).length := by
  simp only [ofDocuments, List.map_map, Function.comp_def, termsOf_eq]

theorem meanLength_ofDocuments : (ofDocuments f docs).meanLength = Scan.meanLength docs f := by
  unfold meanLength Scan.meanLength
  rw [ofDocuments_lengths, List.length_map, List.sum_eq_foldl]

end FieldIndex

/-! ### The index -/

namespace Index

variable (docs : List Document) (p : Profile)

/-- The number of postings of a term is the number of documents that have it. -/
theorem length_of_ofTerms (words : Document → List String) (term : String) :
    (Postings.of (.ofTerms (docs.map words)) term).length = docs.countP fun d => term ∈ words d := by
  rw [Postings.of_ofTerms, List.length_filterMap_eq_countP]
  have h (d : List String × Nat) : (Postings.posting? term d).isSome = decide (term ∈ d.1) := by
    unfold Postings.posting?
    split <;> simp [*]
  simp only [h]
  have : (docs.map words).zipIdx.countP (fun d => decide (term ∈ d.1)) =
      ((docs.map words).zipIdx.map (·.1)).countP fun w => decide (term ∈ w) := by
    rw [List.countP_map]; rfl
  rw [this, List.zipIdx_map_fst, List.countP_map]
  rfl

theorem isEmpty_of_ofTerms (words : Document → List String) (term : String) :
    (Postings.of (.ofTerms (docs.map words)) term).isEmpty = !docs.any fun d => term ∈ words d := by
  rw [Bool.eq_iff_iff, List.isEmpty_iff_length_eq_zero, length_of_ofTerms, List.countP_eq_zero]
  simp

/-- What a posting adds to the score of its document is what the scan adds to it. -/
theorem elim_posting (f : Field) (words : Document → List String) (term : String) (weight : Float32) (t : Tally)
    {d : Document × Nat} (hd : d ∈ docs.zipIdx) :
    ((Postings.posting? term ∘ Prod.map words id) d).elim t (fun c => t.add f
        (p.termScore docs.length (docs.countP fun e => term ∈ words e) c.count
          ((FieldIndex.ofDocuments f docs).lengths.getD c.document 0) (Scan.meanLength docs f) * p.boost f *
            weight)) =
      Scan.addWords p docs f words term weight d.1 t := by
  have hlength : (FieldIndex.ofDocuments f docs).lengths.getD d.2 0 = (Scan.terms f d.1).length := by
    rw [FieldIndex.ofDocuments_lengths, List.getD_eq_getElem?_getD, List.getElem?_map,
      List.mem_zipIdx_iff_getElem?.mp hd]
    rfl
  unfold Scan.addWords Postings.posting?
  rw [← hlength]
  by_cases hmem : term ∈ words d.1 <;> simp [hmem]

/-- Adding a posting list to the scores of all documents adds to each what the scan of it adds. -/
theorem addPostings_map (f : Field) (words : Document → List String) (term : String) (weight : Float32)
    (g : Document → Tally) :
    (ofDocuments docs p).addPostings (.ofDocuments f docs) weight
        (Postings.of (.ofTerms (docs.map words)) term) (docs.map g) =
      docs.map fun d => Scan.addWords p docs f words term weight d (g d) := by
  unfold addPostings
  rw [length_of_ofTerms, FieldIndex.meanLength_ofDocuments, Postings.of_ofTerms, List.zipIdx_map,
    List.filterMap_map]
  have hnumber (d : Document × Nat) (c : Posting) (h : (Postings.posting? term ∘ Prod.map words id) d = some c) :
      c.document = d.2 := by
    unfold Function.comp Postings.posting? at h
    split at h
    · exact (Option.some.inj h) ▸ rfl
    · cases h
  have hadd := foldl_modify_zipIdx (fun (c : Posting) t => t.add f
    (p.termScore docs.length (docs.countP fun e => term ∈ words e) c.count
      ((FieldIndex.ofDocuments f docs).lengths.getD c.document 0) (Scan.meanLength docs f) * p.boost f * weight))
    g hnumber [] docs
  refine hadd.trans ?_
  have hscan := List.map_congr_left fun d hd => elim_posting docs p f words term weight (g d.1) hd
  calc _ = (docs.zipIdx.map (·.1)).map fun d => Scan.addWords p docs f words term weight d (g d) := by
        rw [List.map_map]; exact hscan
    _ = _ := by rw [List.zipIdx_map_fst]

theorem addField_map (term : String) (weight : Float32) (direct : Bool) (g : Document → Tally) (f : Field) :
    ((ofDocuments docs p).postingsOf term weight direct (.ofDocuments f docs)).foldl
        (fun tallies l => (ofDocuments docs p).addPostings (.ofDocuments f docs) l.2 l.1 tallies) (docs.map g) =
      docs.map fun d => Scan.addField p docs term weight direct d (g d) f := by
  unfold postingsOf Scan.addField
  rw [FieldIndex.ofDocuments_terms, FieldIndex.ofDocuments_prefixes, List.foldl_cons, addPostings_map]
  cases direct with
  | true =>
    rw [if_pos rfl, List.foldl_cons, addPostings_map]
    rfl
  | false => rfl

theorem addTerm_map (term : String) (weight : Float32) (direct : Bool) (g : Document → Tally) :
    (ofDocuments docs p).addTerm term weight direct (docs.map g) =
      docs.map fun d => Scan.addTerm p docs term weight direct d (g d) := by
  have hfields : (ofDocuments docs p).fields = Field.all.map fun f => FieldIndex.ofDocuments f docs := rfl
  unfold addTerm
  rw [hfields, List.foldl_map]
  exact foldl_map_pointwise (addField_map docs p term weight direct) Field.all g

theorem isKnown_ofDocuments (term : String) : (ofDocuments docs p).isKnown term = Scan.isKnown docs term := by
  have hfields : (ofDocuments docs p).fields = Field.all.map fun f => FieldIndex.ofDocuments f docs := rfl
  unfold isKnown Scan.isKnown
  rw [hfields, List.any_map]
  simp only [Function.comp_def, FieldIndex.ofDocuments_terms, FieldIndex.ofDocuments_prefixes, isEmpty_of_ofTerms,
    Bool.not_not]
  rw [Bool.eq_iff_iff]
  simp only [List.any_eq_true, Bool.or_eq_true, decide_eq_true_eq]
  grind

theorem vocabulary_ofDocuments : (ofDocuments docs p).vocabulary = Scan.vocabulary docs := by
  have hfields : (ofDocuments docs p).vocabulary = (KeySet.ofList
    ((Field.all.map fun f => FieldIndex.ofDocuments f docs).flatMap fun x => x.terms.keys)).toList := rfl
  unfold Scan.vocabulary
  rw [hfields]
  congr 1
  refine KeySet.ext fun k => Bool.eq_iff_iff.mpr ?_
  rw [KeySet.contains_ofList, KeySet.contains_ofList]
  simp only [List.flatMap_map, List.mem_flatMap, FieldIndex.ofDocuments_terms, Postings.mem_keys_ofTerms, List.mem_map]
  grind

theorem addQueryTerm_map (g : Document → Tally) (term : String) :
    (ofDocuments docs p).addQueryTerm (docs.map g) term =
      docs.map fun d => Scan.addQueryTerm p docs d (g d) term := by
  unfold addQueryTerm Scan.addQueryTerm
  rw [isKnown_ofDocuments]
  split
  · exact addTerm_map docs p term 1 true g
  · have hstand : (ofDocuments docs p).standIns term = Scan.standIns p docs term := by
      unfold standIns Scan.standIns
      rw [vocabulary_ofDocuments]
      rfl
    rw [hstand]
    exact foldl_map_pointwise (fun g s => addTerm_map docs p s.term (p.leniency.weight * s.similarity) false g) _ g

/-- The scores and best fields that the index comes to are those of the scan. -/
theorem tallies_eq_scan (query : String) :
    (ofDocuments docs p).tallies query = docs.map (Scan.tally p docs query) := by
  have hscored : (queryTerms query).foldl (ofDocuments docs p).addQueryTerm (docs.map fun _ => Tally.none) =
      docs.map fun d => (queryTerms query).foldl (Scan.addQueryTerm p docs d) .none :=
    foldl_map_pointwise (addQueryTerm_map docs p) (queryTerms query) fun _ => .none
  have hdocuments : (ofDocuments docs p).documents = docs := rfl
  unfold tallies
  rw [hdocuments, hscored, List.zipWith_map_right, List.zipWith_self]
  rfl

/-- A query that has terms is answered by ranking the documents by the scores and best fields of the scan. -/
theorem search_ofDocuments (query : String) :
    (ofDocuments docs p).tallies query = docs.map (Scan.tally p docs query) ∧
      ∀ order, (ofDocuments docs p).search query order =
        if (queryTerms query).isEmpty then .error .emptyQuery
        else .ok ((ofDocuments docs p).rank (docs.map (Scan.tally p docs query)) order) := by
  refine ⟨tallies_eq_scan docs p query, fun order => ?_⟩
  unfold search
  rw [tallies_eq_scan]

end Index

end Workboard.Search
