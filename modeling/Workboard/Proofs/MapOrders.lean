import Workboard.Proofs.Documents
import Workboard.Proofs.HandedOut
import Workboard.Proofs.PartialWords
import Workboard.Proofs.Ranking

/-! What the orders of a board's maps make of its documents.

Where the things on a board have ids of their own (`Board.Unambiguous`), as where everything is stored under its id
(`Orderly.unambiguous`), the documents stand in the same order whatever the orders of the maps are, and only the document of a
layer may name the nodes of the layer in another order (`Unambiguous.documents_alike`). Documents that differ in this only
(`Document.Alike`) have the same words, so a search gives them the same scores (`Scan.tally_congr`) and answers with results
that differ only where they show the text itself (`Index.search_alike`, `Unambiguous.search_alike`). -/

namespace Workboard

namespace Search

/-! ### Words of joined texts -/

section
variable {l r : List Char} {c : Char}

theorem rawWords_append_cons (l : List Char) (hc : isSeparator c = true) (r : List Char) :
    rawWords (l ++ c :: r) = rawWords l ++ rawWords r := by
  rw [rawWords, rawWords, rawWords, Text.splitAt_eq, Text.splitAt_eq, Text.splitAt_eq, List.splitOnP_append_cons l r hc,
    List.filter_append]

theorem isSeparator_of_isBlank (hc : Text.isBlank c = true) : isSeparator c = true := by
  rw [isSeparator, hc, Bool.true_or]

/-- Outer white space is in no word. -/
theorem rawWords_trimChars (l : List Char) : rawWords (Text.trimChars l) = rawWords l := by
  have hstart (l : List Char) : rawWords (l.dropWhile Text.isBlank) = rawWords l := by
    induction l with
    | nil => rfl
    | cons c r ih =>
      rw [List.dropWhile_cons]
      split
      · rename_i hc
        exact ih.trans (rawWords_append_cons [] (isSeparator_of_isBlank hc) r).symm
      · rfl
  have hend (l : List Char) : rawWords (Text.trimEndChars l) = rawWords l := by
    induction l using List.reverseRecOn with
    | nil => rfl
    | append_singleton l c ih =>
      rw [Text.trimEndChars, List.reverse_append, List.reverse_singleton, List.singleton_append, List.dropWhile_cons]
      split
      · rename_i hc
        rw [rawWords_append_cons l (isSeparator_of_isBlank hc) []]
        exact ih.trans (List.append_nil _).symm
      · rw [List.reverse_cons, List.reverse_reverse]
  rw [Text.trimChars, hend, hstart]

end

theorem terms_trim (s : String) : terms (Text.trim s) = terms s := by
  rw [terms, Text.trim, String.toList_ofList, rawWords_trimChars, terms]

theorem terms_intercalate (parts : List String) : terms (" ".intercalate parts) = parts.flatMap terms := by
  have hwords (l : List (List Char)) : rawWords (List.intercalate [' '] l) = l.flatMap rawWords := by
    induction l with
    | nil => rfl
    | cons w r ih =>
      cases r with
      | nil => simp
      | cons v r =>
        rw [List.intercalate_cons_cons, List.append_assoc, List.singleton_append,
          rawWords_append_cons w (isSeparator_of_isBlank (by decide)), ih, ← List.flatMap_cons]
  rw [terms, String.toList_intercalate, show " ".toList = [' '] from rfl, hwords, List.flatMap_map, List.flatMap_assoc]
  rfl

/-- The words of joined texts are those of the texts. -/
theorem terms_joined (parts : List String) : terms (joined parts) = parts.flatMap terms := by
  have hempty : terms "" = [] := rfl
  rw [joined, terms_intercalate]
  induction parts with
  | nil => rfl
  | cons s r ih =>
    rw [List.map_cons, List.filter_cons, List.flatMap_cons, ← terms_trim s]
    split
    · rw [List.flatMap_cons, ih]
    · rename_i hs
      rw [show Text.trim s = "" by simpa using hs, hempty, List.nil_append, ih]

/-! ### Documents -/

/-- Documents that differ at most in the order in which the text of a layer names the nodes of the layer. -/
inductive Document.Alike : Document → Document → Prop
  | refl (d : Document) : Alike d d
  | named {d : Document} (hkind : d.kind = .layer) (parts : List String) {names names' : List String}
    (hnames : names.Perm names') :
    Alike { d with searchText := joined (parts ++ [" ".intercalate names]) }
      { d with searchText := joined (parts ++ [" ".intercalate names']) }

section
variable {d d' : Document} {docs docs' : List Document}

theorem Document.Alike.terms_perm (h : d.Alike d') (f : Field) : (Scan.terms f d).Perm (Scan.terms f d') := by
  cases h with
  | refl => exact .refl _
  | named hkind parts hnames =>
    cases f with
    | searchText =>
      simp only [Scan.terms, Document.value?, Option.map_some, Option.getD_some, terms_joined, List.flatMap_append,
        List.flatMap_singleton, terms_intercalate]
      exact (hnames.flatMap_right terms).append_left _
    | _ => exact .refl _

theorem Document.Alike.prefixes_perm (h : d.Alike d') (f : Field) : (Scan.prefixes f d).Perm (Scan.prefixes f d') :=
  (h.terms_perm f).flatMap_right _

theorem Document.Alike.isNamed_eq (h : d.Alike d') (query : String) : d.isNamed query = d'.isNamed query := by
  cases h <;> rfl

theorem Document.Alike.entity_eq (h : d.Alike d') : d.entity = d'.entity := by
  cases h <;> rfl

theorem Document.Alike.id_eq (h : d.Alike d') : d.id = d'.id := by
  cases h <;> rfl

/-- What is the same of alike documents is the same of lists of them. -/
theorem map_alike {α : Type} {g : Document → α} (hg : ∀ d d', d.Alike d' → g d = g d')
    (h : List.Forall₂ Document.Alike docs docs') : docs.map g = docs'.map g := by
  rw [← List.forall₂_eq_eq_eq, List.forall₂_map_left_iff, List.forall₂_map_right_iff]
  exact h.imp hg

end

/-! ### Scores -/

namespace Scan

variable {p : Profile} {docs docs' : List Document} {d d' : Document} {f : Field} {words : Document → List String}
  (hdocs : List.Forall₂ Document.Alike docs docs')
include hdocs

theorem any_congr {P : Document → Bool} (hP : ∀ d d', d.Alike d' → P d = P d') : docs.any P = docs'.any P := by
  have hany (docs : List Document) : docs.any P = (docs.map P).any id := by rw [List.any_map]; rfl
  rw [hany, hany, map_alike hP hdocs]

theorem meanLength_congr (f : Field) : meanLength docs f = meanLength docs' f := by
  rw [meanLength, meanLength, map_alike (fun d d' h => (h.terms_perm f).length_eq) hdocs, hdocs.length_eq]

theorem isKnown_congr (term : String) : isKnown docs term = isKnown docs' term := by
  refine any_congr hdocs fun d d' h => ?_
  simp only [(h.terms_perm _).mem_iff, (h.prefixes_perm _).mem_iff]

theorem vocabulary_congr : vocabulary docs = vocabulary docs' := by
  unfold vocabulary
  congr 1
  refine KeySet.ext fun k => Bool.eq_iff_iff.mpr ?_
  rw [KeySet.contains_ofList, KeySet.contains_ofList]
  have hany := any_congr hdocs (P := fun d => Field.all.any fun f => k ∈ terms f d) fun d d' h => by
    simp only [(h.terms_perm _).mem_iff]
  rw [Bool.eq_iff_iff] at hany
  simpa [List.any_eq_true] using hany

theorem addWords_congr (hwords : ∀ d d', d.Alike d' → (words d).Perm (words d')) (h : d.Alike d') (term : String)
    (weight : Float32) (t : Tally) :
    addWords p docs f words term weight d t = addWords p docs' f words term weight d' t := by
  have hcount (docs : List Document) :
      docs.countP (fun e => term ∈ words e) = (docs.map fun e => decide (term ∈ words e)).count true := by
    rw [List.count, List.countP_map]
    simp [Function.comp_def]
  have hhave : (docs.map fun e => decide (term ∈ words e)) = docs'.map fun e => decide (term ∈ words e) :=
    map_alike (fun d d' h => by simp only [(hwords d d' h).mem_iff]) hdocs
  simp only [addWords, (hwords d d' h).mem_iff, (hwords d d' h).count_eq, (h.terms_perm f).length_eq, hdocs.length_eq,
    meanLength_congr hdocs f, hcount, hhave]

theorem addTerm_congr (h : d.Alike d') (term : String) (weight : Float32) (direct : Bool) (t : Tally) :
    addTerm p docs term weight direct d t = addTerm p docs' term weight direct d' t := by
  have hfield : addField p docs term weight direct d = addField p docs' term weight direct d' := by
    funext t f
    simp only [addField, addWords_congr hdocs (fun _ _ h => h.terms_perm f) h,
      addWords_congr hdocs (fun _ _ h => h.prefixes_perm f) h]
  rw [addTerm, addTerm, hfield]

/-- Alike documents have the same score among alike documents. -/
theorem tally_congr (h : d.Alike d') (query : String) : tally p docs query d = tally p docs' query d' := by
  have hterm : addQueryTerm p docs d = addQueryTerm p docs' d' := by
    funext t term
    have hstand : standIns p docs term = standIns p docs' term := by
      rw [standIns, standIns, vocabulary_congr hdocs]
    simp only [addQueryTerm, isKnown_congr hdocs, hstand, addTerm_congr hdocs h]
  rw [tally, tally, hterm, h.isNamed_eq]

end Scan

/-! ### Results -/

/-- Results of one score for alike documents. -/
inductive Hit.Alike : Hit → Hit → Prop
  | ofTally {d d' : Document} (h : d.Alike d') (t : Tally) : Alike (.ofTally d t) (.ofTally d' t)

/-- Answers with alike results, or with the same error. -/
inductive AnswersAlike : Except SearchError (List Hit) → Except SearchError (List Hit) → Prop
  | results {results results' : List Hit} (h : List.Forall₂ Hit.Alike results results') :
    AnswersAlike (.ok results) (.ok results')
  | error (e : SearchError) : AnswersAlike (.error e) (.error e)

section
variable {a a' : Hit}

theorem Hit.Alike.sortKey_eq (h : a.Alike a') : a.sortKey = a'.sortKey := by
  cases h with
  | ofTally h t => exact congrArg (t.total, ·) h.id_eq

theorem Hit.Alike.entity_eq (h : a.Alike a') : a.document.entity = a'.document.entity := by
  cases h with
  | ofTally h => exact h.entity_eq

theorem Hit.Alike.isBefore_eq {b b' : Hit} (ha : a.Alike a') (hb : b.Alike b') : a.isBefore b = a'.isBefore b' := by
  have ha := Prod.mk.inj ha.sortKey_eq
  have hb := Prod.mk.inj hb.sortKey_eq
  simp only [isBefore, ha.1, ha.2, hb.1, hb.2]

end

section
variable {α : Type} {R : α → α → Prop} {l l' : List α}

theorem exists_pairs (h : List.Forall₂ R l l') :
    ∃ z : List (α × α), z.map Prod.fst = l ∧ z.map Prod.snd = l' ∧ ∀ e ∈ z, R e.1 e.2 :=
  ⟨l.zip l', List.map_fst_zip h.length_eq.le, List.map_snd_zip h.length_eq.ge, fun _ he => List.forall₂_zip h he⟩

theorem forall₂_rearranged (h : List.Forall₂ R l l') (order : List ℕ) :
    List.Forall₂ R (rearranged order l) (rearranged order l') := by
  obtain ⟨z, rfl, rfl, hz⟩ := exists_pairs h
  rw [rearranged_map, rearranged_map, List.forall₂_map_left_iff, List.forall₂_map_right_iff, List.forall₂_same]
  exact fun e he => hz e ((rearranged_perm order z).mem_iff.mp he)

/-- Sorting keeps members together in pairs that are compared alike. -/
theorem forall₂_mergeSort (before : α → α → Bool)
    (hbefore : ∀ a a' b b', R a a' → R b b' → before a b = before a' b') (h : List.Forall₂ R l l') :
    List.Forall₂ R (l.mergeSort before) (l'.mergeSort before) := by
  obtain ⟨z, rfl, rfl, hz⟩ := exists_pairs h
  rw [← List.map_mergeSort (r := fun e f => before e.1 f.1) fun _ _ _ _ => rfl,
    ← List.map_mergeSort (r := fun e f => before e.1 f.1) fun e he f hf => hbefore _ _ _ _ (hz e he) (hz f hf),
    List.forall₂_map_left_iff, List.forall₂_map_right_iff, List.forall₂_same]
  exact fun e he => hz e (List.mem_mergeSort.mp he)

end

/-- Alike answers have the same scores and ids. -/
theorem AnswersAlike.map_sortKey_eq {x y : Except SearchError (List Hit)} (h : AnswersAlike x y) :
    x.map (List.map Hit.sortKey) = y.map (List.map Hit.sortKey) := by
  cases h with
  | error => rfl
  | results h =>
    have hkeys := h.imp fun _ _ ha => ha.sortKey_eq
    rw [← List.forall₂_map_right_iff, ← List.forall₂_map_left_iff, List.forall₂_eq_eq_eq] at hkeys
    exact congrArg Except.ok hkeys

theorem Hit.forall₂_distinct {l l' : List Hit} (h : List.Forall₂ Hit.Alike l l') (seen : List EntityKey) :
    List.Forall₂ Hit.Alike (distinct seen l) (distinct seen l') := by
  induction h generalizing seen with
  | nil => exact .nil
  | cons ha _ ih =>
    rw [distinct, distinct, ha.entity_eq]
    split
    · exact ih seen
    · exact .cons ha (ih _)

namespace Index

variable {docs docs' : List Document}

/-- The hits of an index are those of a scan. -/
theorem hits_ofDocuments (docs : List Document) (p : Profile) (query : String) :
    (ofDocuments docs p).hits query = docs.map fun d => .ofTally d (Scan.tally p docs query d) := by
  have hdocuments : (ofDocuments docs p).documents = docs := rfl
  rw [hits, tallies_eq_scan, hdocuments, List.zipWith_map_right, List.zipWith_self]

/-- A search answers alike for alike documents. -/
theorem search_alike (h : List.Forall₂ Document.Alike docs docs') (p : Profile) (query : String) (order : List ℕ) :
    AnswersAlike ((ofDocuments docs p).search query order) ((ofDocuments docs' p).search query order) := by
  have hhits : List.Forall₂ Hit.Alike ((ofDocuments docs p).hits query) ((ofDocuments docs' p).hits query) := by
    rw [hits_ofDocuments, hits_ofDocuments, List.forall₂_map_left_iff, List.forall₂_map_right_iff]
    refine h.imp fun d d' hd => ?_
    rw [Scan.tally_congr h hd]
    exact .ofTally hd _
  have hscored := List.rel_filter (p := fun a : Hit => 0 < a.score) (q := fun a : Hit => 0 < a.score)
    (fun a a' ha => by simp only [(Prod.mk.inj ha.sortKey_eq).1]) (forall₂_rearranged hhits order)
  have hsorted := forall₂_mergeSort Hit.isBefore (fun a a' b b' ha hb => ha.isBefore_eq hb) hscored
  unfold search
  split
  · exact .error _
  · exact .results (List.forall₂_take _ (Hit.forall₂_distinct hsorted []))

/-- The order of the hits does not show in the scores and ids of the results, and not at all where all documents have ids of
    their own. -/
theorem search_order (x : Index) (query : String) (order order' : List ℕ) :
    (x.search query order).map (List.map Hit.sortKey) = (x.search query order').map (List.map Hit.sortKey) ∧
      ((x.documents.map (·.id)).Nodup → x.search query order = x.search query order') := by
  obtain ⟨hkeys, hids⟩ := x.rank_order (x.tallies query) order order'
  unfold search
  split
  · exact ⟨rfl, fun _ => rfl⟩
  · exact ⟨congrArg Except.ok hkeys, fun h => congrArg Except.ok (hids h)⟩

end Index

end Search

/-! ### Boards -/

open Search

/-- The things of a kind on a board have different ids, and so have the pins of a node; nodes with one id are the same. -/
structure Board.Unambiguous (b : Board) : Prop where
  nodes : ∀ m ∈ b.nodeCopies, ∀ n ∈ b.nodeCopies, m.id = n.id → m = n
  pins : ∀ n ∈ b.nodeCopies, (n.pins.values.map (·.id)).Nodup
  layers : (b.layers.values.map (·.id)).Nodup
  comments : (b.comments.values.map (·.id)).Nodup
  vars : (b.vars.values.map (·.id)).Nodup

namespace Board

variable {b : Board}

/-- Where everything is stored under its id, and the copies in layers are those at board level, nothing is ambiguous. -/
theorem Orderly.unambiguous (h : b.Orderly) : b.Unambiguous where
  nodes m hm n hn hid := by
    obtain ⟨shelf, k, hm⟩ := mem_nodeCopies.mp hm
    obtain ⟨shelf', k', hn⟩ := mem_nodeCopies.mp hn
    obtain rfl := keyed_iff.mp h.toKeyed shelf k m hm
    obtain rfl := keyed_iff.mp h.toKeyed shelf' k' n hn
    have hsame := h.top_of_copy? hm
    rw [hid, h.top_of_copy? hn] at hsame
    exact (Option.some.inj hsame).symm
  pins n hn := by
    obtain ⟨shelf, k, hn⟩ := mem_nodeCopies.mp hn
    exact (h.pins k n (h.top_of_copy? hn)).nodup_map_values
  layers := h.layers.nodup_map_values
  comments := h.comments.nodup_map_values
  vars := h.vars.nodup_map_values

namespace Unambiguous

variable (h : b.Unambiguous) (orders orders' : Orders)
include h

theorem perm_nodesIn : (b.nodesIn orders).Perm (b.nodesIn orders') := by
  have hmem (orders : Orders) (n : Node) : n ∈ b.nodesIn orders ↔ n ∈ b.nodeCopies :=
    ⟨mem_nodeCopies_of_mem_nodesIn, fun hn => mem_nodesIn hn fun m hm hid => h.nodes m hm n hn hid⟩
  have hnodup (orders : Orders) : (b.nodesIn orders).Nodup := Node.nodup_map_id_distinct.of_map
  rw [List.perm_ext_iff_of_nodup (hnodup orders) (hnodup orders')]
  exact fun n => (hmem orders n).trans (hmem orders' n).symm

theorem flatMap_nodesIn :
    (((b.nodesIn orders).mergeSort fun m n => m.id ≤ n.id).flatMap
        fun n => n.documents (orders.pins n.id) (b.pathOf n.layer)) =
      ((b.nodesIn orders').mergeSort fun m n => m.id ≤ n.id).flatMap
        fun n => n.documents (orders'.pins n.id) (b.pathOf n.layer) := by
  rw [mergeSort_eq_of_perm (h.perm_nodesIn orders orders') Node.nodup_map_id_distinct]
  refine List.flatMap_congr fun n hn => ?_
  have hpins (order order' : List String) : n.pinsByIdIn order = n.pinsByIdIn order' := by
    have hids := h.pins n (mem_nodeCopies_of_mem_nodesIn (List.mem_mergeSort.mp hn))
    refine mergeSort_eq_of_perm ((KeyMap.perm_valuesIn order _).trans (KeyMap.perm_valuesIn order' _).symm) ?_
    exact ((KeyMap.perm_valuesIn order n.pins).map (·.id)).nodup_iff.mpr hids
  rw [Node.documents, Node.documents, Node.document, Node.document, hpins (orders.pins n.id) (orders'.pins n.id)]

/-- The documents of a board are alike in all orders. -/
theorem documents_alike : List.Forall₂ Document.Alike (b.documents orders) (b.documents orders') := by
  have hsame {l l' : List Document} (heq : l = l') : List.Forall₂ Document.Alike l l' :=
    heq ▸ List.forall₂_same.mpr fun d _ => .refl d
  have hvalues {α : Type} (m : KeyMap α) (id : α → String) (hids : (m.values.map id).Nodup) (order order' : List String) :
      ((m.valuesIn order).mergeSort fun a c => id a ≤ id c) = (m.valuesIn order').mergeSort fun a c => id a ≤ id c :=
    mergeSort_eq_of_perm ((KeyMap.perm_valuesIn order m).trans (KeyMap.perm_valuesIn order' m).symm)
      (((KeyMap.perm_valuesIn order m).map id).nodup_iff.mpr hids)
  have hlayers : ((b.layers.entriesIn orders.layers).mergeSort fun e f => e.2.id ≤ f.2.id) =
      (b.layers.entriesIn orders'.layers).mergeSort fun e f => e.2.id ≤ f.2.id := by
    refine mergeSort_eq_of_perm ((KeyMap.perm_entriesIn _ _).trans (KeyMap.perm_entriesIn _ _).symm) ?_
    have hids : ((b.layers.entriesIn orders.layers).map fun e => e.2.id) = (b.layers.valuesIn orders.layers).map (·.id) := by
      rw [← KeyMap.map_snd_entriesIn, List.map_map]
      rfl
    rw [hids]
    exact ((KeyMap.perm_valuesIn _ b.layers).map (·.id)).nodup_iff.mpr h.layers
  rw [documents_eq, documents_eq, h.flatMap_nodesIn orders orders', hlayers,
    hvalues b.comments (·.id) h.comments orders.comments orders'.comments,
    hvalues b.vars (·.id) h.vars orders.vars orders'.vars]
  refine List.rel_append (List.rel_append (List.rel_append (hsame rfl) ?_) (hsame rfl)) (hsame rfl)
  rw [List.forall₂_map_left_iff, List.forall₂_map_right_iff, List.forall₂_same]
  exact fun e _ => .named (d := e.2.document (orders.members e.1) (b.pathOf e.2.parent)) rfl [e.2.name, e.2.comment.getD ""]
    (((KeyMap.perm_valuesIn _ _).trans (KeyMap.perm_valuesIn _ _).symm).map _)

/-- A search of a board is answered alike in all orders. The order in which the documents are met does not show in scores and
    ids, and not at all where all documents have ids of their own. -/
theorem search_alike (p : Profile) (query : String) (order order' : List ℕ) :
    ((Index.ofBoard b p orders).search query order).map (List.map Hit.sortKey) =
        ((Index.ofBoard b p orders').search query order').map (List.map Hit.sortKey) ∧
      (order = order' ∨ ((b.documents orders).map (·.id)).Nodup →
        AnswersAlike ((Index.ofBoard b p orders).search query order) ((Index.ofBoard b p orders').search query order')) := by
  have halike (order : List ℕ) := Index.search_alike (h.documents_alike orders orders') p query order
  obtain ⟨hkeys, hids⟩ := (Index.ofBoard b p orders).search_order query order order'
  refine ⟨hkeys.trans (halike order').map_sortKey_eq, ?_⟩
  rintro (rfl | hnodup)
  · exact halike order
  · rw [hids hnodup]
    exact halike order'

end Unambiguous

end Board

end Workboard
