import Workboard.Proofs.Scan

/-! Words that are typed in part.

A query for the first characters of a word begins with these in lower case, and so does the word's term; so they are among
the beginnings by which the word's text is found, from three characters up to seven, if the word goes on (`typed_in_part`).
That is not so of every text: a capital sigma is lowered by what comes after it, so this is about ASCII texts. -/

namespace Workboard

theorem Text.splitAt_eq (p : Char → Bool) (l : List Char) : splitAt p l = l.splitOnP p := by
  induction l with
  | nil => rfl
  | cons c r ih =>
    rw [splitAt, ih, List.splitOnP_cons_eq_if_modifyHead]
    split
    · rfl
    · cases h : r.splitOnP p with
      | nil => exact absurd h (List.splitOnP_ne_nil p r)
      | cons first rest => rfl

/-- Lower case goes character by character in ASCII texts. -/
theorem Text.lowerChars_ascii (before : List Char) {l : List Char} (hl : ∀ c ∈ l, c.toNat < 128) :
    lowerChars before l = l.map Char.toLower := by
  induction l generalizing before with
  | nil => rfl
  | cons c r ih =>
    obtain ⟨hc, hr⟩ := List.forall_mem_cons.mp hl
    have hsigma : c ≠ 'Σ' := by
      rintro rfl
      exact absurd hc (by decide)
    rw [lowerChars, if_neg hsigma, lowerChar, if_pos hc, ih _ hr]
    rfl

namespace Search

/-! ### Words -/

/-- A stretch of a text without separators that goes on neither to the left nor to the right. -/
def IsWord (text word : List Char) : Prop :=
  (∀ c ∈ word, isSeparator c = false) ∧ ∃ before after, text = before ++ word ++ after ∧
    (∀ c ∈ before.getLast?, isSeparator c = true) ∧ ∀ c ∈ after.head?, isSeparator c = true

section
variable {text word : List Char} {s term : String}

theorem mem_rawWords (h : IsWord text word) (hne : word ≠ []) : word ∈ rawWords text := by
  obtain ⟨hword, before, after, rfl, hbefore, hafter⟩ := h
  -- The separator behind the word ends its piece, and the one before it begins the piece.
  have hrest : word ∈ (word ++ after).splitOnP isSeparator := by
    cases after with
    | nil =>
      rw [List.append_nil, List.splitOnP_eq_singleton hword]
      exact List.mem_singleton_self word
    | cons c r =>
      rw [List.splitOnP_append_cons_of_forall_mem hword c (hafter c rfl)]
      exact List.mem_cons_self
  refine List.mem_filter.mpr ⟨?_, by simpa using hne⟩
  rw [Text.splitAt_eq, List.append_assoc]
  rcases List.eq_nil_or_concat before with rfl | ⟨r, c, rfl⟩
  · exact hrest
  · rw [List.concat_eq_append, List.append_assoc, List.singleton_append, List.splitOnP_append_cons r _ (hbefore c (by simp))]
    exact List.mem_append_right _ hrest

theorem rawWords_self (hword : ∀ c ∈ word, isSeparator c = false) (hne : word ≠ []) : rawWords word = [word] := by
  rw [rawWords, Text.splitAt_eq, List.splitOnP_eq_singleton hword]
  simpa using hne

/-- The first term of a word is the word in lower case. -/
theorem exists_wordTerms (hascii : ∀ c ∈ word, c.toNat < 128) :
    ∃ parts, wordTerms word = .ofList (word.map Char.toLower) :: parts := by
  rw [← Text.lowerChars_ascii [] hascii]
  unfold wordTerms
  split <;> exact ⟨_, rfl⟩

theorem mem_terms (hascii : ∀ c ∈ s.toList, c.toNat < 128) (h : IsWord s.toList word) (hne : word ≠ []) :
    .ofList (word.map Char.toLower) ∈ terms s := by
  have hmem : ∀ c ∈ word, c ∈ s.toList := by
    obtain ⟨-, before, after, heq, -⟩ := h
    intro c hc
    rw [heq]
    exact List.mem_append_left _ (List.mem_append_right _ hc)
  obtain ⟨parts, hparts⟩ := exists_wordTerms fun c hc => hascii c (hmem c hc)
  refine List.mem_flatMap.mpr ⟨word, mem_rawWords h hne, ?_⟩
  rw [hparts]
  exact List.mem_cons_self

theorem exists_queryTerms (hascii : ∀ c ∈ word, c.toNat < 128) (hword : ∀ c ∈ word, isSeparator c = false)
    (hne : word ≠ []) : ∃ others, queryTerms (.ofList word) = .ofList (word.map Char.toLower) :: others := by
  obtain ⟨parts, hparts⟩ := exists_wordTerms hascii
  rw [queryTerms, terms, String.toList_ofList, rawWords_self hword hne, List.flatMap_singleton, hparts, List.eraseDups_cons]
  exact ⟨_, rfl⟩

/-! ### Beginnings -/

/-- A term of at least five characters is found by its first three to seven characters, but not by all of it. -/
theorem mem_termPrefixes : s ∈ termPrefixes term ↔
    5 ≤ term.length ∧ ∃ n, 3 ≤ n ∧ n ≤ min 7 (term.length - 1) ∧ s = .ofList (term.toList.take n) := by
  have hrange (n : ℕ) : n ∈ List.range' shortestPrefix (min longestPrefix (term.length - 1) + 1 - shortestPrefix) ↔
      3 ≤ n ∧ n ≤ min 7 (term.length - 1) := by
    rw [List.mem_range'_1, shortestPrefix, longestPrefix]
    omega
  rw [termPrefixes, String.length_toList]
  split
  · rename_i hshort
    exact iff_of_false List.not_mem_nil fun h => absurd h.1 (not_le.mpr hshort)
  · rename_i hlong
    simp only [List.mem_map, hrange, and_assoc, eq_comm (b := s)]
    exact (and_iff_right (not_lt.mp hlong)).symm

theorem mem_prefixes : term ∈ (FieldTerms.ofText s).prefixes ↔ ∃ whole ∈ terms s, term ∈ termPrefixes whole :=
  List.mem_flatMap

end

/-! ### Scored documents -/

theorem Tally.isSome_best_add (t : Tally) (f : Field) (score : Float32) : (t.add f score).best.isSome = true := by
  rw [add]
  split
  · rfl
  · rename_i h
    cases hbest : t.best with
    | none => simp [hbest] at h
    | some b => rfl

/-- Steps that keep a score keep it together, and one that always gives a score is enough. -/
theorem isSome_foldl {α : Type} {step : Tally → α → Tally} {l : List α} {t : Tally}
    (hkeep : ∀ t a, t.best.isSome = true → (step t a).best.isSome = true)
    (h : t.best.isSome = true ∨ ∃ a ∈ l, ∀ t, (step t a).best.isSome = true) : (l.foldl step t).best.isSome = true := by
  induction l generalizing t with
  | nil =>
    rcases h with h | ⟨a, ha, -⟩
    · exact h
    · cases ha
  | cons a r ih =>
    refine ih ?_
    rcases h with h | ⟨b, hb, hgives⟩
    · exact .inl (hkeep t a h)
    · rcases List.mem_cons.mp hb with rfl | hb
      · exact .inl (hgives t)
      · exact .inr ⟨b, hb, hgives⟩

namespace Scan

variable {p : Profile} {docs : List Document} {d : Document} {t : Tally} {term query : String} {weight : Float32}
  {direct : Bool} {f : Field}

theorem isSome_addWords {words : Document → List String} (h : t.best.isSome = true ∨ term ∈ words d) :
    (addWords p docs f words term weight d t).best.isSome = true := by
  rw [addWords]
  split
  · exact t.isSome_best_add _ _
  · rename_i hword
    exact h.resolve_right hword

theorem isSome_addField (h : t.best.isSome = true ∨ direct = true ∧ term ∈ prefixes f d) :
    (addField p docs term weight direct d t f).best.isSome = true := by
  rw [addField]
  rcases h with h | ⟨hdirect, hbegins⟩
  · split
    · exact isSome_addWords (.inl (isSome_addWords (.inl h)))
    · exact isSome_addWords (.inl h)
  · rw [if_pos hdirect]
    exact isSome_addWords (.inr hbegins)

theorem isSome_addTerm (h : t.best.isSome = true ∨ direct = true ∧ ∃ f, term ∈ prefixes f d) :
    (addTerm p docs term weight direct d t).best.isSome = true := by
  refine isSome_foldl (fun _ _ ht => isSome_addField (.inl ht)) ?_
  rcases h with h | ⟨hdirect, f, hbegins⟩
  · exact .inl h
  · exact .inr ⟨f, f.mem_all, fun _ => isSome_addField (.inr ⟨hdirect, hbegins⟩)⟩

theorem isSome_addQueryTerm (h : t.best.isSome = true ∨ d ∈ docs ∧ term ∈ prefixes f d) :
    (addQueryTerm p docs d t term).best.isSome = true := by
  rw [addQueryTerm]
  split
  · exact isSome_addTerm (h.imp_right fun h => ⟨rfl, f, h.2⟩)
  · rename_i hunknown
    rcases h with h | ⟨hd, hbegins⟩
    · exact isSome_foldl (fun _ _ ht => isSome_addTerm (.inl ht)) (.inl h)
    · refine absurd (List.any_eq_true.mpr ⟨d, hd, List.any_eq_true.mpr ⟨f, f.mem_all, ?_⟩⟩) hunknown
      simp [hbegins]

/-- A document has a score if a term of the query is a beginning of one of its terms. -/
theorem isSome_tally (hd : d ∈ docs) (hterm : term ∈ queryTerms query) (hbegins : term ∈ prefixes f d) :
    (tally p docs query d).best.isSome = true := by
  have hscored : ((queryTerms query).foldl (addQueryTerm p docs d) .none).best.isSome = true :=
    isSome_foldl (fun _ _ ht => isSome_addQueryTerm (f := f) (.inl ht))
      (.inr ⟨term, hterm, fun _ => isSome_addQueryTerm (.inr ⟨hd, hbegins⟩)⟩)
  rw [tally]
  split
  · exact Tally.isSome_best_add _ _ _
  · exact hscored

end Scan

/-- A query gives a score, be it zero, to the document of a number. -/
def Index.Scores (x : Index) (query : String) (n : ℕ) : Prop :=
  ∃ t, (x.tallies query)[n]? = some t ∧ t.best.isSome = true

/-- The posting list of a beginning names each document that has it, and a query with the beginning scores the document. -/
theorem Index.scores_of_beginning {docs : List Document} {d : Document} {n : ℕ} {f : Field} {term query : String}
    (hd : docs[n]? = some d) (hbegins : term ∈ Scan.prefixes f d) (hterm : term ∈ queryTerms query) (p : Profile) :
    (∃ count, ⟨n, count⟩ ∈ (FieldIndex.ofDocuments f docs).prefixes.of term) ∧ (ofDocuments docs p).Scores query n := by
  constructor
  · have hwords : (docs.map (Scan.prefixes f))[n]? = some (Scan.prefixes f d) := by rw [List.getElem?_map, hd]; rfl
    refine ⟨(Scan.prefixes f d).count term, ?_⟩
    rw [FieldIndex.ofDocuments_prefixes, Postings.of_ofTerms, List.mem_filterMap]
    exact ⟨(Scan.prefixes f d, n), List.mem_zipIdx_iff_getElem?.mpr hwords, if_pos hbegins⟩
  · refine ⟨Scan.tally p docs query d, ?_, Scan.isSome_tally (List.mem_of_getElem? hd) hterm hbegins⟩
    rw [tallies_eq_scan, List.getElem?_map, hd]
    rfl

/-- The first three to seven characters of a longer word of a text, as they are typed, ask first for a term by which the
    text is found; so documents with the text are scored. All that a text is found by in this way are the first three to
    seven characters of a longer term. -/
theorem typed_in_part {text : String} (hascii : ∀ c ∈ text.toList, c.toNat < 128) :
    (∀ word, IsWord text.toList word → 5 ≤ word.length → ∀ k, 3 ≤ k → k ≤ min 7 (word.length - 1) →
      ∃ term others, queryTerms (.ofList (word.take k)) = term :: others ∧ term ∈ (FieldTerms.ofText text).prefixes ∧
        ∀ docs n d f profile, docs[n]? = some d → d.value? f = some text →
          (∃ count, ⟨n, count⟩ ∈ (FieldIndex.ofDocuments f docs).prefixes.of term) ∧
            (Index.ofDocuments docs profile).Scores (.ofList (word.take k)) n) ∧
    ∀ s ∈ (FieldTerms.ofText text).prefixes, ∃ term ∈ (FieldTerms.ofText text).terms, ∃ n,
      3 ≤ n ∧ n ≤ 7 ∧ n < term.length ∧ s = .ofList (term.toList.take n) := by
  constructor
  · intro word hword hlong k hleast hmost
    have hne : word ≠ [] := List.ne_nil_of_length_pos (by omega)
    have htyped : ∀ c ∈ word.take k, isSeparator c = false := fun c hc => hword.1 c (List.mem_of_mem_take hc)
    have htake : word.take k ≠ [] := List.ne_nil_of_length_pos (by rw [List.length_take]; omega)
    have hchars : ∀ c ∈ word, c.toNat < 128 := by
      obtain ⟨-, before, after, heq, -⟩ := hword
      intro c hc
      exact hascii c (by simp [heq, hc])
    obtain ⟨others, hquery⟩ := exists_queryTerms (fun c hc => hchars c (List.mem_of_mem_take hc)) htyped htake
    have hbegins : .ofList ((word.take k).map Char.toLower) ∈ (FieldTerms.ofText text).prefixes := by
      refine mem_prefixes.mpr ⟨_, mem_terms hascii hword hne, mem_termPrefixes.mpr ?_⟩
      rw [String.length_ofList, String.toList_ofList, List.length_map]
      exact ⟨hlong, k, hleast, hmost, by rw [List.map_take]⟩
    refine ⟨_, others, hquery, hbegins, fun docs n d f profile hd hvalue => ?_⟩
    refine Index.scores_of_beginning hd ?_ (by rw [hquery]; exact List.mem_cons_self) profile
    rw [Scan.prefixes, Scan.terms, hvalue]
    exact hbegins
  · intro s hs
    obtain ⟨term, hterm, hs⟩ := mem_prefixes.mp hs
    obtain ⟨hlong, n, hleast, hmost, rfl⟩ := mem_termPrefixes.mp hs
    exact ⟨term, hterm, n, hleast, by omega, by omega, rfl⟩

/-- A word in camel case, typed up to its second capital. -/
theorem typed_in_part_fetchData : queryTerms "fetchD" = ["fetchd", "fetch", "d"] ∧
    "fetchd" ∈ (FieldTerms.ofText "Load.fetchData").prefixes ∧
    ∀ docs n d profile, docs[n]? = some d → d.name = "Load.fetchData" →
      (Index.ofDocuments docs profile).Scores "fetchD" n := by
  have hquery : queryTerms "fetchD" = ["fetchd", "fetch", "d"] := by decide +kernel
  have hascii : "Load.fetchData".toList.all (·.toNat < 128) = true := by decide +kernel
  have hplain : "fetchData".toList.all (!isSeparator ·) = true := by decide +kernel
  have hbefore : ∀ c ∈ "Load.".toList.getLast?, isSeparator c = true := by
    intro c hc
    obtain rfl : '.' = c := Option.some.inj hc
    decide
  have hword : IsWord "Load.fetchData".toList "fetchData".toList :=
    ⟨by simpa only [List.all_eq_true, Bool.not_eq_true'] using hplain, "Load.".toList, [], rfl, hbefore, by simp⟩
  obtain ⟨term, others, hterms, hbegins, hscores⟩ :=
    (typed_in_part (by simpa only [List.all_eq_true, decide_eq_true_eq] using hascii)).1 _ hword (by decide +kernel) 6
      (by decide) (by decide +kernel)
  obtain rfl : "fetchd" = term := (List.cons.inj (hquery.symm.trans hterms)).1
  exact ⟨hquery, hbegins, fun docs n d profile hd hname =>
    (hscores docs n d .name profile hd (congrArg some hname)).2⟩

end Search

end Workboard
