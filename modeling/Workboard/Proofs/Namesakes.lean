import Workboard.Proofs.Corpus
import Workboard.Proofs.MapOrders

/-! Which documents of a board count as one.

A search shows one result for every key (`Document.entity`). The key has the id of a node, layer, comment or variable, but the
name of a pin; so on a board whose comments have other ids than its nodes, two documents have one key exactly if they are
about two pins of a node that share a name, or about the values of such pins (`Subject.Namesakes`, `entity_eq_iff`). Of
namesakes a search shows one at most, and nothing else is left out for another thing's sake (`search_tells_apart`). -/

namespace Workboard

open Search Subject

namespace Search.Subject

def pinName : Subject → Option String
  | pin _ p | value _ p _ => some p.name
  | node _ | remark .. | layer _ | comment _ | entry _ => none

theorem entity_document (b : Board) (orders : Board.Orders) (s : Subject) :
    (s.document b orders).entity = ⟨s.kind, s.id, s.pinName⟩ := by
  cases s <;> rfl

/-- Two pins of one node that share a name, or their values. -/
inductive Namesakes : Subject → Subject → Prop
  | pin {n : Node} {p q : Pin} (hid : p.id ≠ q.id) (hname : p.name = q.name) : Namesakes (.pin n p) (.pin n q)
  | value {n : Node} {p q : Pin} {text text' : String} (hid : p.id ≠ q.id) (hname : p.name = q.name) :
    Namesakes (.value n p text) (.value n q text')

theorem Namesakes.documentId_ne {s t : Subject} (h : Namesakes s t) : s.documentId ≠ t.documentId := by
  cases h with
  | pin hid | value hid => simpa [documentId, toString] using hid

end Search.Subject

namespace Board

variable {b : Board} {orders : Orders} {s t : Subject}

/-- The pins of a node that are searched have different names. -/
def PinsNamedApart (b : Board) (orders : Orders) : Prop := ∀ n ∈ b.nodesIn orders, ∀ p ∈ n.pins.values, ∀ q ∈ n.pins.values,
  p.isExecution = false → q.isExecution = false → p.name = q.name → p.id = q.id

/-- No comment of the board has the id of a node. -/
def CommentsApart (b : Board) (orders : Orders) : Prop := ∀ n ∈ b.nodesIn orders, ∀ c ∈ b.comments.values, c.id ≠ n.id

/-! ### Keys -/

theorem has_layer_iff {l : Layer} : b.Has orders (.layer l) ↔ l ∈ b.layers.values := by
  rw [KeyMap.mem_values]
  constructor
  · intro h
    cases h with
    | layer hl => exact ⟨_, hl⟩
  · rintro ⟨k, hl⟩
    exact .layer hl

theorem has_comment_iff {c : Comment} : b.Has orders (.comment c) ↔ c ∈ b.comments.values := by
  rw [KeyMap.mem_values]
  constructor
  · intro h
    cases h with
    | comment hc => exact ⟨_, hc⟩
  · rintro ⟨k, hc⟩
    exact .comment hc

theorem has_entry_iff {v : Variable} : b.Has orders (.entry v) ↔ v ∈ b.vars.values := by
  rw [KeyMap.mem_values]
  constructor
  · intro h
    cases h with
    | entry hv => exact ⟨_, hv⟩
  · rintro ⟨k, hv⟩
    exact .entry hv

/-- Things of nodes with one id are of one node. -/
theorem Has.owner_eq {m n : Node} (hs : b.Has orders s) (ht : b.Has orders t) (hm : s.owner = some m) (hn : t.owner = some n)
    (hid : s.id = t.id) : m = n := by
  rw [id_of_owner hm, id_of_owner hn] at hid
  exact List.inj_on_of_nodup_map Node.nodup_map_id_distinct (hs.owner_mem hm) (ht.owner_mem hn) hid

theorem Has.pin_eq (hb : b.EntriesKeyed orders) {n : Node} {p q : Pin} (hp : b.Has orders (.pin n p))
    (hq : b.Has orders (.pin n q)) (hid : p.id = q.id) : p = q := by
  obtain ⟨hn, hp, -⟩ := has_pin_iff.mp hp
  obtain ⟨-, hq, -⟩ := has_pin_iff.mp hq
  exact (hb.pins n hn).eq_of_id hp hq hid

theorem eq_or_namesakes (hb : b.EntriesKeyed orders) (hcomments : b.CommentsApart orders) (hs : b.Has orders s)
    (ht : b.Has orders t) (hkind : s.kind = t.kind) (hid : s.id = t.id) (hname : s.pinName = t.pinName) :
    s = t ∨ Namesakes s t := by
  cases s with
  | node m =>
    cases t with
    | node n => exact .inl (congrArg _ (hs.owner_eq ht rfl rfl hid))
    | _ => cases hkind
  | remark m text =>
    cases t with
    | remark n text' =>
      obtain rfl := hs.owner_eq ht rfl rfl hid
      cases hs with
      | remark _ htext =>
        cases ht with
        | remark _ htext' => exact .inl (congrArg _ (Option.some.inj (htext.symm.trans htext')))
    -- The key of a remark is that of a comment with the id of its node.
    | comment c => exact absurd hid.symm (hcomments m (hs.owner_mem rfl) c (has_comment_iff.mp ht))
    | _ => cases hkind
  | pin m p =>
    cases t with
    | pin n q =>
      obtain rfl := hs.owner_eq ht rfl rfl hid
      by_cases hpin : p.id = q.id
      · exact .inl (congrArg _ (hs.pin_eq hb ht hpin))
      · exact .inr (.pin hpin (Option.some.inj hname))
    | _ => cases hkind
  | value m p text =>
    cases t with
    | value n q text' =>
      obtain rfl := hs.owner_eq ht rfl rfl hid
      obtain ⟨hp, hshown, -⟩ := has_value_iff.mp hs
      obtain ⟨hq, hshown', -⟩ := has_value_iff.mp ht
      by_cases hpin : p.id = q.id
      · obtain rfl := hp.pin_eq hb hq hpin
        exact .inl (congrArg _ (Option.some.inj (hshown.symm.trans hshown')))
      · exact .inr (.value hpin (Option.some.inj hname))
    | _ => cases hkind
  | layer l =>
    cases t with
    | layer m => exact .inl (congrArg _ (hb.layers.eq_of_id (has_layer_iff.mp hs) (has_layer_iff.mp ht) hid))
    | _ => cases hkind
  | comment c =>
    cases t with
    | comment d => exact .inl (congrArg _ (hb.comments.eq_of_id (has_comment_iff.mp hs) (has_comment_iff.mp ht) hid))
    | remark n text => exact absurd hid (hcomments n (ht.owner_mem rfl) c (has_comment_iff.mp hs))
    | _ => cases hkind
  | entry v =>
    cases t with
    | entry w => exact .inl (congrArg _ (hb.vars.eq_of_id (has_entry_iff.mp hs) (has_entry_iff.mp ht) hid))
    | _ => cases hkind

/-- Only namesakes have one key. -/
theorem entity_eq_iff (hb : b.EntriesKeyed orders) (hcomments : b.CommentsApart orders) (hs : b.Has orders s)
    (ht : b.Has orders t) :
    (s.document b orders).entity = (t.document b orders).entity ↔ s = t ∨ Namesakes s t := by
  rw [entity_document, entity_document, EntityKey.mk.injEq]
  constructor
  · rintro ⟨hkind, hid, hname⟩
    exact eq_or_namesakes hb hcomments hs ht hkind hid hname
  · rintro (rfl | h)
    · exact ⟨rfl, rfl, rfl⟩
    · cases h with
      | pin _ hname | value _ hname => exact ⟨rfl, rfl, congrArg some hname⟩

theorem pinsNamedApart_iff : b.PinsNamedApart orders ↔ ∀ s t, b.Has orders s → b.Has orders t → ¬ Namesakes s t := by
  constructor
  · intro hnames s t hs ht h
    have hpins {n : Node} {p q : Pin} (hp : b.Has orders (.pin n p)) (hq : b.Has orders (.pin n q)) (hname : p.name = q.name) :
        p.id = q.id := by
      obtain ⟨hn, hp, hdata⟩ := has_pin_iff.mp hp
      obtain ⟨-, hq, hdata'⟩ := has_pin_iff.mp hq
      exact hnames n hn p hp q hq hdata hdata' hname
    cases h with
    | pin hid hname => exact hid (hpins hs ht hname)
    | value hid hname => exact hid (hpins (has_value_iff.mp hs).1 (has_value_iff.mp ht).1 hname)
  · intro h n hn p hp q hq hdata hdata' hname
    by_contra hid
    exact h _ _ (has_pin_iff.mpr ⟨hn, hp, hdata⟩) (has_pin_iff.mpr ⟨hn, hq, hdata'⟩) (.pin hid hname)

theorem nodup_subjects (hb : b.EntriesKeyed orders) : (b.subjects orders).Nodup := (pairwise_subjects hb).imp And.right

/-- The documents of a board have different keys if and only if no two pins that are searched share their node and name. -/
theorem nodup_entities_iff (hb : b.EntriesKeyed orders) (hcomments : b.CommentsApart orders) :
    ((b.documents orders).map Document.entity).Nodup ↔ b.PinsNamedApart orders := by
  rw [← map_subjects hb, List.map_map, List.nodup_map_iff_inj_on (nodup_subjects hb), pinsNamedApart_iff]
  simp only [mem_subjects, Function.comp_apply]
  constructor
  · intro hinj s t hs ht h
    obtain rfl := hinj s hs t ht ((entity_eq_iff hb hcomments hs ht).mpr (.inr h))
    exact h.documentId_ne rfl
  · intro h s hs t ht heq
    exact ((entity_eq_iff hb hcomments hs ht).mp heq).resolve_right (h s t hs ht)

/-! ### Results -/

/-- What a search finds out about a thing: its document, and the score that a scan gives it. -/
def hitOf (b : Board) (orders : Board.Orders) (p : Profile) (query : String) (s : Subject) : Hit :=
  .ofTally (s.document b orders) (Scan.tally p (b.documents orders) query (s.document b orders))

variable {p : Profile} {query : String} {order : List ℕ} {results : List Hit}

theorem entity_hitOf (b : Board) (orders : Board.Orders) (p : Profile) (query : String) (s : Subject) :
    (b.hitOf orders p query s).document.entity = (s.document b orders).entity := rfl

/-- The index finds out the same about everything that is searched. -/
theorem hits_ofBoard (hb : b.EntriesKeyed orders) (p : Profile) (query : String) :
    (Index.ofBoard b p orders).hits query = (b.subjects orders).map (b.hitOf orders p query) := by
  let hit (d : Document) : Hit := .ofTally d (Scan.tally p (b.documents orders) query d)
  calc (Index.ofBoard b p orders).hits query = (b.documents orders).map hit := Index.hits_ofDocuments _ p query
    _ = ((b.subjects orders).map (Subject.document b orders)).map hit := by rw [map_subjects hb]
    _ = (b.subjects orders).map (b.hitOf orders p query) := List.map_map

theorem ranks_of_search (hb : b.EntriesKeyed orders) (h : (Index.ofBoard b p orders).search query order = .ok results) :
    Ranks p.limit ((b.subjects orders).map (b.hitOf orders p query)) results := by
  rw [Index.search] at h
  split at h
  · cases h
  · rw [← hits_ofBoard hb, ← Except.ok.inj h]
    exact (Index.ofBoard b p orders).ranks_rank _ order

/-- Of two namesakes a search shows one at most. -/
theorem not_both_shown (hb : b.EntriesKeyed orders) (hcomments : b.CommentsApart orders) (hs : b.Has orders s)
    (ht : b.Has orders t) (h : Namesakes s t)
    (hsearch : (Index.ofBoard b p orders).search query order = .ok results) :
    ¬ (b.hitOf orders p query s ∈ results ∧ b.hitOf orders p query t ∈ results) := by
  rintro ⟨hshown, hshown'⟩
  have hentity := (entity_eq_iff hb hcomments hs ht).mpr (.inr h)
  have heq := List.inj_on_of_nodup_map (ranks_of_search hb hsearch).distinct hshown hshown' hentity
  have hid : (s.document b orders).id = (t.document b orders).id := congrArg (fun h : Hit => h.document.id) heq
  rw [(describes_document b s).id, (describes_document b t).id] at hid
  exact h.documentId_ne hid

/-- What has a score is shown, unless the results are full of better ones or a better namesake is shown. -/
theorem shown_or_displaced (hb : b.EntriesKeyed orders) (hcomments : b.CommentsApart orders) (ht : b.Has orders t)
    (hscore : 0 < (b.hitOf orders p query t).score) (hsearch : (Index.ofBoard b p orders).search query order = .ok results) :
    b.hitOf orders p query t ∈ results ∨ (results.length = p.limit ∧ ∀ r ∈ results, r.Ahead (b.hitOf orders p query t)) ∨
      ∃ s, b.Has orders s ∧ Namesakes s t ∧ b.hitOf orders p query s ∈ results ∧
        (b.hitOf orders p query s).Ahead (b.hitOf orders p query t) := by
  have hranks := ranks_of_search hb hsearch
  rcases hranks.complete _ (List.mem_map_of_mem (mem_subjects.mpr ht)) hscore with ⟨r, hr, hentity, hahead⟩ | hfull
  · obtain ⟨s, hs, rfl⟩ := List.mem_map.mp (hranks.mem r hr)
    have hs := mem_subjects.mp hs
    rw [entity_hitOf, entity_hitOf, entity_eq_iff hb hcomments hs ht] at hentity
    rcases hentity with rfl | hsakes
    · exact .inl hr
    · exact .inr (.inr ⟨s, hs, hsakes, hr, hahead⟩)
  · exact .inr (.inl hfull)

/-- Two things have one key exactly if they are pins of one node that share a name, or the values of such pins; so the
    documents of a board have keys of their own exactly if no two pins that are searched share their node and name. Then a
    search shows all that has a score, up to its limit. Else it shows one at most of the pins with one name, and what it
    leaves out below the limit has a namesake that is ahead. -/
theorem search_tells_apart (hb : b.EntriesKeyed orders) (hcomments : b.CommentsApart orders) :
    (∀ s t, b.Has orders s → b.Has orders t →
      ((s.document b orders).entity = (t.document b orders).entity ↔ s = t ∨ Namesakes s t)) ∧
    (((b.documents orders).map Document.entity).Nodup ↔ b.PinsNamedApart orders) ∧
    ∀ p query order results, (Index.ofBoard b p orders).search query order = .ok results →
      (b.PinsNamedApart orders → ∀ t, b.Has orders t → 0 < (b.hitOf orders p query t).score →
        b.hitOf orders p query t ∈ results ∨ results.length = p.limit ∧ ∀ r ∈ results, r.Ahead (b.hitOf orders p query t)) ∧
      (∀ s t, b.Has orders s → b.Has orders t → Namesakes s t →
        ¬ (b.hitOf orders p query s ∈ results ∧ b.hitOf orders p query t ∈ results)) ∧
      ∀ t, b.Has orders t → 0 < (b.hitOf orders p query t).score → b.hitOf orders p query t ∈ results ∨
        (results.length = p.limit ∧ ∀ r ∈ results, r.Ahead (b.hitOf orders p query t)) ∨
        ∃ s, b.Has orders s ∧ Namesakes s t ∧ b.hitOf orders p query s ∈ results ∧
          (b.hitOf orders p query s).Ahead (b.hitOf orders p query t) := by
  refine ⟨fun s t hs ht => entity_eq_iff hb hcomments hs ht, nodup_entities_iff hb hcomments,
    fun p query order results hsearch => ⟨fun hnames t ht hscore => ?_, ?_, ?_⟩⟩
  · rcases shown_or_displaced hb hcomments ht hscore hsearch with hshown | hfull | ⟨s, hs, hsakes, -⟩
    · exact .inl hshown
    · exact .inr hfull
    · exact absurd hsakes (pinsNamedApart_iff.mp hnames s t hs ht)
  · exact fun s t hs ht h => not_both_shown hb hcomments hs ht h hsearch
  · exact fun t ht hscore => shown_or_displaced hb hcomments ht hscore hsearch

/-- A pin of a node that hands on what it gets. -/
def valuePin (id : String) (direction : Direction) : Pin :=
  ⟨id, "value", "Value", "", direction, .string, .single, none, ∅, ∅⟩

def relayNode : Node :=
  ⟨"n", "relay", "Relay", "", "", none, .ofList [("in", valuePin "in" .input), ("out", valuePin "out" .output)], .origin, none⟩

def relayBoard : Board := { Board.blank "b" "board" with nodes := .ofList [("n", relayNode)] }

theorem relayBoard_entriesKeyed (orders : Orders) : relayBoard.EntriesKeyed orders where
  pins n hn := by
    have hpins : ∀ n ∈ relayBoard.nodeCopies, n.pins.Keyed Pin.id := by decide +kernel
    exact hpins n (mem_nodeCopies_of_mem_nodesIn hn)
  layers := by decide +kernel
  comments := by decide +kernel
  vars := by decide +kernel

theorem relayNode_mem (orders : Orders) : relayNode ∈ relayBoard.nodesIn orders := by
  have hcopies : relayBoard.nodeCopies = [relayNode] := by rfl
  exact mem_nodesIn (by rw [hcopies]; exact List.mem_singleton_self _) fun n hn _ => List.mem_singleton.mp (hcopies ▸ hn)

theorem relayBoard_has {k : String} {p : Pin} (hp : relayNode.pins.get? k = some p) (hdata : p.dataType ≠ .execution)
    (orders : Orders) : relayBoard.Has orders (.pin relayNode p) :=
  .pin (relayNode_mem orders) hp hdata

/-- No id of the board occurs twice, and still two documents have one key: those of the two pins. -/
theorem one_key_relay : relayBoard.Keyed ∧ relayBoard.usedIds.Nodup ∧ ∀ orders, relayBoard.EntriesKeyed orders ∧
    ∃ d ∈ relayBoard.documents orders, ∃ d' ∈ relayBoard.documents orders,
      d.id = "n:in" ∧ d'.id = "n:out" ∧ d ≠ d' ∧ d.entity = d'.entity := by
  refine ⟨by decide +kernel, by decide +kernel, fun orders => ?_⟩
  have hkeyed := relayBoard_entriesKeyed orders
  have hdocument {k : String} {p : Pin} (hp : relayNode.pins.get? k = some p) (hdata : p.dataType ≠ .execution) :
      (Subject.pin relayNode p).document relayBoard orders ∈ relayBoard.documents orders := by
    rw [← map_subjects hkeyed]
    exact List.mem_map_of_mem (mem_subjects.mpr (relayBoard_has hp hdata orders))
  refine ⟨hkeyed, _, hdocument (k := "in") (p := valuePin "in" .input) rfl (by decide), _,
    hdocument (k := "out") (p := valuePin "out" .output) rfl (by decide), rfl, rfl, fun heq => ?_, rfl⟩
  have hid : "n:in" = "n:out" := congrArg Document.id heq
  exact absurd hid (by decide)

/-- The two pins have one name, so no search shows both. -/
theorem search_tells_apart_relay : (∀ orders, relayBoard.EntriesKeyed orders ∧ relayBoard.CommentsApart orders) ∧
    ∀ orders, ¬ ((relayBoard.documents orders).map Document.entity).Nodup ∧
      ∀ p query order results, (Index.ofBoard relayBoard p orders).search query order = .ok results →
        ¬ (relayBoard.hitOf orders p query (.pin relayNode (valuePin "in" .input)) ∈ results ∧
          relayBoard.hitOf orders p query (.pin relayNode (valuePin "out" .output)) ∈ results) := by
  have hkeyed := relayBoard_entriesKeyed
  have hcomments (orders : Orders) : relayBoard.CommentsApart orders := fun n _ c hc => absurd hc List.not_mem_nil
  refine ⟨fun orders => ⟨hkeyed orders, hcomments orders⟩, fun orders => ?_⟩
  have hin := relayBoard_has (k := "in") (p := valuePin "in" .input) rfl (by decide) orders
  have hout := relayBoard_has (k := "out") (p := valuePin "out" .output) rfl (by decide) orders
  have hsakes : Namesakes (.pin relayNode (valuePin "in" .input)) (.pin relayNode (valuePin "out" .output)) :=
    .pin (by decide) rfl
  obtain ⟨-, hkeys, hsearch⟩ := search_tells_apart (hkeyed orders) (hcomments orders)
  refine ⟨fun hnodup => ?_, fun p query order results h => ?_⟩
  · exact pinsNamedApart_iff.mp (hkeys.mp hnodup) _ _ hin hout hsakes
  · exact (hsearch p query order results h).2.1 _ _ hin hout hsakes

end Board

end Workboard
