import Mathlib
import Workboard.Apply.Placeholder
import Workboard.Proofs.Aliases
import Workboard.Proofs.Copies
import Workboard.Proofs.PinAnswers

/-! When a recorded table of pins answers as a new one.

Every table that a batch records is that of a value of the node: of the one registered under the alias, or of the
one on the board at the start (`Traced`). The node may have changed since. If it has a pin more, a new table is made;
else the recorded table answers, with the names as they were (`pin_registerAll`). -/

namespace Workboard

/-- The pins that both values of a node have are called the same. -/
def Node.NamedAlike (m n : Node) : Prop :=
  ∀ p ∈ m.pins.values, ∀ q ∈ n.pins.values, p.id = q.id → p.name = q.name ∧ p.friendlyName = q.friendlyName

theorem Node.mem_pinIds {n : Node} (hn : n.pins.Keyed Pin.id) {id : String} : id ∈ n.pinIds ↔ n.pins.contains id = true := by
  rw [KeyMap.contains_iff]
  constructor
  · rintro ⟨p, hp, rfl⟩
    obtain ⟨k, hk⟩ := KeyMap.mem_values.mp hp
    exact ⟨p, by rwa [hn k p hk]⟩
  · rintro ⟨p, hp⟩
    exact ⟨p, KeyMap.mem_values.mpr ⟨id, hp⟩, hn id p hp⟩

/-- What answers among fewer pins is what answers among more, if they are called the same. -/
theorem Node.answering_eq_inter {m n : Node} (h : m.NamedAlike n) (hids : n.pinIds ⊆ m.pinIds) (ref : String)
    (kind : MatchKind) : n.answering ref kind = m.answering ref kind ∩ n.pinIds := by
  have hcalled : ∀ p ∈ m.pins.values, ∀ q ∈ n.pins.values, p.id = q.id → p.called kind = q.called kind := by
    intro p hp q hq hid
    obtain ⟨hname, hfriendly⟩ := h p hp q hq hid
    cases kind <;> simp only [Pin.called, hid, hname, hfriendly]
  ext id
  constructor
  · rintro ⟨q, hq, hsought, rfl⟩
    obtain ⟨p, hp, hid⟩ := hids ⟨q, hq, rfl⟩
    exact ⟨⟨p, hp, (hcalled p hp q hq hid).trans hsought, hid⟩, q, hq, rfl⟩
  · rintro ⟨⟨p, hp, hsought, rfl⟩, q, hq, hid⟩
    exact ⟨q, hq, (hcalled p hp q hq hid.symm).symm.trans hsought, hid⟩

namespace PinTable

variable {m n : Node} {ref : String} {found : PinMatch}

/-- What is found among more pins is found among fewer, if it is one of them. -/
theorem find?_of_subset (h : m.NamedAlike n) (hids : n.pinIds ⊆ m.pinIds) (hfound : (ofNode m).find? ref = some found)
    (hmem : found.pin ∈ n.pinIds) : (ofNode n).find? ref = some found := by
  rw [find?_ofNode, List.findSome?_eq_some_iff] at hfound ⊢
  obtain ⟨before, kind, after, hsplit, hkind, hbefore⟩ := hfound
  refine ⟨before, kind, after, hsplit, ?_, fun stronger hs => ?_⟩
  · obtain ⟨id, hid, rfl⟩ := Option.map_eq_some_iff.mp hkind
    obtain ⟨hanswers, hleast⟩ := Node.answer?_eq_some_iff.mp hid
    have hfewer : IsLeast (n.answering ref kind) id := by
      rw [Node.answering_eq_inter h hids]
      exact ⟨⟨hanswers, hmem⟩, fun other hother => hleast hother.1⟩
    rw [Node.answer?_eq_some_iff.mpr hfewer]
    rfl
  · have hnone := Node.answer?_eq_none_iff.mp (Option.map_eq_none_iff.mp (hbefore stronger hs))
    rw [Option.map_eq_none_iff, Node.answer?_eq_none_iff, Node.answering_eq_inter h hids, hnone, Set.empty_inter]

/-- Where nothing is found among more pins nothing is found among fewer. -/
theorem find?_eq_none_of_subset (h : m.NamedAlike n) (hids : n.pinIds ⊆ m.pinIds) (hnone : (ofNode m).find? ref = none) :
    (ofNode n).find? ref = none := by
  rw [find?_ofNode, List.findSome?_eq_none_iff] at hnone ⊢
  intro kind hkind
  have hempty := Node.answer?_eq_none_iff.mp (Option.map_eq_none_iff.mp (hnone kind hkind))
  rw [Option.map_eq_none_iff, Node.answer?_eq_none_iff, Node.answering_eq_inter h hids, hempty, Set.empty_inter]

/-- Fewer pins, which are called the same, answer as more do, unless the answer of these is none of them. -/
theorem find?_congr (h : m.NamedAlike n) (hids : n.pinIds ⊆ m.pinIds)
    (hkept : ∀ p ∈ (ofNode m).find? ref, p.pin ∈ n.pinIds) : (ofNode m).find? ref = (ofNode n).find? ref := by
  cases hfound : (ofNode m).find? ref with
  | none => exact (find?_eq_none_of_subset h hids hfound).symm
  | some found => exact (find?_of_subset h hids hfound (hkept found hfound)).symm

theorem mem_pinIds_of_find? (hfound : (ofNode n).find? ref = some found) : found.pin ∈ n.pinIds := by
  rw [find?_ofNode, List.findSome?_eq_some_iff] at hfound
  obtain ⟨-, kind, -, -, hkind, -⟩ := hfound
  obtain ⟨id, hid, rfl⟩ := Option.map_eq_some_iff.mp hkind
  exact Node.answering_subset_pinIds n ref kind (Node.answer?_eq_some_iff.mp hid).1

end PinTable

/-- Of values under distinct keys each is found at its own. -/
theorem KeyMap.get?_foldl_insert {α β : Type} {key : α → String} (value : α → β) {l : List α} (hl : (l.map key).Nodup)
    (m : KeyMap β) (k : String) : (l.foldl (fun m a => m.insert (key a) (value a)) m).get? k =
      ((l.find? (key · = k)).map value).or (m.get? k) := by
  induction l generalizing m with
  | nil => rfl
  | cons a l ih =>
    obtain ⟨ha, hl⟩ := List.nodup_cons.mp hl
    rw [List.foldl_cons, ih hl, get?_insert]
    by_cases hk : key a = k
    · have hnone : l.find? (key · = k) = none := by
        refine List.find?_eq_none.mpr fun c hc hkey => ha ?_
        exact List.mem_map.mpr ⟨c, hc, (of_decide_eq_true hkey).trans hk.symm⟩
      rw [if_pos hk, hnone, List.find?_cons_of_pos (by simpa using hk)]
      rfl
    · rw [if_neg hk, List.find?_cons_of_neg (by simpa using hk)]

namespace References

variable {s : References} {b : Board} {n m : Node} {nodeRef pinRef : String}

/-- The node that was recorded under an alias, or at the start of the batch under its id. -/
def source? (s : References) (b : Board) (key : String) : Option Node :=
  match s.aliases.get? key with
  | some held => some held.node
  | none => b.allNodes.find? (·.id = key)

/-- The node whose pins are recorded for a reference or for a node's id. -/
def recordedNode? (s : References) (b : Board) (nodeRef : String) (n : Node) : Option Node :=
  (s.source? b (Text.trim nodeRef)).or (s.source? b n.id)

/-- Every recorded table is that of a node. -/
def Traced (s : References) (b : Board) : Prop := ∀ key, s.tables.get? key = (s.source? b key).map PinTable.ofNode

theorem traced_seed (b : Board) : (seed b).Traced b := by
  intro key
  have htables : (seed b).tables.get? key =
      ((b.allNodes.find? (·.id = key)).map PinTable.ofNode).or ((∅ : KeyMap PinTable).get? key) :=
    KeyMap.get?_foldl_insert PinTable.ofNode Node.nodup_map_id_distinct ∅ key
  have hnone : (∅ : KeyMap PinTable).get? key = none := rfl
  rw [htables, hnone, Option.or_none]
  rfl

theorem Traced.bind (h : s.Traced b) (name : String) (rank : AliasRank) (n : Node) :
    (s.bind name rank n (.ofNode n)).Traced b := by
  intro key
  unfold References.bind source?
  rw [KeyMap.get?_insert, KeyMap.get?_insert]
  by_cases hkey : name = key
  · rw [if_pos hkey, if_pos hkey]
    rfl
  · rw [if_neg hkey, if_neg hkey]
    exact h key

theorem Traced.grantAll (h : s.Traced b) (n : Node) (requests : List (String × AliasRank)) (granted : List String) :
    (References.grantAll n (.ofNode n) s granted requests).1.Traced b := by
  induction requests generalizing s granted with
  | nil => exact h
  | cons request r ih =>
    unfold References.grantAll
    split
    · exact ih (h.bind request.1 request.2 n) _
    · exact ih h granted

theorem Traced.registerAll (h : s.Traced b) (regs : List Registration) : (s.registerAll regs).1.Traced b := by
  induction regs using List.reverseRecOn with
  | nil => exact h
  | append_singleton regs r ih =>
    rw [registerAll_concat]
    exact ih.grantAll r.node _ _

theorem Traced.recorded? (h : s.Traced b) (nodeRef : String) (n : Node) :
    s.recorded? nodeRef n = (s.recordedNode? b nodeRef n).map PinTable.ofNode := by
  unfold References.recorded? recordedNode?
  rw [h, h]
  cases s.source? b (Text.trim nodeRef) <;> rfl

/-- What is recorded for a reference that means a node is a value of this node. -/
theorem id_of_recordedNode? (hid : (s.id? nodeRef).getD (Text.trim nodeRef) = n.id)
    (hm : s.recordedNode? b nodeRef n = some m) : m.id = n.id := by
  unfold id? at hid
  unfold recordedNode? at hm
  cases hheld : s.aliases.get? (Text.trim nodeRef) with
  | some held =>
    rw [source?, hheld] at hm
    obtain rfl := Option.some.inj hm
    rwa [hheld] at hid
  | none =>
    rw [hheld] at hid
    have href : Text.trim nodeRef = n.id := hid
    rw [href] at hheld hm
    rw [source?, hheld, Option.or_self] at hm
    have hfind : b.allNodes.find? (·.id = n.id) = some m := hm
    simpa using List.find?_some hfind

/-- The table that is asked: the recorded one if it knows every pin, else a new one. -/
theorem Traced.table (h : s.Traced b) (hn : n.pins.Keyed Pin.id) (nodeRef : String) :
    ∃ used, s.table nodeRef n = .ofNode used ∧
      (s.recordedNode? b nodeRef n = some used ∧ n.pinIds ⊆ used.pinIds ∨
        used = n ∧ ∀ m, s.recordedNode? b nodeRef n = some m → ¬ n.pinIds ⊆ m.pinIds) := by
  have hknows : ∀ m : Node, n.pins.keys.all (PinTable.ofNode m).ids.contains = true ↔ n.pinIds ⊆ m.pinIds := by
    intro m
    simp only [List.all_eq_true, KeyMap.mem_keys, PinTable.contains_ids_ofNode, ← Node.mem_pinIds hn]
    rfl
  unfold References.table
  rw [h.recorded?]
  cases hm : s.recordedNode? b nodeRef n with
  | none => exact ⟨n, rfl, Or.inr ⟨rfl, fun m hm => by cases hm⟩⟩
  | some m =>
    rw [Option.map_some, Option.filter_some]
    by_cases hsub : n.pinIds ⊆ m.pinIds
    · rw [if_pos ((hknows m).mpr hsub)]
      exact ⟨m, rfl, Or.inl ⟨rfl, hsub⟩⟩
    · rw [if_neg (mt (hknows m).mp hsub)]
      refine ⟨n, rfl, Or.inr ⟨rfl, ?_⟩⟩
      rintro _ ⟨⟩
      exact hsub

theorem toOption_pin (s : References) (nodeRef : String) (n : Node) (pinRef : String) :
    (s.pin nodeRef n pinRef).toOption =
      ((s.table nodeRef n).resolve? pinRef).filter fun found => n.pins.contains found.pin := by
  unfold pin
  dsimp only
  cases ((s.table nodeRef n).resolve? pinRef).filter fun found => n.pins.contains found.pin <;> rfl

/-- What a table finds counts if the node has it. -/
theorem filter_resolve? {m n : Node} (hn : n.pins.Keyed Pin.id)
    (hkept : ∀ p ∈ (PinTable.ofNode m).resolve? pinRef, p.pin ∈ n.pinIds) :
    ((PinTable.ofNode m).resolve? pinRef).filter (fun found => n.pins.contains found.pin) =
      (PinTable.ofNode m).resolve? pinRef := by
  cases hfound : (PinTable.ofNode m).resolve? pinRef with
  | none => rfl
  | some found => rw [Option.filter_some, if_pos ((Node.mem_pinIds hn).mp (hkept found hfound))]

/-- If all pins of a node were recorded for it, the recorded table answers, unless the answer is a pin that is gone. -/
theorem Traced.toOption_pin (h : s.Traced b) (hn : n.pins.Keyed Pin.id) (hm : s.recordedNode? b nodeRef n = some m)
    (hids : n.pinIds ⊆ m.pinIds) (hkept : ∀ p ∈ (PinTable.ofNode m).resolve? pinRef, p.pin ∈ n.pinIds) :
    (s.pin nodeRef n pinRef).toOption = (PinTable.ofNode m).resolve? pinRef := by
  obtain ⟨used, htable, ⟨hsome, -⟩ | ⟨-, hnew⟩⟩ := h.table hn nodeRef
  · obtain rfl : m = used := Option.some.inj (hm.symm.trans hsome)
    rw [References.toOption_pin, htable, filter_resolve? hn hkept]
  · exact absurd hids (hnew m hm)

/-- How a pin of a node is found after the registrations of a batch, when the node may have changed since its pins
    were recorded. What is found is always one of its pins, and a pin is found by its id. If nothing is recorded for the
    node, or it has a pin that was not there, the answer is that of a new table. If it has the same pins, the answer is
    that of the recorded table; and so it is if it has lost some, unless the answer is one of these. As long as pins keep
    their names, nothing is found but what a new table finds, and all that it finds unless the recorded one answers with
    a pin that is gone. -/
theorem pin_registerAll (b : Board) (regs : List Registration) (nodeRef pinRef : String) {n : Node}
    (hn : n.pins.Keyed Pin.id) :
    let s := ((seed b).registerAll regs).1
    let found := (s.pin nodeRef n pinRef).toOption
    let fresh := (PinTable.ofNode n).resolve? pinRef
    (∀ p ∈ found, p.pin ∈ n.pinIds) ∧ (Text.trim pinRef ∈ n.pinIds → found = some ⟨Text.trim pinRef, .id⟩) ∧
    (s.recordedNode? b nodeRef n = none → found = fresh) ∧
    ∀ m, s.recordedNode? b nodeRef n = some m →
      let recorded := (PinTable.ofNode m).resolve? pinRef
      ((s.id? nodeRef).getD (Text.trim nodeRef) = n.id → m.id = n.id) ∧
      (¬ n.pinIds ⊆ m.pinIds → found = fresh) ∧
      (n.pinIds = m.pinIds → found = recorded) ∧
      (n.pinIds ⊆ m.pinIds → (∀ p ∈ recorded, p.pin ∈ n.pinIds) → found = recorded) ∧
      (m.NamedAlike n → (∀ p ∈ found, fresh = some p) ∧ (n.pinIds = m.pinIds → found = fresh) ∧
        ((∀ p ∈ recorded, p.pin ∈ n.pinIds) → found = fresh)) := by
  intro s found fresh
  have htraced : s.Traced b := (traced_seed b).registerAll regs
  -- The answer is that of one table, the recorded one or a new one; it counts if the node has the pin.
  obtain ⟨used, htable, hused⟩ := htraced.table hn nodeRef
  have hfound : found = ((PinTable.ofNode used).resolve? pinRef).filter fun p => n.pins.contains p.pin :=
    htable ▸ s.toOption_pin nodeRef n pinRef
  have hmem : ∀ p ∈ found, (PinTable.ofNode used).resolve? pinRef = some p ∧ p.pin ∈ n.pinIds := by
    intro p hp
    rw [hfound] at hp
    obtain ⟨hp, hcontains⟩ := Option.mem_filter_iff.mp hp
    exact ⟨hp, (Node.mem_pinIds hn).mpr hcontains⟩
  have hsub : n.pinIds ⊆ used.pinIds := by
    rcases hused with ⟨-, hsub⟩ | ⟨rfl, -⟩
    · exact hsub
    · exact subset_rfl
  have hown : ∀ p ∈ fresh, p.pin ∈ n.pinIds := fun p hp => PinTable.mem_pinIds_of_find? hp
  refine ⟨fun p hp => (hmem p hp).2, fun hid => ?_, fun hnone => ?_, fun m hm => ?_⟩
  · have hanswer : (PinTable.ofNode used).resolve? pinRef = some ⟨Text.trim pinRef, .id⟩ := PinTable.find?_id (hsub hid)
    rw [hfound, hanswer, Option.filter_some, if_pos ((Node.mem_pinIds hn).mp hid)]
  · rcases hused with ⟨hsome, -⟩ | ⟨rfl, -⟩
    · rw [hnone] at hsome
      cases hsome
    · exact hfound.trans (filter_resolve? hn hown)
  intro recorded
  refine ⟨fun hid => id_of_recordedNode? hid hm, ?_⟩
  rcases hused with ⟨hsome, -⟩ | ⟨rfl, hnew⟩
  · obtain rfl : m = used := Option.some.inj (hm.symm.trans hsome)
    have hrecorded : (∀ p ∈ recorded, p.pin ∈ n.pinIds) → found = recorded := htraced.toOption_pin hn hm hsub
    have hsame (hids : n.pinIds = m.pinIds) : ∀ p ∈ recorded, p.pin ∈ n.pinIds := fun p hp =>
      hids ▸ PinTable.mem_pinIds_of_find? hp
    refine ⟨fun hnew => absurd hsub hnew, fun hids => hrecorded (hsame hids), fun _ => hrecorded, fun hnamed => ?_⟩
    have hfresh (hkept : ∀ p ∈ recorded, p.pin ∈ n.pinIds) : found = fresh :=
      (hrecorded hkept).trans (PinTable.find?_congr hnamed hsub hkept)
    refine ⟨fun p hp => ?_, fun hids => hfresh (hsame hids), hfresh⟩
    exact PinTable.find?_of_subset hnamed hsub (hmem p hp).1 (hmem p hp).2
  · have hfresh : found = fresh := hfound.trans (filter_resolve? hn hown)
    refine ⟨fun _ => hfresh, fun hids => absurd hids.subset (hnew m hm), fun hids => absurd hids (hnew m hm), fun _ => ?_⟩
    exact ⟨fun p hp => hfresh ▸ hp, fun _ => hfresh, fun _ => hfresh⟩

/-- A node with one pin. -/
def logger (pin name : String) : Node :=
  let p : Pin := { Placeholder.plainPin name name "" .input .string .single with id := pin }
  ⟨"n", "log", "Log", "", "", none, .ofList [(pin, p)], .origin, none⟩

theorem keyed_logger (pin name : String) : (logger pin name).pins.Keyed Pin.id :=
  KeyMap.Keyed.ofList [{ Placeholder.plainPin name name "" .input .string .single with id := pin }]

theorem pinIds_logger (pin name : String) : (logger pin name).pinIds = {pin} := by
  ext id
  show (∃ p ∈ (logger pin name).pins.values, p.id = id) ↔ id = pin
  constructor
  · rintro ⟨p, hp, rfl⟩
    obtain rfl := List.mem_singleton.mp hp
    rfl
  · rintro rfl
    exact ⟨_, List.mem_singleton_self _, rfl⟩

/-- A board with the node. -/
def shop : Board := { Board.blank "b" "board" with nodes := .ofList [("n", logger "p" "old")] }

/-- A pin of another id takes the place of the one that was registered. -/
theorem replaced_pin_found :
    let s := ((seed shop).registerAll [⟨logger "p" "value", some "ref", 0⟩]).1
    (logger "q" "value").pins.Keyed Pin.id ∧ (s.recordedNode? shop " ref " (logger "q" "value")).isSome ∧
      (s.pin " ref " (logger "q" "value") "value").toOption = (PinTable.ofNode (logger "q" "value")).resolve? "value" := by
  intro s
  have hrecorded : s.recordedNode? shop " ref " (logger "q" "value") = some (logger "p" "value") := by
    have htrim : Text.trim " ref " = "ref" := rfl
    rw [recordedNode?, htrim]
    rfl
  obtain ⟨-, -, -, hknown⟩ :=
    pin_registerAll shop [⟨logger "p" "value", some "ref", 0⟩] " ref " "value" (keyed_logger "q" "value")
  refine ⟨keyed_logger "q" "value", by rw [hrecorded]; rfl, (hknown _ hrecorded).2.1 fun h => ?_⟩
  rw [pinIds_logger, pinIds_logger, Set.singleton_subset_singleton] at h
  exact absurd h (by decide)

/-- A pin that got another name is not found by it, as a new table would find it. -/
theorem renamed_pin_not_found :
    (logger "p" "new").pins.Keyed Pin.id ∧
    ((seed shop).node shop "n").toOption.map (·.id) = some (logger "p" "new").id ∧
    ((seed shop).pin "n" (logger "p" "new") "new").toOption = none ∧
    (PinTable.ofNode (logger "p" "new")).resolve? "new" = some ⟨"p", .name⟩ := by
  have hrecorded : (seed shop).recordedNode? shop "n" (logger "p" "new") = some (logger "p" "old") := by
    have htrim : Text.trim "n" = "n" := rfl
    rw [recordedNode?, htrim]
    rfl
  have hsorted : ∀ name, (logger "p" name).pinsById = (logger "p" name).pins.values := fun _ => List.mergeSort_singleton _
  refine ⟨keyed_logger "p" "new", rfl, ?_, ?_⟩
  · have hids : (logger "p" "new").pinIds = (logger "p" "old").pinIds := by rw [pinIds_logger, pinIds_logger]
    rw [(traced_seed shop).toOption_pin (keyed_logger "p" "new") hrecorded hids.subset
      (fun p hp => hids ▸ PinTable.mem_pinIds_of_find? hp), PinTable.resolve?, PinTable.find?_ofNode]
    simp only [Node.answer?, hsorted]
    rfl
  · rw [PinTable.resolve?, PinTable.find?_ofNode]
    simp only [Node.answer?, hsorted]
    rfl

end References

end Workboard
