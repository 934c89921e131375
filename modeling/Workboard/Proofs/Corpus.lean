import Workboard.Proofs.Copies
import Workboard.Proofs.Documents
import Workboard.Proofs.Proper

/-! What the documents of a board are about.

A document is about a node, a comment of a node, a pin, the value of a pin, a layer, a comment or a variable (`Subject`).
Which of these are searched is said of the board (`Board.Has`), what their documents tell of them by `Subject.Describes`.
The documents are one for each, in order, and there are no others (`documents_exact`). -/

namespace Workboard

namespace Search

/-- What a document is about. -/
inductive Subject where
  | node (n : Node)
  /-- The comment of a node. -/
  | remark (n : Node) (text : String)
  | pin (n : Node) (p : Pin)
  /-- The default value of a pin, as people read it. -/
  | value (n : Node) (p : Pin) (text : String)
  | layer (l : Layer)
  | comment (c : Comment)
  | entry (v : Variable)

namespace Subject

def kind : Subject → DocumentKind
  | node _ => .node
  | remark .. | comment _ => .comment
  | pin .. => .pin
  | value .. => .pinValue
  | layer _ => .layer
  | entry _ => .variableEntry

def documentId : Subject → String
  | node n => n.id
  | remark n _ => n.id ++ ":comment"
  | pin n p => s!"{n.id}:{p.id}"
  | value n p _ => s!"{n.id}:{p.id}:value"
  | layer l => l.id
  | comment c => c.id
  | entry v => v.id

/-- The node that it belongs to. -/
def owner : Subject → Option Node
  | node n | remark n _ | pin n _ | value n _ _ => some n
  | layer _ | comment _ | entry _ => none

/-- The layer that it is directly inside of. -/
def around : Subject → Option String
  | node n | remark n _ | pin n _ | value n _ _ => n.layer
  | layer l => l.parent
  | comment c => c.layer
  | entry _ => none

def text : Subject → Option String
  | remark _ text | value _ _ text => some text
  | comment c => some c.content
  | node _ | pin .. | layer _ | entry _ => none

/-- Nodes and what belongs to them come first, then layers, then comments, then variables. -/
def part : Subject → ℕ
  | node _ | remark .. | pin .. | value .. => 0
  | layer _ => 1
  | comment _ => 2
  | entry _ => 3

/-- The id of a node, layer, comment or variable; of what belongs to a node, the node's. -/
def id : Subject → String
  | node n | remark n _ | pin n _ | value n _ _ => n.id
  | layer l => l.id
  | comment c => c.id
  | entry v => v.id

/-- One comes in an earlier part than another, or in the same one under a smaller id, or they belong to one node. -/
def Before (s t : Subject) : Prop :=
  s.part < t.part ∨ s.part = t.part ∧ (s.id < t.id ∨ ∃ n, s.owner = some n ∧ t.owner = some n)

/-- What a document tells of its subject on a board. -/
structure Describes (b : Board) (s : Subject) (d : Document) : Prop where
  kind : d.kind = s.kind
  id : d.id = s.documentId
  owner : d.node = s.owner.map (·.id)
  text : ∀ text, s.text = some text → d.matchedValue = some text
  inside : ∀ layer, s.around = some layer → d.layerPath = b.layerPathSoFar layer
  outermost : s.around = none → d.layerPath = []

/-- Its document, if the maps of the board are met in the given orders. -/
def document (b : Board) (orders : Board.Orders) : Subject → Document
  | node n => n.document (orders.pins n.id) (b.pathOf n.layer)
  | remark n text => n.commentDocument (b.pathOf n.layer) text
  | pin n p => n.pinDocument (b.pathOf n.layer) p
  | value n p text => n.valueDocument (b.pathOf n.layer) p text
  | layer l => l.document (orders.members l.id) (b.pathOf l.parent)
  | comment c => c.document (b.pathOf c.layer)
  | entry v => v.document

variable {orders : Board.Orders}

theorem layerPath_document (b : Board) (s : Subject) : (s.document b orders).layerPath = b.pathOf s.around := by
  cases s <;> rfl

theorem describes_document (b : Board) (s : Subject) : s.Describes b (s.document b orders) where
  kind := by cases s <;> rfl
  id := by cases s <;> rfl
  owner := by cases s <;> rfl
  text := fun text h => by cases s <;> cases h <;> rfl
  inside := fun layer h => by rw [layerPath_document, h]; rfl
  outermost := fun h => by rw [layerPath_document, h]; rfl

end Subject

end Search

open Search Subject

/-- What of a board is searched; its nodes are those met first in the given orders. -/
inductive Board.Has (b : Board) (orders : Board.Orders) : Subject → Prop
  | node {n : Node} (hn : n ∈ b.nodesIn orders) : b.Has orders (.node n)
  | remark {n : Node} {text : String} (hn : n ∈ b.nodesIn orders) (hcomment : n.comment = some text)
    (hblank : Text.isAllBlank text = false) : b.Has orders (.remark n text)
  | pin {n : Node} {k : String} {p : Pin} (hn : n ∈ b.nodesIn orders) (hp : n.pins.get? k = some p)
    (hdata : p.dataType ≠ .execution) : b.Has orders (.pin n p)
  | value {n : Node} {p : Pin} {bytes : List UInt8} {v : Json} (hpin : b.Has orders (.pin n p))
    (hbytes : p.defaultValue = some bytes) (hv : Literal.decode? bytes = some v)
    (hblank : Text.isAllBlank (Literal.display v) = false) : b.Has orders (.value n p (Literal.display v))
  | layer {k : String} {l : Layer} (hl : b.layers.get? k = some l) : b.Has orders (.layer l)
  | comment {k : String} {c : Comment} (hc : b.comments.get? k = some c) : b.Has orders (.comment c)
  | entry {k : String} {v : Variable} (hv : b.vars.get? k = some v) : b.Has orders (.entry v)

/-- The pins of the nodes, the layers, the comments and the variables of a board are stored under their own ids. -/
structure Board.EntriesKeyed (b : Board) (orders : Board.Orders) : Prop where
  pins : ∀ n ∈ b.nodesIn orders, n.pins.Keyed Pin.id
  layers : b.layers.Keyed Layer.id
  comments : b.comments.Keyed Comment.id
  vars : b.vars.Keyed Variable.id

theorem Search.shown_eq_some_iff {o : Option (List UInt8)} {text : String} : shown o = some text ↔
    ∃ bytes v, o = some bytes ∧ Literal.decode? bytes = some v ∧ Literal.display v = text := by
  unfold shown
  simp only [Option.map_eq_some_iff, Option.bind_eq_some_iff]
  constructor
  · rintro ⟨v, ⟨bytes, ho, hv⟩, htext⟩
    exact ⟨bytes, v, ho, hv, htext⟩
  · rintro ⟨bytes, v, ho, hv, htext⟩
    exact ⟨v, ⟨bytes, ho, hv⟩, htext⟩

section
variable {b : Board} {orders : Board.Orders} {n : Node} {p : Pin}

theorem Board.has_pin_iff : b.Has orders (.pin n p) ↔ n ∈ b.nodesIn orders ∧ p ∈ n.pins.values ∧ p.isExecution = false := by
  unfold Pin.isExecution
  rw [KeyMap.mem_values, decide_eq_false_iff_not]
  constructor
  · intro h
    cases h with
    | pin hn hp hdata => exact ⟨hn, ⟨_, hp⟩, hdata⟩
  · rintro ⟨hn, ⟨k, hp⟩, hdata⟩
    exact .pin hn hp hdata

theorem Board.has_value_iff {text : String} : b.Has orders (.value n p text) ↔
    b.Has orders (.pin n p) ∧ shown p.defaultValue = some text ∧ Text.isAllBlank text = false := by
  rw [shown_eq_some_iff]
  constructor
  · intro h
    cases h with
    | value hpin hbytes hv hblank => exact ⟨hpin, ⟨_, _, hbytes, hv, rfl⟩, hblank⟩
  · rintro ⟨hpin, ⟨bytes, v, hbytes, hv, rfl⟩, hblank⟩
    exact .value hpin hbytes hv hblank

theorem mem_toList_map_unblank {o : Option String} {f : String → Subject} {s : Subject} :
    s ∈ ((o.filter fun text => !Text.isAllBlank text).map f).toList ↔
      ∃ text, o = some text ∧ Text.isAllBlank text = false ∧ s = f text := by
  simp only [Option.mem_toList, Option.map_eq_some_iff, Option.filter_eq_some_iff, Bool.not_eq_true', and_assoc,
    eq_comm (b := f _)]

end

/-! ### Subjects in the order of their documents -/

namespace Node

def pinSubjects (n : Node) (p : Pin) : List Subject :=
  .pin n p :: (((shown p.defaultValue).filter fun v => !Text.isAllBlank v).map (.value n p)).toList

/-- The pins of a node but the execution pins. -/
def dataPins (n : Node) (order : List String) : List Pin := (n.pinsByIdIn order).filter (!·.isExecution)

def subjects (n : Node) (order : List String) : List Subject :=
  .node n :: ((n.comment.filter fun c => !Text.isAllBlank c).map (.remark n)).toList
    ++ (n.dataPins order).flatMap n.pinSubjects

variable {n : Node} {b : Board} {orders : Board.Orders} {order : List String} {s : Subject}

theorem pinsByIdIn_perm (n : Node) (order : List String) : (n.pinsByIdIn order).Perm n.pins.values :=
  (List.mergeSort_perm _ _).trans (KeyMap.perm_valuesIn order n.pins)

theorem mem_dataPins {p : Pin} : p ∈ n.dataPins order ↔ p ∈ n.pins.values ∧ p.isExecution = false := by
  rw [dataPins, List.mem_filter, (n.pinsByIdIn_perm order).mem_iff, Bool.not_eq_true']

theorem mem_pinSubjects {p : Pin} : s ∈ n.pinSubjects p ↔
    s = .pin n p ∨ ∃ text, shown p.defaultValue = some text ∧ Text.isAllBlank text = false ∧ s = .value n p text := by
  rw [pinSubjects, List.mem_cons, mem_toList_map_unblank]

theorem mem_subjects : s ∈ n.subjects order ↔ s = .node n ∨
    (∃ text, n.comment = some text ∧ Text.isAllBlank text = false ∧ s = .remark n text) ∨
    ∃ p ∈ n.dataPins order, s ∈ n.pinSubjects p := by
  rw [subjects, List.cons_append, List.mem_cons, List.mem_append, mem_toList_map_unblank, List.mem_flatMap]

theorem owner_of_mem_subjects (hs : s ∈ n.subjects order) : s.owner = some n := by
  rcases mem_subjects.mp hs with rfl | ⟨text, -, -, rfl⟩ | ⟨p, -, hs⟩
  · rfl
  · rfl
  · rcases mem_pinSubjects.mp hs with rfl | ⟨text, -, -, rfl⟩ <;> rfl

theorem mem_subjects_iff_has (hn : n ∈ b.nodesIn orders) : s ∈ n.subjects order ↔ b.Has orders s ∧ s.owner = some n := by
  constructor
  · intro hs
    refine ⟨?_, owner_of_mem_subjects hs⟩
    rcases mem_subjects.mp hs with rfl | ⟨text, hcomment, hblank, rfl⟩ | ⟨p, hp, hs⟩
    · exact .node hn
    · exact .remark hn hcomment hblank
    · have hpin : b.Has orders (.pin n p) := Board.has_pin_iff.mpr ⟨hn, mem_dataPins.mp hp⟩
      rcases mem_pinSubjects.mp hs with rfl | ⟨text, hshown, hblank, rfl⟩
      · exact hpin
      · exact Board.has_value_iff.mpr ⟨hpin, hshown, hblank⟩
  · rintro ⟨hs, howner⟩
    rw [mem_subjects]
    cases s with
    | node m =>
      cases howner
      exact .inl rfl
    | remark m text =>
      cases howner
      cases hs with
      | remark _ hcomment hblank => exact .inr (.inl ⟨text, hcomment, hblank, rfl⟩)
    | pin m p =>
      cases howner
      obtain ⟨-, hp⟩ := Board.has_pin_iff.mp hs
      exact .inr (.inr ⟨p, mem_dataPins.mpr hp, mem_pinSubjects.mpr (.inl rfl)⟩)
    | value m p text =>
      cases howner
      obtain ⟨hpin, hshown⟩ := Board.has_value_iff.mp hs
      obtain ⟨-, hp⟩ := Board.has_pin_iff.mp hpin
      exact .inr (.inr ⟨p, mem_dataPins.mpr hp, mem_pinSubjects.mpr (.inr ⟨text, hshown.1, hshown.2, rfl⟩)⟩)
    | layer l => cases howner
    | comment c => cases howner
    | entry v => cases howner

theorem nodup_pinSubjects (p : Pin) : (n.pinSubjects p).Nodup := by
  refine List.nodup_cons.mpr ⟨fun h => ?_, Option.toList_nodup _⟩
  obtain ⟨text, -, -, hsame⟩ := mem_toList_map_unblank.mp h
  cases hsame

theorem nodup_subjects (hpins : n.pins.Keyed Pin.id) (order : List String) : (n.subjects order).Nodup := by
  have hdata : (n.dataPins order).Nodup := ((n.pinsByIdIn_perm order).nodup_iff.mpr hpins.nodup_map_values.of_map).filter _
  have hpinned : ((n.dataPins order).flatMap n.pinSubjects).Nodup := by
    refine List.nodup_flatMap.mpr ⟨fun p _ => nodup_pinSubjects p, hdata.imp fun {p q} hne s hp hq => hne ?_⟩
    rcases mem_pinSubjects.mp hp with rfl | ⟨text, -, -, rfl⟩ <;>
      rcases mem_pinSubjects.mp hq with h | ⟨text', -, -, h⟩ <;> cases h <;> rfl
  -- The three pieces are about different kinds of things.
  have hremark : ∀ s ∈ ((n.comment.filter fun text => !Text.isAllBlank text).map (remark n)).toList, s.kind = .comment := by
    intro s hs
    obtain ⟨text, -, -, rfl⟩ := mem_toList_map_unblank.mp hs
    rfl
  have hpin : ∀ s ∈ (n.dataPins order).flatMap n.pinSubjects, s.kind = .pin ∨ s.kind = .pinValue := by
    intro s hs
    obtain ⟨p, -, hs⟩ := List.mem_flatMap.mp hs
    rcases mem_pinSubjects.mp hs with rfl | ⟨text, -, -, rfl⟩
    · exact .inl rfl
    · exact .inr rfl
  refine List.nodup_cons.mpr
    ⟨fun h => ?_, List.nodup_append.mpr ⟨Option.toList_nodup _, hpinned, fun s hs t ht hsame => ?_⟩⟩
  · have hkind := (List.mem_append.mp h).imp (hremark _) (hpin _)
    simp [kind] at hkind
  · have hkind := hpin t ht
    rw [← hsame, hremark s hs] at hkind
    simp at hkind

theorem map_pinSubjects (p : Pin) :
    (n.pinSubjects p).map (Subject.document b orders) = n.pinDocuments (b.pathOf n.layer) p := by
  rw [pinSubjects, List.map_cons, ← Option.toList_map, Option.map_map]
  rfl

theorem map_subjects : (n.subjects (orders.pins n.id)).map (Subject.document b orders) =
    n.documents (orders.pins n.id) (b.pathOf n.layer) := by
  rw [subjects, List.map_append, List.map_cons, ← Option.toList_map, Option.map_map, List.map_flatMap]
  simp only [map_pinSubjects]
  rfl

end Node

section
variable {α : Type} {R : α → α → Prop} {keep : α → Bool} {a : α} {l : List α}

theorem filter_eq_takeWhile (ha : keep a = true) (h : (a :: l).Pairwise R)
    (hbetween : ∀ x y z, R x y → R y z → keep x = true → keep z = true → keep y = true) :
    l.filter keep = l.takeWhile keep := by
  induction l with
  | nil => rfl
  | cons b l ih =>
    obtain ⟨hab, hb⟩ := List.pairwise_cons.mp h
    cases hkeep : keep b with
    | true =>
      rw [List.filter_cons_of_pos hkeep, List.takeWhile_cons_of_pos hkeep, ih (h.sublist (by simp))]
    | false =>
      rw [List.filter_cons_of_neg (by simp [hkeep]), List.takeWhile_cons_of_neg (by simp [hkeep]), List.filter_eq_nil_iff]
      intro c hc hkeepc
      have := hbetween a b c (hab b List.mem_cons_self) ((List.pairwise_cons.mp hb).1 c hc) ha hkeepc
      rw [hkeep] at this
      cases this

/-- What is kept of a list is in one piece, if with two of its elements all between them are kept. -/
theorem filter_isInfix (h : l.Pairwise R)
    (hbetween : ∀ x y z, R x y → R y z → keep x = true → keep z = true → keep y = true) : l.filter keep <:+: l := by
  induction l with
  | nil => exact List.infix_rfl
  | cons a l ih =>
    cases ha : keep a with
    | true =>
      rw [List.filter_cons_of_pos ha, filter_eq_takeWhile ha h hbetween]
      exact ((List.prefix_cons_inj a).mpr (List.takeWhile_prefix keep)).isInfix
    | false =>
      rw [List.filter_cons_of_neg (by simp [ha])]
      exact (ih h.of_cons).trans (List.suffix_cons a l).isInfix

end

namespace Search.Subject

variable {s t : Subject} {n : Node}

theorem id_of_owner (h : s.owner = some n) : s.id = n.id := by
  cases s <;> cases h <;> rfl

theorem part_of_owner (h : s.owner = some n) : s.part = 0 := by
  cases s <;> cases h <;> rfl

theorem owner_eq_some_iff {x : String} : s.owner.map (·.id) = some x ↔ s.part = 0 ∧ s.id = x := by
  cases s <;> simp [owner, part, id]

theorem Before.le (h : Before s t) : s.part < t.part ∨ s.part = t.part ∧ s.id ≤ t.id := by
  obtain h | ⟨hpart, h | ⟨n, hs, ht⟩⟩ := h
  · exact .inl h
  · exact .inr ⟨hpart, h.le⟩
  · exact .inr ⟨hpart, by rw [id_of_owner hs, id_of_owner ht]⟩

def BeforeOther (s t : Subject) : Prop := Before s t ∧ s ≠ t

theorem BeforeOther.of_part (h : s.part < t.part) : BeforeOther s t :=
  ⟨.inl h, fun hsame => Nat.lt_irrefl _ (hsame ▸ h)⟩

theorem BeforeOther.of_id (hpart : s.part = t.part) (h : s.id < t.id) : BeforeOther s t :=
  ⟨.inr ⟨hpart, .inl h⟩, fun hsame => lt_irrefl _ (hsame ▸ h)⟩

theorem BeforeOther.of_owner (hs : s.owner = some n) (ht : t.owner = some n) (hne : s ≠ t) : BeforeOther s t :=
  ⟨.inr ⟨(part_of_owner hs).trans (part_of_owner ht).symm, .inr ⟨n, hs, ht⟩⟩, hne⟩

/-- Things of one part, sorted by their ids, come behind those of earlier parts. -/
theorem pairwise_append_map {α : Type} {part : ℕ} {before : List Subject} {id : α → String} {f : α → Subject} {l : List α}
    (hbefore : before.Pairwise BeforeOther ∧ ∀ s ∈ before, s.part < part) (hl : (l.map id).Nodup)
    (hid : ∀ a, (f a).id = id a) (hpart : ∀ a, (f a).part = part) :
    (before ++ (l.mergeSort fun a b => id a ≤ id b).map f).Pairwise BeforeOther ∧
      ∀ s ∈ before ++ (l.mergeSort fun a b => id a ≤ id b).map f, s.part < part + 1 := by
  obtain ⟨hpairwise, hearlier⟩ := hbefore
  have hsame : ∀ s ∈ (l.mergeSort fun a b => id a ≤ id b).map f, s.part = part := List.forall_mem_map.mpr fun a _ => hpart a
  constructor
  · refine List.pairwise_append.mpr ⟨hpairwise, ?_, fun s hs t ht => .of_part ?_⟩
    · refine List.pairwise_map.mpr ((pairwise_lt_mergeSort hl).imp fun {a b} hlt => .of_id ?_ ?_)
      · rw [hpart, hpart]
      · rw [hid, hid]
        exact hlt
    · rw [hsame t ht]
      exact hearlier s hs
  · intro s hs
    rcases List.mem_append.mp hs with hs | hs
    · exact (hearlier s hs).trans (Nat.lt_succ_self part)
    · exact (hsame s hs).trans_lt (Nat.lt_succ_self part)

end Search.Subject

namespace Board

variable {b : Board} {orders : Orders} {s : Subject} {n : Node}

theorem Has.owner_mem (hs : b.Has orders s) (howner : s.owner = some n) : n ∈ b.nodesIn orders := by
  induction hs with
  | node hn | remark hn | pin hn =>
    cases howner
    exact hn
  | value _ _ _ _ ih => exact ih howner
  | layer | comment | entry => cases howner

def subjects (b : Board) (orders : Orders) : List Subject :=
  ((b.nodesIn orders).mergeSort fun m n => m.id ≤ n.id).flatMap (fun n => n.subjects (orders.pins n.id))
    ++ ((b.layers.valuesIn orders.layers).mergeSort fun l m => l.id ≤ m.id).map .layer
    ++ ((b.comments.valuesIn orders.comments).mergeSort fun c d => c.id ≤ d.id).map .comment
    ++ ((b.vars.valuesIn orders.vars).mergeSort fun v w => v.id ≤ w.id).map .entry

theorem map_subjects (hb : b.EntriesKeyed orders) :
    (b.subjects orders).map (Subject.document b orders) = b.documents orders := by
  -- A layer is stored under its id, so the id tells in which order its nodes are named.
  have hlayers : (b.layers.valuesIn orders.layers).map
        (fun l => (l.id, l.document (orders.members l.id) (b.pathOf l.parent))) =
      (b.layers.entriesIn orders.layers).map
        fun e => (e.2.id, e.2.document (orders.members e.1) (b.pathOf e.2.parent)) := by
    rw [← KeyMap.map_snd_entriesIn, List.map_map]
    refine List.map_congr_left fun e he => ?_
    have hid : e.2.id = e.1 := hb.layers _ _ (KeyMap.get?_eq_some_iff_mem.mpr ((KeyMap.perm_entriesIn _ _).mem_iff.mp he))
    rw [Function.comp_apply, ← hid]
  rw [documents_eq, subjects, ← map_mergeSort_congr hlayers]
  simp only [List.map_append, List.map_flatMap, List.map_map, Node.map_subjects]
  rfl

theorem mem_subjects : s ∈ b.subjects orders ↔ b.Has orders s := by
  simp only [subjects, List.mem_append, List.mem_flatMap, List.mem_map, List.mem_mergeSort, KeyMap.mem_valuesIn]
  constructor
  · rintro (((⟨n, hn, hs⟩ | ⟨l, ⟨k, hl⟩, rfl⟩) | ⟨c, ⟨k, hc⟩, rfl⟩) | ⟨v, ⟨k, hv⟩, rfl⟩)
    · exact ((Node.mem_subjects_iff_has hn).mp hs).1
    · exact .layer hl
    · exact .comment hc
    · exact .entry hv
  · intro hs
    cases howner : s.owner with
    | some n =>
      have hn := hs.owner_mem howner
      exact .inl (.inl (.inl ⟨n, hn, (Node.mem_subjects_iff_has hn).mpr ⟨hs, howner⟩⟩))
    | none =>
      cases hs with
      | node | remark | pin | value => cases howner
      | layer hl => exact .inl (.inl (.inr ⟨_, ⟨_, hl⟩, rfl⟩))
      | comment hc => exact .inl (.inr ⟨_, ⟨_, hc⟩, rfl⟩)
      | entry hv => exact .inr ⟨_, ⟨_, hv⟩, rfl⟩

/-- Each part of the subjects ascends, and a later part comes behind. -/
theorem pairwise_subjects (hb : b.EntriesKeyed orders) : (b.subjects orders).Pairwise BeforeOther := by
  have hnodes : (((b.nodesIn orders).mergeSort fun m n => m.id ≤ n.id).flatMap
      fun n => n.subjects (orders.pins n.id)).Pairwise BeforeOther := by
    refine List.pairwise_flatMap.mpr ⟨fun n hn => ?_, ?_⟩
    · have hpins := hb.pins n (List.mem_mergeSort.mp hn)
      exact (Node.nodup_subjects hpins _).imp_of_mem fun hs ht hne =>
        .of_owner (Node.owner_of_mem_subjects hs) (Node.owner_of_mem_subjects ht) hne
    · refine (pairwise_lt_mergeSort Node.nodup_map_id_distinct).imp fun {m n} hlt s hs t ht => ?_
      have hm := Node.owner_of_mem_subjects hs
      have hn := Node.owner_of_mem_subjects ht
      refine .of_id ((part_of_owner hm).trans (part_of_owner hn).symm) ?_
      rw [id_of_owner hm, id_of_owner hn]
      exact hlt
  have hfirst : ∀ s ∈ ((b.nodesIn orders).mergeSort fun m n => m.id ≤ n.id).flatMap
      (fun n => n.subjects (orders.pins n.id)), s.part < 1 := by
    intro s hs
    obtain ⟨n, -, hs⟩ := List.mem_flatMap.mp hs
    rw [part_of_owner (Node.owner_of_mem_subjects hs)]
    exact Nat.zero_lt_one
  have hlayers := pairwise_append_map (f := .layer) ⟨hnodes, hfirst⟩ (hb.layers.nodup_map_valuesIn orders.layers)
    (fun _ => rfl) fun _ => rfl
  have hcomments := pairwise_append_map (f := .comment) hlayers (hb.comments.nodup_map_valuesIn orders.comments)
    (fun _ => rfl) fun _ => rfl
  exact (pairwise_append_map (f := .entry) hcomments (hb.vars.nodup_map_valuesIn orders.vars) (fun _ => rfl) fun _ => rfl).1

/-- The documents of a node are in one piece. -/
theorem filter_documents_isInfix (hb : b.EntriesKeyed orders) (id : String) :
    (b.documents orders).filter (·.node = some id) <:+: b.documents orders := by
  have howner : ((fun d : Document => decide (d.node = some id)) ∘ Subject.document b orders) =
      fun s => decide (s.part = 0 ∧ s.id = id) :=
    funext fun s => decide_eq_decide.mpr (by
      rw [(describes_document b s).owner]
      exact owner_eq_some_iff)
  rw [← map_subjects hb, List.filter_map, howner]
  -- What stands between two things of a node is in the first part and has the node's id.
  refine List.IsInfix.map _ (filter_isInfix (pairwise_subjects hb) fun s t u hst htu hs hu => ?_)
  obtain ⟨hs, hsid⟩ := of_decide_eq_true hs
  obtain ⟨hu, huid⟩ := of_decide_eq_true hu
  obtain hlt | ⟨hpart, hle⟩ := hst.1.le
  · have := htu.1.le
    omega
  obtain hlt | ⟨-, hle'⟩ := htu.1.le
  · omega
  exact decide_eq_true ⟨hpart.symm.trans hs, le_antisymm (hle'.trans huid.le) (hsid.symm.le.trans hle)⟩

/-- Each node, remark, data pin, value, layer, comment and variable of a board has one document, which tells of it, and there
    are no other documents, in whichever orders the maps of the board are met. Nodes, layers, comments and variables ascend,
    and the documents of a node are in one piece. -/
theorem documents_exact (hb : b.EntriesKeyed orders) : ∃ subjects : List Subject,
    List.Forall₂ (Describes b) subjects (b.documents orders) ∧ subjects.Nodup ∧ (∀ s, s ∈ subjects ↔ b.Has orders s) ∧
    subjects.Pairwise Before ∧
    ∀ id, (b.documents orders).filter (·.node = some id) <:+: b.documents orders := by
  have hpairwise := pairwise_subjects hb
  refine ⟨b.subjects orders, ?_, hpairwise.imp And.right, fun s => mem_subjects, hpairwise.imp And.left,
    filter_documents_isInfix hb⟩
  rw [← map_subjects hb, List.forall₂_map_right_iff, List.forall₂_same]
  exact fun s _ => describes_document b s

def runPin : Pin := ⟨"run", "run", "Run", "", .input, .execution, .single, none, ∅, ∅⟩

def urlPin : Pin := ⟨"url", "url", "URL", "", .input, .string, .single, some (Literal.encode (.string "https://a")), ∅, ∅⟩

def requestNode : Node :=
  ⟨"n", "http_request", "Request", "Web", "", some "retries", .ofList [("run", runPin), ("url", urlPin)], .origin, some "inner"⟩

def requestBoard : Board := { Board.blank "b" "board" with
  nodes := .ofList [("n", requestNode)]
  layers := .ofList [("inner", ⟨"inner", "Requests", none, some "outer", .ofList [("n", requestNode)], ∅, .origin, none⟩),
    ("outer", ⟨"outer", "Net", none, none, ∅, ∅, .origin, none⟩)] }

/-- The value of a pin stands under the names of the two layers around its node. -/
theorem documents_exact_requestBoard : requestBoard.EntriesKeyed {} ∧ ∃ d ∈ requestBoard.documents,
    d.kind = .pinValue ∧ d.id = "n:url:value" ∧ d.matchedValue = some "https://a" ∧ d.layerPath = ["Net", "Requests"] := by
  have hkeyed : requestBoard.EntriesKeyed {} :=
    ⟨by decide +kernel, by decide +kernel, by decide +kernel, by decide +kernel⟩
  have hnodes : requestBoard.Keyed := by decide +kernel
  have hnode : requestNode ∈ requestBoard.nodesIn {} := hnodes.mem_allNodes.mpr rfl
  have hpin : requestBoard.Has {} (.pin requestNode urlPin) := .pin (k := "url") hnode rfl (by decide)
  have hvalue : requestBoard.Has {} (.value requestNode urlPin "https://a") :=
    has_value_iff.mpr ⟨hpin, by decide +kernel, by decide +kernel⟩
  obtain ⟨subjects, hdescribes, -, hhas, -⟩ := documents_exact hkeyed
  obtain ⟨d, hd, htells⟩ := exists_of_forall₂ hdescribes ((hhas _).mpr hvalue)
  exact ⟨hkeyed, d, hd, htells.kind, htells.id, htells.text _ rfl, htells.inside "inner" rfl⟩

end Board

end Workboard
