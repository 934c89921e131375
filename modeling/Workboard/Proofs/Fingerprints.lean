import Mathlib
import Workboard.Board.Fingerprint
import Workboard.Proofs.CompactText
import Workboard.Proofs.Copies
import Workboard.Proofs.Documents
import Workboard.Proofs.Records

/-! What the canonical text of a board tells.

`Json.Tells enc f` says that values with one canonical text agree in what `f` sees of them; it goes from the parts of a
value to the value. Coordinates and sizes are not told for good, since `null` stands for all that are not finite. All
else is: boards with one canonical text are equal up to them (`Board.unplaced_of_canonicalText`). No document reads a
coordinate or size, so such boards have the same documents (`Board.documents_of_canonicalText`). -/

namespace Workboard

def Node.unplaced (n : Node) : Node := { n with place := .origin }

def Layer.unplaced (l : Layer) : Layer := { l with nodes := l.nodes.mapValues fun _ => Node.unplaced, place := .origin }

def Comment.unplaced (c : Comment) : Comment := { c with place := .origin, width := none, height := none }

/-- The board with everything at the origin, and comments of no size. -/
def Board.unplaced (b : Board) : Board :=
  { b with
    nodes := b.nodes.mapValues fun _ => Node.unplaced
    comments := b.comments.mapValues fun _ => Comment.unplaced
    layers := b.layers.mapValues fun _ => Layer.unplaced }

namespace Json

/-- What the canonical text of a value shows. -/
def canonical (j : Json) : Draft := j.widen.shown

theorem canonical_array (items : List Json) : (array items).canonical = .array (items.map canonical) .closed := by
  have hwiden : ∀ l, widenItems l = l.map widen := by
    intro l
    induction l with
    | nil => rfl
    | cons j r ih => exact congrArg (j.widen :: ·) ih
  rw [canonical, widen, shown, shownItems_eq, hwiden, List.map_map]
  rfl

theorem canonical_ofMap (m : KeyMap Json) :
    (ofMap m).canonical = .object (m.entries.map fun e => (some e.1, e.2.canonical)) .closed := by
  have hwiden : ∀ l, widenMembers l = l.map fun e => (e.1, e.2.widen) := by
    intro l
    induction l with
    | nil => rfl
    | cons e r ih => exact congrArg ((e.1, e.2.widen) :: ·) ih
  rw [canonical, ofMap, widen, shown, shownMembers_eq, hwiden, List.map_map]
  rfl

/-- Maps with one canonical text have the same canonical text at every key. -/
theorem canonical_get? {m m' : KeyMap Json} (h : (ofMap m).canonical = (ofMap m').canonical) (k : String) :
    (m.get? k).map canonical = (m'.get? k).map canonical := by
  rw [canonical_ofMap, canonical_ofMap] at h
  have hentries : (m.mapValues fun _ => canonical).entries = (m'.mapValues fun _ => canonical).entries := by
    have hkeys := congrArg (List.map fun e : Option String × Draft => (e.1.getD "", e.2)) (Draft.object.inj h).1
    rw [List.map_map, List.map_map] at hkeys
    exact hkeys
  have hget := congrArg (KeyMap.find k) hentries
  rw [← KeyMap.get?_mapValues fun _ => canonical, ← KeyMap.get?_mapValues fun _ => canonical]
  exact hget

/-- Objects with one canonical text have the same canonical text in each member. -/
theorem canonical_member {l l' : List (String × Json)} (h : (ofMembers l).canonical = (ofMembers l').canonical)
    (hl : (l.map (·.1)).Nodup) (hl' : (l'.map (·.1)).Nodup) (k : String) {e e' : Json} (he : (k, e) ∈ l)
    (he' : (k, e') ∈ l') : e.canonical = e'.canonical := by
  have hk := canonical_get? h k
  rw [(KeyMap.get?_ofList hl).mpr he, (KeyMap.get?_ofList hl').mpr he'] at hk
  exact Option.some.inj hk

/-- Values with one canonical text agree in what `f` sees of them. -/
def Tells {α β : Type} (enc : α → Json) (f : α → β) : Prop := ∀ ⦃a a' : α⦄, (enc a).canonical = (enc a').canonical → f a = f a'

section
variable {α β : Type} {enc : α → Json} {f : α → β}

theorem tells_text : Tells string id := fun _ _ h => Option.some.inj (Draft.text.inj h)

theorem tells_flag : Tells bool id := fun _ _ h => Draft.bool.inj h

theorem tells_whole {g : α → Int} (hg : Function.Injective g) (hlow : ∀ a, -0x8000000000000000 ≤ g a)
    (hhigh : ∀ a, g a ≤ 0xFFFFFFFFFFFFFFFF) : Tells (fun a => whole (g a)) id := by
  intro a a' h
  have hshown : (whole (g a)).shown = (whole (g a')).shown := h
  rw [Shape.shown_whole (hlow a) (hhigh a), Shape.shown_whole (hlow a') (hhigh a')] at hshown
  exact hg (JsonNumber.whole.inj (Option.some.inj (Draft.number.inj hshown)))

theorem Tells.array (h : Tells enc f) : Tells (fun l : List α => .array (l.map enc)) (List.map f) := by
  intro l l' heq
  rw [canonical_array, canonical_array, List.map_map, List.map_map] at heq
  have hitems := (Draft.array.inj heq).1
  clear heq
  induction l generalizing l' with
  | nil =>
    cases l' with
    | nil => rfl
    | cons => cases hitems
  | cons a r ih =>
    cases l' with
    | nil => cases hitems
    | cons a' r' =>
      obtain ⟨hhead, htail⟩ := List.cons.inj hitems
      rw [List.map_cons, List.map_cons, h hhead, ih htail]

/-- What is absent is told from what is written other than `null`. -/
theorem Tells.ofMaybe (h : Tells enc f) (hnull : ∀ a, (enc a).canonical ≠ .null) : Tells (ofMaybe enc) (Option.map f) := by
  intro o o' heq
  cases o with
  | none =>
    cases o' with
    | none => rfl
    | some a' => exact absurd heq.symm (hnull a')
  | some a =>
    cases o' with
    | none => exact absurd heq (hnull a)
    | some a' => exact congrArg some (h heq)

theorem Tells.ofKeyMap (h : Tells enc f) : Tells (ofKeyMap enc) (KeyMap.mapValues fun _ => f) := by
  intro m m' heq
  refine KeyMap.ext fun k => ?_
  have hk := canonical_get? heq k
  rw [KeyMap.get?_mapValues, KeyMap.get?_mapValues] at hk ⊢
  generalize m.get? k = o at hk ⊢
  generalize m'.get? k = o' at hk ⊢
  cases o with
  | none =>
    cases o' with
    | none => rfl
    | some => cases hk
  | some a =>
    cases o' with
    | none => cases hk
    | some a' => exact congrArg some (h (Option.some.inj hk))

/-- A part that is told as it is. -/
theorem Tells.eq (h : Tells enc id) {a a' : α} (heq : (enc a).canonical = (enc a').canonical) : a = a' := h heq

theorem Tells.ofKeyMap_id (h : Tells enc id) : Tells (Json.ofKeyMap enc) id := fun m m' heq => by
  have hm := h.ofKeyMap heq
  have hid (m : KeyMap α) : m.mapValues (fun _ => id) = m := KeyMap.ext fun k => by
    rw [KeyMap.get?_mapValues]
    exact Option.map_id'
  rwa [hid, hid] at hm

end

theorem tells_ofText? : Tells ofText? id := by
  intro o o' h
  cases o with
  | none =>
    cases o' with
    | none => rfl
    | some => cases h
  | some s =>
    cases o' with
    | none => cases h
    | some s' => exact congrArg some (tells_text h)

theorem tells_bytes : Tells ofBytes id := by
  have hbyte : Tells (fun b : UInt8 => whole (b.toNat : Int)) id :=
    tells_whole (fun a b h => UInt8.toNat_inj.mp (Int.ofNat.inj h)) (fun b => by omega) fun b => by
      have := b.toNat_lt
      omega
  intro l l' h
  have hl := hbyte.array h
  rwa [List.map_id, List.map_id] at hl

theorem tells_maybeBytes : Tells (ofMaybe ofBytes) id := by
  intro o o' h
  have ho := tells_bytes.ofMaybe (fun l => by rw [ofBytes, canonical_array]; exact Draft.noConfusion) h
  rwa [Option.map_id] at ho

theorem tells_keySet : Tells ofKeySet id := by
  intro s s' h
  have hlist := tells_text.array h
  rw [List.map_id, List.map_id] at hlist
  refine KeySet.ext fun k => ?_
  rw [id, id, Bool.eq_iff_iff, ← KeySet.mem_toList, ← KeySet.mem_toList, hlist]

/-! ### Entities -/

theorem tells_direction : Tells Direction.toJson id := fun d d' h => by
  have hname := tells_text h
  revert hname
  cases d <;> cases d' <;> decide

theorem tells_dataType : Tells DataType.toJson id := fun t t' h => by
  have hname := tells_text h
  revert hname
  cases t <;> cases t' <;> decide

theorem tells_container : Tells Container.toJson id := fun c c' h => by
  have hname := tells_text h
  revert hname
  cases c <;> cases c' <;> decide

theorem tells_pin : Tells Pin.toJson id := by
  rintro ⟨⟩ ⟨⟩ h
  have hkeys : (Pin.fields.names.map (·.1)).Nodup := by decide
  have hmember := canonical_member h hkeys hkeys
  exact (Pin.mk.injEq ..).mpr
    ⟨tells_text.eq (hmember "id" (by simp) (by simp)),
      tells_text.eq (hmember "name" (by simp) (by simp)),
      tells_text.eq (hmember "friendly_name" (by simp) (by simp)),
      tells_text.eq (hmember "description" (by simp) (by simp)),
      tells_direction.eq (hmember "pin_type" (by simp) (by simp)),
      tells_dataType.eq (hmember "data_type" (by simp) (by simp)),
      tells_container.eq (hmember "value_type" (by simp) (by simp)),
      tells_maybeBytes.eq (hmember "default_value" (by simp) (by simp)),
      tells_keySet.eq (hmember "connected_to" (by simp) (by simp)),
      tells_keySet.eq (hmember "depends_on" (by simp) (by simp))⟩

theorem tells_variable : Tells Variable.toJson id := by
  rintro ⟨⟩ ⟨⟩ h
  have hkeys : (Variable.fields.names.map (·.1)).Nodup := by decide
  have hmember := canonical_member h hkeys hkeys
  exact (Variable.mk.injEq ..).mpr
    ⟨tells_text.eq (hmember "id" (by simp) (by simp)),
      tells_text.eq (hmember "name" (by simp) (by simp)),
      tells_dataType.eq (hmember "data_type" (by simp) (by simp)),
      tells_container.eq (hmember "value_type" (by simp) (by simp)),
      tells_ofText?.eq (hmember "description" (by simp) (by simp)),
      tells_maybeBytes.eq (hmember "default_value" (by simp) (by simp)),
      tells_flag.eq (hmember "secret" (by simp) (by simp)),
      tells_flag.eq (hmember "exposed" (by simp) (by simp)),
      tells_flag.eq (hmember "editable" (by simp) (by simp))⟩

theorem tells_node : Tells Node.toJson Node.unplaced := by
  rintro ⟨⟩ ⟨⟩ h
  have hkeys : (Node.fields.names.map (·.1)).Nodup := by decide
  have hmember := canonical_member h hkeys hkeys
  exact (Node.mk.injEq ..).mpr
    ⟨tells_text.eq (hmember "id" (by simp) (by simp)),
      tells_text.eq (hmember "name" (by simp) (by simp)),
      tells_text.eq (hmember "friendly_name" (by simp) (by simp)),
      tells_text.eq (hmember "category" (by simp) (by simp)),
      tells_text.eq (hmember "description" (by simp) (by simp)),
      tells_ofText?.eq (hmember "comment" (by simp) (by simp)),
      tells_pin.ofKeyMap_id.eq (hmember "pins" (by simp) (by simp)),
      rfl,
      tells_ofText?.eq (hmember "layer" (by simp) (by simp))⟩

theorem tells_layer : Tells Layer.toJson Layer.unplaced := by
  rintro ⟨⟩ ⟨⟩ h
  have hkeys : (Layer.fields.names.map (·.1)).Nodup := by decide
  have hmember := canonical_member h hkeys hkeys
  exact (Layer.mk.injEq ..).mpr
    ⟨tells_text.eq (hmember "id" (by simp) (by simp)),
      tells_text.eq (hmember "name" (by simp) (by simp)),
      tells_ofText?.eq (hmember "comment" (by simp) (by simp)),
      tells_ofText?.eq (hmember "parent_id" (by simp) (by simp)),
      tells_node.ofKeyMap (hmember "nodes" (by simp) (by simp)),
      tells_pin.ofKeyMap_id.eq (hmember "pins" (by simp) (by simp)),
      rfl,
      tells_ofText?.eq (hmember "color" (by simp) (by simp))⟩

theorem tells_comment : Tells Comment.toJson Comment.unplaced := by
  rintro ⟨⟩ ⟨⟩ h
  have hkeys : (Comment.fields.names.map (·.1)).Nodup := by decide
  have hmember := canonical_member h hkeys hkeys
  have hdepth : Tells (Json.ofMaybe fun n : Int32 => .whole n.toInt) id := fun o o' ho => by
    have hwhole : Tells (fun n : Int32 => .whole n.toInt) id :=
      tells_whole (fun m n hmn => Int32.toInt_inj.mp hmn) (fun n => by have := n.le_toInt; omega)
        fun n => by have := n.toInt_lt; omega
    have hsame := hwhole.ofMaybe (fun _ => Draft.noConfusion) ho
    rwa [Option.map_id] at hsame
  have hstamp : Tells (fun t : UInt64 => .nat t.toNat) id :=
    tells_whole (fun s t hst => UInt64.toNat_inj.mp (Int.ofNat.inj hst)) (fun t => by omega) fun t => by
      have := t.toNat_lt
      omega
  exact (Comment.mk.injEq ..).mpr
    ⟨tells_text.eq (hmember "id" (by simp) (by simp)),
      tells_text.eq (hmember "content" (by simp) (by simp)),
      tells_ofText?.eq (hmember "color" (by simp) (by simp)),
      rfl,
      rfl,
      rfl,
      hdepth.eq (hmember "z_index" (by simp) (by simp)),
      tells_ofText?.eq (hmember "author" (by simp) (by simp)),
      hstamp.eq (hmember "timestamp" (by simp) (by simp)),
      tells_ofText?.eq (hmember "layer" (by simp) (by simp))⟩

theorem tells_version : Tells Version.toJson id := by
  intro v v' h
  have hword : Tells (fun n : UInt32 => .nat n.toNat) id :=
    tells_whole (fun m n hmn => UInt32.toNat_inj.mp (Int.ofNat.inj hmn)) (fun n => by omega) fun n => by
      have := n.toNat_lt
      omega
  have hparts : [v.major, v.minor, v.patch].map id = [v'.major, v'.minor, v'.patch].map id := hword.array h
  cases v
  cases v'
  simpa using hparts

theorem tells_board : Tells Board.toJson Board.unplaced := by
  rintro ⟨⟩ ⟨⟩ h
  have hkeys : (Board.fields.names.map (·.1)).Nodup := by decide
  have hmember := canonical_member h hkeys hkeys
  exact (Board.mk.injEq ..).mpr
    ⟨tells_text.eq (hmember "id" (by simp) (by simp)),
      tells_text.eq (hmember "name" (by simp) (by simp)),
      tells_text.eq (hmember "description" (by simp) (by simp)),
      tells_node.ofKeyMap (hmember "nodes" (by simp) (by simp)),
      tells_variable.ofKeyMap_id.eq (hmember "variables" (by simp) (by simp)),
      tells_comment.ofKeyMap (hmember "comments" (by simp) (by simp)),
      tells_layer.ofKeyMap (hmember "layers" (by simp) (by simp)),
      tells_version.eq (hmember "version" (by simp) (by simp))⟩

end Json

namespace Board

variable {b b' : Board}

theorem unplaced_of_canonicalText (h : b.canonicalText = b'.canonicalText) : b.unplaced = b'.unplaced :=
  Json.tells_board (Json.shown_of_compress h)

/-! ### Documents -/

theorem climbFrom_unplaced (layers : KeyMap Layer) (fuel : Nat) (rungs : List Rung) (id : Option String) :
    climbFrom (layers.mapValues fun _ => Layer.unplaced) fuel rungs id = climbFrom layers fuel rungs id := by
  induction fuel generalizing rungs id with
  | zero => rfl
  | succ fuel ih =>
    cases id with
    | none => rfl
    | some id =>
      unfold climbFrom
      rw [KeyMap.get?_mapValues]
      cases layers.get? id with
      | none => rfl
      | some l =>
        have hnext := ih (⟨id, l.name⟩ :: rungs) l.parent
        exact congrArg (ite _ _) (congrArg (ite _ _) hnext)

theorem pathOf_unplaced (b : Board) (layer : Option String) : b.unplaced.pathOf layer = b.pathOf layer := by
  cases layer with
  | none => rfl
  | some id =>
    have hclimb : b.unplaced.climb id = b.climb id := climbFrom_unplaced b.layers _ [] (some id)
    exact congrArg (fun c : List Rung × Option ClimbFault => c.1.map (·.name)) hclimb

theorem nodesIn_unplaced (b : Board) (orders : Orders) : b.unplaced.nodesIn orders = (b.nodesIn orders).map Node.unplaced := by
  have hlayers : (b.unplaced.layers.entriesIn orders.layers).flatMap (fun e => e.2.nodes.valuesIn (orders.members e.1)) =
      ((b.layers.entriesIn orders.layers).flatMap fun e => e.2.nodes.valuesIn (orders.members e.1)).map Node.unplaced := by
    rw [unplaced, KeyMap.entriesIn_mapValues, List.flatMap_map, List.map_flatMap]
    congr 1
    funext e
    exact KeyMap.valuesIn_mapValues _ _ _
  have hnodes : b.unplaced.nodes.valuesIn orders.nodes = (b.nodes.valuesIn orders.nodes).map Node.unplaced :=
    KeyMap.valuesIn_mapValues _ _ _
  rw [nodesIn, nodesIn, copiesIn, hlayers, hnodes, ← List.map_append, Node.distinct_map Node.unplaced fun _ => rfl, copiesIn]

/-- No document shows where something is. -/
theorem documents_unplaced (b : Board) (orders : Orders) : b.unplaced.documents orders = b.documents orders := by
  refine documents_congr ?_ ?_ ?_ rfl
  · rw [nodesIn_unplaced, List.map_map]
    refine List.map_congr_left fun n _ => ?_
    show (n.id, n.documents (orders.pins n.id) (b.unplaced.pathOf n.layer)) = _
    rw [pathOf_unplaced]
  · show ((b.layers.mapValues fun _ => Layer.unplaced).entriesIn orders.layers).map _ = _
    rw [KeyMap.entriesIn_mapValues, List.map_map]
    refine List.map_congr_left fun ⟨k, l⟩ _ => ?_
    have hnames : (l.unplaced.nodes.valuesIn (orders.members k)).map (·.friendlyName) =
        (l.nodes.valuesIn (orders.members k)).map (·.friendlyName) := by
      show ((l.nodes.mapValues fun _ => Node.unplaced).valuesIn (orders.members k)).map _ = _
      rw [KeyMap.valuesIn_mapValues, List.map_map]
      rfl
    show (l.id, l.unplaced.document (orders.members k) (b.unplaced.pathOf l.parent)) = _
    unfold Layer.document
    rw [hnames, pathOf_unplaced]
    rfl
  · show ((b.comments.mapValues fun _ => Comment.unplaced).valuesIn orders.comments).map _ = _
    rw [KeyMap.valuesIn_mapValues, List.map_map]
    refine List.map_congr_left fun c _ => ?_
    show (c.id, c.unplaced.document (b.unplaced.pathOf c.layer)) = _
    rw [pathOf_unplaced]
    rfl

/-- Boards with one canonical text have the same documents, if their maps are met in the same orders. -/
theorem documents_of_canonicalText (h : b.canonicalText = b'.canonicalText) (orders : Orders) :
    b.documents orders = b'.documents orders := by
  rw [← documents_unplaced b, unplaced_of_canonicalText h, documents_unplaced]

end Board

end Workboard
