import Workboard.Board.Codec
import Workboard.Proofs.Numbers
import Workboard.Proofs.SingleText

/-! A board document, read again.

A document has `null` for every number that is not finite. Coordinates must not be `null`, so the document of a
board with such a coordinate is refused; a size may be, and then the comment comes back without it. Apart from
that every entity is read from what it shows as itself, part by part, and so is the board
(`Board.ofText_document`). -/

namespace Workboard

open Shape

/-! ### Parts -/

theorem Direction.yields (d : Direction) : Direction.shape.Yields Direction.ofJson? d.toJson.shown d := by
  cases d <;> exact ⟨_, rfl, rfl⟩

theorem DataType.yields (t : DataType) : DataType.shape.Yields DataType.ofJson? t.toJson.shown t := by
  cases t <;> exact ⟨_, rfl, rfl⟩

theorem Container.yields (c : Container) : Container.shape.Yields Container.ofJson? c.toJson.shown c := by
  cases c <;> exact ⟨_, rfl, rfl⟩

theorem yields_keySet (s : KeySet) : (list text).Yields Json.keySet? (Json.ofKeySet s).shown s := by
  have hitems : (list text).Yields (Json.list? Json.string?) (Json.array (s.toList.map Json.string)).shown
      (s.toList.map id) := yields_list fun t _ => yields_text t
  rw [List.map_id] at hitems
  obtain ⟨v, hv, hx⟩ := hitems
  refine ⟨v, hv, ?_⟩
  have hback : KeySet.ofList s.toList = s := KeySet.ext fun k => by
    rw [Bool.eq_iff_iff, KeySet.contains_ofList, KeySet.mem_toList]
  rw [Json.keySet?, hx, Option.map_some, hback]

theorem yields_bytes (o : Option (List UInt8)) :
    (nullable Shape.bytes).Yields (Json.maybe? Json.bytes?) (Json.ofMaybe Json.ofBytes o).shown o := by
  have hbyte (b : UInt8) : (Shape.word 8).Yields (fun j => j.nat?.map UInt8.ofNat) (Json.nat b.toNat).shown b := by
    have hb := b.toNat_lt
    refine yields_whole (by omega) (by omega) ⟨by omega, ?_⟩ ?_
    · show (b.toNat : Int) ≤ 255
      omega
    · show some (UInt8.ofNat b.toNat) = some b
      rw [UInt8.ofNat_toNat]
  have hbytes (l : List UInt8) : Shape.bytes.Yields Json.bytes? (Json.ofBytes l).shown l := by
    have h : Shape.bytes.Yields Json.bytes? (Json.ofBytes l).shown (l.map id) := yields_list fun b _ => hbyte b
    rw [List.map_id] at h
    exact h
  have h := yields_nullable (o := o) (fun _ h => by cases h) rfl fun l _ => hbytes l
  cases o <;> exact h

theorem yields_word {n : Nat} (bits : Nat) (hbits : bits ≤ 64) (hn : n < 2 ^ bits) :
    (Shape.word bits).Yields Json.nat? (Json.nat n).shown n := by
  have hpow : (2 : Nat) ^ bits ≤ 2 ^ 64 := Nat.pow_le_pow_right (by decide) hbits
  refine yields_whole (by omega) (by omega) ⟨by omega, ?_⟩ rfl
  show (n : Int) ≤ ((2 ^ bits : Nat) : Int) - 1
  omega

theorem Version.yields (v : Version) : Version.shape.Yields Version.ofJson? v.toJson.shown v := by
  obtain ⟨a, ha, hmajor⟩ := yields_word 32 (by decide) v.major.toNat_lt
  obtain ⟨b, hb, hminor⟩ := yields_word 32 (by decide) v.minor.toNat_lt
  obtain ⟨c, hc, hpatch⟩ := yields_word 32 (by decide) v.patch.toNat_lt
  refine ⟨.array [a, b, c], ?_, ?_⟩
  · show (readTuple (fun d => (Shape.word 32).read false d) 3
      [(Json.nat v.major.toNat).shown, (Json.nat v.minor.toNat).shown, (Json.nat v.patch.toNat).shown] .closed).map
        Json.array = _
    simp only [readTuple, ha, hb, hc]
    rfl
  · simp [ofJson?, hmajor, hminor, hpatch]

namespace Place

def isFinite (p : Place) : Bool := p.x.isFinite && p.y.isFinite && p.z.isFinite

theorem yields (p : Place) (h : p.isFinite = true) : Place.shape.Yields Place.ofJson? p.toJson.shown p := by
  simp only [isFinite, Bool.and_eq_true] at h
  obtain ⟨a, ha, hx⟩ := yields_single h.1.1
  obtain ⟨b, hb, hy⟩ := yields_single h.1.2
  obtain ⟨c, hc, hz⟩ := yields_single h.2
  refine ⟨.array [a, b, c], ?_, ?_⟩
  · show (readTuple (fun d => real.read false d) 3
      [(Json.single p.x).shown, (Json.single p.y).shown, (Json.single p.z).shown] .closed).map Json.array = _
    simp only [readTuple, ha, hb, hc]
    rfl
  · simp [ofJson?, hx, hy, hz]

theorem isFinite_of_read {p : Place} {j : Json} (h : Place.shape.read false p.toJson.shown = .ok j) :
    p.isFinite = true := by
  have hfinite {x : Float32} {v : Json} (hv : real.read false (Json.single x).shown = .ok v) : x.isFinite = true := by
    cases hx : x.isFinite with
    | true => rfl
    | false =>
      rw [shown_single hx] at hv
      cases hv
  have htuple : (readTuple (fun d => real.read false d) 3
      [(Json.single p.x).shown, (Json.single p.y).shown, (Json.single p.z).shown] .closed).map Json.array = .ok j := h
  cases hx : real.read false (Json.single p.x).shown with
  | error e =>
    simp only [readTuple, hx] at htuple
    cases htuple
  | ok a =>
    cases hy : real.read false (Json.single p.y).shown with
    | error e =>
      simp only [readTuple, hx, hy] at htuple
      cases htuple
    | ok b =>
      cases hz : real.read false (Json.single p.z).shown with
      | error e =>
        simp only [readTuple, hx, hy, hz] at htuple
        cases htuple
      | ok c => simp only [isFinite, hfinite hx, hfinite hy, hfinite hz, Bool.and_true]

end Place

/-! ### Entities -/

theorem Pin.yields (p : Pin) : Pin.shape.Yields Pin.ofJson? p.toJson.shown p := by
  have hkeys : (Pin.fields.names.map (·.1)).Nodup := by decide
  have hread : ∃ j, Pin.shape.read false p.toJson.shown = .ok j := by
    refine read_record rfl hkeys ?_
    simp only [List.forall_mem_cons]
    exact ⟨(yields_text _).read_field rfl, (yields_text _).read_field rfl, (yields_text _).read_field rfl,
      (yields_text _).read_field rfl, p.direction.yields.read_field rfl, p.dataType.yields.read_field rfl,
      p.container.yields.read_field rfl, (yields_bytes _).read_field rfl, (yields_keySet _).read_field rfl,
      (yields_keySet _).read_field rfl, by simp⟩
  obtain ⟨j, hj⟩ := hread
  refine ⟨j, hj, ?_⟩
  have hid := field?_of_read hj hkeys "id" (by simp) rfl (yields_text p.id)
  have hname := field?_of_read hj hkeys "name" (by simp) rfl (yields_text p.name)
  have hfriendlyName := field?_of_read hj hkeys "friendly_name" (by simp) rfl (yields_text p.friendlyName)
  have hdescription := fieldOr?_of_read hj hkeys "description" (by simp) rfl (yields_text p.description) ""
  have hdirection := field?_of_read hj hkeys "pin_type" (by simp) rfl p.direction.yields
  have hdataType := field?_of_read hj hkeys "data_type" (by simp) rfl p.dataType.yields
  have hcontainer := fieldOr?_of_read hj hkeys "value_type" (by simp) rfl p.container.yields .single
  have hdefaultValue := fieldOr?_of_read hj hkeys "default_value" (by simp) rfl (yields_bytes p.defaultValue) none
  have hconnectedTo := fieldOr?_of_read hj hkeys "connected_to" (by simp) rfl (yields_keySet p.connectedTo) ∅
  have hdependsOn := fieldOr?_of_read hj hkeys "depends_on" (by simp) rfl (yields_keySet p.dependsOn) ∅
  simp [ofJson?, Json.fieldMaybe?, hid, hname, hfriendlyName, hdescription, hdirection, hdataType, hcontainer,
    hdefaultValue, hconnectedTo, hdependsOn]

theorem Node.yields (n : Node) (h : n.place.isFinite = true) :
    Node.shape.Yields Node.ofJson? n.toJson.shown n := by
  have hkeys : (Node.fields.names.map (·.1)).Nodup := by decide
  have hpins' : (map Pin.shape).Yields (Json.map? Pin.ofJson?) (Json.ofKeyMap Pin.toJson n.pins).shown n.pins :=
    yields_map_self fun _ p _ => p.yields
  have hplace' := n.place.yields h
  have hread : ∃ j, Node.shape.read false n.toJson.shown = .ok j := by
    refine read_record rfl hkeys ?_
    simp only [List.forall_mem_cons]
    exact ⟨(yields_text _).read_field rfl, (yields_text _).read_field rfl, (yields_text _).read_field rfl,
      (yields_text _).read_field rfl, (yields_text _).read_field rfl, (yields_ofText? _).read_field rfl,
      hpins'.read_field rfl, hplace'.read_field rfl, (yields_ofText? _).read_field rfl, by simp⟩
  obtain ⟨j, hj⟩ := hread
  refine ⟨j, hj, ?_⟩
  have hid := field?_of_read hj hkeys "id" (by simp) rfl (yields_text n.id)
  have hname := field?_of_read hj hkeys "name" (by simp) rfl (yields_text n.name)
  have hfriendlyName := field?_of_read hj hkeys "friendly_name" (by simp) rfl (yields_text n.friendlyName)
  have hcategory := fieldOr?_of_read hj hkeys "category" (by simp) rfl (yields_text n.category) ""
  have hdescription := fieldOr?_of_read hj hkeys "description" (by simp) rfl (yields_text n.description) ""
  have hcomment := fieldOr?_of_read hj hkeys "comment" (by simp) rfl (yields_ofText? n.comment) none
  have hpins := fieldOr?_of_read hj hkeys "pins" (by simp) rfl hpins' ∅
  have hplace := fieldOr?_of_read hj hkeys "coordinates" (by simp) rfl hplace' .origin
  have hlayer := fieldOr?_of_read hj hkeys "layer" (by simp) rfl (yields_ofText? n.layer) none
  simp [ofJson?, Json.fieldMaybe?, hid, hname, hfriendlyName, hcategory, hdescription, hcomment, hpins, hplace, hlayer]

theorem Node.isFinite_of_read {n : Node} {j : Json} (h : Node.shape.read false n.toJson.shown = .ok j) :
    n.place.isFinite = true := by
  have hkeys : (Node.fields.names.map (·.1)).Nodup := by decide
  obtain ⟨v, hv, -⟩ := member?_of_read h hkeys (k := "coordinates") (e := n.place.toJson) (by simp) rfl
  exact Place.isFinite_of_read hv

theorem mem_map_place {nodes : KeyMap Node} {k : String} {n : Node} (h : nodes.get? k = some n) :
    n.place ∈ nodes.values.map (·.place) := List.mem_map_of_mem (KeyMap.mem_values.mpr ⟨k, h⟩)

theorem yields_nodes (nodes : KeyMap Node) (h : ∀ p ∈ nodes.values.map (·.place), p.isFinite = true) :
    (map Node.shape).Yields (Json.map? Node.ofJson?) (Json.ofKeyMap Node.toJson nodes).shown nodes :=
  yields_map_self fun _ n hn => n.yields (h _ (mem_map_place hn))

theorem isFinite_of_read_nodes {nodes : KeyMap Node} {j : Json}
    (h : (map Node.shape).read false (Json.ofKeyMap Node.toJson nodes).shown = .ok j) :
    ∀ p ∈ nodes.values.map (·.place), p.isFinite = true := by
  intro p hp
  obtain ⟨n, hn, rfl⟩ := List.mem_map.mp hp
  obtain ⟨k, hk⟩ := KeyMap.mem_values.mp hn
  obtain ⟨v, hv⟩ := entry_of_read_map h hk
  exact Node.isFinite_of_read hv

theorem Layer.yields (l : Layer) (h : ∀ p ∈ l.places, p.isFinite = true) :
    Layer.shape.Yields Layer.ofJson? l.toJson.shown l := by
  have hkeys : (Layer.fields.names.map (·.1)).Nodup := by decide
  have hnodes' := yields_nodes l.nodes fun p hp => h p (List.mem_cons_of_mem _ hp)
  have hpins' : (map Pin.shape).Yields (Json.map? Pin.ofJson?) (Json.ofKeyMap Pin.toJson l.pins).shown l.pins :=
    yields_map_self fun _ p _ => p.yields
  have hplace' := l.place.yields (h _ List.mem_cons_self)
  have hread : ∃ j, Layer.shape.read false l.toJson.shown = .ok j := by
    refine read_record rfl hkeys ?_
    simp only [List.forall_mem_cons]
    exact ⟨(yields_text _).read_field rfl, (yields_text _).read_field rfl, (yields_ofText? _).read_field rfl,
      (yields_ofText? _).read_field rfl, hnodes'.read_field rfl, hpins'.read_field rfl, hplace'.read_field rfl,
      (yields_ofText? _).read_field rfl, by simp⟩
  obtain ⟨j, hj⟩ := hread
  refine ⟨j, hj, ?_⟩
  have hid := field?_of_read hj hkeys "id" (by simp) rfl (yields_text l.id)
  have hname := field?_of_read hj hkeys "name" (by simp) rfl (yields_text l.name)
  have hcomment := fieldOr?_of_read hj hkeys "comment" (by simp) rfl (yields_ofText? l.comment) none
  have hparent := fieldOr?_of_read hj hkeys "parent_id" (by simp) rfl (yields_ofText? l.parent) none
  have hnodes := fieldOr?_of_read hj hkeys "nodes" (by simp) rfl hnodes' ∅
  have hpins := fieldOr?_of_read hj hkeys "pins" (by simp) rfl hpins' ∅
  have hplace := fieldOr?_of_read hj hkeys "coordinates" (by simp) rfl hplace' .origin
  have hcolor := fieldOr?_of_read hj hkeys "color" (by simp) rfl (yields_ofText? l.color) none
  simp [ofJson?, Json.fieldMaybe?, hid, hname, hcomment, hparent, hnodes, hpins, hplace, hcolor]

theorem Layer.isFinite_of_read {l : Layer} {j : Json} (h : Layer.shape.read false l.toJson.shown = .ok j) :
    ∀ p ∈ l.places, p.isFinite = true := by
  have hkeys : (Layer.fields.names.map (·.1)).Nodup := by decide
  intro p hp
  rcases List.mem_cons.mp hp with rfl | hp
  · obtain ⟨v, hv, -⟩ := member?_of_read h hkeys (k := "coordinates") (e := l.place.toJson) (by simp) rfl
    exact Place.isFinite_of_read hv
  · obtain ⟨v, hv, -⟩ := member?_of_read h hkeys (k := "nodes") (e := .ofKeyMap Node.toJson l.nodes) (by simp) rfl
    exact isFinite_of_read_nodes hv p hp

theorem Variable.yields (v : Variable) : Variable.shape.Yields Variable.ofJson? v.toJson.shown v := by
  have hkeys : (Variable.fields.names.map (·.1)).Nodup := by decide
  have hread : ∃ j, Variable.shape.read false v.toJson.shown = .ok j := by
    refine read_record rfl hkeys ?_
    simp only [List.forall_mem_cons]
    exact ⟨(yields_text _).read_field rfl, (yields_text _).read_field rfl, v.dataType.yields.read_field rfl,
      v.container.yields.read_field rfl, (yields_ofText? _).read_field rfl, (yields_bytes _).read_field rfl,
      (yields_flag _).read_field rfl, (yields_flag _).read_field rfl, (yields_flag _).read_field rfl, by simp⟩
  obtain ⟨j, hj⟩ := hread
  refine ⟨j, hj, ?_⟩
  have hid := field?_of_read hj hkeys "id" (by simp) rfl (yields_text v.id)
  have hname := field?_of_read hj hkeys "name" (by simp) rfl (yields_text v.name)
  have hdataType := field?_of_read hj hkeys "data_type" (by simp) rfl v.dataType.yields
  have hcontainer := fieldOr?_of_read hj hkeys "value_type" (by simp) rfl v.container.yields .single
  have hdescription := fieldOr?_of_read hj hkeys "description" (by simp) rfl (yields_ofText? v.description) none
  have hdefaultValue := fieldOr?_of_read hj hkeys "default_value" (by simp) rfl (yields_bytes v.defaultValue) none
  have hsecret := fieldOr?_of_read hj hkeys "secret" (by simp) rfl (yields_flag v.secret) false
  have hexposed := fieldOr?_of_read hj hkeys "exposed" (by simp) rfl (yields_flag v.exposed) false
  have heditable := fieldOr?_of_read hj hkeys "editable" (by simp) rfl (yields_flag v.editable) true
  simp [ofJson?, Json.fieldMaybe?, hid, hname, hdataType, hcontainer, hdescription, hdefaultValue, hsecret, hexposed,
    heditable]

/-- The comment as its text shows it: without a size that is not finite. -/
def Comment.written (c : Comment) : Comment :=
  { c with width := c.width.filter Float32.isFinite, height := c.height.filter Float32.isFinite }

theorem yields_size (o : Option Float32) :
    (nullable real).Yields (Json.maybe? Json.float32?) (Json.ofMaybe Json.single o).shown (o.filter Float32.isFinite) := by
  cases o with
  | none => exact ⟨.null, rfl, rfl⟩
  | some x =>
    cases hx : x.isFinite with
    | true =>
      rw [Option.filter_some_pos hx]
      exact yields_nullable (o := some x) (fun _ h => by cases h) rfl fun y hy =>
        Option.some.inj hy ▸ yields_single hx
    | false =>
      rw [Option.filter_some_neg (by simp [hx])]
      refine ⟨.null, ?_, rfl⟩
      show (nullable real).read false (Json.single x).shown = _
      rw [shown_single hx]
      rfl

theorem yields_depth (o : Option Int32) :
    (nullable (whole (-0x80000000) 0x7FFFFFFF)).Yields (Json.maybe? fun j => j.whole?.map Int32.ofInt)
      (Json.ofMaybe (fun n => Json.whole n.toInt) o).shown o := by
  have hdepth (n : Int32) : (whole (-0x80000000) 0x7FFFFFFF).Yields (fun j => j.whole?.map Int32.ofInt)
      (Json.whole n.toInt).shown n := by
    have hlow := n.le_toInt
    have hhigh := n.toInt_lt
    refine yields_whole (by omega) (by omega) ⟨by omega, by omega⟩ ?_
    show some (Int32.ofInt n.toInt) = some n
    rw [Int32.ofInt_toInt]
  have h := yields_nullable (o := o) (fun _ h => by cases h) rfl fun n _ => hdepth n
  cases o <;> exact h

theorem Comment.yields (c : Comment) (h : c.place.isFinite = true) :
    Comment.shape.Yields Comment.ofJson? c.toJson.shown c.written := by
  have hkeys : (Comment.fields.names.map (·.1)).Nodup := by decide
  have hplace' := c.place.yields h
  have hstamp : (Shape.word 64).Yields (fun j => j.nat?.map UInt64.ofNat) (Json.nat c.timestamp.toNat).shown
      c.timestamp := by
    have hword := (yields_word 64 (Nat.le_refl _) c.timestamp.toNat_lt).comp UInt64.ofNat
    rw [UInt64.ofNat_toNat] at hword
    exact hword
  have hread : ∃ j, Comment.shape.read false c.toJson.shown = .ok j := by
    refine read_record rfl hkeys ?_
    simp only [List.forall_mem_cons]
    exact ⟨(yields_text _).read_field rfl, (yields_text _).read_field rfl, (yields_ofText? _).read_field rfl,
      hplace'.read_field rfl, (yields_size _).read_field rfl, (yields_size _).read_field rfl, (yields_depth _).read_field rfl,
      (yields_ofText? _).read_field rfl, hstamp.read_field rfl, (yields_ofText? _).read_field rfl, by simp⟩
  obtain ⟨j, hj⟩ := hread
  refine ⟨j, hj, ?_⟩
  have hid := field?_of_read hj hkeys "id" (by simp) rfl (yields_text c.id)
  have hcontent := field?_of_read hj hkeys "content" (by simp) rfl (yields_text c.content)
  have hcolor := fieldOr?_of_read hj hkeys "color" (by simp) rfl (yields_ofText? c.color) none
  have hplace := fieldOr?_of_read hj hkeys "coordinates" (by simp) rfl hplace' .origin
  have hwidth := fieldOr?_of_read hj hkeys "width" (by simp) rfl (yields_size c.width) none
  have hheight := fieldOr?_of_read hj hkeys "height" (by simp) rfl (yields_size c.height) none
  have hdepth := fieldOr?_of_read hj hkeys "z_index" (by simp) rfl (yields_depth c.depth) none
  have hauthor := fieldOr?_of_read hj hkeys "author" (by simp) rfl (yields_ofText? c.author) none
  have htimestamp := fieldOr?_of_read hj hkeys "timestamp" (by simp) rfl hstamp 0
  have hlayer := fieldOr?_of_read hj hkeys "layer" (by simp) rfl (yields_ofText? c.layer) none
  simp [ofJson?, written, Json.fieldMaybe?, hid, hcontent, hcolor, hplace, hwidth, hheight, hdepth, hauthor, htimestamp, hlayer]

theorem Comment.isFinite_of_read {c : Comment} {j : Json} (h : Comment.shape.read false c.toJson.shown = .ok j) :
    c.place.isFinite = true := by
  have hkeys : (Comment.fields.names.map (·.1)).Nodup := by decide
  obtain ⟨v, hv, -⟩ := member?_of_read h hkeys (k := "coordinates") (e := c.place.toJson) (by simp) rfl
  exact Place.isFinite_of_read hv

namespace Board

/-- The board as its document shows it. -/
def written (b : Board) : Board := { b with comments := b.comments.mapValues fun _ => Comment.written }

theorem mem_places_of_layer {b : Board} {k : String} {l : Layer} (h : b.layers.get? k = some l) {p : Place}
    (hp : p ∈ l.places) : p ∈ b.places :=
  List.mem_append_left _ (List.mem_append_right _ (List.mem_flatMap.mpr ⟨l, KeyMap.mem_values.mpr ⟨k, h⟩, hp⟩))

theorem mem_places_of_comment {b : Board} {k : String} {c : Comment} (h : b.comments.get? k = some c) :
    c.place ∈ b.places :=
  List.mem_append_right _ (List.mem_map_of_mem (KeyMap.mem_values.mpr ⟨k, h⟩))

theorem yields (b : Board) (h : ∀ p ∈ b.places, p.isFinite = true) :
    Board.shape.Yields Board.ofJson? b.toJson.shown b.written := by
  have hkeys : (Board.fields.names.map (·.1)).Nodup := by decide
  have hnodes' := yields_nodes b.nodes fun p hp => h p (List.mem_append_left _ (List.mem_append_left _ hp))
  have hvars' : (map Variable.shape).Yields (Json.map? Variable.ofJson?) (Json.ofKeyMap Variable.toJson b.vars).shown
      b.vars := yields_map_self fun _ v _ => v.yields
  have hcomments' : (map Comment.shape).Yields (Json.map? Comment.ofJson?)
      (Json.ofKeyMap Comment.toJson b.comments).shown b.written.comments :=
    yields_map fun _ c hc => c.yields (h _ (mem_places_of_comment hc))
  have hlayers' : (map Layer.shape).Yields (Json.map? Layer.ofJson?) (Json.ofKeyMap Layer.toJson b.layers).shown
      b.layers := yields_map_self fun _ l hl => l.yields fun p hp => h p (mem_places_of_layer hl hp)
  have hread : ∃ j, Board.shape.read false b.toJson.shown = .ok j := by
    refine read_record rfl hkeys ?_
    simp only [List.forall_mem_cons]
    exact ⟨(yields_text _).read_field rfl, (yields_text _).read_field rfl, (yields_text _).read_field rfl,
      hnodes'.read_field rfl, hvars'.read_field rfl, hcomments'.read_field rfl, hlayers'.read_field rfl,
      b.version.yields.read_field rfl, by simp⟩
  obtain ⟨j, hj⟩ := hread
  refine ⟨j, hj, ?_⟩
  have hid := field?_of_read hj hkeys "id" (by simp) rfl (yields_text b.id)
  have hname := fieldOr?_of_read hj hkeys "name" (by simp) rfl (yields_text b.name) ""
  have hdescription := fieldOr?_of_read hj hkeys "description" (by simp) rfl (yields_text b.description) ""
  have hnodes := fieldOr?_of_read hj hkeys "nodes" (by simp) rfl hnodes' ∅
  have hvars := fieldOr?_of_read hj hkeys "variables" (by simp) rfl hvars' ∅
  have hcomments := fieldOr?_of_read hj hkeys "comments" (by simp) rfl hcomments' ∅
  have hlayers := fieldOr?_of_read hj hkeys "layers" (by simp) rfl hlayers' ∅
  have hversion := fieldOr?_of_read hj hkeys "version" (by simp) rfl b.version.yields ⟨0, 0, 0⟩
  simp [ofJson?, written, hid, hname, hdescription, hnodes, hvars, hcomments, hlayers, hversion]

theorem readText_document (b : Board) : shape.readText b.document = shape.read false b.toJson.shown := by
  unfold readText document
  rw [JsonSource.ofText_pretty]
  show (shape.read false b.toJson.shown >>= fun x => if false then .error .malformed else .ok x) = _
  cases shape.read false b.toJson.shown <;> rfl

/-- Whatever is read from the document of a board, its coordinates were finite. -/
theorem isFinite_of_read {b : Board} {j : Json} (h : shape.read false b.toJson.shown = .ok j) :
    ∀ p ∈ b.places, p.isFinite = true := by
  have hkeys : (Board.fields.names.map (·.1)).Nodup := by decide
  intro p hp
  rcases List.mem_append.mp hp with hp | hp
  · rcases List.mem_append.mp hp with hp | hp
    · obtain ⟨v, hv, -⟩ := member?_of_read h hkeys (k := "nodes") (e := .ofKeyMap Node.toJson b.nodes) (by simp) rfl
      exact isFinite_of_read_nodes hv p hp
    · obtain ⟨v, hv, -⟩ := member?_of_read h hkeys (k := "layers") (e := .ofKeyMap Layer.toJson b.layers) (by simp) rfl
      obtain ⟨l, hl, hp⟩ := List.mem_flatMap.mp hp
      obtain ⟨k, hk⟩ := KeyMap.mem_values.mp hl
      obtain ⟨w, hw⟩ := entry_of_read_map hv hk
      exact Layer.isFinite_of_read hw p hp
  · obtain ⟨v, hv, -⟩ := member?_of_read h hkeys (k := "comments") (e := .ofKeyMap Comment.toJson b.comments) (by simp) rfl
    obtain ⟨c, hc, rfl⟩ := List.mem_map.mp hp
    obtain ⟨k, hk⟩ := KeyMap.mem_values.mp hc
    obtain ⟨w, hw⟩ := entry_of_read_map hv hk
    exact Comment.isFinite_of_read hw

/-- The document of a board is read as the board it shows if all coordinates are finite, and refused otherwise. -/
theorem ofText_document (b : Board) :
    if ∀ p ∈ b.places, p.isFinite = true then ofText b.document = .ok b.written
    else ∃ f, ofText b.document = .error f := by
  have hread : ofText b.document = shape.read false b.toJson.shown >>= fun j => j.entity ofJson? := by
    rw [← readText_document]
    rfl
  rw [hread]
  split
  · rename_i hfinite
    obtain ⟨j, hj, hb⟩ := b.yields hfinite
    rw [hj]
    show Json.entity ofJson? j = _
    rw [Json.entity, hb]
  · rename_i hinfinite
    cases hj : shape.read false b.toJson.shown with
    | ok j => exact absurd (isFinite_of_read hj) hinfinite
    | error f => exact ⟨f, rfl⟩

end Board

end Workboard
