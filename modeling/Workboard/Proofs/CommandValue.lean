import Workboard.Command.Codec
import Workboard.Proofs.NormalForm
import Workboard.Proofs.Obtained

/-! Commands as JSON values. -/

namespace Workboard

open Shape

namespace Action

/-- The default value that an action sets. -/
def value? : Action → Option Json
  | createVariable r => r.value
  | updateVariable _ e => e.value
  | _ => none

/-- The JSON values that an action brings with it. -/
def values : Action → List Json
  | updateNodePin _ _ value => [value]
  | a => a.value?.toList

end Action

/-- A number as programs hold it: a whole number of 64 bits, or a finite binary64 number. -/
def JsonNumber.Held : JsonNumber → Prop
  | .whole n => -0x8000000000000000 ≤ n ∧ n ≤ 0xFFFFFFFFFFFFFFFF
  | .real x => x.isFinite = true
  | .single _ => False

/-- A value as programs hold it, its members by key. -/
structure Json.Held (j : Json) : Prop where
  sorted : j.sorted = j
  numbers : ∀ n ∈ j.numbers, n.Held

/-- An action that its JSON form says all of: its coordinates and sizes are finite, and its default value is not a `null`
    that would count as absent. -/
structure Action.Plain (a : Action) : Prop where
  spots : ∀ s ∈ a.spots, s.x.isFinite = true ∧ s.y.isFinite = true
  sizes : ∀ x ∈ a.sizes, x.isFinite = true
  values : ∀ j ∈ a.values, j.Held
  present : a.value? ≠ some .null

/-! ### In normal form -/

theorem Spot.keeps {s : Spot} (h : s.x.isFinite = true ∧ s.y.isFinite = true) : Spot.shape.Keeps s.toJson :=
  keeps_record ⟨rfl, keeps_real h.1, rfl, keeps_real h.2, trivial⟩ (by decide)

theorem PinRequest.keeps (p : PinRequest) : PinRequest.shape.Keeps (.ofMembers p.members) :=
  keeps_record ⟨rfl, keeps_text _, rfl, keeps_text _, rfl, keeps_ofText? _, rfl, keeps_text _, rfl, keeps_text _, rfl,
    keeps_ofText? _, trivial⟩ (by decide)

theorem keeps_spot? {o : Option Spot} (h : ∀ s ∈ o.toList, s.x.isFinite = true ∧ s.y.isFinite = true) :
    (nullable Spot.shape).Keeps (.ofMaybe Spot.toJson o) :=
  keeps_ofMaybe fun s hs => Spot.keeps (h s (Option.mem_toList.mpr hs))

theorem keeps_real? {o : Option Float} (h : ∀ x ∈ o.toList, x.isFinite = true) :
    (nullable real).Keeps (.ofMaybe .real o) :=
  keeps_ofMaybe fun x hx => keeps_real (h x (Option.mem_toList.mpr hx))

theorem keeps_value? {o : Option Json} (h : ∀ j ∈ o.toList, any.Keeps j) : (nullable any).Keeps (o.getD .null) := by
  cases o with
  | none => rfl
  | some j => exact keeps_nullable (h j List.mem_cons_self)

/-- The members of a command are the fields of its kind, in their order. -/
theorem Action.keep {a : Action} (h : a.Plain) (hdepth : ∀ j ∈ a.values, j.depth < Draft.nestingLimit) (o : Option String) :
    ∃ fs, Command.variants.cases.find? (·.1 = a.kind) = some (a.kind, fs) ∧
      (Command.variants.tag :: fs.names.map (·.1)).Nodup ∧
      fs.Keep (a.members .ofMembers ++ [("summary", .ofText? o)]) := by
  have hvalues : ∀ j ∈ a.values, any.Keeps j := fun j hj => keeps_any (hdepth j hj) (h.values j hj).sorted
  -- Each case names the shapes of the fields in their order; the summary comes last.
  cases a with
  | addNode r =>
    exact ⟨_, rfl, by decide, rfl, keeps_text _, rfl, keeps_ofText? _, rfl, keeps_spot? h.spots, rfl, keeps_ofText? _, rfl,
      keeps_ofText? _, rfl, keeps_ofText? o, trivial⟩
  | addPlaceholder r =>
    have hpins : (nullable (list PinRequest.shape)).Keeps
        (.ofMaybe (fun l => .array (l.map fun p => .ofMembers p.members)) r.pins) :=
      keeps_ofMaybe fun l _ => keeps_list fun p _ => p.keeps
    exact ⟨_, rfl, by decide, rfl, keeps_text _, rfl, keeps_ofText? _, rfl, keeps_spot? h.spots, rfl, hpins, rfl,
      keeps_ofText? _, rfl, keeps_ofText? o, trivial⟩
  | removeNode node => exact ⟨_, rfl, by decide, rfl, keeps_text _, rfl, keeps_ofText? o, trivial⟩
  | connectPins w =>
    exact ⟨_, rfl, by decide, rfl, keeps_text _, rfl, keeps_text _, rfl, keeps_text _, rfl, keeps_text _, rfl,
      keeps_ofText? o, trivial⟩
  | disconnectPins w =>
    exact ⟨_, rfl, by decide, rfl, keeps_text _, rfl, keeps_text _, rfl, keeps_text _, rfl, keeps_text _, rfl,
      keeps_ofText? o, trivial⟩
  | updateNodePin node pin value =>
    exact ⟨_, rfl, by decide, rfl, keeps_text _, rfl, keeps_text _, rfl, hvalues value List.mem_cons_self, rfl,
      keeps_ofText? o, trivial⟩
  | moveNode node spot layer =>
    exact ⟨_, rfl, by decide, rfl, keeps_text _, rfl, Spot.keeps (h.spots spot List.mem_cons_self), rfl, keeps_ofText? _,
      rfl, keeps_ofText? o, trivial⟩
  | createVariable r =>
    exact ⟨_, rfl, by decide, rfl, keeps_text _, rfl, keeps_text _, rfl, keeps_ofText? _, rfl, keeps_value? hvalues, rfl,
      keeps_ofText? _, rfl, keeps_flag _, rfl, keeps_ofText? o, trivial⟩
  | updateVariable id e =>
    exact ⟨_, rfl, by decide, rfl, keeps_text _, rfl, keeps_ofText? _, rfl, keeps_value? hvalues, rfl, keeps_ofText? _, rfl,
      keeps_ofText? o, trivial⟩
  | deleteVariable id => exact ⟨_, rfl, by decide, rfl, keeps_text _, rfl, keeps_ofText? o, trivial⟩
  | createComment r =>
    obtain ⟨hwidth, hheight⟩ := List.forall_mem_append.mp h.sizes
    exact ⟨_, rfl, by decide, rfl, keeps_text _, rfl, Spot.keeps (h.spots r.spot List.mem_cons_self), rfl,
      keeps_real? hwidth, rfl, keeps_real? hheight, rfl, keeps_ofText? _, rfl, keeps_ofText? _, rfl, keeps_ofText? o, trivial⟩
  | updateComment id e =>
    exact ⟨_, rfl, by decide, rfl, keeps_text _, rfl, keeps_ofText? _, rfl, keeps_ofText? _, rfl, keeps_spot? h.spots, rfl,
      keeps_ofText? o, trivial⟩
  | deleteComment id => exact ⟨_, rfl, by decide, rfl, keeps_text _, rfl, keeps_ofText? o, trivial⟩
  | createLayer r =>
    exact ⟨_, rfl, by decide, rfl, keeps_text _, rfl, keeps_ofTexts _, rfl, keeps_spot? h.spots, rfl, keeps_ofText? _, rfl,
      keeps_ofText? _, rfl, keeps_ofText? o, trivial⟩
  | addNodesToLayer layer nodes =>
    exact ⟨_, rfl, by decide, rfl, keeps_text _, rfl, keeps_ofTexts _, rfl, keeps_ofText? o, trivial⟩
  | removeNodesFromLayer layer nodes =>
    exact ⟨_, rfl, by decide, rfl, keeps_text _, rfl, keeps_ofTexts _, rfl, keeps_ofText? o, trivial⟩
  | removeLayer layer => exact ⟨_, rfl, by decide, rfl, keeps_text _, rfl, keeps_ofText? o, trivial⟩

/-! ### Read back -/

namespace Json

theorem maybe?_ofText? (o : Option String) : maybe? string? (ofText? o) = some o := by
  cases o <;> rfl

theorem maybe?_ofMaybe {α : Type} {f : Json → Option α} {enc : α → Json} {o : Option α}
    (h : ∀ x ∈ o, enc x ≠ .null ∧ f (enc x) = some x) : maybe? f (ofMaybe enc o) = some o := by
  cases o with
  | none => rfl
  | some x =>
    obtain ⟨hnull, hx⟩ := h x rfl
    show maybe? f (enc x) = _
    cases hj : enc x with
    | null => exact absurd hj hnull
    | bool | number | string | array | object =>
      rw [hj] at hx
      exact congrArg (Option.map some) hx

theorem maybe?_getD {o : Option Json} (h : o ≠ some .null) : maybe? present? (o.getD .null) = some o := by
  cases o with
  | none => rfl
  | some j =>
    cases j with
    | null => exact absurd rfl h
    | bool | number | string | array | object => rfl

theorem list?_map {α : Type} {f : Json → Option α} {enc : α → Json} {l : List α} (h : ∀ x ∈ l, f (enc x) = some x) :
    list? f (.array (l.map enc)) = some l := by
  show (l.map enc).mapM f = _
  rw [mapM_eq_some, List.forall₂_map_left_iff]
  exact List.forall₂_same.mpr h

theorem texts?_ofTexts (l : List String) : texts? (ofTexts l) = some l := list?_map fun _ _ => rfl

theorem float?_real {x : Float} (h : x.isFinite = true) : float? (real x) = some x := by
  rw [real, if_pos h]
  rfl

end Json

theorem Spot.ofJson?_toJson {s : Spot} (h : s.x.isFinite = true ∧ s.y.isFinite = true) : Spot.ofJson? s.toJson = some s := by
  have hmember (k : String) : s.toJson.member? k = KeyMap.find k [("x", Json.real s.x), ("y", Json.real s.y)] :=
    Json.member?_ofMembers_eq (by simp) k
  simp [ofJson?, Json.field?, hmember, KeyMap.find, Json.float?_real h.1, Json.float?_real h.2]

theorem PinRequest.ofJson?_members (p : PinRequest) : PinRequest.ofJson? (.ofMembers p.members) = some p := by
  have hmember (k : String) : (Json.ofMembers p.members).member? k = KeyMap.find k p.members :=
    Json.member?_ofMembers_eq (by simp [members]) k
  simp only [ofJson?, Json.field?, Json.fieldMaybe?, Json.fieldOr?, hmember]
  simp [members, KeyMap.find, Json.string?, Json.maybe?_ofText?]

theorem maybe?_spot {o : Option Spot} (h : ∀ s ∈ o.toList, s.x.isFinite = true ∧ s.y.isFinite = true) :
    Json.maybe? Spot.ofJson? (.ofMaybe Spot.toJson o) = some o :=
  Json.maybe?_ofMaybe fun s hs => ⟨Json.noConfusion, Spot.ofJson?_toJson (h s (Option.mem_toList.mpr hs))⟩

theorem maybe?_real {o : Option Float} (h : ∀ x ∈ o.toList, x.isFinite = true) :
    Json.maybe? Json.float? (.ofMaybe .real o) = some o :=
  Json.maybe?_ofMaybe fun x hx => by
    have hfinite := h x (Option.mem_toList.mpr hx)
    refine ⟨?_, Json.float?_real hfinite⟩
    rw [Json.real, if_pos hfinite]
    exact Json.noConfusion

theorem maybe?_pins (o : Option (List PinRequest)) :
    Json.maybe? (Json.list? PinRequest.ofJson?) (.ofMaybe (fun l => .array (l.map fun p => .ofMembers p.members)) o) =
      some o :=
  Json.maybe?_ofMaybe fun _ _ => ⟨Json.noConfusion, Json.list?_map fun p _ => p.ofJson?_members⟩

/-- An action is read from its members. -/
theorem Action.ofKind?_members {a : Action} (h : a.Plain) {j : Json}
    (hmember : ∀ e ∈ a.members .ofMembers, j.member? e.1 = some e.2) : ofKind? j a.kind = some a := by
  cases a with
  | removeNode | deleteVariable | deleteComment | removeLayer =>
    simp only [members, List.forall_mem_cons] at hmember
    simp [kind, ofKind?, Json.field?, hmember, Json.string?]
  | connectPins | disconnectPins =>
    simp only [members, WireRequest.members, List.forall_mem_cons] at hmember
    simp [kind, ofKind?, WireRequest.ofJson?, Json.field?, hmember, Json.string?]
  | addNodesToLayer | removeNodesFromLayer =>
    simp only [members, List.forall_mem_cons] at hmember
    simp [kind, ofKind?, Json.field?, hmember, Json.string?, Json.texts?_ofTexts]
  | updateNodePin =>
    simp only [members, List.forall_mem_cons] at hmember
    simp [kind, ofKind?, Json.field?, hmember, Json.string?]
  | addNode | addPlaceholder | updateComment =>
    have hspot := maybe?_spot h.spots
    simp only [members, List.forall_mem_cons] at hmember
    simp [kind, ofKind?, Json.field?, Json.fieldMaybe?, Json.fieldOr?, hmember, Json.string?, Json.maybe?_ofText?, hspot,
      maybe?_pins]
  | createLayer r =>
    have hspot := maybe?_spot h.spots
    simp only [members, List.forall_mem_cons] at hmember
    simp [kind, ofKind?, Json.field?, Json.fieldMaybe?, Json.fieldOr?, hmember, Json.string?, Json.maybe?_ofText?, hspot,
      Json.texts?_ofTexts]
  | moveNode node spot layer =>
    have hspot := Spot.ofJson?_toJson (h.spots spot List.mem_cons_self)
    simp only [members, List.forall_mem_cons] at hmember
    simp [kind, ofKind?, Json.field?, Json.fieldMaybe?, Json.fieldOr?, hmember, Json.string?, Json.maybe?_ofText?, hspot]
  | createVariable | updateVariable =>
    have hvalue := Json.maybe?_getD h.present
    simp only [value?] at hvalue
    simp only [members, List.forall_mem_cons] at hmember
    simp [kind, ofKind?, Json.field?, Json.fieldMaybe?, Json.fieldOr?, hmember, Json.string?, Json.bool?,
      Json.maybe?_ofText?, hvalue]
  | createComment r =>
    obtain ⟨hwidth, hheight⟩ := List.forall_mem_append.mp h.sizes
    have hspot := Spot.ofJson?_toJson (h.spots r.spot List.mem_cons_self)
    simp only [members, List.forall_mem_cons] at hmember
    simp [kind, ofKind?, Json.field?, Json.fieldMaybe?, Json.fieldOr?, hmember, Json.string?, Json.maybe?_ofText?, hspot,
      maybe?_real hwidth, maybe?_real hheight]

namespace Command

variable {c : Command}

/-- A command is read from its JSON form. -/
theorem ofJson_toJson (h : c.action.Plain) (hdepth : ∀ j ∈ c.action.values, j.depth < Draft.nestingLimit) :
    ofJson c.toJson = .ok c := by
  obtain ⟨fs, hcase, hnames, hkeep⟩ := Action.keep h hdepth c.summary
  have hread : variants.check c.toJson = .ok c.toJson := Variants.read_tagged hcase hnames hkeep
  have hkeys : ((c.members .ofMembers).map (·.1)).Nodup := by
    have hall := hnames
    rw [← hkeep.keys] at hall
    exact hall
  have hmember : ∀ e ∈ c.members .ofMembers, c.toJson.member? e.1 = some e.2 := fun e he =>
    (Json.member?_ofMembers hkeys).mpr he
  have haction : Action.ofKind? c.toJson c.kind = some c.action :=
    Action.ofKind?_members h fun e he => hmember e (by simp [members, he])
  have hkind := hmember ("command_type", .string c.kind) (by simp [members])
  have hsummary := hmember ("summary", .ofText? c.summary) (by simp [members])
  have hback : ofJson? c.toJson = some c := by
    simp [ofJson?, Json.field?, Json.fieldMaybe?, Json.fieldOr?, hkind, hsummary, Json.string?, haction,
      Json.maybe?_ofText?]
  rw [ofJson, hread]
  show Json.entity ofJson? c.toJson = _
  rw [Json.entity, hback]

end Command

end Workboard
