import Workboard.Proofs.LastingNodes

/-! The pins of a placeholder.

A placeholder has its two execution pins and one pin for each that the command asks for, under ids of their own
(`Node.Offers`). So a pin is found by its name; but ids come before names, and one of the ids that the board chose may be
the name of another pin (`Batch.placeholder_pins_found`). -/

namespace Workboard

/-- The pin is as it was asked for, its types as they are read. -/
structure PinRequest.Describes (r : PinRequest) (p : Pin) : Prop where
  name : p.name = r.name
  friendlyName : p.friendlyName = r.friendlyName
  description : p.description = r.description.getD ""
  direction : Direction.ofLoose? r.direction = some p.direction
  dataType : DataType.ofLoose? r.dataType = some p.dataType
  container : r.container.elim (some .single) Container.ofLoose? = some p.container

/-- The pin as it can be asked for: without id, connections and default value. -/
def Pin.form (p : Pin) : Pin := { p.bare with id := "" }

theorem PinRequest.describes_form {r : PinRequest} {p : Pin} : r.Describes p.form ↔ r.Describes p :=
  ⟨fun h => ⟨h.name, h.friendlyName, h.description, h.direction, h.dataType, h.container⟩,
    fun h => ⟨h.name, h.friendlyName, h.description, h.direction, h.dataType, h.container⟩⟩

/-- A node has one pin for each that was asked for, and they are called differently. -/
structure Node.Offers (n : Node) (requests : List PinRequest) (pins : List Pin) : Prop where
  perm : n.pins.values.Perm pins
  described : List.Forall₂ PinRequest.Describes requests pins
  names : (pins.map (·.name)).Nodup
  keyed : n.pins.Keyed Pin.id

namespace KeyMap

variable {α : Type} {m : KeyMap α}

/-- A value under a new key is one more. -/
theorem values_insert_perm {k : String} (hk : m.contains k = false) (v : α) : (m.insert k v).values.Perm (v :: m.values) := by
  have hentries : (m.insert k v).entries.Perm ((k, v) :: m.entries) := by
    have hnone := contains_eq_false_iff.mp hk
    refine (List.perm_ext_iff_of_nodup (nodup_keys _).of_map ?_).mpr fun e => ?_
    · refine List.nodup_cons.mpr ⟨fun h => ?_, (nodup_keys m).of_map⟩
      rw [get?_eq_some_iff_mem.mpr h] at hnone
      cases hnone
    · obtain ⟨j, w⟩ := e
      rw [← get?_eq_some_iff_mem, get?_insert, List.mem_cons, ← get?_eq_some_iff_mem, Prod.mk.injEq]
      by_cases hj : k = j
      · subst hj
        simp [hnone, eq_comm]
      · simp [hj, Ne.symm hj]
  exact hentries.map Prod.snd

end KeyMap

/-! ### Templates -/

namespace Placeholder

variable {pins after : KeyMap Pin} {r : PinRequest} {p : Pin} {n : Node} {requests : List PinRequest}

/-- The execution pins, as they would be asked for. -/
def ownRequests : List PinRequest := [
  ⟨"exec_in", "Input", none, "Input", "Execution", none⟩,
  ⟨"exec_out", "Output", none, "Output", "Execution", none⟩]

theorem need_eq_ok {α : Type} {o : Option α} {fault : ValueFault} {a : α} (h : need o fault = .ok a) : o = some a := by
  cases o with
  | none => cases h
  | some b => exact congrArg some (Except.ok.inj h)

theorem pin_eq_ok (h : pin pins r = .ok p) : pins.contains r.name = false ∧ r.Describes p := by
  unfold pin at h
  split at h
  · cases h
  · split at h
    · cases h
    · rename_i hname
      obtain ⟨d, hd, h⟩ := bind_eq_ok h
      obtain ⟨t, ht, h⟩ := bind_eq_ok h
      have hnew := Bool.eq_false_iff.mpr hname
      have hd := need_eq_ok hd
      have ht := need_eq_ok ht
      cases hcontainer : r.container with
      | none =>
        rw [hcontainer] at h
        cases h
        exact ⟨hnew, rfl, rfl, rfl, hd, ht, by rw [hcontainer]; rfl⟩
      | some raw =>
        rw [hcontainer] at h
        obtain ⟨c, hc, h⟩ := bind_eq_ok h
        have hc := need_eq_ok hc
        cases h
        exact ⟨hnew, rfl, rfl, rfl, hd, ht, by rw [hcontainer, Option.elim_some]; exact hc⟩

theorem addPins_eq_ok (h : addPins pins requests = .ok after) (hpins : pins.Keyed Pin.name) :
    ∃ added, List.Forall₂ PinRequest.Describes requests added ∧ after.values.Perm (pins.values ++ added) ∧
      after.Keyed Pin.name := by
  induction requests generalizing pins with
  | nil =>
    cases h
    exact ⟨[], .nil, by rw [List.append_nil], hpins⟩
  | cons r requests ih =>
    obtain ⟨p, hp, h⟩ := bind_eq_ok h
    obtain ⟨hnew, hdescribes⟩ := pin_eq_ok hp
    rw [← hdescribes.name] at hnew h
    obtain ⟨added, hadded, hperm, hkeyed⟩ := ih h (hpins.insert p)
    refine ⟨p :: added, .cons hdescribes hadded, hperm.trans ?_, hkeyed⟩
    exact ((KeyMap.values_insert_perm hnew p).append_right added).trans List.perm_middle.symm

/-- The template of a placeholder has the pins that were asked for. -/
theorem node_eq_ok {name : String} (h : node name requests = .ok n) :
    ∃ pins, List.Forall₂ PinRequest.Describes (ownRequests ++ requests) pins ∧ n.pins.values.Perm pins ∧
      (pins.map (·.name)).Nodup := by
  obtain ⟨pins, hpins, h⟩ := bind_eq_ok h
  cases h
  have hown : (KeyMap.ofList (ownPins.map fun p => (p.id, p))).values.Perm ownPins :=
    KeyMap.values_ofList_perm (by decide)
  have hdescribed : List.Forall₂ PinRequest.Describes ownRequests ownPins :=
    .cons ⟨rfl, rfl, rfl, rfl, rfl, rfl⟩ (.cons ⟨rfl, rfl, rfl, rfl, rfl, rfl⟩ .nil)
  have hnamed : (KeyMap.ofList (ownPins.map fun p => (p.id, p))).Keyed Pin.name := KeyMap.Keyed.ofList ownPins
  obtain ⟨added, hadded, hperm, hkeyed⟩ := addPins_eq_ok hpins hnamed
  have hall := hperm.trans (hown.append_right added)
  exact ⟨ownPins ++ added, List.rel_append hdescribed hadded, hall, (hall.map _).nodup_iff.mp hkeyed.nodup_map_values⟩

end Placeholder

theorem Action.creation_addPlaceholder {r : PlaceholderRequest} {c : Catalog} {view : Board} {made : Creation}
    (h : (addPlaceholder r).creation c view = .ok made) : Placeholder.node r.name (r.pins.getD []) = .ok made.template := by
  unfold creation at h
  obtain ⟨template, htemplate, h⟩ := bind_eq_ok h
  obtain ⟨_, hpure, h⟩ := bind_eq_ok h
  obtain ⟨-, -, h⟩ := bind_eq_ok h
  cases hpure
  cases h
  exact htemplate

/-! ### Nodes -/

namespace Node

variable {m n template : Node} {requests : List PinRequest} {pins : List Pin} {p : Pin}

/-- Pins in whatever order and under whatever ids are still described by what they are. -/
theorem exists_offers (hperm : (n.pins.values.map Pin.form).Perm (pins.map Pin.form))
    (hdescribed : List.Forall₂ PinRequest.Describes requests pins) (hnames : (pins.map (·.name)).Nodup)
    (hkeyed : n.pins.Keyed Pin.id) : ∃ own, n.Offers requests own := by
  have hvalues : List.Forall₂ (fun (x p : Pin) => x = p.form) (n.pins.values.map Pin.form) n.pins.values :=
    List.forall₂_map_left_iff.mpr (List.forall₂_same.mpr fun _ _ => rfl)
  obtain ⟨own, hforms, hown⟩ := List.perm_comp_forall₂ hperm.symm hvalues
  have hsame : pins.map Pin.form = own.map Pin.form := by
    rw [← List.forall₂_eq_eq_eq]
    exact List.forall₂_map_right_iff.mpr hforms
  have hall {l : List Pin} : List.Forall₂ PinRequest.Describes requests (l.map Pin.form) ↔
      List.Forall₂ PinRequest.Describes requests l := by
    rw [List.forall₂_map_right_iff]
    simp only [PinRequest.describes_form]
  have hcalled (l : List Pin) : (l.map Pin.form).map (·.name) = l.map (·.name) := List.map_map
  refine ⟨own, hown.symm, hall.mp (hsame ▸ hall.mpr hdescribed), ?_, hkeyed⟩
  rw [← hcalled, ← hsame, hcalled]
  exact hnames

theorem map_form_zipWith_renewed {pins : List Pin} {ids : List String} (h : ids.length = pins.length) :
    (List.zipWith Pin.renewed pins ids).map Pin.form = pins.map Pin.form := by
  induction pins generalizing ids with
  | nil => rfl
  | cons p pins ih =>
    cases ids with
    | nil => cases h
    | cons id ids => exact congrArg (p.form :: ·) (ih (Nat.succ.inj h))

/-- A node has the pins of its template. -/
theorem MadeOf.exists_offers {layer : Option String} (h : n.MadeOf template layer)
    (hdescribed : List.Forall₂ PinRequest.Describes requests pins) (hperm : template.pins.values.Perm pins)
    (hnames : (pins.map (·.name)).Nodup) : ∃ own, n.Offers requests own := by
  obtain ⟨ids, hlength, hpins⟩ := h.pins
  have hsize : ids.length = template.pins.values.length := hlength.trans (List.length_map _).symm
  have hforms := hpins.map Pin.form
  rw [map_form_zipWith_renewed hsize] at hforms
  exact Node.exists_offers (hforms.trans (hperm.map _)) hdescribed hnames h.keyed

theorem keyed_of_bare (hn : n.pins.Keyed Pin.id) (h : m.bare = n.bare) : m.pins.Keyed Pin.id := by
  intro k p hp
  have hsame := n.get?_bare k
  rw [← h, get?_bare, hp] at hsame
  obtain ⟨q, hq, hbare⟩ := Option.map_eq_some_iff.mp hsame.symm
  have hid : q.bare.id = p.bare.id := congrArg Pin.id hbare
  exact hid.symm.trans (hn k q hq)

theorem Offers.of_bare (hn : n.Offers requests pins) (h : m.bare = n.bare) : ∃ own, m.Offers requests own := by
  have hforms (n : Node) : n.pins.values.map Pin.form = n.bare.pins.values.map Pin.form := by
    rw [values_bare, List.map_map]
    rfl
  refine exists_offers ?_ hn.described hn.names (keyed_of_bare hn.keyed h)
  rw [hforms m, h, ← hforms n]
  exact hn.perm.map _

/-! ### Answers -/

theorem Offers.mem_pinIds {id : String} (h : n.Offers requests pins) : id ∈ n.pinIds ↔ ∃ p ∈ pins, p.id = id :=
  exists_congr fun _ => and_congr_left fun _ => h.perm.mem_iff

/-- A pin is found by its id. -/
theorem Offers.find?_id (h : n.Offers requests pins) (hp : p ∈ pins) :
    (PinTable.ofNode n).find? p.id = some ⟨p.id, .id⟩ :=
  PinTable.find?_id (h.mem_pinIds.mpr ⟨p, hp, rfl⟩)

/-- It is found by its name, unless this is the id of a pin. -/
theorem Offers.find?_name (h : n.Offers requests pins) (hp : p ∈ pins) (hids : ∀ q ∈ pins, q.id ≠ p.name) :
    (PinTable.ofNode n).find? p.name = some ⟨p.id, .name⟩ := by
  have hnone : n.answer? p.name .id = none := by
    refine answer?_eq_none_iff.mpr (Set.eq_empty_of_forall_notMem fun id hid => ?_)
    obtain ⟨rfl, hmem⟩ := mem_answering_id.mp hid
    obtain ⟨q, hq, hqid⟩ := h.mem_pinIds.mp hmem
    exact hids q hq hqid
  have hname : n.answer? p.name .name = some p.id := by
    refine answer?_eq_some_iff.mpr ⟨⟨p, h.perm.mem_iff.mpr hp, rfl, rfl⟩, ?_⟩
    rintro _ ⟨q, hq, hcalled, rfl⟩
    rw [List.inj_on_of_nodup_map h.names (h.perm.mem_iff.mp hq) hp hcalled]
  rw [PinTable.find?_ofNode]
  simp only [MatchKind.all, List.findSome?_cons, hnone, hname, Option.map_none, Option.map_some]

/-- What no pin is called finds none. -/
theorem find?_eq_none {ref : String} (h : ∀ p ∈ n.pins.values, ∀ kind ∈ MatchKind.all, p.called kind ≠ kind.sought ref) :
    (PinTable.ofNode n).find? ref = none := by
  rw [PinTable.find?_ofNode, List.findSome?_eq_none_iff]
  intro kind hkind
  rw [Option.map_eq_none_iff, answer?_eq_none_iff]
  refine Set.eq_empty_of_forall_notMem ?_
  rintro _ ⟨p, hp, hcalled, -⟩
  exact h p hp kind hkind hcalled

end Node

namespace Batch

variable {t : Occasion} {b view : Board} {commands : List Command} {k : Nat} {id : String}

theorem eq_ok_of_toOption {ε α : Type} {x : Except ε α} {a : α} (h : x.toOption = some a) : x = .ok a := by
  cases x with
  | error e => cases h
  | ok b => exact congrArg Except.ok (Option.some.inj h)

/-- Where references mean what a new table does, a pin that this finds by a trimmed text is what the text means. -/
theorem pin_of_find? {s : References} {n : Node} {ref pin : String} {found : PinMatch}
    (hpin : (s.pin ref n pin).toOption = (PinTable.ofNode n).resolve? pin) (htrim : Text.trim pin = pin)
    (hfound : (PinTable.ofNode n).find? pin = some found) : s.pin ref n pin = .ok found := by
  refine eq_ok_of_toOption (hpin.trans ?_)
  rw [PinTable.resolve?, htrim, hfound]

section Placeholder

variable {c : Command} {r : PlaceholderRequest} {ref : String} {j : Nat}

/-- The node of a placeholder is what its reference means. -/
theorem exists_placeholder (hc : commands[k]? = some c) (haction : c.action = .addPlaceholder r) (href : r.ref = some ref)
    (hblank : Text.trim ref ≠ "")
    (happlied : ((apply t b commands).run Memory.facility (.ofBoard b)).1.1.outcome? k =
      some ⟨k, "AddPlaceholder", .applied id⟩)
    (hlast : ∀ o ∈ ((apply t b commands).run Memory.facility (.ofBoard b)).1.1.outcomes,
      ¬ Rebinds commands k (Text.trim ref) o)
    (hview : view = boardAt t b commands j ∨ view = (upTo t b commands j).1.view) :
    ∃ n pins, (references t b commands).node view ref = .ok n ∧ n.id = id ∧
      n.Offers (Placeholder.ownRequests ++ r.pins.getD []) pins ∧
      ∀ pin, ((references t b commands).pin ref n pin).toOption = (PinTable.ofNode n).resolve? pin := by
  have halias : c.action.alias? = some (Text.trim ref) := by
    rw [haction]
    show (r.ref.map Text.trim).filter (· ≠ "") = _
    rw [href, Option.map_some, Option.filter_some, if_pos (decide_eq_true hblank)]
  have hkind : c.kind = "AddPlaceholder" := by rw [Command.kind, haction]; rfl
  obtain ⟨known, made, place, n, hmade, hn, hid, hfound⟩ := reference_lasts hc halias (hkind ▸ happlied) hlast
  obtain ⟨m, hnode, hbare, hpin⟩ := hfound j view hview
  rw [haction] at hmade
  obtain ⟨asked, hdescribed, hperm, hnames⟩ := Placeholder.node_eq_ok (Action.creation_addPlaceholder hmade)
  obtain ⟨own, hown⟩ := hn.exists_offers hdescribed hperm hnames
  obtain ⟨pins, hpins⟩ := hown.of_bare hbare
  exact ⟨m, pins, hnode, (Node.id_eq_of_bare hbare).trans hid, hpins, hpin⟩

/-- A placeholder that a command with a reference has made has its two execution pins and one pin for each that was asked
    for, its types as they are read. At every position of the batch, on the board and on the view, the reference means this
    node, unless a later command has taken it; and a name of a pin means the pin of this id if the node has one, and else
    the pin of this name. -/
theorem placeholder_pins_found (hc : commands[k]? = some c) (haction : c.action = .addPlaceholder r) (href : r.ref = some ref)
    (hblank : Text.trim ref ≠ "")
    (happlied : ((apply t b commands).run Memory.facility (.ofBoard b)).1.1.outcome? k =
      some ⟨k, "AddPlaceholder", .applied id⟩)
    (hlast : ∀ o ∈ ((apply t b commands).run Memory.facility (.ofBoard b)).1.1.outcomes,
      ¬ Rebinds commands k (Text.trim ref) o)
    (hview : view = boardAt t b commands j ∨ view = (upTo t b commands j).1.view) :
    let refs := references t b commands
    ∃ n pins, refs.node view ref = .ok n ∧ n.id = id ∧ n.Offers (Placeholder.ownRequests ++ r.pins.getD []) pins ∧
      ∀ d ∈ r.pins.getD [], ∃ p ∈ pins, d.Describes p ∧ (Text.trim d.name = d.name →
        (∀ q ∈ pins, q.id = d.name → refs.pin ref n d.name = .ok ⟨q.id, .id⟩) ∧
        ((∀ q ∈ pins, q.id ≠ d.name) → refs.pin ref n d.name = .ok ⟨p.id, .name⟩)) := by
  intro refs
  obtain ⟨n, pins, hnode, hid, hpins, hpin⟩ := exists_placeholder hc haction href hblank happlied hlast hview
  refine ⟨n, pins, hnode, hid, hpins, fun d hd => ?_⟩
  obtain ⟨p, hp, hdescribes⟩ := exists_of_forall₂ hpins.described (List.mem_append_right _ hd)
  refine ⟨p, hp, hdescribes, fun htrim => ⟨fun q hq hqid => ?_, fun hids => ?_⟩⟩
  · refine pin_of_find? (hpin d.name) htrim ?_
    rw [← hqid]
    exact hpins.find?_id hq
  · refine pin_of_find? (hpin d.name) htrim ?_
    rw [← hdescribes.name] at hids ⊢
    exact hpins.find?_name hp hids

end Placeholder

/-- A placeholder with a reference and two pins. -/
def onePlaceholder (ref first second : String) : List Command :=
  let pin (name : String) : PinRequest := ⟨name, "Value", none, "Input", "String", none⟩
  [⟨.addPlaceholder ⟨"Step", some ref, none, some [pin first, pin second], none⟩, none⟩]

/-- No other command takes the reference of the only command. -/
theorem not_rebinds_onePlaceholder {ref first second : String} {o : Outcome} (name : String) :
    ¬ Rebinds (onePlaceholder ref first second) 0 name o := by
  rintro ⟨hlater, -, c, hc, -⟩
  have hlength : o.index < 1 := (List.getElem?_eq_some_iff.mp hc).1
  omega

/-- One pin is found by its name; the name of the other is the id of an execution pin. -/
theorem placeholder_value_found :
    let t : Setting := ⟨[], .standard, .zero, 0⟩
    let b := Board.blank "b" "board"
    let commands := onePlaceholder " P" "value" "pin-2"
    let refs := references t b commands
    ((apply t b commands).run Memory.facility (.ofBoard b)).1.1.outcome? 0 = some ⟨0, "AddPlaceholder", .applied "node-1"⟩ ∧
      Text.trim " P" ≠ "" ∧ (∀ o, ¬ Rebinds commands 0 (Text.trim " P") o) ∧
      ∃ n p, refs.node (boardAt t b commands 1) " P" = .ok n ∧ n.id = "node-1" ∧ p ∈ n.pins.values ∧ p.name = "value" ∧
        refs.pin " P" n "value" = .ok ⟨p.id, .name⟩ ∧ refs.pin " P" n "pin-2" = .ok ⟨"pin-2", .id⟩ := by
  intro t b commands refs
  have happlied : ((apply t b commands).run Memory.facility (.ofBoard b)).1.1.outcome? 0 =
      some ⟨0, "AddPlaceholder", .applied "node-1"⟩ := by decide +kernel
  have hblank : Text.trim " P" ≠ "" := by decide +kernel
  have hids : ((refs.node (boardAt t b commands 1) " P").toOption.any fun n =>
      n.pins.values.any (·.id = "pin-2") && n.pins.values.all (·.id ≠ "value")) = true := by decide +kernel
  obtain ⟨n, pins, hnode, hid, hoffers, hpins⟩ := placeholder_pins_found (k := 0) (j := 1) rfl rfl rfl hblank happlied
    (fun o _ => not_rebinds_onePlaceholder _) (Or.inl rfl)
  rw [hnode] at hids
  obtain ⟨hsecond, hfirst⟩ := Bool.and_eq_true_iff.mp hids
  obtain ⟨p, hp, hdescribes, hvalue⟩ := hpins _ (List.mem_cons_self)
  obtain ⟨_, _, _, hpin⟩ := hpins _ (List.mem_cons_of_mem _ (List.mem_singleton_self _))
  obtain ⟨q, hq, hqid⟩ := List.any_eq_true.mp hsecond
  have hqid : q.id = "pin-2" := of_decide_eq_true hqid
  refine ⟨happlied, hblank, fun o => not_rebinds_onePlaceholder _, n, p, hnode, hid, hoffers.perm.mem_iff.mpr hp,
    hdescribes.name, (hvalue (by decide +kernel)).2 fun q hq => ?_, ?_⟩
  · exact of_decide_eq_true (List.all_eq_true.mp hfirst q (hoffers.perm.mem_iff.mpr hq))
  · have hfound := (hpin (by decide +kernel)).1 q (hoffers.perm.mem_iff.mp hq) hqid
    rwa [hqid] at hfound

/-- The board may choose the name of a pin as the id of another; a blank reference means nothing; and a name with white
    space around it is looked for without it. -/
theorem placeholder_pins_missed :
    let t : Setting := ⟨[], .standard, .zero, 0⟩
    let b := Board.blank "b" "board"
    let named := onePlaceholder "P" "value" "pin-2"
    let unnamed := onePlaceholder " " "value" "pin-2"
    let spaced := onePlaceholder "P" "value" " msg"
    let outcome (commands : List Command) := ((apply t b commands).run Memory.facility (.ofBoard b)).1.1.outcome? 0
    (outcome named = some ⟨0, "AddPlaceholder", .applied "node-1"⟩ ∧ (∀ o, ¬ Rebinds named 0 "P" o) ∧
      ∃ n p, (references t b named).node (boardAt t b named 1) "P" = .ok n ∧
        (references t b named).pin "P" n "pin-2" = .ok ⟨"pin-2", .id⟩ ∧ n.pins.get? "pin-2" = some p ∧ p.name = "exec_in") ∧
    (outcome unnamed = some ⟨0, "AddPlaceholder", .applied "node-1"⟩ ∧
      ((references t b unnamed).node (boardAt t b unnamed 1) " ").toOption.isNone = true) ∧
    outcome spaced = some ⟨0, "AddPlaceholder", .applied "node-1"⟩ ∧ (∀ o, ¬ Rebinds spaced 0 "P" o) ∧
      ∃ n, (references t b spaced).node (boardAt t b spaced 1) "P" = .ok n ∧ (∃ p ∈ n.pins.values, p.name = " msg") ∧
        ((references t b spaced).pin "P" n " msg").toOption = none := by
  intro t b named unnamed spaced outcome
  refine ⟨?_, ⟨by decide +kernel, by decide +kernel⟩, ?_⟩
  · have happlied : outcome named = some ⟨0, "AddPlaceholder", .applied "node-1"⟩ := by decide +kernel
    have hcheck : ((references t b named).node (boardAt t b named 1) "P").toOption.any (fun n =>
        (n.pins.get? "pin-2").any fun p => p.name = "exec_in") = true := by decide +kernel
    obtain ⟨n, pins, hnode, -, hoffers, hpin⟩ := exists_placeholder (k := 0) (j := 1) rfl rfl rfl (by decide +kernel)
      happlied (fun o _ => not_rebinds_onePlaceholder _) (Or.inl rfl)
    obtain ⟨m, hm, hcheck⟩ := exists_ok_of_any hcheck
    obtain rfl : m = n := Except.ok.inj (hm.symm.trans hnode)
    obtain ⟨p, hp, hname⟩ := Option.any_eq_true _ _ |>.mp hcheck
    have hid : p.id = "pin-2" := hoffers.keyed "pin-2" p hp
    have hmem : p ∈ pins := hoffers.perm.mem_iff.mp (KeyMap.mem_values.mpr ⟨"pin-2", hp⟩)
    have hfound := pin_of_find? (hpin p.id) (by rw [hid]; decide +kernel) (hoffers.find?_id hmem)
    rw [hid] at hfound
    exact ⟨happlied, fun o => not_rebinds_onePlaceholder _, m, p, hnode, hfound, hp, of_decide_eq_true hname⟩
  · have happlied : outcome spaced = some ⟨0, "AddPlaceholder", .applied "node-1"⟩ := by decide +kernel
    have hcheck : ((references t b spaced).node (boardAt t b spaced 1) "P").toOption.any (fun n =>
        n.pins.values.any (·.name = " msg") &&
          n.pins.values.all fun p => MatchKind.all.all fun kind => p.called kind ≠ kind.sought "msg") = true := by
      decide +kernel
    obtain ⟨n, -, hnode, -, -, hpin⟩ := exists_placeholder (k := 0) (j := 1) rfl rfl rfl (by decide +kernel)
      happlied (fun o _ => not_rebinds_onePlaceholder _) (Or.inl rfl)
    obtain ⟨m, hm, hcheck⟩ := exists_ok_of_any hcheck
    obtain rfl : m = n := Except.ok.inj (hm.symm.trans hnode)
    obtain ⟨hnamed, hcalled⟩ := Bool.and_eq_true_iff.mp hcheck
    obtain ⟨p, hp, hname⟩ := List.any_eq_true.mp hnamed
    refine ⟨happlied, fun o => not_rebinds_onePlaceholder _, m, hnode, ⟨p, hp, of_decide_eq_true hname⟩, ?_⟩
    have htrim : Text.trim " msg" = "msg" := by decide +kernel
    rw [hpin, PinTable.resolve?, htrim]
    simp only [List.all_eq_true, decide_eq_true_eq] at hcalled
    exact Node.find?_eq_none hcalled

end Batch

end Workboard
