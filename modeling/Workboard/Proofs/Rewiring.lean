import Workboard.Apply.Placeholder
import Workboard.Proofs.PinStep

/-! Connections made in any order.

Whether two pins can be connected does not depend on what is connected (`Board.needEnds_setEnds`). So each of several
connections is made or refused as it would be alone, and the pins have those that are made in addition to what they had, in
whatever order and however often (`Board.executeAll_connect`). A new connection is undone by removing it. -/

namespace Workboard

theorem KeySet.insertAll_congr {l l' : List String} (h : ∀ k, k ∈ l ↔ k ∈ l') (s : KeySet) :
    s.insertAll l = s.insertAll l' := by
  refine KeySet.ext fun k => Bool.eq_iff_iff.mpr ?_
  rw [contains_insertAll, contains_insertAll, h]

/-- A pin, of the node under a key, with those of the connections of which it is an end. -/
def Pin.withWires (p : Pin) (key pin : String) (ws : List Wire) : Pin :=
  { p with
    connectedTo := p.connectedTo.insertAll ((ws.filter fun w => w.fromNode = key ∧ w.fromPin = pin).map (·.toPin))
    dependsOn := p.dependsOn.insertAll ((ws.filter fun w => w.toNode = key ∧ w.toPin = pin).map (·.fromPin)) }

/-- A node under a key with connections made at its pins. -/
def Node.withWires (n : Node) (key : String) (ws : List Wire) : Node :=
  { n with pins := n.pins.mapValues fun k p => p.withWires key k ws }

theorem Pin.withWires_congr {ws ws' : List Wire} (h : ∀ w, w ∈ ws ↔ w ∈ ws') (p : Pin) (key pin : String) :
    p.withWires key pin ws = p.withWires key pin ws' := by
  unfold withWires
  congr 1 <;> refine KeySet.insertAll_congr (fun k => ?_) _ <;> simp only [List.mem_map, List.mem_filter, h]

theorem Node.withWires_congr {ws ws' : List Wire} (h : ∀ w, w ∈ ws ↔ w ∈ ws') (n : Node) (key : String) :
    n.withWires key ws = n.withWires key ws' := by
  unfold withWires
  simp only [Pin.withWires_congr h]

theorem Pin.withWires_cons (p : Pin) (key pin : String) (w : Wire) (ws : List Wire) :
    p.withWires key pin (w :: ws) = (p.setEnd key pin w true).withWires key pin ws := by
  unfold withWires setEnd
  simp only [List.filter_cons, decide_eq_true_eq]
  split <;> split <;> rfl

theorem Node.withWires_nil (n : Node) (key : String) : n.withWires key [] = n := by
  refine congrArg (fun pins => { n with pins }) (KeyMap.ext fun k => ?_)
  rw [KeyMap.get?_mapValues]
  exact Option.map_id'

theorem Node.withWires_cons (n : Node) (key : String) (w : Wire) (ws : List Wire) :
    n.withWires key (w :: ws) = (n.setEnds key w true).withWires key ws := by
  refine congrArg (fun pins => { n with pins }) (KeyMap.ext fun k => ?_)
  simp only [setEnds, KeyMap.get?_mapValues, Option.map_map, Function.comp_def, Pin.withWires_cons]

/-- A connection that is made and removed again leaves a pin that did not have it. -/
theorem Pin.setEnd_undo {p : Pin} {key pin : String} {w : Wire}
    (hout : w.fromNode = key → w.fromPin = pin → p.connectedTo.contains w.toPin = false)
    (hin : w.toNode = key → w.toPin = pin → p.dependsOn.contains w.fromPin = false) :
    (p.setEnd key pin w true).setEnd key pin w false = p := by
  have hundo : ∀ (s : KeySet) (k : String), s.contains k = false → (s.put k true).put k false = s := by
    intro s k hk
    refine KeySet.ext fun j => ?_
    rw [KeySet.contains_put, KeySet.contains_put]
    split
    · rename_i hj
      rw [← hj, hk]
    · rfl
  unfold setEnd
  by_cases hfrom : w.fromNode = key ∧ w.fromPin = pin <;> by_cases hto : w.toNode = key ∧ w.toPin = pin
  · simp only [if_pos hfrom, if_pos hto, hundo _ _ (hout hfrom.1 hfrom.2), hundo _ _ (hin hto.1 hto.2)]
  · simp only [if_pos hfrom, if_neg hto, hundo _ _ (hout hfrom.1 hfrom.2)]
  · simp only [if_neg hfrom, if_pos hto, hundo _ _ (hin hto.1 hto.2)]
  · simp only [if_neg hfrom, if_neg hto]

namespace Board

variable {b b' : Board} {w : Wire} {ws ws' : List Wire} {x : String}

/-- A board is known by the copies of its nodes and by all else. -/
theorem SameRest.eq (h : SameRest b b') (hcopy : ∀ shelf x, b'.copy? shelf x = b.copy? shelf x) : b' = b := by
  have hnodes : b'.nodes = b.nodes := KeyMap.ext (hcopy none)
  have hlayers : b'.layers = b.layers := by
    refine KeyMap.ext fun layer => ?_
    cases hl' : b'.layers.get? layer with
    | none =>
      have hnone := (h.contains layer).symm.trans (KeyMap.contains_eq_false_iff.mpr hl')
      exact (KeyMap.contains_eq_false_iff.mp hnone).symm
    | some l' =>
      obtain ⟨l, hl, he⟩ := h.layer hl'
      have hsame : l'.nodes = l.nodes := KeyMap.ext fun x => by
        have hx := hcopy (some layer) x
        rw [copy?, copy?, hl', hl] at hx
        exact hx
      rw [hl, he, hsame]
  obtain ⟨hid, hname, hdescription, hversion, hvars, hcomments, -⟩ := h
  cases b
  cases b'
  subst hid hname hdescription hversion hvars hcomments hnodes hlayers
  rfl

/-! ### Single connections -/

theorem node?_setEnds (b : Board) (w : Wire) (on : Bool) (x : String) :
    (b.setEnds w on).node? x = (b.node? x).map (·.setEnds x w on) :=
  (sameRest_setEnds b w on).node?_map fun shelf => copy?_setEnds b w on shelf x

/-- Connections do not count for whether pins can be connected. -/
theorem needEnds_setEnds (b : Board) (w : Wire) (on : Bool) (w' : Wire) : (b.setEnds w on).needEnds w' = b.needEnds w' := by
  have hnode : ∀ x, (b.setEnds w on).needNode x = (b.needNode x).map (·.setEnds x w on) := fun x => by
    unfold needNode
    rw [node?_setEnds]
    cases b.node? x <;> rfl
  have hpin : ∀ (n : Node) (x k : String), needPin (n.setEnds x w on) x k = (needPin n x k).map (·.setEnd x k w on) :=
    fun n x k => by
      unfold needPin Node.setEnds
      rw [KeyMap.get?_mapValues]
      cases n.pins.get? k <;> rfl
  unfold needEnds
  rw [hnode, hnode]
  cases b.needNode w'.fromNode with
  | error e => rfl
  | ok source =>
    cases b.needNode w'.toNode with
    | error e => rfl
    | ok target =>
      simp only [Except.map, bind, Except.bind, hpin]
      cases needPin source w'.fromNode w'.fromPin with
      | error e => rfl
      | ok output => cases needPin target w'.toNode w'.toPin <;> rfl

/-- Makes several connections. -/
def joinAll (b : Board) (ws : List Wire) : Board := ws.foldl (fun b w => b.setEnds w true) b

theorem sameRest_joinAll (b : Board) (ws : List Wire) : SameRest b (b.joinAll ws) :=
  List.foldlRecOn (motive := fun b' => SameRest b b') ws _ (SameRest.refl b) fun b' h w _ => h.trans (sameRest_setEnds b' w true)

theorem copy?_joinAll (b : Board) (ws : List Wire) (shelf : Option String) (x : String) :
    (b.joinAll ws).copy? shelf x = (b.copy? shelf x).map (·.withWires x ws) := by
  unfold joinAll
  induction ws generalizing b with
  | nil => simp [Node.withWires_nil]
  | cons w ws ih =>
    rw [List.foldl_cons, ih, copy?_setEnds, Option.map_map]
    simp only [Function.comp_def, Node.withWires_cons]

/-- It matters neither in which order connections are made nor how often. -/
theorem joinAll_congr (b : Board) (h : ∀ w, w ∈ ws ↔ w ∈ ws') : b.joinAll ws = b.joinAll ws' := by
  refine ((sameRest_joinAll b ws').symm.trans (sameRest_joinAll b ws)).eq fun shelf x => ?_
  simp only [copy?_joinAll, Node.withWires_congr h]

/-! ### Mutations -/

theorem execute_connect_of_ok {w : Wire} (h : b.needEnds w = .ok ()) :
    b.execute (.connect w) = ⟨(b.setEnds w true).countChange, .ok (.connection w.fromPin w.toPin)⟩ := by
  have hperform : b.perform (.connect w) = ⟨b.setEnds w true, .ok (.connection w.fromPin w.toPin)⟩ := by
    show b.connect w = _
    rw [connect, h]
    rfl
  rw [execute, hperform]

theorem execute_connect_of_error {w : Wire} {e : BoardError} (h : b.needEnds w = .error e) :
    b.execute (.connect w) = ⟨b, .error e⟩ := by
  have hperform : b.perform (.connect w) = ⟨b, .error e⟩ := by
    show b.connect w = _
    rw [connect, h]
    rfl
  rw [execute, hperform]

theorem result_connect (b : Board) (w : Wire) : (b.execute (.connect w)).result =
    (b.needEnds w).map fun _ => .connection w.fromPin w.toPin := by
  cases hends : b.needEnds w with
  | error e =>
    rw [execute_connect_of_error hends]
    rfl
  | ok u =>
    rw [execute_connect_of_ok hends]
    rfl

theorem isOk_connect (b : Board) (w : Wire) : (b.execute (.connect w)).result.isOk = (b.needEnds w).isOk := by
  rw [result_connect]
  cases b.needEnds w <;> rfl

/-- Carries mutations out one after the other, whether or not some are refused. -/
def executeAll (b : Board) : List Mutation → List (Except BoardError Receipt) × Board
  | [] => ([], b)
  | m :: r =>
    let effect := b.execute m
    let (results, last) := effect.board.executeAll r
    (effect.result :: results, last)

/-- The connections that can be made. -/
def makeable (b : Board) (ws : List Wire) : List Wire := ws.filter fun w => (b.execute (.connect w)).result.isOk

theorem makeable_congr (h : ∀ w, b'.needEnds w = b.needEnds w) (ws : List Wire) : b'.makeable ws = b.makeable ws := by
  unfold makeable
  simp only [isOk_connect, h]

theorem needEnds_execute_connect (b : Board) (w w' : Wire) : (b.execute (.connect w)).board.needEnds w' = b.needEnds w' := by
  cases hends : b.needEnds w with
  | error e => rw [execute_connect_of_error hends]
  | ok u =>
    rw [execute_connect_of_ok hends]
    exact b.needEnds_setEnds w true w'

theorem joinAll_countChange (b : Board) (ws : List Wire) : b.countChange.joinAll ws = (b.joinAll ws).countChange := by
  unfold joinAll
  induction ws generalizing b with
  | nil => rfl
  | cons w ws ih => exact ih (b.setEnds w true)

/-- Each connection is made or refused as it would be alone; the board has those that are made, each counted once. -/
theorem executeAll_connect (b : Board) (ws : List Wire) : b.executeAll (ws.map .connect) =
    (ws.map fun w => (b.execute (.connect w)).result, countChange^[(b.makeable ws).length] (b.joinAll (b.makeable ws))) := by
  induction ws generalizing b with
  | nil => rfl
  | cons w ws ih =>
    have hsame := b.needEnds_execute_connect w
    have hresults : ∀ w', ((b.execute (.connect w)).board.execute (.connect w')).result = (b.execute (.connect w')).result :=
      fun w' => by rw [result_connect, result_connect, hsame]
    rw [List.map_cons, executeAll, ih]
    simp only [hresults, makeable_congr hsame, List.map_cons]
    refine congrArg (Prod.mk _) ?_
    cases hends : b.needEnds w with
    | error e =>
      have hrefused : ¬ (b.execute (.connect w)).result.isOk = true := by
        rw [isOk_connect, hends]
        exact Bool.false_ne_true
      have hsame : b.makeable (w :: ws) = b.makeable ws := List.filter_cons_of_neg hrefused
      rw [execute_connect_of_error hends, hsame]
    | ok u =>
      have hmade : (b.execute (.connect w)).result.isOk = true := by
        rw [isOk_connect, hends]
        rfl
      have hcons : b.makeable (w :: ws) = w :: b.makeable ws := List.filter_cons_of_pos hmade
      rw [execute_connect_of_ok hends, hcons, List.length_cons, joinAll_countChange, Function.iterate_succ_apply]
      rfl

/-! ### Undoing a connection -/

/-- No copy of the nodes has the connection at either end. -/
structure Apart (b : Board) (w : Wire) : Prop where
  source : ∀ shelf n p, b.copy? shelf w.fromNode = some n → n.pins.get? w.fromPin = some p →
    p.connectedTo.contains w.toPin = false
  target : ∀ shelf n p, b.copy? shelf w.toNode = some n → n.pins.get? w.toPin = some p →
    p.dependsOn.contains w.fromPin = false

theorem Apart.setEnds_undo (h : b.Apart w) : (b.setEnds w true).setEnds w false = b := by
  refine ((sameRest_setEnds b w true).trans (sameRest_setEnds _ w false)).eq fun shelf x => ?_
  rw [copy?_setEnds, copy?_setEnds]
  cases hn : b.copy? shelf x with
  | none => rfl
  | some n =>
    refine congrArg (fun pins => some { n with pins }) (KeyMap.ext fun k => ?_)
    simp only [Node.setEnds, KeyMap.get?_mapValues, Option.map_map]
    cases hp : n.pins.get? k with
    | none => rfl
    | some p =>
      refine congrArg some (Pin.setEnd_undo (fun hx hk => ?_) fun hx hk => ?_)
      · subst hx hk
        exact h.source shelf n p hn hp
      · subst hx hk
        exact h.target shelf n p hn hp

theorem get?_of_needPin {n : Node} {x k : String} {p : Pin} (h : needPin n x k = .ok p) : n.pins.get? k = some p := by
  unfold needPin at h
  split at h
  · cases h
    assumption
  · cases h

/-- Pins that can be connected are those of nodes on the board. -/
theorem pins_of_needEnds (h : b.needEnds w = .ok ()) :
    (∃ n p, b.node? w.fromNode = some n ∧ n.pins.get? w.fromPin = some p) ∧
      ∃ n p, b.node? w.toNode = some n ∧ n.pins.get? w.toPin = some p := by
  unfold needEnds at h
  obtain ⟨source, hsource, h⟩ := bind_eq_ok h
  obtain ⟨target, htarget, h⟩ := bind_eq_ok h
  obtain ⟨p, hp, h⟩ := bind_eq_ok h
  obtain ⟨q, hq, -⟩ := bind_eq_ok h
  exact ⟨⟨source, p, needNode_eq_ok.mp hsource, get?_of_needPin hp⟩, target, q, needNode_eq_ok.mp htarget, get?_of_needPin hq⟩

theorem isConnected_setEnds_self (h : b.needEnds w = .ok ()) (on : Bool) : (b.setEnds w on).isConnected w = on := by
  obtain ⟨⟨source, p, hsource, hpin⟩, -⟩ := pins_of_needEnds h
  unfold isConnected
  rw [node?_setEnds, hsource]
  simp [Node.setEnds, KeyMap.get?_mapValues, hpin, Pin.setEnd, KeySet.contains_put]

theorem isConnected_setEnds (h : b.needEnds w = .ok ()) : (b.setEnds w true).isConnected w = true :=
  isConnected_setEnds_self h true

theorem execute_disconnect_of_connected (hends : b.needEnds w = .ok ()) (hon : b.isConnected w = true) :
    b.execute (.disconnect w) = ⟨(b.setEnds w false).countChange, .ok (.connection w.fromPin w.toPin)⟩ := by
  have hperform : b.perform (.disconnect w) = ⟨b.setEnds w false, .ok (.connection w.fromPin w.toPin)⟩ := by
    show b.disconnect w = _
    unfold disconnect
    rw [hends]
    simp only [Effect.given, hon, if_true]
    rfl
  unfold execute
  rw [hperform]

/-! ### Counted changes -/

theorem SameRest.countChange (h : SameRest b b') : SameRest b.countChange b'.countChange :=
  ⟨h.id, h.name, h.description, congrArg (fun v : Version => { v with patch := v.patch + 1 }) h.version, h.vars,
    h.comments, h.layers⟩

theorem SameRest.iterate_countChange (h : SameRest b b') (n : Nat) :
    SameRest (Board.countChange^[n] b) (Board.countChange^[n] b') := by
  induction n generalizing b b' with
  | zero => exact h
  | succ n ih => exact ih h.countChange

/-- Changes that are counted count in the version only. -/
theorem iterate_countChange (n : Nat) (b : Board) : countChange^[n] b = { b with version := (countChange^[n] b).version } := by
  induction n generalizing b with
  | zero => rfl
  | succ n ih => exact ih b.countChange

/-- Several connections are made one after the other. Which are made, and why others are not, depends on the first board only;
the pins have those that are made besides what they had, and all else stays the same. The order does not matter at all, and
repetitions matter for the version only. A connection that neither end has, in any copy, can be removed right after it was
made, and then the board is as before but for the version. -/
theorem connect_in_any_order (b : Board) (ws : List Wire) :
    (b.executeAll (ws.map .connect)).1 = ws.map (fun w => (b.execute (.connect w)).result) ∧
    ((∀ shelf x, (b.executeAll (ws.map .connect)).2.copy? shelf x = (b.copy? shelf x).map (·.withWires x (b.makeable ws))) ∧
      SameRest (countChange^[(b.makeable ws).length] b) (b.executeAll (ws.map .connect)).2) ∧
    (∀ ws' : List Wire, ws.Perm ws' → (b.executeAll (ws'.map .connect)).2 = (b.executeAll (ws.map .connect)).2) ∧
    (∀ ws' : List Wire, (∀ w, w ∈ ws ↔ w ∈ ws') → { (b.executeAll (ws'.map .connect)).2 with version := b.version } =
      { (b.executeAll (ws.map .connect)).2 with version := b.version }) ∧
    ∀ w r, (b.execute (.connect w)).result = .ok r → b.Apart w →
      (b.execute (.connect w)).board.execute (.disconnect w) = ⟨countChange^[2] b, .ok (.connection w.fromPin w.toPin)⟩ := by
  simp only [executeAll_connect]
  refine ⟨trivial, ⟨fun shelf x => ?_, (sameRest_joinAll b _).iterate_countChange _⟩, fun ws' hperm => ?_, fun ws' hmem => ?_,
    fun w r hr hapart => ?_⟩
  · rw [iterate_countChange]
    exact b.copy?_joinAll _ shelf x
  · have hmade : (b.makeable ws).Perm (b.makeable ws') := hperm.filter _
    rw [hmade.length_eq, b.joinAll_congr fun w => hmade.mem_iff]
  · have hmade : ∀ w, w ∈ b.makeable ws ↔ w ∈ b.makeable ws' := fun w => by
      rw [makeable, makeable, List.mem_filter, List.mem_filter, hmem]
    rw [iterate_countChange, iterate_countChange (b.makeable ws).length, b.joinAll_congr hmade]
  · have hends : b.needEnds w = .ok () := by
      rw [result_connect] at hr
      cases hends : b.needEnds w with
      | error e =>
        rw [hends] at hr
        cases hr
      | ok u => rfl
    -- The new connection does not bear on whether its ends can be connected.
    have hends' : (b.setEnds w true).countChange.needEnds w = .ok () := (b.needEnds_setEnds w true w).trans hends
    have hboard : (b.execute (.connect w)).board = (b.setEnds w true).countChange := by
      rw [execute_connect_of_ok hends]
    rw [hboard, execute_disconnect_of_connected hends' (isConnected_setEnds hends)]
    show (⟨((b.setEnds w true).setEnds w false).countChange.countChange, _⟩ : Effect) = _
    rw [hapart.setEnds_undo]
    rfl

/-- Two nodes, one with an output and one with an input. -/
def pair : Board :=
  let node (id pin : String) (d : Direction) : Node :=
    ⟨id, id, id, "", "", none, .ofList [(pin, Placeholder.plainPin pin pin "" d .string .single)], .origin, none⟩
  { blank "b" "board" with nodes := .ofList [("m", node "m" "out" .output), ("n", node "n" "in" .input)] }

theorem apart_pair : pair.Apart ⟨"m", "out", "n", "in"⟩ := by
  constructor <;> rintro (_ | layer) n p hn hp
  · cases hn
    cases hp
    rfl
  · cases hn
  · cases hn
    cases hp
    rfl
  · cases hn

/-- A connection is made twice, with one in between that goes the wrong way, and once undone. -/
theorem connect_pair :
    let w : Wire := ⟨"m", "out", "n", "in"⟩
    let back : Wire := ⟨"n", "in", "m", "out"⟩
    let last := (pair.executeAll ([w, back, w].map .connect)).2
    pair.makeable [w, back, w] = [w, w] ∧ last.copy? none "m" = (pair.copy? none "m").map (·.withWires "m" [w, w]) ∧
    (last.nodePin? "m" "out").map (·.connectedTo.toList) = some ["in"] ∧
    (last.nodePin? "n" "in").map (·.dependsOn.toList) = some ["out"] ∧
    (pair.executeAll ([back, w, w].map .connect)).2 = last ∧ pair.Apart w ∧
    (pair.execute (.connect w)).board.execute (.disconnect w) = ⟨countChange^[2] pair, .ok (.connection "out" "in")⟩ := by
  intro w back last
  obtain ⟨-, ⟨hcopies, -⟩, hperm, -, hundo⟩ := connect_in_any_order pair [w, back, w]
  have hmade : pair.makeable [w, back, w] = [w, w] := by decide
  refine ⟨hmade, hmade ▸ hcopies none "m", by decide, by decide, hperm [back, w, w] (.swap _ _ _), apart_pair, ?_⟩
  exact hundo w (.connection "out" "in") rfl apart_pair

end Board

end Workboard
