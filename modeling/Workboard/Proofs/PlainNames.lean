import Mathlib
import Workboard.Apply.Addressing
import Workboard.Proofs.NodeIds

/-! References that are no positions.

Where the commands of a batch stand in it shows in the aliases `$0`, `$1` and so on only. References that agree in all
other names (`References.Agree`) still do so when they register one node at different positions, and an action that names
no position stands for the same mutation with either, or fails for the same reason but for the positions that would do
(`Action.mutation_agree`). -/

namespace Workboard

/-- A name that is no position of a command. -/
def Unnumbered (name : String) : Prop := name.toList.head? ≠ some '$'

instance (name : String) : Decidable (Unnumbered name) := inferInstanceAs (Decidable (_ ≠ _))

theorem not_unnumbered_position (p : Nat) : ¬ Unnumbered s!"${p}" := by
  intro h
  refine h ?_
  show ("$" ++ toString p).toList.head? = some '$'
  simp

theorem exists_freshFrom (taken : KeySet) (stem : String) (fuel n : Nat) :
    ∃ k, freshFrom taken stem fuel n = numberedId stem k := by
  induction fuel generalizing n with
  | zero => exact ⟨n, rfl⟩
  | succ fuel ih =>
    unfold freshFrom
    split
    · exact ih (n + 1)
    · exact ⟨n, rfl⟩

theorem unnumbered_freshId (taken : KeySet) : Unnumbered (freshId taken "node") := by
  obtain ⟨k, hk⟩ := exists_freshFrom taken "node" taken.size (taken.size + 1)
  rw [freshId, hk, numberedId]
  show ("node" ++ ("-" ++ toString k)).toList.head? ≠ some '$'
  simp

/-- The ids of the nodes are no positions. -/
abbrev Board.Unnumbered (b : Board) : Prop := b.Labelled fun _ id => Workboard.Unnumbered id

/-- The same names but for positions. -/
def SameNames (l l' : List String) : Prop := ∀ name, Unnumbered name → (name ∈ l ↔ name ∈ l')

theorem SameNames.concat {l l' : List String} (h : SameNames l l') (name : String) : SameNames (l ++ [name]) (l' ++ [name]) := by
  intro other hother
  rw [List.mem_append, List.mem_append, h other hother]

/-- Two errors that are the same, but for the positions among the references that would do. -/
inductive ApplyError.SameButPositions : ApplyError → ApplyError → Prop where
  | refl (e : ApplyError) : SameButPositions e e
  | nodeNotFound (ref : String) {known known' : List String} (h : SameNames known known') :
      SameButPositions (.nodeNotFound ref known) (.nodeNotFound ref known')

/-- The same result, or two errors that are the same but for positions. -/
inductive SameAnswer {α : Type} : Except ApplyError α → Except ApplyError α → Prop where
  | ok (a : α) : SameAnswer (.ok a) (.ok a)
  | error {e e' : ApplyError} (h : e.SameButPositions e') : SameAnswer (.error e) (.error e')

namespace SameAnswer

variable {α β : Type} {x x' : Except ApplyError α}

theorem refl (x : Except ApplyError α) : SameAnswer x x := by
  cases x with
  | ok a => exact .ok a
  | error e => exact .error (.refl e)

theorem bind {f f' : α → Except ApplyError β} (h : SameAnswer x x') (hf : ∀ a, x = .ok a → SameAnswer (f a) (f' a)) :
    SameAnswer (x >>= f) (x' >>= f') := by
  cases h with
  | ok a => exact hf a rfl
  | error h => exact .error h

theorem map (h : SameAnswer x x') (f : α → β) : SameAnswer (x.map f) (x'.map f) := by
  cases h with
  | ok a => exact .ok (f a)
  | error h => exact .error h

end SameAnswer

namespace References

variable {s s' s'' : References} {n : Node} {table : PinTable} {name : String}

/-- The names that are no positions mean the same. -/
structure Agree (s s' : References) : Prop where
  aliases : ∀ name, Unnumbered name → s.aliases.get? name = s'.aliases.get? name
  tables : ∀ name, Unnumbered name → s.tables.get? name = s'.tables.get? name

/-- The nodes that hold aliases have ids that are no positions. -/
def HoldersUnnumbered (s : References) : Prop := ∀ name held, s.aliases.get? name = some held → Unnumbered held.node.id

theorem Agree.refl (s : References) : Agree s s := ⟨fun _ _ => rfl, fun _ _ => rfl⟩

theorem Agree.symm (h : Agree s s') : Agree s' s :=
  ⟨fun name hname => (h.aliases name hname).symm, fun name hname => (h.tables name hname).symm⟩

theorem Agree.trans (h : Agree s s') (h' : Agree s' s'') : Agree s s'' :=
  ⟨fun name hname => (h.aliases name hname).trans (h'.aliases name hname),
    fun name hname => (h.tables name hname).trans (h'.tables name hname)⟩

/-! ### Registering -/

theorem Agree.bind (h : Agree s s') (name : String) (rank : AliasRank) (n : Node) (table : PinTable) :
    Agree (s.bind name rank n table) (s'.bind name rank n table) where
  aliases other hother := by simp only [References.bind, KeyMap.get?_insert, h.aliases other hother]
  tables other hother := by simp only [References.bind, KeyMap.get?_insert, h.tables other hother]

theorem agree_bind (hname : ¬ Unnumbered name) (s : References) (rank : AliasRank) (n : Node) (table : PinTable) :
    Agree s (s.bind name rank n table) := by
  have hne {other : String} (hother : Unnumbered other) : name ≠ other := by
    rintro rfl
    exact hname hother
  exact ⟨fun other hother => by rw [References.bind, KeyMap.get?_insert, if_neg (hne hother)],
    fun other hother => by rw [References.bind, KeyMap.get?_insert, if_neg (hne hother)]⟩

theorem sameNames_concat (hname : ¬ Unnumbered name) (l : List String) : SameNames l (l ++ [name]) := by
  intro other hother
  have hne : other ≠ name := by
    rintro rfl
    exact hname hother
  simp [hne]

/-- Whether a position is granted makes no difference to other names. -/
theorem grantAll_position (hname : ¬ Unnumbered name) (n : Node) (table : PinTable) (s : References) (granted : List String)
    (rank : AliasRank) (r : List (String × AliasRank)) :
    ∃ t granted', grantAll n table s granted ((name, rank) :: r) = grantAll n table t granted' r ∧ Agree s t ∧
      SameNames granted granted' := by
  rw [grantAll]
  split
  · exact ⟨_, _, rfl, agree_bind hname s rank n table, sameNames_concat hname granted⟩
  · exact ⟨s, granted, rfl, .refl s, fun _ _ => Iff.rfl⟩

/-- One request, or two for positions. -/
def SameRequest (x x' : String × AliasRank) : Prop := x = x' ∨ ¬ Unnumbered x.1 ∧ ¬ Unnumbered x'.1

theorem Agree.grantAll {requests requests' : List (String × AliasRank)} (hr : List.Forall₂ SameRequest requests requests')
    {granted granted' : List String} (h : Agree s s') (hgranted : SameNames granted granted') :
    Agree (grantAll n table s granted requests).1 (grantAll n table s' granted' requests').1 := by
  induction hr generalizing s s' granted granted' with
  | nil => exact h
  | @cons x x' r r' hx hr ih =>
    -- A request for a position is passed over on either side.
    have hpositions {x x' : String × AliasRank} (hx : ¬ Unnumbered x.1) (hx' : ¬ Unnumbered x'.1) :
        Agree (References.grantAll n table s granted (x :: r)).1 (References.grantAll n table s' granted' (x' :: r')).1 := by
      obtain ⟨t, g, heq, ht, hg⟩ := grantAll_position hx n table s granted x.2 r
      obtain ⟨t', g', heq', ht', hg'⟩ := grantAll_position hx' n table s' granted' x'.2 r'
      rw [heq, heq']
      exact ih ((ht.symm.trans h).trans ht') fun name hname =>
        ((hg name hname).symm.trans (hgranted name hname)).trans (hg' name hname)
    rcases hx with rfl | ⟨hx, hx'⟩
    · obtain ⟨name, rank⟩ := x
      by_cases hname : Unnumbered name
      · have hgrants : s.grants name rank = s'.grants name rank := by rw [grants, grants, h.aliases name hname]
        simp only [References.grantAll, hgrants, hgranted name hname]
        split
        · exact ih (h.bind name rank n table) (hgranted.concat name)
        · exact ih h hgranted
      · exact hpositions hname hname
    · exact hpositions hx hx'

theorem Agree.register (h : Agree s s') (n : Node) (ref : Option String) (p p' : Nat) :
    Agree (s.register n ref p).1 (s'.register n ref p').1 := by
  refine h.grantAll ?_ fun _ _ => Iff.rfl
  have hsame (l : List (String × AliasRank)) : List.Forall₂ SameRequest l l := List.forall₂_same.mpr fun _ _ => Or.inl rfl
  exact List.rel_append (hsame _)
    (.cons (Or.inr ⟨not_unnumbered_position p, not_unnumbered_position p'⟩) (hsame _))

theorem holdersUnnumbered_seed (b : Board) : (seed b).HoldersUnnumbered := by
  intro name held h
  cases h

theorem HoldersUnnumbered.bind (h : s.HoldersUnnumbered) (hn : Unnumbered n.id) (name : String) (rank : AliasRank) :
    (s.bind name rank n table).HoldersUnnumbered := by
  intro other held hheld
  rw [References.bind, KeyMap.get?_insert] at hheld
  split at hheld
  · cases hheld
    exact hn
  · exact h other held hheld

theorem HoldersUnnumbered.grantAll (h : s.HoldersUnnumbered) (hn : Unnumbered n.id) (granted : List String)
    (requests : List (String × AliasRank)) : (grantAll n table s granted requests).1.HoldersUnnumbered := by
  induction requests generalizing s granted with
  | nil => exact h
  | cons x r ih =>
    obtain ⟨name, rank⟩ := x
    rw [References.grantAll]
    split
    · exact ih (h.bind hn name rank) _
    · exact ih h granted

theorem HoldersUnnumbered.register (h : s.HoldersUnnumbered) (hn : Unnumbered n.id) (ref : Option String) (p : Nat) :
    (s.register n ref p).1.HoldersUnnumbered := h.grantAll hn [] _

/-! ### Looking up -/

variable {view : Board} {nodeRef : String}

theorem Agree.known (h : Agree s s') (view : Board) : SameNames (s.known view) (s'.known view) := by
  intro name hname
  unfold References.known
  rw [KeySet.mem_toList, KeySet.mem_toList, KeySet.contains_ofList, KeySet.contains_ofList, List.mem_append, List.mem_append,
    KeyMap.mem_keys, KeyMap.mem_keys, KeyMap.contains, KeyMap.contains, h.aliases name hname]

theorem Agree.node (h : Agree s s') (view : Board) (href : Unnumbered (Text.trim nodeRef)) :
    SameAnswer (s.node view nodeRef) (s'.node view nodeRef) := by
  unfold References.node
  simp only [h.aliases _ href]
  cases s'.aliases.get? (Text.trim nodeRef) with
  | some held => exact .ok _
  | none =>
    cases view.node? (Text.trim nodeRef) with
    | some n => exact .ok n
    | none => exact .error (.nodeNotFound _ (h.known view))

theorem HoldersUnnumbered.node (h : s.HoldersUnnumbered) (hview : view.Unnumbered) (hn : s.node view nodeRef = .ok n) :
    Unnumbered n.id := by
  unfold References.node at hn
  dsimp only at hn
  split at hn
  · rename_i held hheld
    cases hn
    cases hm : view.node? held.node.id with
    | some m => exact hview.node hm
    | none => exact h _ held hheld
  · split at hn
    · rename_i m hm
      cases hn
      exact hview.node hm
    · cases hn

theorem Agree.pin (h : Agree s s') (href : Unnumbered (Text.trim nodeRef)) (hn : Unnumbered n.id) (pinRef : String) :
    s.pin nodeRef n pinRef = s'.pin nodeRef n pinRef := by
  have hrecorded : s.recorded? nodeRef n = s'.recorded? nodeRef n := by
    rw [recorded?, recorded?, h.tables _ href, h.tables _ hn]
  have htable : s.table nodeRef n = s'.table nodeRef n := by rw [table, table, hrecorded]
  rw [References.pin, References.pin, htable]

end References

/-! ### Addressing -/

namespace References

variable {s s' : References} {view : Board}

theorem Agree.ids (h : Agree s s') (view : Board) {refs : List String} (hrefs : ∀ r ∈ refs, Unnumbered (Text.trim r)) :
    SameAnswer (s.ids view refs) (s'.ids view refs) := by
  unfold References.ids
  induction refs with
  | nil => exact .refl _
  | cons r refs ih =>
    rw [List.mapM_cons, List.mapM_cons]
    refine ((h.node view (hrefs r List.mem_cons_self)).map Node.id).bind fun id _ => ?_
    exact (ih fun r' hr' => hrefs r' (List.mem_cons_of_mem r hr')).bind fun _ _ => .refl _

theorem Agree.wire (h : Agree s s') (hs : s.HoldersUnnumbered) (hview : view.Unnumbered) {w : WireRequest}
    (hfrom : Unnumbered (Text.trim w.fromNode)) (hto : Unnumbered (Text.trim w.toNode)) :
    SameAnswer (s.wire view w) (s'.wire view w) := by
  unfold References.wire
  refine (h.node view hfrom).bind fun source hsource => ?_
  refine (h.node view hto).bind fun target htarget => ?_
  rw [h.pin hfrom (hs.node hview hsource), h.pin hto (hs.node hview htarget)]
  exact .refl _

end References

namespace Action

/-- The references to nodes of an action. -/
def nodeRefs : Action → List String
  | removeNode ref => [ref]
  | connectPins w => [w.fromNode, w.toNode]
  | disconnectPins w => [w.fromNode, w.toNode]
  | updateNodePin ref .. => [ref]
  | moveNode ref .. => [ref]
  | createLayer r => r.nodes
  | addNodesToLayer _ refs => refs
  | removeNodesFromLayer _ refs => refs
  | _ => []

/-- No reference to a node is a position. -/
def Unnumbered (a : Action) : Prop := ∀ ref ∈ a.nodeRefs, Workboard.Unnumbered (Text.trim ref)

instance (a : Action) : Decidable a.Unnumbered := inferInstanceAs (Decidable (∀ ref ∈ a.nodeRefs, _))

open References (Agree HoldersUnnumbered)

/-- An action that names no position stands for the same mutation with references that agree, or fails with either. -/
theorem mutation_agree {s s' : References} {view : Board} {a : Action} (h : Agree s s') (hs : s.HoldersUnnumbered)
    (hview : view.Unnumbered) (hrefs : a.Unnumbered) (now : UInt64) :
    SameAnswer (a.mutation s view now) (a.mutation s' view now) := by
  cases a with
  | removeNode ref => exact (h.node view (hrefs ref List.mem_cons_self)).bind fun _ _ => .refl _
  | connectPins w =>
    refine (h.wire hs hview (hrefs _ ?_) (hrefs _ ?_)).bind fun _ _ => .refl _
    · exact List.mem_cons_self
    · exact List.mem_cons_of_mem _ List.mem_cons_self
  | disconnectPins w =>
    refine (h.wire hs hview (hrefs _ ?_) (hrefs _ ?_)).bind fun _ _ => .refl _
    · exact List.mem_cons_self
    · exact List.mem_cons_of_mem _ List.mem_cons_self
  | updateNodePin ref pin value =>
    have href := hrefs ref List.mem_cons_self
    refine (h.node view href).bind fun n hn => ?_
    rw [h.pin href (hs.node hview hn)]
    exact .refl _
  | moveNode ref spot layer => exact (h.node view (hrefs ref List.mem_cons_self)).bind fun _ _ => .refl _
  | createLayer r =>
    refine (SameAnswer.refl _).bind fun _ _ => ?_
    exact (h.ids view hrefs).bind fun _ _ => .refl _
  | addNodesToLayer layer refs =>
    refine (SameAnswer.refl _).bind fun _ _ => ?_
    exact (h.ids view hrefs).bind fun _ _ => .refl _
  | removeNodesFromLayer layer refs =>
    refine (SameAnswer.refl _).bind fun _ _ => ?_
    exact (h.ids view hrefs).bind fun _ _ => .refl _
  | _ => exact .refl _

end Action

end Workboard
