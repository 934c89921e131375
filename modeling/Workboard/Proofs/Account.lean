import Workboard.Apply.Batch
import Workboard.Proofs.Ensures
import Workboard.Proofs.Proper

/-! A batch accounts for every command.

Each command has one outcome, in the order in which the commands are carried out, and each failure one
notice, whatever the facility answers. `Progress.Reported` tells what is added to a batch's progress while
some items are dealt with. -/

namespace Workboard

/-- The notice that an outcome calls for. -/
def Outcome.notice? (o : Outcome) : Option Notice :=
  o.reason?.map fun reason => ⟨s!"{o.kind} (command {o.index}) failed: {reason}", .error⟩

/-- The positions of the commands that make nodes, or of those that make none, ascending. -/
def Batch.positions (commands : List Command) (creates : Bool) : List Nat :=
  (List.range commands.length).filter fun i => (commands[i]?).any (·.createsNode == creates)

/-- A report and the notices beside it account for every command of a batch. -/
structure Batch.Accounts (commands : List Command) (report : Report) (notices : List Notice) : Prop where
  /-- The commands that make nodes come first; otherwise the order of the batch is kept. -/
  order : report.outcomes.map (·.index) = positions commands true ++ positions commands false
  /-- No command is left out, and none has two outcomes. -/
  perm : (report.outcomes.map (·.index)).Perm (List.range commands.length)
  kind : ∀ o ∈ report.outcomes, ∃ c, commands[o.index]? = some c ∧ o.kind = c.kind
  /-- The nodes made are those of the commands that make nodes and were applied. -/
  created : report.created.map (·.node) =
    (report.outcomes.filter fun o => (commands[o.index]?).any (·.createsNode)).filterMap (·.entity?)
  notices : notices = report.outcomes.filterMap (·.notice?)
  entity : ∀ o ∈ report.outcomes, o.entity?.isSome = o.isApplied
  total : report.applied + report.failed = commands.length
  refetch : report.refetch = true

namespace Progress

variable {s s' s'' : Progress} {items items' : List Item} {outcomes outcomes' : List Outcome} {makes : Bool} {i : Item}

/-- Items were dealt with: each has its outcome, each failure its notice, and each node made is listed if
    the items make nodes. -/
structure Reported (makes : Bool) (items : List Item) (outcomes : List Outcome) (s s' : Progress) : Prop where
  added : s'.outcomes = s.outcomes ++ outcomes
  heads : outcomes.map (fun o => (o.index, o.kind)) = items.map fun i => (i.index, i.command.kind)
  notices : s'.notices = s.notices ++ outcomes.filterMap (·.notice?)
  created : s'.created.map (·.node) = s.created.map (·.node) ++ if makes then outcomes.filterMap (·.entity?) else []

theorem Reported.map_index (h : Reported makes items outcomes s s') : outcomes.map (·.index) = items.map (·.index) := by
  have := congrArg (List.map Prod.fst) h.heads
  rwa [List.map_map, List.map_map] at this

/-- Every outcome is that of an item. -/
theorem Reported.item_of_mem (h : Reported makes items outcomes s s') {o : Outcome} (ho : o ∈ outcomes) :
    ∃ i ∈ items, i.index = o.index ∧ i.command.kind = o.kind := by
  have hmem : (o.index, o.kind) ∈ items.map fun i => (i.index, i.command.kind) := by
    rw [← h.heads]
    exact List.mem_map_of_mem ho
  obtain ⟨i, hi, he⟩ := List.mem_map.mp hmem
  exact ⟨i, hi, congrArg Prod.fst he, congrArg Prod.snd he⟩

theorem Reported.refl (makes : Bool) (s : Progress) : Reported makes [] [] s s where
  added := (List.append_nil _).symm
  heads := rfl
  notices := (List.append_nil _).symm
  created := by simp

theorem Reported.trans (h : Reported makes items outcomes s s') (h' : Reported makes items' outcomes' s' s'') :
    Reported makes (items ++ items') (outcomes ++ outcomes') s s'' where
  added := by rw [h'.added, h.added, List.append_assoc]
  heads := by rw [List.map_append, List.map_append, h.heads, h'.heads]
  notices := by rw [h'.notices, h.notices, List.filterMap_append, List.append_assoc]
  created := by
    rw [h'.created, h.created, List.filterMap_append, List.append_assoc]
    cases makes <;> rfl

/-- Only the board as it is known changes. -/
theorem Reported.of_view (makes : Bool) (s : Progress) (view : Board) : Reported makes [] [] s { s with view } :=
  ⟨(Reported.refl makes s).added, rfl, (Reported.refl makes s).notices, (Reported.refl makes s).created⟩

theorem reported_failed (makes : Bool) (s : Progress) (i : Item) (e : ApplyError) :
    Reported makes [i] [⟨i.index, i.command.kind, .failed e.message⟩] s (s.failed i e) where
  added := rfl
  heads := rfl
  notices := rfl
  created := by cases makes <;> exact (List.append_nil _).symm

theorem reported_applied (s : Progress) (i : Item) (entity : String) :
    Reported false [i] [⟨i.index, i.command.kind, .applied entity⟩] s (s.applied i entity) where
  added := rfl
  heads := rfl
  notices := (List.append_nil _).symm
  created := (List.append_nil _).symm

theorem reported_addNode (s : Progress) (i : Item) (ref : Option String) (n : Node) :
    Reported true [i] [⟨i.index, i.command.kind, .applied n.id⟩] s (s.addNode i ref n) where
  added := rfl
  heads := rfl
  notices := (List.append_nil _).symm
  created := List.map_append

end Progress

namespace Batch

open Progress

variable {t : Occasion} {s : Progress}

/-! ### Items -/

theorem mem_items {commands : List Command} {i : Item} : i ∈ items commands ↔ commands[i.index]? = some i.command := by
  unfold items
  rw [List.mem_map]
  constructor
  · rintro ⟨⟨c, k⟩, h, rfl⟩
    exact List.mem_zipIdx_iff_getElem?.mp h
  · intro h
    exact ⟨(i.command, i.index), List.mem_zipIdx_iff_getElem?.mpr h, rfl⟩

theorem map_index_items (commands : List Command) : (items commands).map (·.index) = List.range commands.length := by
  unfold items
  rw [List.map_map]
  exact List.zipIdx_map_snd 0 commands |>.trans List.range_eq_range'.symm

/-- The items that make nodes, or those that make none, stand at the positions of their kind. -/
theorem map_index_filter_items (commands : List Command) (creates : Bool) :
    ((items commands).filter (·.command.createsNode == creates)).map (·.index) = positions commands creates := by
  unfold positions
  rw [← map_index_items, List.filter_map]
  refine congrArg (List.map _) (List.filter_congr fun i hi => ?_)
  rw [Function.comp_apply, mem_items.mp hi]
  rfl

/-- The two kinds of items, one after the other, are all items. -/
theorem perm_positions (commands : List Command) :
    (positions commands true ++ positions commands false).Perm (List.range commands.length) := by
  rw [← map_index_filter_items, ← map_index_filter_items, ← map_index_items, ← List.map_append]
  refine List.Perm.map _ ?_
  have hnot : ((items commands).filter (·.command.createsNode == false)) =
      (items commands).filter fun i => !(i.command.createsNode == true) :=
    List.filter_congr fun i _ => by cases i.command.createsNode <;> rfl
  rw [hnot]
  exact List.filter_append_perm _ _

/-- The items that make nodes, and those that make none. -/
theorem partition_items (commands : List Command) : (items commands).partition (·.command.createsNode) =
    ((items commands).filter (·.command.createsNode == true), (items commands).filter (·.command.createsNode == false)) := by
  rw [List.partition_eq_filter_filter]
  exact Prod.ext (List.filter_congr fun i _ => (beq_true i.command.createsNode).symm)
    (List.filter_congr fun i _ => (beq_false i.command.createsNode).symm)

/-! ### Sessions -/

/-- Whatever the facility answers, a session that deals with items asks for proper mutations only, all or none
    of which make nodes, and reports the items. -/
abbrev Deals (makes : Bool) (items : List Item) (s : Progress) (x : Session Progress) : Prop :=
  x.Ensures (fun m => m.Proper ∧ m.makesNode = makes) fun s' => ∃ outcomes, Reported makes items outcomes s s'

theorem deals_create (t : Occasion) (s : Progress) (cell : Spot) (order : List String) (i : Item) :
    Deals true [i] s (create t s cell order i) := by
  unfold create
  split
  · exact ⟨_, reported_failed true s i _⟩
  · refine ⟨⟨trivial, rfl⟩, fun r => ?_⟩
    cases r with
    | error r => exact ⟨_, reported_failed true s i _⟩
    | ok receipt =>
      dsimp only
      split
      · exact ⟨_, reported_addNode s i _ _⟩
      · exact ⟨_, reported_failed true s i _⟩

theorem deals_createAll (t : Occasion) (start : Spot) (items : List Item) (n : Nat) (s : Progress) :
    Deals true items s (createAll t start n s items) := by
  induction items generalizing n s with
  | nil => exact ⟨[], Reported.refl true s⟩
  | cons i items ih =>
    unfold createAll
    refine (deals_create t s _ _ i).bind fun s' ⟨o, h⟩ => ?_
    refine (ih (n + 1) s').imp (fun _ h => h) fun s'' ⟨o', h'⟩ => ⟨o ++ o', ?_⟩
    exact h.trans h'

theorem deals_perform (t : Occasion) (s : Progress) (i : Item) : Deals false [i] s (perform t s i) := by
  unfold perform
  split
  · exact ⟨_, reported_failed false s i _⟩
  · rename_i hm
    refine ⟨Action.proper_mutation hm, fun r => ?_⟩
    cases r with
    | error r => exact ⟨_, reported_failed false s i _⟩
    | ok receipt => exact ⟨_, reported_applied s i _⟩

/-- Refreshing changes no more than the view. -/
theorem ensures_refresh (P : Mutation → Prop) (s : Progress) (i : Item) :
    (refresh s i).Ensures P fun r => ∀ s', r = .ok s' → Reported false [] [] s s' := by
  intro r
  cases r with
  | ok view =>
    intro s' h
    cases h
    exact Reported.of_view false s view
  | error r =>
    dsimp only
    split
    · intro s' h
      cases h
    · intro s' h
      cases h
      exact Reported.refl false s

theorem deals_carryOut (t : Occasion) (outdated : Bool) (s : Progress) (i : Item) :
    Deals false [i] s (carryOut t outdated s i) := by
  unfold carryOut
  split
  · refine (ensures_refresh _ s i).bind fun r h => ?_
    cases r with
    | ok s' =>
      refine (deals_perform t s' i).imp (fun _ h => h) fun s'' ⟨o, h'⟩ => ⟨o, ?_⟩
      exact (h s' rfl).trans h'
    | error e => exact ⟨_, reported_failed false s i e⟩
  · exact deals_perform t s i

theorem ensures_settleConnection (P : Mutation → Prop) (t : Occasion) (i : Item) :
    (settleConnection t i).Ensures P fun _ => True := by
  unfold settleConnection
  split
  · exact Session.ensures_settle trivial _ _
  · trivial

/-- Carries out an item, and others after it. -/
def carryOutFirst (t : Occasion) (outdated : Bool) (s : Progress) (i : Item) (r : List Item) : Session Progress := do
  let s ← carryOut t outdated s i
  if s.lastApplied then
    settleConnection t i
    carryOutAll t true s r
  else carryOutAll t outdated s r

theorem carryOutAll_cons (t : Occasion) (outdated : Bool) (s : Progress) (i : Item) (r : List Item) :
    carryOutAll t outdated s (i :: r) =
      if s.outcomes.isEmpty then carryOutFirst t outdated s i r
      else Session.settle t.pauses .betweenCommands >>= fun _ => carryOutFirst t outdated s i r := by
  rw [carryOutAll]
  cases s.outcomes.isEmpty <;> rfl

theorem deals_carryOutAll (t : Occasion) (items : List Item) (outdated : Bool) (s : Progress) :
    Deals false items s (carryOutAll t outdated s items) := by
  induction items generalizing outdated s with
  | nil => exact ⟨[], Reported.refl false s⟩
  | cons i items ih =>
    -- The waiting before the item reports nothing; how it went decides only how the rest is carried out.
    have hfirst : Deals false (i :: items) s (carryOutFirst t outdated s i items) := by
      unfold carryOutFirst
      refine (deals_carryOut t outdated s i).bind fun s' ⟨o, h⟩ => ?_
      have hall : ∀ outdated, (carryOutAll t outdated s' items).Ensures (fun m => m.Proper ∧ m.makesNode = false) fun s'' =>
          ∃ outcomes, Reported false (i :: items) outcomes s s'' := fun outdated =>
        (ih outdated s').imp (fun _ h => h) fun s'' ⟨o', h'⟩ => ⟨o ++ o', h.trans h'⟩
      split
      · exact (ensures_settleConnection _ t i).bind fun _ _ => hall true
      · exact hall outdated
    rw [carryOutAll_cons]
    split
    · exact hfirst
    · exact (Session.ensures_settle (Q := fun _ => True) trivial _ _).bind fun _ _ => hfirst

/-- A batch asks for proper mutations only; what it has come to when all its items are dealt with. -/
theorem ensures_apply (t : Occasion) (b : Board) (commands : List Command) :
    (apply t b commands).Ensures Mutation.Proper fun r => ∃ s made rest,
      Reported true ((items commands).filter (·.command.createsNode == true)) made (.begin b) s ∧
      ∃ s', Reported false ((items commands).filter (·.command.createsNode == false)) rest s s' ∧
        r = (⟨s'.outcomes, s'.created, true⟩, s'.notices) := by
  unfold apply
  rw [partition_items]
  refine ((deals_createAll t _ _ 0 (.begin b)).imp (fun _ hm => hm.1) fun _ h => h).bind fun s ⟨made, hmade⟩ => ?_
  refine ((deals_carryOutAll t _ false s).imp (fun _ hm => hm.1) fun _ h => h).bind fun s' ⟨rest, hrest⟩ => ?_
  exact ⟨s, made, rest, hmade, s', hrest, rfl⟩

/-! ### The report -/

/-- An outcome of the items of one kind belongs to a command of that kind. -/
theorem command_of_reported {commands : List Command} {creates makes : Bool} {outcomes : List Outcome} {s' : Progress}
    (h : Reported makes ((items commands).filter (·.command.createsNode == creates)) outcomes s s') {o : Outcome}
    (ho : o ∈ outcomes) : ∃ c, commands[o.index]? = some c ∧ o.kind = c.kind ∧ c.createsNode = creates := by
  obtain ⟨i, hi, hindex, hkind⟩ := h.item_of_mem ho
  obtain ⟨hi, hcreates⟩ := List.mem_filter.mp hi
  refine ⟨i.command, ?_, hkind.symm, beq_iff_eq.mp hcreates⟩
  rw [← hindex]
  exact mem_items.mp hi

theorem accounts_of_reported {commands : List Command} {b : Board} {s' : Progress} {made rest : List Outcome}
    (hmade : Reported true ((items commands).filter (·.command.createsNode == true)) made (.begin b) s)
    (hrest : Reported false ((items commands).filter (·.command.createsNode == false)) rest s s') :
    Accounts commands ⟨s'.outcomes, s'.created, true⟩ s'.notices := by
  have hall : s'.outcomes = made ++ rest := by
    rw [hrest.added, hmade.added]
    rfl
  have horder : s'.outcomes.map (·.index) = positions commands true ++ positions commands false := by
    rw [hall, List.map_append, hmade.map_index, hrest.map_index, map_index_filter_items, map_index_filter_items]
  have hperm : (s'.outcomes.map (·.index)).Perm (List.range commands.length) := by
    rw [horder]
    exact perm_positions commands
  refine ⟨horder, hperm, fun o ho => ?_, ?_, ?_, fun o _ => ?_, ?_, rfl⟩
  · rw [hall] at ho
    rcases List.mem_append.mp ho with ho | ho
    · obtain ⟨c, hc, hkind, -⟩ := command_of_reported hmade ho
      exact ⟨c, hc, hkind⟩
    · obtain ⟨c, hc, hkind, -⟩ := command_of_reported hrest ho
      exact ⟨c, hc, hkind⟩
  · -- The outcomes of the first round are those of commands that make nodes; no other is.
    have hfirst : (made.filter fun o => (commands[o.index]?).any (·.createsNode)) = made :=
      List.filter_eq_self.mpr fun o ho => by
        obtain ⟨c, hc, -, hcreates⟩ := command_of_reported hmade ho
        rw [hc]
        exact hcreates
    have hsecond : (rest.filter fun o => (commands[o.index]?).any (·.createsNode)) = [] :=
      List.filter_eq_nil_iff.mpr fun o ho => by
        obtain ⟨c, hc, -, hcreates⟩ := command_of_reported hrest ho
        rw [hc, Option.any_some, hcreates]
        exact Bool.false_ne_true
    show s'.created.map (·.node) = _
    rw [hall, List.filter_append, hfirst, hsecond, List.append_nil, hrest.created, hmade.created]
    exact List.append_nil _
  · show s'.notices = _
    rw [hall, hrest.notices, hmade.notices, List.filterMap_append]
    rfl
  · unfold Outcome.entity? Outcome.isApplied
    cases o.status <;> rfl
  · have hlength : s'.outcomes.length = commands.length := by
      rw [← List.length_map, hperm.length_eq, List.length_range]
    rw [← hlength]
    exact Nat.add_sub_cancel' List.countP_le_length

/-- A batch is accounted for, whatever the facility answers. -/
theorem apply_accounts {σ : Type} (t : Occasion) (b : Board) (commands : List Command) (f : Facility σ) (s : σ) :
    Accounts commands ((apply t b commands).run f s).1.1 ((apply t b commands).run f s).1.2 := by
  obtain ⟨s₁, made, rest, hmade, s₂, hrest, h⟩ := (ensures_apply t b commands).run f s
  rw [h]
  exact accounts_of_reported hmade hrest

end Batch

end Workboard
