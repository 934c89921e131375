import Workboard.Proofs.Aliases
import Workboard.Proofs.Copies

/-! What the id of a node on the board means while a batch makes others.

Aliases come before ids of the board, so a made node takes an id of the board over if it asks for the same text: by the
reference that its command gave it, by its position or by the name of its type (`References.own_id_taken`). The id goes on
to mean its node exactly as long as it is not held by a node of another id (`References.own_id_kept`). -/

namespace Workboard

namespace Registration

variable {r : Registration} {name : String}

/-- What a registration asks for, if it is neither its reference nor its position nor the name of a type, is the id of its
    node. -/
theorem id_of_offer (href : (r.ref.map Text.trim).filter (· ≠ "") ≠ some name) (hposition : name ≠ s!"${r.position}")
    (htype : name ≠ r.node.name) {rank : AliasRank} (h : r.offer name = some rank) : r.node.id = name := by
  unfold offer at h
  rw [if_neg href] at h
  split at h
  · rename_i hasked
    exact (hasked.resolve_left hposition).symm
  · cases h

end Registration

namespace References

variable {s : References} {view : Board} {ref : String} {n : Node}

/-- A reference that is no alias means what the board has under it. -/
theorem node_of_unheld (hheld : s.aliases.get? (Text.trim ref) = none) (hn : view.node? (Text.trim ref) = some n) :
    s.node view ref = .ok n := by
  unfold node
  simp only [hheld, hn]

/-- An alias means its holder, as the board has it. -/
theorem node_of_alias {held : Holder} (hheld : s.aliases.get? (Text.trim ref) = some held) :
    s.node view ref = .ok ((view.node? held.node.id).getD held.node) := by
  unfold node
  simp only [hheld]

/-- What an id of the board means after the registrations of a batch, as long as the board has a node under it. It means
    this node if no registration asks for it by a reference, by a position or by the name of a type. Else the registration
    that decides about it counts: if its node has another id, the id of the board means that node. -/
theorem own_id_kept (b : Board) (regs : List Registration) {id : String} (hid : Text.trim id = id) {view : Board} {n : Node}
    (hn : view.node? id = some n) :
    let s := ((seed b).registerAll regs).1
    ((∀ c ∈ regs, (c.ref.map Text.trim).filter (· ≠ "") ≠ some id ∧ id ≠ s!"${c.position}" ∧ id ≠ c.node.name) →
      s.node view id = .ok n) ∧
    (∀ i c rank, Decides regs id i c rank →
      s.node view id = .ok (if c.node.id = id then n else (view.node? c.node.id).getD c.node)) ∧
    ((∀ i c rank, Decides regs id i c rank → c.node.id = id) → s.node view id = .ok n) ∧
    (view.Keyed → s.node view id = .ok n → ∀ i c rank, Decides regs id i c rank → c.node.id = id) := by
  intro s
  have hseed : (seed b).aliases.get? id = none := rfl
  have hdecided : ∀ i c rank, Decides regs id i c rank →
      s.node view id = .ok (if c.node.id = id then n else (view.node? c.node.id).getD c.node) := by
    intro i c rank hc
    rcases standing_registerAll hseed regs with ⟨hnone, -, -⟩ | ⟨j, d, rank', hd, hheld, -, -⟩
    · have hoffer := hc.offer
      rw [hnone c (List.mem_of_getElem? hc.at_index)] at hoffer
      cases hoffer
    · obtain rfl := hc.unique hd
      obtain rfl : c = d := Option.some.inj (hc.at_index.symm.trans hd.at_index)
      rw [node_of_alias (hid.symm ▸ hheld)]
      split
      · rename_i hown
        rw [hown, hn]
        rfl
      · rfl
  have hkept : (∀ i c rank, Decides regs id i c rank → c.node.id = id) → s.node view id = .ok n := by
    intro hown
    rcases standing_registerAll hseed regs with ⟨-, hheld, -⟩ | ⟨i, c, rank, hc, -⟩
    · exact node_of_unheld (hid.symm ▸ hheld) (hid.symm ▸ hn)
    · rw [hdecided i c rank hc, if_pos (hown i c rank hc)]
  refine ⟨fun hfree => hkept fun i c rank hc => ?_, hdecided, hkept, fun hview hnode i c rank hc => ?_⟩
  · obtain ⟨href, hposition, htype⟩ := hfree c (List.mem_of_getElem? hc.at_index)
    exact Registration.id_of_offer href hposition htype hc.offer
  · by_contra hother
    rw [hdecided i c rank hc, if_neg hother, Except.ok.injEq] at hnode
    -- On a keyed board the node that is found for the holder has the holder's id.
    refine hother (Eq.trans ?_ (hview.id_of_node? hn))
    rw [← hnode]
    cases hm : view.node? c.node.id with
    | none => rfl
    | some m => exact (hview.id_of_node? hm).symm

/-- A node without pins. -/
def plainNode (id name : String) : Node := ⟨id, name, name, "", "", none, ∅, .origin, none⟩

/-- A board with three nodes, one of them under the name of a type and one under a position. -/
def crossroads : Board := { Board.blank "b" "board" with
  nodes := .ofList [("$0", plainNode "$0" "note"), ("log", plainNode "log" "note"), ("node-1", plainNode "node-1" "log")] }

/-- A made node that is a `log` and comes first, and one that got an id of the board. -/
def arrivals : List Registration := [⟨plainNode "node-4" "log", none, 0⟩, ⟨plainNode "node-1" "http", none, 1⟩]

/-- The node that got an id of the board leaves it to the board's node; the `log` takes the id that is the name of its
    type. -/
theorem own_id_kept_at_crossroads :
    Text.trim "node-1" = "node-1" ∧ crossroads.node? "node-1" = some (plainNode "node-1" "log") ∧ crossroads.Keyed ∧
    ((seed crossroads).registerAll arrivals).1.node crossroads "node-1" = .ok (plainNode "node-1" "log") ∧
    (∀ i c rank, Decides arrivals "node-1" i c rank → c.node.id = "node-1") ∧
    (∃ c, Decides arrivals "log" 0 c .typeName) ∧
    ((seed crossroads).registerAll arrivals).1.node crossroads "log" = .ok (plainNode "node-4" "log") := by
  have htrim : Text.trim "node-1" = "node-1" ∧ Text.trim "log" = "log" := by decide +kernel
  have hkeyed : crossroads.Keyed := by decide +kernel
  have hfree : ∀ c ∈ arrivals, (c.ref.map Text.trim).filter (· ≠ "") ≠ some "node-1" ∧ "node-1" ≠ s!"${c.position}" ∧
      "node-1" ≠ c.node.name := by decide +kernel
  have hdecides : Decides arrivals "log" 0 arrivals[0] .typeName :=
    { at_index := rfl
      offer := by decide +kernel
      strongest := by decide +kernel
      last := fun j d hj hd => by
        have hlt : j < 2 := (List.getElem?_eq_some_iff.mp hd).1
        obtain rfl : j = 1 := by omega
        cases hd
        decide +kernel }
  have hnode : crossroads.node? "node-1" = some (plainNode "node-1" "log") := rfl
  have hlog : crossroads.node? "log" = some (plainNode "log" "note") := rfl
  obtain ⟨hkept, -, -, hown⟩ := own_id_kept crossroads arrivals htrim.1 hnode
  obtain ⟨-, htaken, -⟩ := own_id_kept crossroads arrivals htrim.2 hlog
  exact ⟨htrim.1, hnode, hkeyed, hkept hfree, hown hkeyed (hkept hfree), ⟨_, hdecides⟩, htaken 0 _ _ hdecides⟩

/-- A made node takes an id of the board over by the name of its type, and by its position. -/
theorem own_id_taken :
    Text.trim "log" = "log" ∧ crossroads.node? "log" = some (plainNode "log" "note") ∧
    ((seed crossroads).registerAll arrivals).1.node crossroads "log" = .ok (plainNode "node-4" "log") ∧
    Text.trim "$0" = "$0" ∧ crossroads.node? "$0" = some (plainNode "$0" "note") ∧
    ((seed crossroads).registerAll arrivals).1.node crossroads "$0" = .ok (plainNode "node-4" "log") ∧
    ∀ c ∈ arrivals, c.ref = none :=
  ⟨by decide +kernel, rfl, rfl, by decide +kernel, rfl, rfl, by decide +kernel⟩

end References

end Workboard
