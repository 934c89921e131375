import Mathlib
import Workboard.Apply.References
import Workboard.Proofs.Keyed

/-! Who holds an alias.

A registration offers a name for the strongest of the reasons that it has for it (`Registration.offer`).
What one registration does to a name is told by `register_settles`: the name goes to the node if it is
offered for a reason as strong as that of its holder, and else it stays where it is. So after any number of
registrations a name belongs to the last of those that offered it for the strongest reason (`Decides`,
`standing_registerAll`). -/

namespace Workboard

/-- A node that a batch registers, with the reference that its command gave it and its position. -/
structure Registration where
  node : Node
  ref : Option String
  position : Nat

/-- The strongest reason for which a registration asks for a name. -/
def Registration.offer (r : Registration) (name : String) : Option AliasRank :=
  if (r.ref.map Text.trim).filter (· ≠ "") = some name then some .explicit
  else if name = s!"${r.position}" ∨ name = r.node.id then some .positional
  else if name = r.node.name then some .typeName
  else none

namespace References

variable {n : Node} {table : PinTable} {s t : References} {name : String} {granted : List String}
  {requests : List (String × AliasRank)}

/-! ### One registration -/

/-- What becomes of a name that a node is offered for a reason: it goes to the node, or stays where it is. -/
def Settles (s : References) (name : String) (n : Node) (offer : Option AliasRank) (result : References × List String) :
    Prop :=
  match offer.filter (s.grants name) with
  | some rank => result.1.aliases.get? name = some ⟨n, rank⟩ ∧ name ∈ result.2
  | none => result.1.aliases.get? name = s.aliases.get? name ∧ name ∉ result.2

/-- A name that is granted already stays as it is. -/
theorem grantAll_of_mem (h : name ∈ granted) :
    (grantAll n table s granted requests).1.aliases.get? name = s.aliases.get? name ∧
      name ∈ (grantAll n table s granted requests).2 := by
  induction requests generalizing s granted with
  | nil => exact ⟨rfl, h⟩
  | cons request r ih =>
    obtain ⟨asked, rank⟩ := request
    unfold grantAll
    split
    · rename_i hgrant
      have hne : asked ≠ name := fun heq => hgrant.1 (heq ▸ h)
      have hbind : (s.bind asked rank n table).aliases.get? name = s.aliases.get? name := by
        rw [bind, KeyMap.get?_insert, if_neg hne]
      exact hbind ▸ ih (List.mem_append_left [asked] h)
    · exact ih h

theorem grants_congr (h : t.aliases.get? name = s.aliases.get? name) : t.grants name = s.grants name := by
  funext rank
  unfold grants
  rw [h]

/-- Of the requests for one name, strongest first, the first decides. -/
theorem grantAll_settles (hname : name ∉ granted)
    (hordered : requests.Pairwise fun a b => b.2.strength ≤ a.2.strength) :
    s.Settles name n ((requests.find? (·.1 = name)).map (·.2)) (grantAll n table s granted requests) := by
  induction requests generalizing s granted with
  | nil => exact ⟨rfl, hname⟩
  | cons request r ih =>
    obtain ⟨asked, rank⟩ := request
    obtain ⟨hweaker, hr⟩ := List.pairwise_cons.mp hordered
    unfold grantAll
    by_cases hasked : asked = name
    · subst hasked
      rw [List.find?_cons_of_pos (by simp), Option.map_some]
      cases hgrant : s.grants asked rank with
      | true =>
        rw [if_pos ⟨hname, rfl⟩]
        have hgranted : asked ∈ granted ++ [asked] := List.mem_append_right granted (List.mem_singleton_self asked)
        obtain ⟨hheld, hmem⟩ : (grantAll n table (s.bind asked rank n table) (granted ++ [asked]) r).1.aliases.get?
              asked = (s.bind asked rank n table).aliases.get? asked ∧
            asked ∈ (grantAll n table (s.bind asked rank n table) (granted ++ [asked]) r).2 :=
          grantAll_of_mem hgranted
        rw [Settles, Option.filter_some, if_pos hgrant]
        refine ⟨hheld.trans ?_, hmem⟩
        rw [bind, KeyMap.get?_insert, if_pos rfl]
      | false =>
        rw [if_neg (by simp)]
        have hrest := ih (s := s) hname hr
        -- A later request is no stronger, so it is not granted either.
        have hlater : ((r.find? (·.1 = asked)).map (·.2)).filter (s.grants asked) = none := by
          rw [Option.filter_eq_none_iff]
          rintro later hl hgranted
          obtain ⟨⟨_, _⟩, hfound, rfl⟩ := Option.map_eq_some_iff.mp hl
          have hle := hweaker _ (List.mem_of_find?_eq_some hfound)
          unfold grants at hgrant hgranted
          cases hheld : s.aliases.get? asked with
          | none => simp [hheld] at hgrant
          | some held =>
            simp only [hheld, decide_eq_false_iff_not, decide_eq_true_eq] at hgrant hgranted
            exact hgrant (hgranted.trans hle)
        rw [Settles, hlater] at hrest
        rw [Settles, Option.filter_some, hgrant]
        exact hrest
    · rw [List.find?_cons_of_neg (by simpa using hasked)]
      split
      · have hkept : (s.bind asked rank n table).aliases.get? name = s.aliases.get? name := by
          rw [bind, KeyMap.get?_insert, if_neg hasked]
        have hnext : name ∉ granted ++ [asked] := by simp [hname, Ne.symm hasked]
        have hrest := ih (s := s.bind asked rank n table) hnext hr
        rw [Settles, grants_congr hkept, hkept] at hrest
        exact hrest
      · exact ih hname hr

theorem requests_ordered (n : Node) (ref : Option String) (position : Nat) :
    (References.requests n ref position).Pairwise fun a b => b.2.strength ≤ a.2.strength := by
  unfold References.requests
  cases (ref.map Text.trim).filter (· ≠ "") <;> simp [AliasRank.strength]

theorem find?_requests (r : Registration) (name : String) :
    ((References.requests r.node r.ref r.position).find? (·.1 = name)).map (·.2) = r.offer name := by
  unfold References.requests Registration.offer
  cases (r.ref.map Text.trim).filter (· ≠ "") with
  | none =>
    simp only [Option.toList_none, List.map_nil, List.nil_append, List.find?_cons, List.find?_nil]
    grind
  | some ref =>
    simp only [Option.toList_some, List.map_cons, List.map_nil, List.cons_append, List.nil_append, List.find?_cons,
      List.find?_nil]
    grind

/-- What a registration does to a name. -/
theorem register_settles (s : References) (r : Registration) (name : String) :
    s.Settles name r.node (r.offer name) (s.register r.node r.ref r.position) := by
  rw [← find?_requests]
  exact grantAll_settles (by simp) (requests_ordered r.node r.ref r.position)

/-! ### Any number of registrations -/

/-- Registers nodes one after the other, and tells the aliases of each. -/
def registerAll (s : References) (regs : List Registration) : References × List (List String) :=
  regs.foldl
    (fun t r =>
      let (next, aliases) := t.1.register r.node r.ref r.position
      (next, t.2 ++ [aliases]))
    (s, [])

theorem registerAll_concat (s : References) (regs : List Registration) (r : Registration) :
    s.registerAll (regs ++ [r]) =
      (((s.registerAll regs).1.register r.node r.ref r.position).1,
        (s.registerAll regs).2 ++ [((s.registerAll regs).1.register r.node r.ref r.position).2]) := by
  rw [registerAll, List.foldl_append]
  rfl

theorem length_registerAll (s : References) (regs : List Registration) :
    (s.registerAll regs).2.length = regs.length := by
  induction regs using List.reverseRecOn with
  | nil => rfl
  | append_singleton regs r ih => rw [registerAll_concat, List.length_append, List.length_append, ih]; rfl

end References

/-- The registration at an index decides about a name: it offers it for the strongest reason, and every later
    one offers it for a weaker reason or not at all. -/
structure Decides (regs : List Registration) (name : String) (i : Nat) (c : Registration) (rank : AliasRank) : Prop where
  at_index : regs[i]? = some c
  offer : c.offer name = some rank
  strongest : ∀ d ∈ regs, ∀ r ∈ d.offer name, r.strength ≤ rank.strength
  last : ∀ j d, i < j → regs[j]? = some d → ∀ r ∈ d.offer name, r.strength < rank.strength

namespace Decides

variable {regs : List Registration} {name : String} {i j : Nat} {c d : Registration} {rank rank' : AliasRank}

theorem not_lt (h : Decides regs name i c rank) (h' : Decides regs name j d rank') : ¬ i < j := fun hlt =>
  absurd (h.last j d hlt h'.at_index rank' h'.offer)
    (Nat.not_lt.mpr (h'.strongest c (List.mem_of_getElem? h.at_index) rank h.offer))

/-- Only one registration decides. -/
theorem unique (h : Decides regs name i c rank) (h' : Decides regs name j d rank') : i = j :=
  Nat.le_antisymm (Nat.not_lt.mp (h'.not_lt h)) (Nat.not_lt.mp (h.not_lt h'))

/-- A registration that offers the name for no weaker reason decides instead. -/
theorem concat (hoffer : c.offer name = some rank) (h : ∀ d ∈ regs, ∀ r ∈ d.offer name, r.strength ≤ rank.strength) :
    Decides (regs ++ [c]) name regs.length c rank where
  at_index := List.getElem?_concat_length
  offer := hoffer
  strongest := fun d hd r hr => by
    rcases List.mem_append.mp hd with hd | hd
    · exact h d hd r hr
    · obtain rfl := List.mem_singleton.mp hd
      rw [hoffer, Option.mem_some_iff] at hr
      rw [hr]
  last := fun j d hj hd => by
    rw [List.getElem?_eq_none (by rw [List.length_append, List.length_singleton]; omega)] at hd
    cases hd

/-- One that offers it for a weaker reason, or not at all, changes nothing. -/
theorem append (h : Decides regs name i c rank) (hd : ∀ r ∈ d.offer name, r.strength < rank.strength) :
    Decides (regs ++ [d]) name i c rank where
  at_index := List.getElem?_append_left (List.getElem?_eq_some_iff.mp h.at_index).1 ▸ h.at_index
  offer := h.offer
  strongest := fun e he r hr => by
    rcases List.mem_append.mp he with he | he
    · exact h.strongest e he r hr
    · obtain rfl := List.mem_singleton.mp he
      exact (hd r hr).le
  last := fun j e hj he r hr => by
    rcases List.mem_append.mp (List.mem_of_getElem? he) with hmem | hmem
    · rcases Nat.lt_or_ge j regs.length with hlt | hge
      · exact h.last j e hj (List.getElem?_append_left hlt ▸ he) r hr
      · rw [List.getElem?_append_right hge] at he
        obtain rfl := List.mem_singleton.mp (List.mem_of_getElem? he)
        exact hd r hr
    · obtain rfl := List.mem_singleton.mp hmem
      exact hd r hr

end Decides

namespace References

variable {s : References} {t : References × List (List String)} {regs : List Registration} {d : Registration} {name : String}
  {rank : AliasRank}

/-- The state of a name after registrations: nobody offered it, or the one that decides about it holds it. -/
inductive Standing (name : String) (regs : List Registration) (t : References × List (List String)) : Prop
  | free (unasked : ∀ c ∈ regs, c.offer name = none) (unheld : t.1.aliases.get? name = none) (unlisted : ∀ l ∈ t.2, name ∉ l)
  | held (i : Nat) (c : Registration) (rank : AliasRank) (decides : Decides regs name i c rank)
    (holder : t.1.aliases.get? name = some ⟨c.node, rank⟩) (listed : ∃ l, t.2[i]? = some l ∧ name ∈ l)
    (last : ∀ j l, i < j → t.2[j]? = some l → name ∉ l)

/-- A registration that is given the name holds it. -/
theorem Standing.given {result : References × List String} (h : Standing name regs t) (hlength : t.2.length = regs.length)
    (hsettles : t.1.Settles name d.node (d.offer name) result)
    (hgiven : (d.offer name).filter (t.1.grants name) = some rank) : Standing name (regs ++ [d]) (result.1, t.2 ++ [result.2]) := by
  rw [Settles, hgiven] at hsettles
  obtain ⟨hrank, hgrant⟩ := Option.filter_eq_some_iff.mp hgiven
  refine .held regs.length d rank (Decides.concat hrank fun c hc r hr => ?_) hsettles.1
    ⟨result.2, hlength ▸ List.getElem?_concat_length, hsettles.2⟩ fun j l hj hl => ?_
  · cases h with
    | free unasked =>
      rw [unasked c hc] at hr
      cases hr
    | held i e held decides holder =>
      unfold grants at hgrant
      rw [holder, decide_eq_true_eq] at hgrant
      exact (decides.strongest c hc r hr).trans hgrant
  · rw [List.getElem?_eq_none (by rw [List.length_append, List.length_singleton, hlength]; omega)] at hl
    cases hl

/-- One that is not given it leaves it where it is. -/
theorem Standing.refused {result : References × List String} (h : Standing name regs t)
    (hsettles : t.1.Settles name d.node (d.offer name) result)
    (hrefused : (d.offer name).filter (t.1.grants name) = none) : Standing name (regs ++ [d]) (result.1, t.2 ++ [result.2]) := by
  rw [Settles, hrefused] at hsettles
  obtain ⟨hsame, habsent⟩ := hsettles
  rw [Option.filter_eq_none_iff] at hrefused
  cases h with
  | free unasked unheld unlisted =>
    refine .free (fun c hc => ?_) (hsame.trans unheld) fun l hl => ?_
    · rcases List.mem_append.mp hc with hc | hc
      · exact unasked c hc
      · obtain rfl := List.mem_singleton.mp hc
        -- A free name is granted whatever the reason, so it was not offered.
        refine Option.eq_none_iff_forall_not_mem.mpr fun r hr => hrefused r hr ?_
        unfold grants
        rw [unheld]
    · rcases List.mem_append.mp hl with hl | hl
      · exact unlisted l hl
      · obtain rfl := List.mem_singleton.mp hl
        exact habsent
  | held i c rank decides holder listed last =>
    obtain ⟨l, hl, hmem⟩ := listed
    -- The holder keeps the name, so the offer is weaker than its own.
    have hweaker : ∀ r ∈ d.offer name, r.strength < rank.strength := fun r hr => by
      have hnot := hrefused r hr
      unfold grants at hnot
      rw [holder, decide_eq_true_eq] at hnot
      exact Nat.not_le.mp hnot
    have hi : i < t.2.length := (List.getElem?_eq_some_iff.mp hl).1
    refine .held i c rank (decides.append hweaker) (hsame.trans holder) ⟨l, List.getElem?_append_left hi ▸ hl, hmem⟩
      fun j l' hj hl' => ?_
    rcases Nat.lt_or_ge j t.2.length with hlt | hge
    · exact last j l' hj (List.getElem?_append_left hlt ▸ hl')
    · rw [List.getElem?_append_right hge] at hl'
      obtain rfl := List.mem_singleton.mp (List.mem_of_getElem? hl')
      exact habsent

/-- A name that is not held at first is free, or held by the registration that decides about it. -/
theorem standing_registerAll (hs : s.aliases.get? name = none) (regs : List Registration) :
    Standing name regs (s.registerAll regs) := by
  induction regs using List.reverseRecOn with
  | nil => exact .free (by simp) hs (by simp [registerAll])
  | append_singleton regs d ih =>
    have hsettles := register_settles (s.registerAll regs).1 d name
    rw [registerAll_concat]
    cases hoffer : (d.offer name).filter ((s.registerAll regs).1.grants name) with
    | some rank => exact ih.given (length_registerAll s regs) hsettles hoffer
    | none => exact ih.refused hsettles hoffer

/-- After the registrations of a batch a name means the node of the one that decides about it, which is the
    last whose aliases have the name; a name that none offered means no node. -/
theorem id?_registerAll (b : Board) (regs : List Registration) {name : String} (hname : Text.trim name = name) :
    ((∀ c ∈ regs, c.offer name = none) → ((seed b).registerAll regs).1.id? name = none ∧
      ∀ l ∈ ((seed b).registerAll regs).2, name ∉ l) ∧
    ((∃ c ∈ regs, c.offer name ≠ none) → ∃ i c rank, Decides regs name i c rank) ∧
    ∀ i c rank, Decides regs name i c rank →
      ((seed b).registerAll regs).1.id? name = some c.node.id ∧
      (∃ l, ((seed b).registerAll regs).2[i]? = some l ∧ name ∈ l) ∧
      ∀ j l, i < j → ((seed b).registerAll regs).2[j]? = some l → name ∉ l := by
  have hid : ((seed b).registerAll regs).1.id? name =
      (((seed b).registerAll regs).1.aliases.get? name).map (·.node.id) := by rw [id?, hname]
  have hseed : (seed b).aliases.get? name = none := rfl
  rcases standing_registerAll hseed regs with
    ⟨hnone, hheld, hlists⟩ | ⟨i, c, rank, hc, hheld, hmem, hlater⟩
  · refine ⟨fun _ => ⟨by rw [hid, hheld]; rfl, hlists⟩, fun ⟨c, hc, h⟩ => absurd (hnone c hc) h, fun i c rank h => ?_⟩
    have hoffer := h.offer
    rw [hnone c (List.mem_of_getElem? h.at_index)] at hoffer
    cases hoffer
  · refine ⟨fun h => ?_, fun _ => ⟨i, c, rank, hc⟩, fun j d rank' hd => ?_⟩
    · have hoffer := hc.offer
      rw [h c (List.mem_of_getElem? hc.at_index)] at hoffer
      cases hoffer
    · obtain rfl := hc.unique hd
      obtain rfl : c = d := Option.some.inj (hc.at_index.symm.trans hd.at_index)
      exact ⟨by rw [hid, hheld]; rfl, hmem, hlater⟩

/-- Four nodes that ask for one name: by the type, by a reference, by the id, and by the type again. -/
def contested : List Registration :=
  let node (id name : String) : Node := ⟨id, name, name, "", "", none, ∅, .origin, none⟩
  [⟨node "first" "step", none, 0⟩, ⟨node "second" "log", some " step ", 1⟩, ⟨node "step" "log", none, 2⟩,
    ⟨node "fourth" "step", none, 3⟩]

/-- The name belongs to the node with the reference. -/
theorem id?_contested : Text.trim "step" = "step" ∧ (∃ c rank, Decides contested "step" 1 c rank) ∧
    ((seed (.blank "b" "board")).registerAll contested).1.id? "step" = some "second" := by
  have hdecides : Decides contested "step" 1 contested[1] .explicit :=
    { at_index := rfl
      offer := by decide +kernel
      strongest := by decide +kernel
      last := fun j d hj hd => by
        have hlt : j < 4 := (List.getElem?_eq_some_iff.mp hd).1
        interval_cases j <;> cases hd <;> decide +kernel }
  exact ⟨by decide +kernel, ⟨_, _, hdecides⟩,
    ((id?_registerAll (.blank "b" "board") contested (by decide +kernel)).2.2 1 _ _ hdecides).1⟩

end References

end Workboard
