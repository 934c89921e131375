import Workboard.Proofs.BatchText
import Workboard.Proofs.ConnectionRuns
import Workboard.Proofs.KeptCommands
import Workboard.Proofs.Quotations

/-! Connections that a batch asks for more than once.

A batch that is read from text lacks the connections that it has asked for before, also if they were undone in between. For
a batch that only rewires pins this makes no difference as long as none is undone that is asked for again
(`Board.Undisturbed`), since what is asked for is there already (`Board.rewireAll_fresh`). Main statement: how the batch that
is read compares with the one that was written (`Batch.ofText_connections`). -/

namespace Workboard

namespace Command

/-- The commands of a list that repeat none of those kept, and none before them. -/
def fresh (kept : List Command) : List Command → List Command
  | [] => []
  | c :: r => if kept.any (·.repeats c) then fresh kept r else c :: fresh (c :: kept) r

theorem dropRepeats_eq_append (kept l : List Command) : dropRepeats kept l = kept.reverse ++ fresh kept l := by
  induction l generalizing kept with
  | nil => simp [dropRepeats, fresh]
  | cons c r ih =>
    rw [dropRepeats, fresh]
    split
    · exact ih kept
    · simp [ih]

theorem distinct_eq_fresh (l : List Command) : distinct l = fresh [] l := dropRepeats_eq_append [] l

theorem mem_of_mem_fresh {c : Command} {kept l : List Command} (h : c ∈ fresh kept l) : c ∈ l := by
  induction l generalizing kept with
  | nil => exact h
  | cons d r ih =>
    rw [fresh] at h
    split at h
    · exact List.mem_cons_of_mem d (ih h)
    · rcases List.mem_cons.mp h with rfl | h
      · exact List.mem_cons_self
      · exact List.mem_cons_of_mem d (ih h)

/-- Of the commands on connections just those repeat each other that connect the same ends. -/
theorem rewiring?_of_repeats {c d : Command} {r : WireRequest} {on : Bool} (h : c.repeats d = true)
    (hd : d.rewiring? = some (r, on)) : on = true ∧ c.rewiring? = some (r, true) := by
  obtain ⟨a, _⟩ := c
  obtain ⟨a', _⟩ := d
  unfold rewiring? at hd
  cases a' <;> cases hd
  · cases a <;> simp_all [repeats, Action.repeats, rewiring?]
  · cases a <;> simp [repeats, Action.repeats] at h

/-- Without its repeats a list asks for the same, though not as often. -/
theorem exists_rewiring?_distinct {l : List Command} {m : WireRequest × Bool} :
    (∃ c ∈ distinct l, c.rewiring? = some m) ↔ ∃ c ∈ l, c.rewiring? = some m := by
  obtain ⟨_, hkeeps⟩ := exists_keeps l
  constructor
  · rintro ⟨c, hc, hm⟩
    exact ⟨c, hkeeps.sublist.subset hc, hm⟩
  · rintro ⟨c, hc, hm⟩
    obtain ⟨r, on⟩ := m
    rcases hkeeps.mem_or_repeats hc with hc | ⟨d, hd, hrep⟩
    · exact ⟨c, hc, hm⟩
    · obtain ⟨rfl, hd'⟩ := rewiring?_of_repeats hrep hm
      exact ⟨d, hd, hd'⟩

end Command

/-! ### Connections that are made already -/

theorem KeySet.put_comm {k j : String} (h : k ≠ j) (s : KeySet) (on on' : Bool) :
    (s.put k on).put j on' = (s.put j on').put k on := by
  refine KeySet.ext fun x => ?_
  simp only [contains_put]
  split <;> split <;> simp_all

theorem Pin.setEnd_comm {w w' : Wire} (h : ¬ w.SharesEnd w') (p : Pin) (key pin : String) (on on' : Bool) :
    (p.setEnd key pin w on).setEnd key pin w' on' = (p.setEnd key pin w' on').setEnd key pin w on := by
  obtain ⟨hout, hin⟩ := not_or.mp h
  have hout : w.fromNode = key ∧ w.fromPin = pin → w'.fromNode = key ∧ w'.fromPin = pin → w.toPin ≠ w'.toPin :=
    fun ⟨hn, hp⟩ ⟨hn', hp'⟩ hto => hout ⟨hn.trans hn'.symm, hp.trans hp'.symm, hto⟩
  have hin : w.toNode = key ∧ w.toPin = pin → w'.toNode = key ∧ w'.toPin = pin → w.fromPin ≠ w'.fromPin :=
    fun ⟨hn, hp⟩ ⟨hn', hp'⟩ hfrom => hin ⟨hn.trans hn'.symm, hp.trans hp'.symm, hfrom⟩
  unfold setEnd
  congr 1
  · by_cases ho : w.fromNode = key ∧ w.fromPin = pin <;> by_cases ho' : w'.fromNode = key ∧ w'.fromPin = pin
    · simp only [if_pos ho, if_pos ho', KeySet.put_comm (hout ho ho')]
    · simp only [if_pos ho, if_neg ho']
    · simp only [if_neg ho, if_pos ho']
    · simp only [if_neg ho, if_neg ho']
  · by_cases hi : w.toNode = key ∧ w.toPin = pin <;> by_cases hi' : w'.toNode = key ∧ w'.toPin = pin
    · simp only [if_pos hi, if_pos hi', KeySet.put_comm (hin hi hi')]
    · simp only [if_pos hi, if_neg hi']
    · simp only [if_neg hi, if_pos hi']
    · simp only [if_neg hi, if_neg hi']

namespace Board

variable {b b' : Board} {w w' : Wire} {ms ms' : List (Wire × Bool)}

theorem setEnds_comm (h : ¬ w.SharesEnd w') (b : Board) (on on' : Bool) :
    (b.setEnds w on).setEnds w' on' = (b.setEnds w' on').setEnds w on := by
  have hpins (p : Pin) (x k : String) : p.setAll x k [(w, on), (w', on')] = p.setAll x k [(w', on'), (w, on)] :=
    p.setEnd_comm h x k on on'
  exact setAll_congr fun _ x _ k p _ _ => hpins p x k

/-- Both ends have the connection, in every copy: to make it changes nothing. -/
def Linked (b : Board) (w : Wire) : Prop := b.setEnds w true = b

theorem linked_setEnds (b : Board) (w : Wire) : (b.setEnds w true).Linked w :=
  have hsame : ∀ x, x ∈ [w, w] ↔ x ∈ [w] := by simp
  b.joinAll_congr hsame

theorem Linked.setEnds_true (h : b.Linked w) (w' : Wire) : (b.setEnds w' true).Linked w := by
  have hsame : ∀ x, x ∈ [w', w] ↔ x ∈ [w, w'] := by simp [or_comm]
  have hcomm : (b.setEnds w' true).setEnds w true = (b.setEnds w true).setEnds w' true := b.joinAll_congr hsame
  unfold Linked at h ⊢
  rw [hcomm, h]

/-- A connection stays unless one with a common end is undone. -/
theorem Linked.rewire (h : b.Linked w) {m : Wire × Bool} (hm : m.2 = false → ¬ m.1.SharesEnd w) : (b.rewire m).Linked w := by
  obtain ⟨w', on⟩ := m
  unfold Board.rewire
  cases on with
  | true => exact h.setEnds_true w'
  | false =>
    split
    · unfold Linked at h ⊢
      rw [setEnds_comm (hm rfl), h]
    · exact h

/-- A command undoes an end of a connection that another command has made. -/
def Undoes (b : Board) (undo c : Command) : Prop :=
  ∃ r r' w w', c.rewiring? = some (r, true) ∧ undo.rewiring? = some (r', false) ∧ b.meant? r = some w ∧
    b.meant? r' = some w' ∧ w'.SharesEnd w

/-- Between a command and one that repeats it there is none that undoes an end of its connection. -/
def Undisturbed (b : Board) (l : List Command) : Prop :=
  ∀ pre c mid d post, l = pre ++ c :: (mid ++ d :: post) → c.repeats d = true → ∀ e ∈ mid, ¬ b.Undoes e c

/-- What was kept is there as long as it is still asked for. -/
def Stands (b now : Board) (l : List Command) (c : Command) : Prop :=
  ∀ mid d post, l = mid ++ d :: post → c.repeats d = true →
    (∀ e ∈ mid, ¬ b.Undoes e c) ∧ ∀ r w, c.rewiring? = some (r, true) → b.meant? r = some w → now.Linked w

/-- One command on is carried out, and all that still stands, stands. -/
theorem Stands.cons {now : Board} {l : List Command} {c d : Command} (h : b.Stands now (d :: l) c) :
    b.Stands (now.rewireAll (b.moves [d])) l c := by
  intro mid e post hl hrep
  obtain ⟨hundo, hlinked⟩ := h (d :: mid) e post (by rw [hl]; rfl) hrep
  refine ⟨fun x hx => hundo x (List.mem_cons_of_mem d hx), fun r w hr hw => ?_⟩
  have hnow := hlinked r w hr hw
  cases hd : d.rewiring? with
  | none =>
    have hmoves : b.moves [d] = [] := by simp [moves, hd]
    rwa [hmoves]
  | some m =>
    obtain ⟨r', on⟩ := m
    rw [b.moves_cons hd]
    cases hw' : b.meant? r' with
    | none => exact hnow
    | some w' =>
      refine hnow.rewire fun hon hshare => hundo d List.mem_cons_self ⟨r, r', w, w', hr, ?_, hw, hw', hshare⟩
      rw [hd, show on = false from hon]

theorem stands_self {now : Board} {l : List Command} {c : Command} (h : b.Undisturbed (c :: l)) :
    b.Stands (now.rewireAll (b.moves [c])) l c := by
  intro mid d post hl hrep
  refine ⟨h [] c mid d post (by rw [hl]; rfl) hrep, fun r w hr hw => ?_⟩
  rw [b.moves_cons hr, hw]
  exact now.linked_setEnds w

/-- As long as none is undone that is asked for again, a repeat changes nothing. -/
theorem rewireAll_fresh (now : Board) (kept : List Command) {l : List Command} (hl : ∀ c ∈ l, c.rewiring?.isSome = true)
    (hkept : ∀ c ∈ kept, b.Stands now l c) (h : b.Undisturbed l) :
    now.rewireAll (b.moves (Command.fresh kept l)) = now.rewireAll (b.moves l) := by
  induction l generalizing now kept with
  | nil => rfl
  | cons c l ih =>
    have hrest : b.Undisturbed l := fun pre x mid d post hl => h (c :: pre) x mid d post (by rw [hl]; rfl)
    have hl' : ∀ d ∈ l, d.rewiring?.isSome = true := fun d hd => hl d (List.mem_cons_of_mem c hd)
    have hcons (l : List Command) : now.rewireAll (b.moves (c :: l)) =
        (now.rewireAll (b.moves [c])).rewireAll (b.moves l) := by
      rw [← rewireAll_append]
      exact congrArg now.rewireAll (List.filterMap_append (l := [c]))
    rw [Command.fresh, hcons]
    split
    · rename_i hrep
      obtain ⟨d, hd, hrep⟩ := List.any_eq_true.mp hrep
      -- What the command asks for is there.
      have hsame : now.rewireAll (b.moves [c]) = now := by
        obtain ⟨⟨r, on⟩, hc⟩ := Option.isSome_iff_exists.mp (hl c List.mem_cons_self)
        obtain ⟨rfl, hr⟩ := Command.rewiring?_of_repeats hrep hc
        rw [b.moves_cons hc]
        cases hw : b.meant? r with
        | none => rfl
        | some w => exact (hkept d hd [] c l rfl hrep).2 r w hr hw
      rw [hsame]
      exact ih now kept hl' (fun x hx => hsame ▸ (hkept x hx).cons) hrest
    · rw [hcons]
      refine ih _ _ hl' (fun x hx => ?_) hrest
      rcases List.mem_cons.mp hx with rfl | hx
      · exact stands_self h
      · exact (hkept x hx).cons

theorem mem_moves_distinct {m : Wire × Bool} {l : List Command} : m ∈ b.moves (Command.distinct l) ↔ m ∈ b.moves l := by
  simp only [mem_moves, Command.exists_rewiring?_distinct]

end Board

namespace Batch

open Board (Separate)
open Command (batchText)

variable {l : List Command}

/-- A command on a connection is written with texts only. -/
theorem printed_rewiring {c : Command} (h : c.rewiring?.isSome = true) :
    c.action.Plain ∧ c.printed.numbers = [] ∧ c.printed.depth < 2 := by
  obtain ⟨a, summary⟩ := c
  cases a <;> cases h
  all_goals
    refine ⟨⟨by simp [Action.spots], by simp [Action.sizes], by simp [Action.values, Action.value?],
      by simp [Action.value?]⟩, ?_⟩
    cases summary
    all_goals
      simp [Command.printed, Command.members, Action.members, WireRequest.members, Json.ofText?, Json.numbers,
        Json.memberNumbers, Json.depth, Json.membersDepth]

/-- Commands on connections are read as they were written. -/
theorem readJson_rewiring (hl : ∀ c ∈ l, c.rewiring?.isSome = true) : readJson (batchText l) = .ok l := by
  refine readJson_listed (fun c hc => (printed_rewiring (hl c hc)).1) (fun x hx => ?_) ?_
  · obtain ⟨j, hj, hx⟩ := Json.mem_itemNumbers.mp hx
    obtain ⟨c, hc, rfl⟩ := List.mem_map.mp hj
    rw [(printed_rewiring (hl c hc)).2.1] at hx
    cases hx
  · have hdepth : Json.itemsDepth (l.map Command.printed) < 2 := by
      refine Json.itemsDepth_lt (by decide) fun j hj => ?_
      obtain ⟨c, hc, rfl⟩ := List.mem_map.mp hj
      exact (printed_rewiring (hl c hc)).2.2
    have hlimit : 3 ≤ Draft.nestingLimit := by decide
    show Json.itemsDepth (l.map Command.printed) + 1 < Draft.nestingLimit
    omega

/-- A batch of connections to be made and undone, read from its text, lacks those that were asked for before; this is all
    that it lacks. Applied, it leads to the same connections at all pins, and so to the same board but for the version, if
    between two commands that ask for the same connection none undoes one with a common end. Where different connections
    have no end in common it does so exactly if the last command on each connection has stayed of the same kind. -/
theorem ofText_connections (t : Occasion) (b : Board) (hl : ∀ c ∈ l, c.rewiring?.isSome = true)
    (htext : ¬ Tagged (batchText l).toList) :
    let read := Command.distinct l
    let after (l : List Command) := ((apply t b l).run Memory.facility (.ofBoard b)).2.board
    ofText (batchText l) = .ok read ∧
    ((after l).SameLists (after read) ↔ { after read with version := b.version } = { after l with version := b.version }) ∧
    (b.Undisturbed l → (after l).SameLists (after read)) ∧
    (Separate (b.moves l) → ((after l).SameLists (after read) ↔
      ∀ w, lastAt (· = w) (b.moves read) = lastAt (· = w) (b.moves l))) := by
  intro read after
  have hread : ∀ c ∈ read, c.rewiring?.isSome = true := by
    intro c hc
    rw [show read = _ from Command.distinct_eq_fresh l] at hc
    exact hl c (Command.mem_of_mem_fresh hc)
  have hboards : { after read with version := b.version } = { after l with version := b.version } ↔
      b.rewireAll (b.moves read) = b.rewireAll (b.moves l) := by
    rw [← board_apply t b hl, ← board_apply t b hread]
  have hlists : (after l).SameLists (after read) ↔
      { after read with version := b.version } = { after l with version := b.version } := by
    refine ⟨fun h => hboards.mpr (Board.rewireAll_eq_of_sameLists ?_), fun h shelf node pin => ?_⟩
    · rw [← board_apply t b hl, ← board_apply t b hread]
      exact h
    · exact congrArg (·.lists? shelf node pin) h
  refine ⟨?_, hlists, fun h => hlists.mpr (hboards.mpr ?_), fun hsep => hlists.trans (hboards.trans ?_)⟩
  · rw [ofText_eq, commandsOf, blocks_eq_nil_iff.mpr htext]
    dsimp only
    rw [readJson_rewiring hl]
    rfl
  · have hfresh := Board.rewireAll_fresh b [] hl (fun c hc => by cases hc) h
    rwa [← Command.distinct_eq_fresh] at hfresh
  · exact Board.rewireAll_eq_iff (fun m hm => Board.needEnds_of_mem_moves hm) hsep fun m => Board.mem_moves_distinct

theorem ownPins_pair : Board.pair.OwnPins := by
  have hpins (x k : String) (n : Node) (hn : Board.pair.node? x = some n) (hk : n.pins.contains k = true) :
      x = "m" ∧ k = "out" ∨ x = "n" ∧ k = "in" := by
    have hnode : Board.pair.node? x = Board.pair.nodes.get? x := by
      unfold Board.node?
      cases Board.pair.nodes.get? x <;> rfl
    obtain ⟨p, hp⟩ := KeyMap.contains_iff.mp hk
    have hp := KeyMap.get?_eq_some_iff_mem.mp hp
    rcases List.mem_cons.mp (KeyMap.get?_eq_some_iff_mem.mp (hnode.symm.trans hn)) with h | h
    · obtain ⟨rfl, rfl⟩ := Prod.mk.inj h
      exact Or.inl ⟨rfl, (Prod.mk.inj (List.mem_singleton.mp hp)).1⟩
    · obtain ⟨rfl, rfl⟩ := Prod.mk.inj (List.mem_singleton.mp h)
      exact Or.inr ⟨rfl, (Prod.mk.inj (List.mem_singleton.mp hp)).1⟩
  intro x y m n k hm hn hk hk'
  rcases hpins x k m hm hk with ⟨rfl, rfl⟩ | ⟨rfl, rfl⟩ <;> rcases hpins y _ n hn hk' with ⟨rfl, h⟩ | ⟨rfl, h⟩
  · rfl
  · exact absurd h (by decide)
  · exact absurd h (by decide)
  · rfl

/-- The two pins are connected, and again, and taken apart. -/
def twice : List Command :=
  let w : WireRequest := ⟨"m", "out", "n", "in"⟩
  [⟨.connectPins w, none⟩, ⟨.connectPins w, none⟩, ⟨.disconnectPins w, none⟩]

/-- The second of the two connections is left out, and nothing comes of it. -/
theorem twice_harmless :
    let t : Setting := ⟨[], .standard, .zero, 0⟩
    let after (l : List Command) := ((apply t .pair l).run Memory.facility (.ofBoard .pair)).2.board
    (∀ c ∈ twice, c.rewiring?.isSome = true) ∧ ¬ Tagged (batchText twice).toList ∧ Board.pair.Undisturbed twice ∧
      Separate (Board.pair.moves twice) ∧ ofText (batchText twice) = .ok (Command.distinct twice) ∧
      (after twice).SameLists (after (Command.distinct twice)) ∧
      ∀ w, lastAt (· = w) (Board.pair.moves (Command.distinct twice)) = lastAt (· = w) (Board.pair.moves twice) := by
  intro t after
  have hl : ∀ c ∈ twice, c.rewiring?.isSome = true := by decide
  have htagged : ¬ Tagged (batchText twice).toList := by
    have huntagged : Untagged (batchText twice).toList := untagged_compress (by decide +kernel)
    exact blocks_eq_nil_iff.mp (blocks_eq_nil huntagged.1)
  have hundisturbed : Board.pair.Undisturbed twice := by
    -- There is room for one command between two others, and the one in the middle undoes nothing.
    rintro pre c mid d post htwice - e he ⟨r, r', w, w', -, hundo, -⟩
    have hlength := congrArg List.length htwice
    have hsome := List.length_pos_of_mem he
    simp only [twice, List.length_append, List.length_cons, List.length_nil] at hlength
    obtain rfl : pre = [] := List.length_eq_zero_iff.mp (by omega)
    obtain rfl : post = [] := List.length_eq_zero_iff.mp (by omega)
    obtain ⟨x, rfl⟩ : ∃ x, mid = [x] := List.length_eq_one_iff.mp (by omega)
    obtain rfl := List.mem_singleton.mp he
    injection htwice with _ hrest
    injection hrest with hsecond
    rw [← hsecond] at hundo
    cases hundo
  have hseparate : Separate (Board.pair.moves twice) :=
    ownPins_pair.separate fun m hm => Board.needEnds_of_mem_moves hm
  obtain ⟨hread, -, hsame, hlast⟩ := ofText_connections t .pair hl htagged
  exact ⟨hl, htagged, hundisturbed, hseparate, hread, hsame hundisturbed, (hlast hseparate).mp (hsame hundisturbed)⟩

/-- The two pins are connected, taken apart, and connected again. -/
def reconnect : List Command :=
  let w : WireRequest := ⟨"m", "out", "n", "in"⟩
  [⟨.connectPins w, none⟩, ⟨.disconnectPins w, none⟩, ⟨.connectPins w, none⟩]

/-- Read from text, the batch leaves the pins apart. -/
theorem reconnect_lost :
    let t : Setting := ⟨[], .standard, .zero, 0⟩
    let after (l : List Command) := ((apply t .pair l).run Memory.facility (.ofBoard .pair)).2.board
    (∀ c ∈ reconnect, c.rewiring?.isSome = true) ∧ ofText (batchText reconnect) = .ok (reconnect.take 2) ∧
      ¬ (after reconnect).SameLists (after (reconnect.take 2)) := by
  intro t after
  have hl : ∀ c ∈ reconnect, c.rewiring?.isSome = true := by decide
  have htext : Untagged (batchText reconnect).toList := untagged_compress (by decide +kernel)
  refine ⟨hl, ofText_of_readJson htext (readJson_rewiring hl), fun h => ?_⟩
  have houts := congrArg (Option.map (·.1.toList)) (h none "m" "out")
  have hfull : ((after reconnect).lists? none "m" "out").map (·.1.toList) = some ["in"] := by decide +kernel
  have hless : ((after (reconnect.take 2)).lists? none "m" "out").map (·.1.toList) = some [] := by decide +kernel
  rw [hfull, hless] at houts
  cases houts

end Batch

end Workboard
