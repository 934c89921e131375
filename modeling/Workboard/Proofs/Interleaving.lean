import Workboard.Apply.Memory
import Workboard.Proofs.Account
import Workboard.Proofs.SoundMutation

/-! Batches at the same time.

Several batches may be under way on one memory: each begins on some view of the board, perhaps an outdated
one, and the memory answers their calls in any order (`Memory.Reachable`). A sound board is sound after every
call, since no batch asks for a mutation that is not proper. -/

namespace Workboard

namespace Session

variable {α σ : Type} {P : Mutation → Prop} {Q : α → Prop}

/-- Answers what a session asks for next: the rest of the session, and the facility's next state. -/
def advance (f : Facility σ) : Session α → σ → Session α × σ
  | done a, s => (done a, s)
  | execute m next, s => (next (f.execute m s).1, (f.execute m s).2)
  | snapshot next, s => (next (f.snapshot s).1, (f.snapshot s).2)
  | fence point next, s => (next (f.fence point s).1, (f.fence point s).2)
  | wait _ next, s => (next, s)

theorem Ensures.advance {x : Session α} (h : x.Ensures P Q) (f : Facility σ) (s : σ) : (x.advance f s).1.Ensures P Q := by
  cases x with
  | done a => exact h
  | execute m next => exact h.2 _
  | snapshot next => exact h _
  | fence point next => exact h _
  | wait t next => exact h

end Session

namespace Memory

/-- The batches under way, and the memory: a batch may begin at any time, on any view of the board, and the
    memory answers one call after the other, of whichever batch. -/
inductive Reachable (b : Board) : List (Session (Report × List Notice)) → Memory → Prop where
  | start : Reachable b [] (.ofBoard b)
  | begin {batches : List (Session (Report × List Notice))} {s : Memory} (t : Occasion) (view : Board)
      (commands : List Command) (h : Reachable b batches s) : Reachable b (Batch.apply t view commands :: batches) s
  | call {l r : List (Session (Report × List Notice))} {x : Session (Report × List Notice)} {s : Memory}
      (h : Reachable b (l ++ x :: r) s) : Reachable b (l ++ (x.advance facility s).1 :: r) (x.advance facility s).2

variable {b : Board} {batches : List (Session (Report × List Notice))} {s : Memory}

theorem board_execute (s : Memory) (m : Mutation) : (s.execute m).2.board = (s.board.execute m).board := by
  unfold execute
  split
  · rename_i h
    rw [h]
  · rename_i h
    rw [h]

/-- One call keeps the board sound if a mutation that it carries out is proper. -/
theorem sound_advance {α : Type} {Q : α → Prop} {x : Session α} (hs : s.board.Sound)
    (hx : x.Ensures Mutation.Proper Q) : (x.advance facility s).2.board.Sound := by
  cases x with
  | done a => exact hs
  | execute m next =>
    show (s.execute m).2.board.Sound
    rw [board_execute]
    exact hs.execute hx.1
  | snapshot next => exact hs
  | fence point next => exact hs
  | wait t next => exact hs

/-- What is left of a batch asks for proper mutations only. -/
theorem Reachable.proper (h : Reachable b batches s) :
    ∀ x ∈ batches, x.Ensures Mutation.Proper fun _ => True := by
  induction h with
  | start =>
    intro x hx
    cases hx
  | begin t view commands _ ih =>
    intro x hx
    rcases List.mem_cons.mp hx with rfl | hx
    · exact (Batch.ensures_apply t view commands).imp (fun _ hm => hm) fun _ _ => trivial
    · exact ih x hx
  | @call l r x s _ ih =>
    intro y hy
    rcases List.mem_append.mp hy with hy | hy
    · exact ih y (List.mem_append_left _ hy)
    · rcases List.mem_cons.mp hy with rfl | hy
      · exact (ih x (List.mem_append_right _ List.mem_cons_self)).advance facility s
      · exact ih y (List.mem_append_right _ (List.mem_cons_of_mem x hy))

/-- A batch that is applied alone is answered call by call. -/
theorem Reachable.run {x : Session (Report × List Notice)} (h : Reachable b (x :: batches) s) :
    Reachable b (.done (x.run facility s).1 :: batches) (x.run facility s).2 := by
  induction x generalizing s with
  | done a => exact h
  | execute m next ih => exact ih _ (Reachable.call (l := []) h)
  | snapshot next ih => exact ih _ (Reachable.call (l := []) h)
  | fence point next ih => exact ih _ (Reachable.call (l := []) h)
  | wait t next ih => exact ih (Reachable.call (l := []) h)

/-- A sound board is sound after every call, whatever batches are under way. -/
theorem Reachable.sound (h : Reachable b batches s) (hb : b.Sound) : s.board.Sound := by
  induction h with
  | start => exact hb
  | begin t view commands _ ih => exact ih
  | @call l r x s h ih => exact sound_advance ih (h.proper x (List.mem_append_right _ List.mem_cons_self))

/-- A board with a node in a layer. -/
def grouped : Board :=
  let layered := ((Board.blank "b" "board").execute (.upsertLayer ⟨"", "Group", none, none, ∅, ∅, .origin, none⟩ [])).board
  (layered.execute (.addNode ⟨"", "log", "Log", "", "", none, ∅, .origin, none⟩ (some "layer-1") [])).board

theorem sound_grouped : grouped.Sound :=
  ((Board.sound_blank "b" "board").execute (m := .upsertLayer ⟨"", "Group", none, none, ∅, ∅, .origin, none⟩ [])
    ⟨rfl, rfl, rfl⟩).execute (m := .addNode ⟨"", "log", "Log", "", "", none, ∅, .origin, none⟩ (some "layer-1") []) trivial

/-- Of two batches that begin on the same view one removes the layer that the other adds a node to. -/
theorem sound_outdated :
    grouped.Sound ∧ (grouped.copy? (some "layer-1") "node-2").isSome = true ∧ ∃ batches s, Reachable grouped batches s ∧
      s.journal.map Mutation.kind = ["RemoveLayer"] ∧ s.board.Sound := by
  let t : Setting := ⟨[], .standard, .zero, 0⟩
  have hone := Reachable.start.begin (b := grouped) t grouped [⟨.addNodesToLayer "layer-1" ["node-2"], none⟩]
  have hboth := hone.begin t grouped [⟨.removeLayer "layer-1", none⟩]
  have hlast := Reachable.call (l := [_]) (Reachable.call (l := []) hboth)
  exact ⟨sound_grouped, by decide, _, _, hlast, by decide, hlast.sound sound_grouped⟩

end Memory

end Workboard
