import Workboard.Apply.Session
import Workboard.Proofs.Keyed

/-! What a session ensures, whatever it is answered.

`Session.Ensures P Q` says that every mutation that the session asks for satisfies `P` and every result
satisfies `Q`. It is put together along `bind`, and holds of a run with any facility. -/

namespace Workboard.Session

variable {α β σ : Type} {P P' : Mutation → Prop} {Q Q' : α → Prop}

/-- Whatever the answers are, the mutations that are asked for satisfy `P`, and the result `Q`. -/
def Ensures (P : Mutation → Prop) (Q : α → Prop) : Session α → Prop
  | done a => Q a
  | execute m next => P m ∧ ∀ r, (next r).Ensures P Q
  | snapshot next => ∀ r, (next r).Ensures P Q
  | fence _ next => ∀ r, (next r).Ensures P Q
  | wait _ next => next.Ensures P Q

theorem Ensures.imp {x : Session α} (h : x.Ensures P Q) (hP : ∀ m, P m → P' m) (hQ : ∀ a, Q a → Q' a) :
    x.Ensures P' Q' := by
  induction x with
  | done a => exact hQ a h
  | execute m next ih => exact ⟨hP m h.1, fun r => ih r (h.2 r)⟩
  | snapshot next ih => exact fun r => ih r (h r)
  | fence point next ih => exact fun r => ih r (h r)
  | wait t next ih => exact ih h

/-- What comes first ensures what the rest starts from. -/
theorem Ensures.bind {x : Session α} {f : α → Session β} {R : β → Prop} (h : x.Ensures P Q)
    (hf : ∀ a, Q a → (f a).Ensures P R) : (x >>= f).Ensures P R := by
  show (x.bind f).Ensures P R
  induction x with
  | done a => exact hf a h
  | execute m next ih => exact ⟨h.1, fun r => ih r (h.2 r)⟩
  | snapshot next ih => exact fun r => ih r (h r)
  | fence point next ih => exact fun r => ih r (h r)
  | wait t next ih => exact ih h

/-- A facility is one way to answer. -/
theorem Ensures.run {x : Session α} (h : x.Ensures P Q) (f : Facility σ) (s : σ) : Q (x.run f s).1 := by
  induction x generalizing s with
  | done a => exact h
  | execute m next ih => exact ih _ (h.2 _) _
  | snapshot next ih => exact ih _ (h _) _
  | fence point next ih => exact ih _ (h _) _
  | wait t next ih => exact ih h s

/-- Waiting asks for no mutation. -/
theorem ensures_settle {Q : Unit → Prop} (hQ : Q ()) (pauses : Pauses) (point : SettlePoint) :
    (settle pauses point).Ensures P Q := by
  intro settled
  dsimp only
  split <;> exact hQ

end Workboard.Session
