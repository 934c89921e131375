import Workboard.Apply.Error
import Workboard.Apply.Pauses

/-! Computations that change a board through a facility.

A `Session` asks for one thing at a time and goes on with the answer, whatever it is. A `Facility` answers
from a state of its own; `Session.run` puts the two together. -/

namespace Workboard

inductive Session (α : Type) where
  | done (result : α)
  /-- Has a mutation carried out. -/
  | execute (m : Mutation) (next : Except Refusal Receipt → Session α)
  /-- Asks for the board as it is now. -/
  | snapshot (next : Except Refusal Board → Session α)
  /-- Asks to wait until all changes are visible; the answer tells whether the facility could. -/
  | fence (point : SettlePoint) (next : Bool → Session α)
  /-- Lets some time pass. -/
  | wait (milliseconds : Nat) (next : Session α)

namespace Session

def bind : Session α → (α → Session β) → Session β
  | done a, f => f a
  | execute m next, f => .execute m fun r => (next r).bind f
  | snapshot next, f => .snapshot fun r => (next r).bind f
  | fence point next, f => .fence point fun r => (next r).bind f
  | wait t next, f => .wait t (next.bind f)

instance : Monad Session where
  pure := done
  bind := bind

/-- Waits for the facility, or for a while if it cannot tell. -/
def settle (pauses : Pauses) (point : SettlePoint) : Session Unit :=
  .fence point fun settled =>
    if settled || pauses.time point = 0 then .done () else .wait (pauses.time point) (.done ())

end Session

/-- Something that changes boards, with states of type `σ`. -/
structure Facility (σ : Type) where
  execute : Mutation → σ → Except Refusal Receipt × σ
  snapshot : σ → Except Refusal Board × σ
  fence : SettlePoint → σ → Bool × σ

/-- The result of a session with a facility, and the facility's last state. -/
def Session.run (f : Facility σ) : Session α → σ → α × σ
  | done a, s => (a, s)
  | execute m next, s => (next (f.execute m s).1).run f (f.execute m s).2
  | snapshot next, s => (next (f.snapshot s).1).run f (f.snapshot s).2
  | fence point next, s => (next (f.fence point s).1).run f (f.fence point s).2
  | wait _ next, s => next.run f s

/-- What a facility was asked. -/
inductive Call where
  | execute (m : Mutation)
  | snapshot
  | fence (point : SettlePoint)

def Call.label : Call → String
  | execute m => m.kind
  | snapshot => "snapshot"
  | fence point => point.label

/-- The facility that also keeps a list of what it was asked, last first. -/
def Facility.traced (f : Facility σ) : Facility (List Call × σ) where
  execute m s := let (r, t) := f.execute m s.2; (r, .execute m :: s.1, t)
  snapshot s := let (r, t) := f.snapshot s.2; (r, .snapshot :: s.1, t)
  fence point s := let (r, t) := f.fence point s.2; (r, .fence point :: s.1, t)

end Workboard
