/-! Sets and mappings of characters by runs.

A run is given by its first and last code point and the step from one member to the next. Tables list
their runs in ascending order, so a look-up stops at the first run that starts behind the character. -/

namespace Workboard.Text

/-- A set of code points: runs `(first, last, step)`, ascending. -/
abbrev Spans := List (Nat × Nat × Nat)

/-- A mapping of code points: runs `(first, last, step, image of first)`, ascending. The whole run moves by
    the same distance. -/
abbrev Shifts := List (Nat × Nat × Nat × Nat)

def Spans.has : Spans → Nat → Bool
  | [], _ => false
  | (first, last, step) :: r, n =>
    if n < first then false
    else if n ≤ last then (n - first) % step = 0 || Spans.has r n
    else Spans.has r n

/-- The image of a code point, if the mapping moves it. -/
def Shifts.image? : Shifts → Nat → Option Nat
  | [], _ => none
  | (first, last, step, image) :: r, n =>
    if n < first then none
    else if n ≤ last ∧ (n - first) % step = 0 then some (image + (n - first))
    else Shifts.image? r n

end Workboard.Text
