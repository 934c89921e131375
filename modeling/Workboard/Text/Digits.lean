/-! Natural numbers in decimal digits. -/

namespace Workboard.Text

/-- The number of a text of digits, perhaps behind a plus; it has to be below `2 ^ 64`. -/
def word64? (l : List Char) : Option Nat :=
  let ds := if l.head? = some '+' then l.tail else l
  let n := ds.foldl (fun n c => 10 * n + (c.toNat - 48)) 0
  if ds.isEmpty || !ds.all Char.isDigit || 0xFFFFFFFFFFFFFFFF < n then none else some n

end Workboard.Text
