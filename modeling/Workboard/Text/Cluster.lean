import Workboard.Text.ClusterTable

/-! User-perceived characters: the extended grapheme clusters of Unicode.

A text is cut into clusters from left to right; `joins` decides from what lies to the left of a place
whether the next character continues the cluster. -/

namespace Workboard.Text

/-- The roles of characters at cluster boundaries. -/
inductive ClusterRole where
  | return
  | feed
  | control
  | extend
  | joiner
  | spacing
  | flag
  | prepend
  | lead
  | vowel
  | tail
  | leadVowel
  | leadVowelTail
  | other
  deriving DecidableEq, Repr

def clusterRole (c : Char) : ClusterRole :=
  let n := c.toNat
  if n = 13 then .return
  else if n = 10 then .feed
  else if 0x20 ≤ n ∧ n < 0x7f then .other
  else if controlSpans.has n then .control
  else if n = 0x200d then .joiner
  else if extendSpans.has n then .extend
  else if spacingSpans.has n then .spacing
  else if prependSpans.has n then .prepend
  else if 0x1f1e6 ≤ n ∧ n ≤ 0x1f1ff then .flag
  else if (0x1100 ≤ n ∧ n ≤ 0x115f) ∨ (0xa960 ≤ n ∧ n ≤ 0xa97c) then .lead
  else if (0x1160 ≤ n ∧ n ≤ 0x11a7) ∨ (0xd7b0 ≤ n ∧ n ≤ 0xd7c6) ∨ n = 0x16d63 ∨ (0x16d67 ≤ n ∧ n ≤ 0x16d6a) then .vowel
  else if (0x11a8 ≤ n ∧ n ≤ 0x11ff) ∨ (0xd7cb ≤ n ∧ n ≤ 0xd7fb) then .tail
  else if 0xac00 ≤ n ∧ n ≤ 0xd7a3 then if (n - 0xac00) % 28 = 0 then .leadVowel else .leadVowelTail
  else .other

/-- What is known of the characters to the left of a place, in the same cluster. -/
structure ClusterState where
  role : ClusterRole
  /-- A pictograph with extending characters behind it, and then perhaps a joiner. -/
  picture : Bool
  /-- An odd number of flag letters. -/
  oddFlags : Bool
  /-- A consonant, and then perhaps signs that extend or link it. -/
  conjunct : Bool
  /-- Among those signs a linking one. -/
  linked : Bool

/-- The signs that may stand between two linked consonants. -/
def staysConjunct (role : ClusterRole) (n : Nat) : Bool := (role = .extend && n ≠ 0x200c) || role = .joiner

/-- Takes one more character in. -/
def ClusterState.push (s : Option ClusterState) (c : Char) : ClusterState :=
  let role := clusterRole c
  let n := c.toNat
  let stays := staysConjunct role n && (s.any (·.conjunct))
  { role
    picture := pictureSpans.has n || ((role = .extend || role = .joiner) && s.any fun s => s.picture && s.role ≠ .joiner)
    oddFlags := role = .flag && !s.any (·.oddFlags)
    conjunct := consonantSpans.has n || stays
    linked := stays && (linkerSpans.has n || s.any (·.linked)) }

/-- Whether a character continues the cluster to its left. -/
def ClusterState.joins (s : ClusterState) (c : Char) : Bool :=
  let role := clusterRole c
  let isBreak (r : ClusterRole) : Bool := r = .return || r = .feed || r = .control
  if s.role = .return ∧ role = .feed then true
  else if isBreak s.role || isBreak role then false
  else if s.role = .lead ∧ (role = .lead ∨ role = .vowel ∨ role = .leadVowel ∨ role = .leadVowelTail) then true
  else if (s.role = .leadVowel ∨ s.role = .vowel) ∧ (role = .vowel ∨ role = .tail) then true
  else if (s.role = .leadVowelTail ∨ s.role = .tail) ∧ role = .tail then true
  -- These go on with any cluster that no break has ended.
  else if role = .extend ∨ role = .joiner ∨ role = .spacing then true
  else if s.role = .prepend then true
  else if s.linked && consonantSpans.has c.toNat then true
  else if s.role = .joiner && s.picture && pictureSpans.has c.toNat then true
  else s.oddFlags && role = .flag

/-- The first characters of a cluster that has begun and of the clusters behind it. -/
def clusterHeads (first : Char) (s : ClusterState) : List Char → List Char
  | [] => [first]
  | c :: r =>
    if s.joins c then clusterHeads first (.push (some s) c) r else first :: clusterHeads c (.push none c) r

/-- The first character of every cluster of a text. -/
def heads : List Char → List Char
  | [] => []
  | c :: r => clusterHeads c (.push none c) r

end Workboard.Text
