import Workboard.Board.Fingerprint
import Workboard.Search.Index

/-! A cache of indexes by the contents of their boards. When it is full, the index that was not used for
the longest time goes. -/

namespace Workboard.Search

structure CachedIndex where
  fingerprint : List UInt8
  /-- How many indexes were built before this one. -/
  serial : Nat
  index : Index

structure Cache where
  profile : Profile
  capacity : Nat
  /-- The number of indexes built so far. -/
  built : Nat
  /-- The most recently used first. -/
  entries : List CachedIndex

namespace Cache

/-- An empty cache. It has room for one index at least. -/
def new (capacity : Nat) (profile : Profile) : Cache := ⟨profile, max capacity 1, 0, []⟩

/-- The capacity of the usual cache. -/
def usualCapacity : Nat := 8

def standard : Cache := new usualCapacity .board

def size (c : Cache) : Nat := c.entries.length

def isEmpty (c : Cache) : Bool := c.size = 0

/-- The index of a board, kept or new. A new one meets what is on the board in the given orders. -/
def get (c : Cache) (b : Board) (orders : Board.Orders := {}) : CachedIndex × Cache :=
  let key := b.fingerprint
  match c.entries.find? (·.fingerprint = key) with
  | some entry => (entry, { c with entries := entry :: c.entries.filter (·.fingerprint ≠ key) })
  | none =>
    let entry := ⟨key, c.built, .ofBoard b c.profile orders⟩
    (entry, { c with built := c.built + 1, entries := (entry :: c.entries).take c.capacity })

end Cache

end Workboard.Search
