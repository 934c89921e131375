import Workboard.Proofs.Proper
import Workboard.Search.Highlight

/-! Ranges that are joined where they overlap or touch.

A range `Joins` others if it goes from the start of one of them to the end of one of them and has just their bytes. The
ranges that `joinRanges` makes of a sorted list are each joined from a group of it, in order (`exists_groups`), and stand
apart from each other (`pairwise_joinRanges`). -/

namespace Workboard.Search

namespace ByteRange

def bytes (x : ByteRange) : Set ℕ := Set.Ico x.start x.stop

theorem mem_bytes {x : ByteRange} {k : ℕ} : k ∈ x.bytes ↔ x.start ≤ k ∧ k < x.stop := Set.mem_Ico

structure Within (x y : ByteRange) : Prop where
  start_le : y.start ≤ x.start
  le_stop : x.stop ≤ y.stop

theorem Within.refl (x : ByteRange) : x.Within x := ⟨le_rfl, le_rfl⟩

theorem Within.trans {x y z : ByteRange} (h : x.Within y) (h' : y.Within z) : x.Within z :=
  ⟨h'.start_le.trans h.start_le, h.le_stop.trans h'.le_stop⟩

/-- A range is made of others. -/
structure Joins (x : ByteRange) (parts : List ByteRange) : Prop where
  start_mem : ∃ p ∈ parts, p.start = x.start
  stop_mem : ∃ p ∈ parts, p.stop = x.stop
  within : ∀ p ∈ parts, p.Within x
  covered : ∀ k ∈ x.bytes, ∃ p ∈ parts, k ∈ p.bytes

namespace Joins

variable {x y : ByteRange} {parts : List ByteRange}

theorem single (x : ByteRange) : x.Joins [x] where
  start_mem := ⟨x, List.mem_singleton_self x, rfl⟩
  stop_mem := ⟨x, List.mem_singleton_self x, rfl⟩
  within := fun _ hp => List.mem_singleton.mp hp ▸ Within.refl x
  covered := fun _ hk => ⟨x, List.mem_singleton_self x, hk⟩

theorem bytes_eq (h : x.Joins parts) : x.bytes = ⋃ p ∈ parts, p.bytes := by
  ext k
  rw [Set.mem_iUnion₂]
  constructor
  · intro hk
    obtain ⟨p, hp, hkp⟩ := h.covered k hk
    exact ⟨p, hp, hkp⟩
  · rintro ⟨p, hp, hkp⟩
    obtain ⟨hstart, hstop⟩ := h.within p hp
    obtain ⟨hle, hlt⟩ := mem_bytes.mp hkp
    exact mem_bytes.mpr ⟨hstart.trans hle, hlt.trans_le hstop⟩

/-- Of two ranges that overlap or touch, each made of others, one is made. -/
theorem append {more : List ByteRange} (h : x.Joins parts) (h' : y.Joins more) (hstart : x.start ≤ y.start)
    (htouch : y.start ≤ x.stop) : ByteRange.Joins ⟨x.start, max x.stop y.stop⟩ (parts ++ more) where
  start_mem := by
    obtain ⟨p, hp, hstart⟩ := h.start_mem
    exact ⟨p, List.mem_append_left more hp, hstart⟩
  stop_mem := by
    rcases le_total x.stop y.stop with hle | hle
    · obtain ⟨p, hp, hstop⟩ := h'.stop_mem
      exact ⟨p, List.mem_append_right parts hp, hstop.trans (max_eq_right hle).symm⟩
    · obtain ⟨p, hp, hstop⟩ := h.stop_mem
      exact ⟨p, List.mem_append_left more hp, hstop.trans (max_eq_left hle).symm⟩
  within := fun p hp => by
    rcases List.mem_append.mp hp with hp | hp
    · exact (h.within p hp).trans ⟨le_rfl, le_max_left x.stop y.stop⟩
    · exact (h'.within p hp).trans ⟨hstart, le_max_right x.stop y.stop⟩
  covered := fun k hk => by
    obtain ⟨hle, hlt⟩ := mem_bytes.mp hk
    rcases Nat.lt_or_ge k x.stop with hx | hx
    · obtain ⟨p, hp, hkp⟩ := h.covered k (mem_bytes.mpr ⟨hle, hx⟩)
      exact ⟨p, List.mem_append_left more hp, hkp⟩
    · have hy : k < y.stop := (lt_max_iff.mp hlt).resolve_left hx.not_gt
      obtain ⟨p, hp, hkp⟩ := h'.covered k (mem_bytes.mpr ⟨htouch.trans hx, hy⟩)
      exact ⟨p, List.mem_append_right parts hp, hkp⟩

end Joins

theorem isBefore_iff {x y : ByteRange} : x.isBefore y = true ↔ x.start < y.start ∨ x.start = y.start ∧ x.stop ≤ y.stop := by
  simp [isBefore]

theorem isBefore_trans (x y z : ByteRange) (h : x.isBefore y = true) (h' : y.isBefore z = true) : x.isBefore z = true := by
  rw [isBefore_iff] at h h' ⊢
  omega

theorem isBefore_total (x y : ByteRange) : (x.isBefore y || y.isBefore x) = true := by
  rw [Bool.or_eq_true, isBefore_iff, isBefore_iff]
  omega

end ByteRange

open ByteRange

variable {x : ByteRange} {parts rest l : List ByteRange}

/-! ### Joining -/

/-- The ranges that come of a sorted list are joined from groups of it, what is joined so far being the first part of the
    first group. -/
theorem exists_groups_joinFrom (hx : x.Joins parts) (hsorted : (x :: rest).Pairwise fun a b => a.start ≤ b.start) :
    ∃ groups : List (List ByteRange), groups.flatten = parts ++ rest ∧ List.Forall₂ Joins (joinFrom x rest) groups := by
  induction rest generalizing x parts with
  | nil => exact ⟨[parts], by simp, .cons hx .nil⟩
  | cons y rest ih =>
    obtain ⟨hfirst, hrest⟩ := List.pairwise_cons.mp hsorted
    obtain ⟨-, hlater⟩ := List.pairwise_cons.mp hrest
    unfold joinFrom
    split
    · rename_i htouch
      have hnext : (⟨x.start, max x.stop y.stop⟩ :: rest).Pairwise fun a b : ByteRange => a.start ≤ b.start :=
        List.pairwise_cons.mpr ⟨fun z hz => hfirst z (List.mem_cons_of_mem y hz), hlater⟩
      obtain ⟨groups, hflat, hgroups⟩ := ih (hx.append (Joins.single y) (hfirst y List.mem_cons_self) htouch) hnext
      exact ⟨groups, by rw [hflat, List.append_assoc]; rfl, hgroups⟩
    · obtain ⟨groups, hflat, hgroups⟩ := ih (Joins.single y) hrest
      exact ⟨parts :: groups, by rw [List.flatten_cons, hflat]; rfl, .cons hx hgroups⟩

theorem exists_groups (hsorted : l.Pairwise fun a b => a.start ≤ b.start) :
    ∃ groups : List (List ByteRange), groups.flatten = l ∧ List.Forall₂ Joins (joinRanges l) groups := by
  cases l with
  | nil => exact ⟨[], rfl, .nil⟩
  | cons x rest => exact exists_groups_joinFrom (Joins.single x) hsorted

theorem exists_joins_of_mem (hsorted : l.Pairwise fun a b => a.start ≤ b.start) (hx : x ∈ joinRanges l) :
    ∃ parts, (∀ p ∈ parts, p ∈ l) ∧ x.Joins parts := by
  obtain ⟨groups, rfl, hgroups⟩ := exists_groups hsorted
  obtain ⟨parts, hparts, hjoins⟩ := exists_of_forall₂ hgroups hx
  exact ⟨parts, fun p hp => List.mem_flatten_of_mem hparts hp, hjoins⟩

/-- No range is lost. -/
theorem exists_within_joinRanges (hsorted : l.Pairwise fun a b => a.start ≤ b.start) (hx : x ∈ l) :
    ∃ y ∈ joinRanges l, x.Within y := by
  obtain ⟨groups, rfl, hgroups⟩ := exists_groups hsorted
  obtain ⟨parts, hparts, hx⟩ := List.mem_flatten.mp hx
  obtain ⟨y, hy, hjoins⟩ := exists_of_forall₂ hgroups.flip hparts
  exact ⟨y, hy, hjoins.within x hx⟩

/-- There is a gap between any two of the ranges that come of a sorted list. -/
theorem pairwise_joinFrom (hsorted : (x :: rest).Pairwise fun a b => a.start ≤ b.start) :
    (joinFrom x rest).Pairwise fun a b => a.stop < b.start := by
  induction rest generalizing x with
  | nil => exact List.pairwise_singleton _ x
  | cons y rest ih =>
    obtain ⟨hfirst, hrest⟩ := List.pairwise_cons.mp hsorted
    obtain ⟨hsecond, hlater⟩ := List.pairwise_cons.mp hrest
    unfold joinFrom
    split
    · exact ih (List.pairwise_cons.mpr ⟨fun z hz => hfirst z (List.mem_cons_of_mem y hz), hlater⟩)
    · rename_i hapart
      refine List.pairwise_cons.mpr ⟨fun z hz => ?_, ih hrest⟩
      -- A later range starts where one of the list starts, so not before the next one.
      obtain ⟨parts, hparts, hjoins⟩ := exists_joins_of_mem (l := y :: rest) hrest hz
      obtain ⟨p, hp, hstart⟩ := hjoins.start_mem
      have hle : y.start ≤ p.start := by
        rcases List.mem_cons.mp (hparts p hp) with rfl | hmem
        · exact le_rfl
        · exact hsecond p hmem
      omega

theorem pairwise_joinRanges (hsorted : l.Pairwise fun a b => a.start ≤ b.start) :
    (joinRanges l).Pairwise fun a b => a.stop < b.start := by
  cases l with
  | nil => exact List.Pairwise.nil
  | cons x rest => exact pairwise_joinFrom hsorted

theorem pairwise_start_mergeSort (l : List ByteRange) :
    (l.mergeSort isBefore).Pairwise fun a b => a.start ≤ b.start := by
  refine (List.pairwise_mergeSort isBefore_trans isBefore_total l).imp fun {a b} h => ?_
  rw [isBefore_iff] at h
  omega

end Workboard.Search
