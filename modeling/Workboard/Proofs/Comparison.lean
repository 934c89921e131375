import Workboard.Proofs.Numbers
import Workboard.Proofs.SoundMutation

/-! Boards compared with themselves.

Only a number that is undefined differs from itself. So a node equals itself exactly if its coordinates do
(`Node.beq_self_iff`), and a board exactly if no number on it is undefined (`Board.beq_self_iff`). -/

namespace Workboard

open Float.Model (UnpackedFloat)

/-! ### Numbers -/

theorem unpacked_beq_self (x : UnpackedFloat) : x.beq x = !x.isNaN := by
  have hsign (s : UnpackedFloat.Sign) : compare s s = .eq := by cases s <;> rfl
  unfold UnpackedFloat.beq
  rcases x with s | _ | s | ⟨_ | _, m, e, hm⟩ <;>
    simp [UnpackedFloat.compare, UnpackedFloat.isNaN, Std.ReflCmp.compare_self, hsign]

theorem float32_beq_self (x : Float32) : (x == x) = !x.isNaN := unpacked_beq_self x.toModel.unpack

theorem float32_isNaN_of_isFinite {x : Float32} (h : x.isFinite = true) : x.isNaN = false := by
  have hunpacked : x.toModel.unpack.isFinite = true := h
  show x.toModel.unpack.isNaN = false
  cases hx : x.toModel.unpack <;> simp_all [UnpackedFloat.isFinite, UnpackedFloat.isNaN]

theorem maybe_beq_self (o : Option Float32) : (o == o) = true ↔ ∀ x ∈ o.toList, x.isNaN = false := by
  cases o with
  | none => simp
  | some x => simp [float32_beq_self]

theorem Place.beq_self_iff {p : Place} : (p == p) = true ↔ p.Within (·.isNaN = false) := by
  show (p.x == p.x && p.y == p.y && p.z == p.z) = true ↔ _
  simp only [float32_beq_self, Within, Bool.and_eq_true, Bool.not_eq_true', and_assoc]

/-! ### Maps -/

section
variable {α : Type} [BEq α]

theorem KeyMap.beq_self_iff {m : KeyMap α} : (m == m) = true ↔ ∀ k v, m.get? k = some v → (v == v) = true := by
  have hentries (l : List (String × α)) : (l == l) = true ↔ ∀ e ∈ l, (e.2 == e.2) = true := by
    induction l with
    | nil => simp
    | cons e r ih =>
      show ((e.1 == e.1 && e.2 == e.2) && r == r) = true ↔ _
      rw [Bool.and_eq_true, ih, List.forall_mem_cons, beq_self_eq_true, Bool.true_and]
  refine (hentries m.entries).trans ⟨fun h k v hk => ?_, fun h e he => ?_⟩
  · exact h _ (KeyMap.get?_eq_some_iff_mem.mp hk)
  · exact h _ _ (KeyMap.get?_eq_some_iff_mem.mpr he)

end

/-! ### Entities -/

deriving instance ReflBEq, LawfulBEq for Variable

theorem Node.beq_self_iff {n : Node} : (n == n) = true ↔ n.place.Within (·.isNaN = false) := by
  show instBEqNode.beq n n = true ↔ _
  simp [instBEqNode.beq, Place.beq_self_iff]

theorem Layer.beq_self_iff {l : Layer} : (l == l) = true ↔
    l.place.Within (·.isNaN = false) ∧ ∀ k n, l.nodes.get? k = some n → n.place.Within (·.isNaN = false) := by
  show instBEqLayer.beq l l = true ↔ _
  simp [instBEqLayer.beq, Place.beq_self_iff, KeyMap.beq_self_iff (α := Node), Node.beq_self_iff, and_comm]

theorem Comment.beq_self_iff {c : Comment} : (c == c) = true ↔ c.Within (·.isNaN = false) := by
  have hsizes : (∀ x ∈ c.sizes, x.isNaN = false) ↔ (c.width == c.width) = true ∧ (c.height == c.height) = true := by
    rw [maybe_beq_self, maybe_beq_self, sizes, List.forall_mem_append]
  show instBEqComment.beq c c = true ↔ _
  rw [show c.Within (·.isNaN = false) ↔ c.place.Within (·.isNaN = false) ∧ ∀ x ∈ c.sizes, x.isNaN = false from
    ⟨fun h => ⟨h.place, h.sizes⟩, fun h => ⟨h.1, h.2⟩⟩, hsizes]
  simp [instBEqComment.beq, Place.beq_self_iff]

/-- A board equals itself exactly if no number on it is undefined. -/
theorem Board.beq_self_iff {b : Board} : (b == b) = true ↔ ∀ x ∈ b.numbers, x.isNaN = false := by
  have hwithin : b.Within (·.isNaN = false) ↔
      (∀ k n, b.nodes.get? k = some n → (n == n) = true) ∧ (∀ k c, b.comments.get? k = some c → (c == c) = true) ∧
        ∀ k l, b.layers.get? k = some l → (l == l) = true := by
    simp only [Node.beq_self_iff, Comment.beq_self_iff, Layer.beq_self_iff]
    constructor
    · rintro ⟨hnodes, hlayers, hcomments⟩
      exact ⟨hnodes none, hcomments, fun k l hl => ⟨hlayers k l hl, fun x n hn =>
        hnodes (some k) x n (copy?_some_eq_some.mpr ⟨l, hl, hn⟩)⟩⟩
    · rintro ⟨hnodes, hcomments, hlayers⟩
      refine ⟨fun shelf k n hn => ?_, fun k l hl => (hlayers k l hl).1, hcomments⟩
      cases shelf with
      | none => exact hnodes k n hn
      | some layer =>
        obtain ⟨l, hl, hn⟩ := copy?_some_eq_some.mp hn
        exact (hlayers layer l hl).2 k n hn
  rw [← within_iff, hwithin, ← KeyMap.beq_self_iff, ← KeyMap.beq_self_iff, ← KeyMap.beq_self_iff]
  show instBEqBoard.beq b b = true ↔ _
  simp [instBEqBoard.beq]

end Workboard
