import Mathlib
import Workboard.Proofs.Fingerprints
import Workboard.Proofs.MapOrders
import Workboard.Search.Cache

/-! The cache of indexes, seen from outside.

After any calls the cache holds an answer for each of the fingerprints used last, as many as it has room for
(`Cache.Kept`). So a call is given an earlier answer if and only if its fingerprint is among these, and either way the
answer is an index of the board of the call (`Cache.get_transparent`): boards with one fingerprint have the same
documents, unless the digest has a collision. Only the orders of the maps may be those of an earlier call. -/

namespace Workboard.Search

/-! ### Most recent use -/

section
variable {α : Type} [BEq α] [LawfulBEq α] {a : α} {l : List α}

theorem eraseDups_filter (a : α) : ∀ l : List α, (l.filter fun x => !x == a).eraseDups = l.eraseDups.filter fun x => !x == a
  | [] => rfl
  | b :: r => by
    have hshorter := eraseDups_filter a (r.filter fun x => !x == b)
    rw [List.eraseDups_cons]
    by_cases hab : b = a
    · subst hab
      rw [List.filter_cons_of_neg (by simp), List.filter_cons_of_neg (by simp), ← hshorter, List.filter_filter]
      simp only [Bool.and_self]
    · rw [List.filter_cons_of_pos (by simpa using hab), List.filter_cons_of_pos (by simpa using hab), List.eraseDups_cons,
        ← hshorter, List.filter_comm]
termination_by l => l.length
decreasing_by exact Nat.lt_succ_of_le (List.length_filter_le _ _)

/-- An element among the first is moved to the front. -/
theorem take_used (hl : l.Nodup) {n : Nat} (ha : a ∈ l.take n) :
    a :: (l.take n).filter (fun x => !x == a) = (a :: l.filter fun x => !x == a).take n := by
  induction l generalizing n with
  | nil => simp at ha
  | cons b r ih =>
    obtain ⟨hb, hr⟩ := List.nodup_cons.mp hl
    obtain ⟨n, rfl⟩ : ∃ m, n = m + 1 := ⟨n - 1, by cases n <;> simp_all⟩
    rw [List.take_succ_cons] at ha ⊢
    by_cases hab : b = a
    · subst hab
      have hrest : r.filter (fun x => !x == b) = r := List.filter_eq_self.mpr fun x hx => by
        simpa using fun h : x = b => hb (h ▸ hx)
      have htake : (r.take n).filter (fun x => !x == b) = r.take n := List.filter_eq_self.mpr fun x hx => by
        simpa using fun h : x = b => hb (h ▸ List.mem_of_mem_take hx)
      rw [List.filter_cons_of_neg (by simp), List.filter_cons_of_neg (by simp), hrest, htake, List.take_succ_cons]
    · have ha' : a ∈ r.take n := (List.mem_cons.mp ha).resolve_left (Ne.symm hab)
      obtain ⟨m, rfl⟩ : ∃ m, n = m + 1 := ⟨n - 1, by cases n <;> simp_all⟩
      have hrest := ih hr ha'
      rw [List.take_succ_cons, List.cons_inj_right] at hrest
      rw [List.filter_cons_of_pos (by simpa using hab), List.filter_cons_of_pos (by simpa using hab), List.take_succ_cons,
        List.take_succ_cons, hrest]

/-- An element not among the first is put in front of them, in the place of the last. -/
theorem take_unused {n : Nat} (ha : a ∉ l.take n) : (a :: l.take n).take n = (a :: l.filter fun x => !x == a).take n := by
  have hfilter : ∀ {m : Nat} {l : List α}, a ∉ l.take m → (l.filter fun x => !x == a).take m = l.take m := by
    intro m l
    induction l generalizing m with
    | nil => simp
    | cons b r ih =>
      intro ha
      cases m with
      | zero => rfl
      | succ m =>
        rw [List.take_succ_cons, List.mem_cons, not_or] at ha
        rw [List.filter_cons_of_pos (by simpa using Ne.symm ha.1), List.take_succ_cons, List.take_succ_cons, ih ha.2]
  cases n with
  | zero => rfl
  | succ n =>
    rw [List.take_succ_cons, List.take_succ_cons, List.take_take, Nat.min_eq_left (Nat.le_succ n)]
    rw [hfilter fun h => ha (List.take_subset_take_left l (Nat.le_succ n) h)]

end

namespace Cache

/-! ### Calls -/

/-- A call: a board, and the orders of its maps. -/
structure Visit where
  board : Board
  orders : Board.Orders

/-- The cache after calls. -/
def after (c : Cache) (visits : List Visit) : Cache := visits.foldl (fun c v => (c.get v.board v.orders).2) c

/-- The answers to calls. -/
def answers (c : Cache) : List Visit → List CachedIndex
  | [] => []
  | v :: r => (c.get v.board v.orders).1 :: answers (c.get v.board v.orders).2 r

/-- The different fingerprints of boards, the last one first. -/
def recent (boards : List Board) : List (List UInt8) := (boards.map Board.fingerprint).reverse.eraseDups

variable {c : Cache} {visits : List Visit} {v : Visit} {b : Board} {orders : Board.Orders}

theorem after_concat (c : Cache) (visits : List Visit) (v : Visit) :
    c.after (visits ++ [v]) = ((c.after visits).get v.board v.orders).2 := by
  unfold after
  rw [List.foldl_concat]

theorem answers_concat (c : Cache) (visits : List Visit) (v : Visit) :
    c.answers (visits ++ [v]) = c.answers visits ++ [((c.after visits).get v.board v.orders).1] := by
  induction visits generalizing c with
  | nil => rfl
  | cons w r ih => exact congrArg ((c.get w.board w.orders).1 :: ·) (ih (c.get w.board w.orders).2)

theorem recent_concat (boards : List Board) (b : Board) :
    recent (boards ++ [b]) = b.fingerprint :: (recent boards).filter fun x => !x == b.fingerprint := by
  unfold recent
  rw [List.map_append, List.reverse_append, List.map_singleton, List.reverse_singleton, List.singleton_append,
    List.eraseDups_cons, eraseDups_filter]

theorem nodup_recent (boards : List Board) : (recent boards).Nodup := nodup_eraseDups _

theorem length_recent (boards : List Board) : (recent boards).length = (boards.map Board.fingerprint).toFinset.card := by
  have hsame : (recent boards).toFinset = (boards.map Board.fingerprint).toFinset := by
    ext x
    rw [List.mem_toFinset, List.mem_toFinset, recent, List.mem_eraseDups, List.mem_reverse]
  rw [← hsame, List.toFinset_card_of_nodup (nodup_recent boards)]

/-- A call finds an entry of its fingerprint and moves it to the front, or makes a new one. -/
theorem get_cases (c : Cache) (b : Board) (orders : Board.Orders) :
    (∃ e ∈ c.entries, e.fingerprint = b.fingerprint ∧
      c.get b orders = (e, { c with entries := e :: c.entries.filter (·.fingerprint ≠ b.fingerprint) })) ∨
    b.fingerprint ∉ c.entries.map (·.fingerprint) ∧ ∃ e : CachedIndex,
      e = ⟨b.fingerprint, c.built, .ofBoard b c.profile orders⟩ ∧
      c.get b orders = (e, { c with built := c.built + 1, entries := (e :: c.entries).take c.capacity }) := by
  cases hfind : c.entries.find? (·.fingerprint = b.fingerprint) with
  | some e =>
    have hkey : e.fingerprint = b.fingerprint := by simpa using List.find?_some hfind
    refine .inl ⟨e, List.mem_of_find?_eq_some hfind, hkey, ?_⟩
    unfold get
    dsimp only
    rw [hfind]
  | none =>
    refine .inr ⟨fun hmem => ?_, _, rfl, ?_⟩
    · obtain ⟨e, he, heq⟩ := List.mem_map.mp hmem
      exact List.find?_eq_none.mp hfind e he (decide_eq_true heq)
    · unfold get
      dsimp only
      rw [hfind]

theorem fingerprint_get (c : Cache) (b : Board) (orders : Board.Orders) :
    (c.get b orders).1.fingerprint = b.fingerprint := by
  rcases get_cases c b orders with ⟨e, -, hkey, hget⟩ | ⟨-, e, rfl, hget⟩
  · rw [hget]
    exact hkey
  · rw [hget]

/-! ### What is kept -/

/-- A cache after calls that were given answers. -/
structure Kept (capacity : Nat) (p : Profile) (visits : List Visit) (given : List CachedIndex) (c : Cache) : Prop where
  profile : c.profile = p
  room : c.capacity = max capacity 1
  newest : c.entries.map (·.fingerprint) = (recent (visits.map (·.board))).take c.capacity
  answered : ∀ e ∈ c.entries, e ∈ given
  old : ∀ e ∈ given, e.serial < c.built
  made : ∀ e ∈ given, ∃ v ∈ visits, v.board.fingerprint = e.fingerprint ∧ e.index = .ofBoard v.board p v.orders

variable {capacity : Nat} {p : Profile} {given : List CachedIndex}

theorem kept_new (capacity : Nat) (p : Profile) : Kept capacity p [] [] (new capacity p) where
  profile := rfl
  room := rfl
  newest := List.take_nil.symm
  answered _ he := nomatch he
  old _ he := nomatch he
  made _ he := nomatch he

theorem Kept.get (h : Kept capacity p visits given c) (v : Visit) :
    Kept capacity p (visits ++ [v]) (given ++ [(c.get v.board v.orders).1]) (c.get v.board v.orders).2 := by
  obtain ⟨b, orders⟩ := v
  have hmade : ∀ e ∈ given, ∃ v ∈ visits ++ [⟨b, orders⟩],
      v.board.fingerprint = e.fingerprint ∧ e.index = .ofBoard v.board p v.orders := fun e he => by
    obtain ⟨v, hv, hindex⟩ := h.made e he
    exact ⟨v, List.mem_append_left _ hv, hindex⟩
  rcases get_cases c b orders with ⟨e, he, hkey, hget⟩ | ⟨hnew, e, rfl, hget⟩
  -- An index that is kept moves to the front.
  · have hgiven := h.answered e he
    have hrecent : b.fingerprint ∈ (recent (visits.map (·.board))).take c.capacity := by
      rw [← h.newest, ← hkey]
      exact List.mem_map_of_mem he
    have hrest : (c.entries.filter (·.fingerprint ≠ b.fingerprint)).map (·.fingerprint) =
        ((recent (visits.map (·.board))).take c.capacity).filter fun x => !x == b.fingerprint := by
      rw [← h.newest, List.filter_map]
      refine congrArg (List.map _) (List.filter_congr fun x _ => ?_)
      rw [Bool.eq_iff_iff]
      simp
    rw [hget]
    refine ⟨h.profile, h.room, ?_, ?_, ?_, ?_⟩
    · rw [List.map_append, List.map_singleton, List.map_cons, hrest, hkey, take_used (nodup_recent _) hrecent, recent_concat]
    · refine List.forall_mem_cons.mpr ⟨List.mem_append_left _ hgiven, fun x hx => ?_⟩
      exact List.mem_append_left _ (h.answered x (List.mem_filter.mp hx).1)
    · exact List.forall_mem_append.mpr ⟨h.old, List.forall_mem_singleton.mpr (h.old e hgiven)⟩
    · exact List.forall_mem_append.mpr ⟨hmade, List.forall_mem_singleton.mpr (hmade e hgiven)⟩
  -- A new one comes to the front, and what is beyond the room falls out.
  · rw [hget]
    refine ⟨h.profile, h.room, ?_, ?_, ?_, ?_⟩
    · rw [List.map_append, List.map_singleton, List.map_take, List.map_cons, h.newest, recent_concat]
      exact take_unused (h.newest ▸ hnew)
    · intro x hx
      rcases List.mem_cons.mp (List.mem_of_mem_take hx) with rfl | hx
      · exact List.mem_append_right _ List.mem_cons_self
      · exact List.mem_append_left _ (h.answered x hx)
    · exact List.forall_mem_append.mpr
        ⟨fun x hx => Nat.lt_succ_of_lt (h.old x hx), List.forall_mem_singleton.mpr (Nat.lt_succ_self c.built)⟩
    · refine List.forall_mem_append.mpr ⟨hmade, List.forall_mem_singleton.mpr ?_⟩
      exact ⟨⟨b, orders⟩, List.mem_append_right _ List.mem_cons_self, rfl, by rw [h.profile]⟩

theorem kept_after (capacity : Nat) (p : Profile) (visits : List Visit) :
    Kept capacity p visits ((new capacity p).answers visits) ((new capacity p).after visits) := by
  induction visits using List.reverseRecOn with
  | nil => exact kept_new capacity p
  | append_singleton visits v ih =>
    rw [after_concat, answers_concat]
    exact ih.get v

/-- An earlier answer is given for the fingerprints that are kept. -/
theorem Kept.reused_iff (h : Kept capacity p visits given c) :
    (c.get b orders).1 ∈ given ↔ b.fingerprint ∈ (recent (visits.map (·.board))).take c.capacity := by
  rw [← h.newest]
  rcases get_cases c b orders with ⟨e, he, hkey, hget⟩ | ⟨hnew, e, rfl, hget⟩
  · rw [hget, ← hkey]
    exact ⟨fun _ => List.mem_map_of_mem he, fun _ => h.answered e he⟩
  · rw [hget]
    exact ⟨fun hmem => absurd (h.old _ hmem) (Nat.lt_irrefl c.built), fun hmem => absurd hmem hnew⟩

/-- Every answer is an index of the board of its call, if no earlier board has the same digest of another text; the orders of
    its maps are those of this call or of an earlier one with the same fingerprint. -/
theorem Kept.index_get (h : Kept capacity p visits given c) (orders : Board.Orders)
    (hdigest : ∀ v ∈ visits, v.board.fingerprint = b.fingerprint → v.board.canonicalText = b.canonicalText) :
    ∃ v ∈ visits ++ [⟨b, orders⟩], v.board.fingerprint = b.fingerprint ∧ (c.get b orders).1.index = .ofBoard b p v.orders := by
  obtain ⟨v, hv, hkey, hindex⟩ := (h.get ⟨b, orders⟩).made _ (List.mem_append_right _ List.mem_cons_self)
  rw [fingerprint_get] at hkey
  have htext : v.board.canonicalText = b.canonicalText := by
    rcases List.mem_append.mp hv with hv | hv
    · exact hdigest v hv hkey
    · rw [List.mem_singleton.mp hv]
  refine ⟨v, hv, hkey, ?_⟩
  rw [hindex, Index.ofBoard, Index.ofBoard, Board.documents_of_canonicalText htext]

theorem Kept.size_eq (h : Kept capacity p visits given c) : c.size = min (recent (visits.map (·.board))).length c.capacity := by
  have hlength := congrArg List.length h.newest
  rwa [List.length_map, List.length_take, Nat.min_comm] at hlength

/-- Whatever calls came before, a call is answered with an index of its board: its documents, and what it answers to any query,
    are those of an index that is made for the board with its maps in the orders of this call, or of an earlier one with the
    same fingerprint. On a board where nothing is ambiguous they are alike those of an index that is made with the orders of
    this call. The answer is an earlier one if and only if the fingerprint of the board is among those used last, as many as
    the cache has room for. -/
theorem get_transparent (capacity : Nat) (p : Profile) (visits : List Visit) (b : Board) (orders : Board.Orders)
    (hdigest : ∀ v ∈ visits, v.board.fingerprint = b.fingerprint → v.board.canonicalText = b.canonicalText) :
    let c := (new capacity p).after visits
    let answer := (c.get b orders).1
    (∃ v ∈ visits ++ [⟨b, orders⟩], v.board.fingerprint = b.fingerprint ∧
      answer.index.documents = b.documents v.orders ∧
      ∀ query order, answer.index.search query order = (Index.ofBoard b p v.orders).search query order) ∧
      (b.Unambiguous → List.Forall₂ Document.Alike answer.index.documents (b.documents orders) ∧ ∀ query order order',
        (answer.index.search query order).map (List.map Hit.sortKey) =
          ((Index.ofBoard b p orders).search query order').map (List.map Hit.sortKey) ∧
        (order = order' ∨ ((b.documents orders).map (·.id)).Nodup →
          AnswersAlike (answer.index.search query order) ((Index.ofBoard b p orders).search query order'))) ∧
      (answer ∈ (new capacity p).answers visits ↔
        b.fingerprint ∈ (recent (visits.map (·.board))).take (max capacity 1)) ∧
      c.size = min (visits.map (·.board.fingerprint)).toFinset.card (max capacity 1) := by
  intro c answer
  have h := kept_after capacity p visits
  obtain ⟨v, hv, hkey, hindex⟩ := h.index_get orders hdigest
  have hindex : answer.index = .ofBoard b p v.orders := hindex
  refine ⟨⟨v, hv, hkey, ?_, fun query order => ?_⟩, fun hb => ⟨?_, fun query order order' => ?_⟩, ?_, ?_⟩
  · rw [hindex]
    rfl
  · rw [hindex]
  · rw [hindex]
    exact hb.documents_alike v.orders orders
  · have hids := map_alike (fun _ _ h => h.id_eq) (hb.documents_alike v.orders orders)
    rw [hindex, ← hids]
    exact hb.search_alike v.orders orders p query order order'
  · rw [← h.room]
    exact h.reused_iff
  · have hsize := h.size_eq
    rw [length_recent, List.map_map, h.room] at hsize
    exact hsize

/-- A cache with room for one drops the index of a board for the next, and makes it again in the orders of the last call. -/
theorem get_transparent_alternating :
    let visits : List Visit := [⟨.blank "a" "A", {}⟩, ⟨.blank "b" "B", {}⟩]
    let c := (new 0 .board).after visits
    c.size = 1 ∧ ∀ orders : Board.Orders,
      (c.get (.blank "a" "A") orders).1 ∉ (new 0 .board).answers visits ∧
      List.Forall₂ Document.Alike (c.get (.blank "a" "A") orders).1.index.documents
        ((Board.blank "a" "A").documents orders) := by
  intro visits c
  have hapart : (Board.blank "b" "B").fingerprint ≠ (Board.blank "a" "A").fingerprint := by decide +kernel
  have hdigest : ∀ v ∈ visits, v.board.fingerprint = (Board.blank "a" "A").fingerprint →
      v.board.canonicalText = (Board.blank "a" "A").canonicalText := by
    intro v hv hkey
    rcases List.mem_pair.mp hv with rfl | rfl
    · rfl
    · exact absurd hkey hapart
  have hone : (recent (visits.map (·.board))).take (max 0 1) = [(Board.blank "b" "B").fingerprint] := by
    have hboards : visits.map (·.board) = [.blank "a" "A", .blank "b" "B"] := rfl
    rw [hboards, recent, List.map_cons, List.map_cons, List.map_nil, List.reverse_cons, List.reverse_cons, List.reverse_nil,
      List.nil_append, List.singleton_append, List.eraseDups_cons, show max 0 1 = 1 from rfl, List.take_succ_cons,
      List.take_zero]
  refine ⟨?_, fun orders => ?_⟩
  · obtain ⟨-, -, -, hsize⟩ := get_transparent 0 .board visits (.blank "a" "A") {} hdigest
    exact hsize.trans (Nat.min_eq_right (Finset.card_pos.mpr ⟨_, List.mem_toFinset.mpr List.mem_cons_self⟩))
  · obtain ⟨-, halike, hreused, -⟩ := get_transparent 0 .board visits (.blank "a" "A") orders hdigest
    refine ⟨fun hmem => ?_, (halike (Board.mirrored_blank "a" "A").orderly.unambiguous).1⟩
    have hrecent := hreused.mp hmem
    rw [hone] at hrecent
    exact hapart (List.mem_singleton.mp hrecent).symm

end Cache

end Workboard.Search
