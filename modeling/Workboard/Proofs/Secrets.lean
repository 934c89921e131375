import Workboard.Proofs.MapOrders

/-! Secrets stay out of searches.

The value of a secret variable is in no document, so two boards that differ in such values only have the same documents
(`Board.SameButSecrets.documents_eq`) and no search tells them apart (`Board.SameButSecrets.search_eq`). -/

namespace Workboard

/-- Two variables that differ at most in the value of a secret. -/
def Variable.SameButSecret (v w : Variable) : Prop :=
  v = w ∨ v.secret = true ∧ w.secret = true ∧ { v with defaultValue := w.defaultValue } = w

/-- Two boards that differ at most in the values of secret variables. -/
structure Board.SameButSecrets (b b' : Board) : Prop where
  rest : { b with vars := b'.vars } = b'
  vars : ∀ k, Option.Rel Variable.SameButSecret (b.vars.get? k) (b'.vars.get? k)

theorem Variable.SameButSecret.document_eq {v w : Variable} (h : v.SameButSecret w) :
    (v.id, v.document) = (w.id, w.document) := by
  rcases h with rfl | ⟨hv, hw, hrest⟩
  · rfl
  · rw [← hrest]
    unfold document
    dsimp only
    rw [hv]
    rfl

open Search

namespace Board.SameButSecrets

variable {b b' : Board}

theorem documents_eq (h : b.SameButSecrets b') (orders : Orders) : b.documents orders = b'.documents orders := by
  have hvars : (b.vars.mapValues fun _ v => (v.id, v.document)) = b'.vars.mapValues fun _ v => (v.id, v.document) := by
    refine KeyMap.ext fun k => ?_
    rw [KeyMap.get?_mapValues, KeyMap.get?_mapValues]
    have hk := h.vars k
    generalize b.vars.get? k = v at hk ⊢
    generalize b'.vars.get? k = w at hk ⊢
    cases hk with
    | none => rfl
    | some hsame => exact congrArg some hsame.document_eq
  have hrest := h.rest
  rw [← hrest]
  refine documents_congr rfl rfl rfl ?_
  rw [← KeyMap.valuesIn_mapValues, ← KeyMap.valuesIn_mapValues, hvars]

/-- No search tells boards apart that differ in secrets only. If their maps are met in the same orders they have the same
    documents, and for every order in which the documents are met their searches have the same results. If the maps are met in
    different orders, and the things on the boards have ids of their own, documents and results are still alike; where
    documents share an id, other results of the same scores and ids may be shown. -/
theorem search_eq (h : b.SameButSecrets b') (orders : Orders) :
    b.documents orders = b'.documents orders ∧
    (∀ p query order, (Index.ofBoard b p orders).search query order = (Index.ofBoard b' p orders).search query order) ∧
    (b.Unambiguous → ∀ orders' : Orders,
      List.Forall₂ Document.Alike (b.documents orders) (b'.documents orders') ∧
      ∀ p query order order',
        ((Index.ofBoard b p orders).search query order).map (List.map Hit.sortKey) =
          ((Index.ofBoard b' p orders').search query order').map (List.map Hit.sortKey) ∧
        (order = order' ∨ ((b.documents orders).map (·.id)).Nodup →
          AnswersAlike ((Index.ofBoard b p orders).search query order)
            ((Index.ofBoard b' p orders').search query order'))) := by
  have hindex (p : Profile) (orders : Orders) : Index.ofBoard b p orders = Index.ofBoard b' p orders := by
    rw [Index.ofBoard, Index.ofBoard, h.documents_eq]
  refine ⟨h.documents_eq orders, fun p query order => by rw [hindex], fun hb orders' => ⟨?_, fun p query order order' => ?_⟩⟩
  · rw [← h.documents_eq orders']
    exact hb.documents_alike orders orders'
  · rw [← hindex p orders']
    exact hb.search_alike orders orders' p query order order'

/-- A secret of the given value, and a public variable. -/
def vaultVariables (secret : List UInt8) : List Variable := [
  ⟨"key", "Key", .string, .single, none, some secret, true, false, true⟩,
  ⟨"user", "User", .string, .single, none, some (Literal.encode (.string "admin")), false, false, true⟩]

/-- A board with these variables and a layer of two nodes. -/
def vault (secret : List UInt8) : Board :=
  let node (id : String) : Node := ⟨id, "log", id, "", "", none, ∅, .origin, some "l"⟩
  { Board.blank "b" "Board" with
    vars := .ofList ((vaultVariables secret).map fun v => (v.id, v))
    layers := .ofList [("l", ⟨"l", "Admin", none, none, .ofList [("m", node "m"), ("n", node "n")], ∅, .origin, none⟩)] }

/-- Orders in which the node `n` comes before the node `m`. -/
def namedBackwards : Orders := { members := fun _ => ["n", "m"] }

theorem unambiguous_vault (secret : List UInt8) : (vault secret).Unambiguous where
  nodes := by
    have hcopies : (vault secret).nodeCopies.map (·.id) = ["m", "n"] := rfl
    have hnodup : ((vault secret).nodeCopies.map (·.id)).Nodup := by
      rw [hcopies]
      decide
    exact fun m hm n hn hid => List.inj_on_of_nodup_map hnodup hm hn hid
  pins := by
    have hcopies : (vault secret).nodeCopies.map (·.pins.values.map (·.id)) = [[], []] := rfl
    intro n hn
    have hmem := List.mem_map_of_mem (f := fun n : Node => n.pins.values.map (·.id)) hn
    rw [hcopies] at hmem
    have hnone : n.pins.values.map (·.id) = [] := (List.mem_pair.mp hmem).elim (fun h => h) fun h => h
    rw [hnone]
    exact List.nodup_nil
  layers := List.nodup_singleton _
  comments := List.nodup_nil
  vars := (KeyMap.Keyed.ofList (vaultVariables secret)).nodup_map_values

/-- Two values of one secret give the same results, and alike ones if the nodes are named the other way round. -/
theorem search_eq_vault : (vault (Literal.encode (.string "pa55"))).SameButSecrets (vault (Literal.encode (.string "admin"))) ∧
    (Index.ofBoard (vault (Literal.encode (.string "pa55"))) .board).search "admin" =
      (Index.ofBoard (vault (Literal.encode (.string "admin"))) .board).search "admin" ∧
    AnswersAlike ((Index.ofBoard (vault (Literal.encode (.string "pa55"))) .board).search "admin")
      ((Index.ofBoard (vault (Literal.encode (.string "admin"))) .board namedBackwards).search "admin") := by
  have hsame (secret secret' : List UInt8) : (vault secret).SameButSecrets (vault secret') := by
    refine ⟨rfl, fun k => ?_⟩
    have hget (secret : List UInt8) : (vault secret).vars.get? k = if "user" = k then _ else if "key" = k then _ else none :=
      (KeyMap.get?_insert _ _ _ _).trans (congrArg _ (KeyMap.get?_insert _ _ _ _))
    rw [hget, hget]
    split
    · exact .some (.inl rfl)
    split
    · exact .some (.inr ⟨rfl, rfl, rfl⟩)
    · exact .none
  obtain ⟨-, hequal, halike⟩ := (hsame (Literal.encode (.string "pa55")) (Literal.encode (.string "admin"))).search_eq {}
  obtain ⟨-, hsearch⟩ := halike (unambiguous_vault _) namedBackwards
  exact ⟨hsame _ _, hequal .board "admin" [], (hsearch .board "admin" [] []).2 (.inl rfl)⟩

end Board.SameButSecrets

end Workboard
