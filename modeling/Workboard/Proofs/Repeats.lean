import Mathlib
import Workboard.Command.Batch

/-! Repeated commands of a batch.

`Batch.commandsOf` are the commands of a text with their repeats, and `Batch.ofText` is that list without
them (`Batch.ofText_eq`). Where the commands that repeat each other are exactly those with one property,
only the first of these stays (`Command.dropRepeats_eq`). Two placeholders of different names repeat each
other when their references are equal, and this also counts when neither has one; so of placeholders that
share no name and no reference all stay but the further ones without a reference
(`Batch.ofText_placeholders`). -/

namespace Workboard

/-- A list with only the first of the elements that have a property. -/
def onlyFirst (p : α → Bool) : List α → List α
  | [] => []
  | x :: r => if p x then x :: r.filter (!p ·) else x :: onlyFirst p r

theorem onlyFirst_eq_self_iff {p : α → Bool} {l : List α} : onlyFirst p l = l ↔ l.countP p ≤ 1 := by
  induction l with
  | nil => simp [onlyFirst]
  | cons x r ih =>
    unfold onlyFirst
    cases hx : p x with
    | true =>
      have hnone : r.countP p + 1 ≤ 1 ↔ r.countP p = 0 := by omega
      rw [if_pos rfl, List.cons.injEq, List.filter_eq_self, List.countP_cons_of_pos hx, hnone, List.countP_eq_zero]
      simp
    | false =>
      rw [if_neg Bool.false_ne_true, List.cons.injEq, ih, List.countP_cons_of_neg (by simp [hx])]
      simp

namespace Command

/-- Once one command with the property is kept no other is; before that, all are up to the first. -/
theorem dropRepeats_eq {p : Command → Bool} {kept l : List Command}
    (hkept : ∀ c ∈ kept, ∀ d ∈ l, c.repeats d = (p c && p d))
    (hl : l.Pairwise fun c d => c.repeats d = (p c && p d)) :
    dropRepeats kept l = kept.reverse ++ if kept.any p then l.filter (!p ·) else onlyFirst p l := by
  induction l generalizing kept with
  | nil => cases h : kept.any p <;> simp [dropRepeats, onlyFirst]
  | cons d r ih =>
    obtain ⟨hd, hr⟩ := List.pairwise_cons.mp hl
    -- A command is a repetition exactly if it has the property and one that is kept has it.
    have hrepeated : kept.any (·.repeats d) = (kept.any p && p d) := by
      rw [Bool.eq_iff_iff, List.any_eq_true, Bool.and_eq_true, List.any_eq_true]
      constructor
      · rintro ⟨c, hc, hrep⟩
        obtain ⟨hpc, hpd⟩ := Bool.and_eq_true_iff.mp ((hkept c hc d List.mem_cons_self).symm.trans hrep)
        exact ⟨⟨c, hc, hpc⟩, hpd⟩
      · rintro ⟨⟨c, hc, hpc⟩, hpd⟩
        exact ⟨c, hc, by rw [hkept c hc d List.mem_cons_self, hpc, hpd]; rfl⟩
    have hrest : ∀ c ∈ d :: kept, ∀ e ∈ r, c.repeats e = (p c && p e) := by
      intro c hc e he
      rcases List.mem_cons.mp hc with rfl | hc
      · exact hd e he
      · exact hkept c hc e (List.mem_cons_of_mem d he)
    rw [dropRepeats, hrepeated]
    cases hp : p d with
    | false =>
      rw [Bool.and_false, if_neg Bool.false_ne_true, ih hrest hr]
      cases hany : kept.any p <;> simp [onlyFirst, hp, hany]
    | true =>
      rw [Bool.and_true]
      cases hany : kept.any p with
      | false =>
        rw [if_neg Bool.false_ne_true, ih hrest hr]
        simp [onlyFirst, hp, hany]
      | true =>
        rw [if_pos rfl, ih (fun c hc e he => hkept c hc e (List.mem_cons_of_mem d he)) hr]
        simp [hp, hany]

theorem distinct_eq_onlyFirst {p : Command → Bool} {l : List Command}
    (hl : l.Pairwise fun c d => c.repeats d = (p c && p d)) : distinct l = onlyFirst p l := by
  rw [distinct, dropRepeats_eq (p := p) (by simp) hl]
  simp

/-- The placeholder that a command asks for. -/
def placeholder? (c : Command) : Option PlaceholderRequest :=
  match c.action with
  | .addPlaceholder r => some r
  | _ => none

/-- Whether a command asks for a placeholder that it gives no reference. -/
def isUnreferenced (c : Command) : Bool := c.placeholder?.any (·.ref.isNone)

/-- Placeholders of different names repeat each other if they have the same reference, or both have none. -/
theorem repeats_placeholder {c d : Command} {r s : PlaceholderRequest} (hc : c.placeholder? = some r)
    (hd : d.placeholder? = some s) (hname : r.name ≠ s.name) :
    c.repeats d = true ↔ (∃ ref, r.ref = some ref ∧ s.ref = some ref) ∨ (r.ref = none ∧ s.ref = none) := by
  obtain ⟨a, _⟩ := c
  obtain ⟨b, _⟩ := d
  unfold placeholder? at hc hd
  cases a <;> cases hc
  cases b <;> cases hd
  simp only [repeats, Action.repeats, hname, decide_false, Bool.false_or, decide_eq_true_eq]
  cases r.ref <;> cases s.ref <;> simp [eq_comm]

/-- Among placeholders that share no name and no reference, those without a reference repeat each other. -/
theorem pairwise_repeats_placeholders {l : List Command} (hall : ∀ c ∈ l, c.placeholder?.isSome)
    (hnames : ((l.filterMap placeholder?).map (·.name)).Nodup)
    (hrefs : ((l.filterMap placeholder?).filterMap (·.ref)).Nodup) :
    l.Pairwise fun c d => c.repeats d = (c.isUnreferenced && d.isUnreferenced) := by
  have hname : l.Pairwise fun c d => ∀ r ∈ c.placeholder?, ∀ s ∈ d.placeholder?, r.name ≠ s.name :=
    List.pairwise_filterMap.mp (List.pairwise_map.mp hnames)
  have href : l.Pairwise fun c d => ∀ r ∈ c.placeholder?, ∀ s ∈ d.placeholder?,
      ∀ x ∈ r.ref, ∀ y ∈ s.ref, x ≠ y :=
    List.pairwise_filterMap.mp (List.pairwise_filterMap.mp hrefs)
  refine (hname.and href).imp_of_mem fun {c d} hc hd h => ?_
  obtain ⟨r, hr⟩ := Option.isSome_iff_exists.mp (hall c hc)
  obtain ⟨s, hs⟩ := Option.isSome_iff_exists.mp (hall d hd)
  have hdiffer : ¬ ∃ ref, r.ref = some ref ∧ s.ref = some ref := fun ⟨ref, hx, hy⟩ =>
    h.2 r hr s hs ref hx ref hy rfl
  rw [Bool.eq_iff_iff, repeats_placeholder hr hs (h.1 r hr s hs)]
  simp [isUnreferenced, hr, hs, hdiffer]

end Command

namespace Batch

/-- The commands of a text, repeats included. -/
def commandsOf (text : String) : Except BatchError (List Command) :=
  match blocks text.toList with
  | [] => (readJson text).mapError (⟨none, ·⟩)
  | found => readBlocks 1 found

theorem ofText_eq (text : String) : ofText text = (commandsOf text).map Command.distinct := by
  have hreturn : ∀ r : Except BatchError (List Command),
      (r >>= fun l => pure (Command.distinct l)) = r.map Command.distinct := fun r => by cases r <;> rfl
  unfold ofText commandsOf
  generalize blocks text.toList = found
  cases found with
  | nil => exact hreturn _
  | cons block r => exact hreturn _

/-- Of placeholders with different names and different references, those without a reference count as
    repeats of the first of them; so the batch has all of them exactly if at most one has no reference. -/
theorem ofText_placeholders {text : String} {l : List Command} (hread : commandsOf text = .ok l)
    (hall : ∀ c ∈ l, c.placeholder?.isSome)
    (hnames : ((l.filterMap Command.placeholder?).map (·.name)).Nodup)
    (hrefs : ((l.filterMap Command.placeholder?).filterMap (·.ref)).Nodup) :
    ofText text = .ok (onlyFirst Command.isUnreferenced l) ∧
      (ofText text = .ok l ↔ l.countP Command.isUnreferenced ≤ 1) := by
  have htext : ofText text = .ok (onlyFirst Command.isUnreferenced l) := by
    rw [ofText_eq, hread, ← Command.distinct_eq_onlyFirst (Command.pairwise_repeats_placeholders hall hnames hrefs)]
    rfl
  refine ⟨htext, ?_⟩
  rw [htext, Except.ok.injEq]
  exact onlyFirst_eq_self_iff

/-- A batch of two placeholders without a reference. -/
def twoSteps : String :=
  "[\x7b\"command_type\":\"AddPlaceholder\",\"name\":\"Fetch\"\x7d,\x7b\"command_type\":\"AddPlaceholder\",\"name\":\"Store\"\x7d]"

/-- The second of the two steps is lost. -/
theorem ofText_twoSteps : ∃ l, commandsOf twoSteps = .ok l ∧
    (l.filterMap Command.placeholder?).map (·.name) = ["Fetch", "Store"] ∧
    ofText twoSteps = .ok (onlyFirst Command.isUnreferenced l) ∧ ofText twoSteps ≠ .ok l := by
  -- One evaluation tells all that is asked of the commands.
  have hread : (commandsOf twoSteps).toOption.any fun l =>
      (∀ c ∈ l, c.placeholder?.isSome) ∧ (l.filterMap Command.placeholder?).map (·.name) = ["Fetch", "Store"] ∧
      (l.filterMap Command.placeholder?).filterMap (·.ref) = [] ∧ l.countP Command.isUnreferenced = 2 := by
    decide +kernel
  cases hl : commandsOf twoSteps with
  | error e =>
    rw [hl] at hread
    cases hread
  | ok l =>
    rw [hl] at hread
    obtain ⟨hall, hnames, hrefs, hcount⟩ := of_decide_eq_true hread
    have hsteps := ofText_placeholders hl hall (by rw [hnames]; decide) (by rw [hrefs]; exact List.nodup_nil)
    refine ⟨l, rfl, hnames, hsteps.1, fun h => ?_⟩
    have := hsteps.2.mp h
    omega

end Batch

end Workboard
