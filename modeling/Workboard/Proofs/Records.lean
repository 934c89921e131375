import Workboard.Json.Shape
import Workboard.Proofs.Keyed
import Workboard.Proofs.PrintedText
import Workboard.Proofs.Proper

/-! Reading what a written value shows.

`Shape.Yields` says that a draft is read in a shape as the value of an entity. For a record it follows from its
fields, and the fields of a record that was read can be looked up (`Shape.member?_of_read`); likewise for maps,
lists and tuples. -/

namespace Workboard

namespace KeyMap

variable {α : Type} {l : List (String × α)} {k : String} {v : α}

theorem get?_ofList (hl : (l.map (·.1)).Nodup) : (ofList l).get? k = some v ↔ (k, v) ∈ l := by
  suffices main : ∀ m : KeyMap α, (∀ e ∈ l, m.get? e.1 = none) →
      ((l.foldl (fun m e => m.insert e.1 e.2) m).get? k = some v ↔ m.get? k = some v ∨ (k, v) ∈ l) by
    have h := main empty fun e _ => rfl
    rw [get?_empty] at h
    exact h.trans (by simp)
  induction l with
  | nil => simp
  | cons e r ih =>
    intro m hm
    obtain ⟨he, hr⟩ := List.nodup_cons.mp hl
    have hfresh : ∀ f ∈ r, (m.insert e.1 e.2).get? f.1 = none := by
      intro f hf
      have hne : e.1 ≠ f.1 := fun h => he (List.mem_map.mpr ⟨f, hf, h.symm⟩)
      rw [get?_insert, if_neg hne]
      exact hm f (List.mem_cons_of_mem e hf)
    rw [List.foldl_cons, ih hr _ hfresh, get?_insert, List.mem_cons, Prod.ext_iff]
    have hnone := hm e List.mem_cons_self
    grind

theorem mem_entries_ofList (hl : (l.map (·.1)).Nodup) {e : String × α} : e ∈ (ofList l).entries ↔ e ∈ l :=
  get?_eq_some_iff_mem.symm.trans (get?_ofList hl)

theorem ofList_entries (m : KeyMap α) : ofList m.entries = m := by
  refine ext fun k => Option.ext fun v => ?_
  rw [get?_ofList m.nodup_keys, get?_eq_some_iff_mem]

end KeyMap

section
variable {α β ε : Type}

theorem mapM_eq_ok {f : α → Except ε β} {l : List α} {rs : List β} :
    l.mapM f = .ok rs ↔ List.Forall₂ (fun a r => f a = .ok r) l rs := by
  induction l generalizing rs with
  | nil =>
    rw [List.mapM_nil, List.forall₂_nil_left_iff]
    exact ⟨fun h => (Except.ok.inj h).symm, fun h => h ▸ rfl⟩
  | cons a l ih =>
    rw [List.mapM_cons, List.forall₂_cons_left_iff]
    constructor
    · intro h
      obtain ⟨r, hr, h⟩ := bind_eq_ok h
      obtain ⟨rs', hrs, h⟩ := bind_eq_ok h
      exact ⟨r, rs', hr, ih.mp hrs, (Except.ok.inj h).symm⟩
    · rintro ⟨r, rs', hr, hrs, rfl⟩
      rw [hr, ih.mpr hrs]
      rfl

theorem mapM_eq_some {f : α → Option β} {l : List α} {rs : List β} :
    l.mapM f = some rs ↔ List.Forall₂ (fun a r => f a = some r) l rs := by
  induction l generalizing rs with
  | nil =>
    rw [List.mapM_nil, List.forall₂_nil_left_iff]
    exact ⟨fun h => (Option.some.inj h).symm, fun h => h ▸ rfl⟩
  | cons a l ih =>
    rw [List.mapM_cons, List.forall₂_cons_left_iff]
    simp only [bind, Option.bind_eq_some_iff, ih, pure, Option.some.injEq]
    grind

theorem exists_forall₂ {P : α → β → Prop} {l : List α} (h : ∀ a ∈ l, ∃ r, P a r) : ∃ rs, List.Forall₂ P l rs := by
  induction l with
  | nil => exact ⟨[], .nil⟩
  | cons a l ih =>
    obtain ⟨r, hr⟩ := h a List.mem_cons_self
    obtain ⟨rs, hrs⟩ := ih fun b hb => h b (List.mem_cons_of_mem a hb)
    exact ⟨r :: rs, .cons hr hrs⟩

end

namespace Json

theorem shownMembers_eq (l : List (String × Json)) : shownMembers l = l.map fun e => (some e.1, e.2.shown) := by
  induction l with
  | nil => rfl
  | cons e r ih => exact congrArg ((some e.1, e.2.shown) :: ·) ih

theorem map_shownMembers (l : List (String × Json)) : (shownMembers l).map (·.1) = l.map fun e => some e.1 := by
  rw [shownMembers_eq, List.map_map]
  rfl

theorem mem_shownMembers {l : List (String × Json)} {k : Option String} {d : Draft} :
    (k, d) ∈ shownMembers l ↔ ∃ e ∈ l, k = some e.1 ∧ d = e.2.shown := by
  rw [shownMembers_eq, List.mem_map]
  simp only [Prod.mk.injEq, eq_comm]

theorem shownItems_eq (l : List Json) : shownItems l = l.map shown := by
  induction l with
  | nil => rfl
  | cons j r ih => exact congrArg (j.shown :: ·) ih

theorem member?_ofMembers {l : List (String × Json)} (hl : (l.map (·.1)).Nodup) {k : String} {j : Json} :
    (ofMembers l).member? k = some j ↔ (k, j) ∈ l := KeyMap.get?_ofList hl

end Json

/-- The shape of the field of a name. -/
def Fields.shape? : Fields → String → Option Shape
  | .nil, _ => none
  | .cons name _ s rest, key => if name = key then some s else rest.shape? key

namespace Shape

variable {α : Type} {s : Shape} {fs : Fields} {f : Json → Option α} {d : Draft} {x : α} {strict : Bool}

/-- A draft is read as a value that stands for `x`. -/
def Yields (s : Shape) (f : Json → Option α) (d : Draft) (x : α) : Prop := ∃ j, s.read false d = .ok j ∧ f j = some x

theorem readField_eq (fs : Fields) (name : String) (d : Draft) :
    readField false fs name d = (fs.shape? name).map fun s => s.read false d := by
  cases fs with
  | nil => rw [readField, Fields.shape?, Option.map_none]
  | cons key presence s rest =>
    rw [readField, Fields.shape?]
    split
    · rfl
    · exact readField_eq rest name d

/-! ### Records -/

section
variable {field : String → Draft → Option (Except Fault Json)} {members : List (Option String × Draft)}
  {seen out : List (String × Json)}

/-- Each member of a known field was read, once. -/
theorem mem_of_readMembers (h : readMembers field strict seen members = .ok out) (hseen : (seen.map (·.1)).Nodup) :
    (out.map (·.1)).Nodup ∧ (∀ e ∈ seen, e ∈ out) ∧
      ∀ k d r, (some k, d) ∈ members → field k d = some r → ∃ v, r = .ok v ∧ (k, v) ∈ out := by
  induction members generalizing seen with
  | nil =>
    obtain rfl := Except.ok.inj h
    exact ⟨hseen, fun e he => he, by simp⟩
  | cons m rest ih =>
    obtain ⟨key, d⟩ := m
    unfold readMembers at h
    obtain ⟨name, hname, h⟩ := bind_eq_ok h
    obtain ⟨k, rfl⟩ : ∃ k, key = some k := by
      cases key with
      | none => cases hname
      | some k => exact ⟨k, rfl⟩
    obtain rfl := Except.ok.inj hname
    cases hfield : field k d with
    | none =>
      rw [hfield] at h
      dsimp only at h
      split at h
      · cases h
      · obtain ⟨_, -, h⟩ := bind_eq_ok h
        obtain ⟨hnodup, hkept, hread⟩ := ih h hseen
        refine ⟨hnodup, hkept, fun k' d' r hmem hr => ?_⟩
        rcases List.mem_cons.mp hmem with heq | hmem
        · obtain ⟨rfl, rfl⟩ := Prod.mk.inj heq |>.imp Option.some.inj id
          rw [hfield] at hr
          cases hr
        · exact hread k' d' r hmem hr
    | some value =>
      rw [hfield] at h
      dsimp only at h
      split at h
      · cases h
      rename_i hnew
      obtain ⟨v, rfl, h⟩ := bind_eq_ok h
      -- A known field that was seen before would have failed.
      have hnext : (((k, v) :: seen).map (·.1)).Nodup := by
        rw [List.map_cons, List.nodup_cons]
        refine ⟨fun hmem => hnew ?_, hseen⟩
        obtain ⟨e, he, heq⟩ := List.mem_map.mp hmem
        exact List.any_eq_true.mpr ⟨e, he, decide_eq_true heq⟩
      obtain ⟨hnodup, hkept, hread⟩ := ih h hnext
      refine ⟨hnodup, fun e he => hkept e (List.mem_cons_of_mem _ he), fun k' d' r hmem hr => ?_⟩
      rcases List.mem_cons.mp hmem with heq | hmem
      · obtain ⟨rfl, rfl⟩ := Prod.mk.inj heq |>.imp Option.some.inj id
        obtain rfl := Option.some.inj (hfield.symm.trans hr)
        exact ⟨v, rfl, hkept _ List.mem_cons_self⟩
      · exact hread k' d' r hmem hr

/-- Members of different known fields that can be read are read together. -/
theorem readMembers_isOk (hkeys : (members.map (·.1)).Nodup) (hseen : ∀ e ∈ seen, some e.1 ∉ members.map (·.1))
    (hread : ∀ m ∈ members, ∃ k v, m.1 = some k ∧ field k m.2 = some (.ok v)) :
    ∃ out, readMembers field strict seen members = .ok out ∧
      ∀ k, k ∈ out.map (·.1) ↔ k ∈ seen.map (·.1) ∨ some k ∈ members.map (·.1) := by
  induction members generalizing seen with
  | nil => exact ⟨seen, rfl, by simp⟩
  | cons m rest ih =>
    obtain ⟨key, d⟩ := m
    obtain ⟨k, v, rfl, hv⟩ := hread _ List.mem_cons_self
    obtain ⟨hk, hkeys⟩ := List.nodup_cons.mp hkeys
    have hnew : seen.any (·.1 = k) = false := by
      rw [List.any_eq_false]
      intro e he heq
      exact hseen e he (by simp [of_decide_eq_true heq])
    have hnext : ∀ e ∈ (k, v) :: seen, some e.1 ∉ rest.map (·.1) := by
      intro e he
      rcases List.mem_cons.mp he with rfl | he
      · exact hk
      · exact fun h => hseen e he (List.mem_cons_of_mem _ h)
    obtain ⟨out, hout, hmem⟩ := ih hkeys hnext fun m hm => hread m (List.mem_cons_of_mem _ hm)
    refine ⟨out, ?_, fun j => ?_⟩
    · have hstep : readMembers field strict seen ((some k, d) :: rest) =
          readMembers field strict ((k, v) :: seen) rest := by
        have hname : Draft.textValue (some k) = .ok k := rfl
        rw [readMembers, hname]
        simp only [Bind.bind, Except.bind, hv, hnew, Bool.false_eq_true, if_false]
      rw [hstep, hout]
    · rw [hmem, List.map_cons, List.map_cons, List.mem_cons, List.mem_cons, Option.some.injEq]
      tauto

end

variable {l : List (String × Json)} {j : Json}

/-- A field of a record that was read. -/
theorem member?_of_read (h : (record strict fs).read false (Json.ofMembers l).shown = .ok j)
    (hl : (l.map (·.1)).Nodup) {k : String} {e : Json} (hmem : (k, e) ∈ l) (hs : fs.shape? k = some s) :
    ∃ v, s.read false e.shown = .ok v ∧ j.member? k = some v := by
  have hobject : (Json.ofMembers l).shown = .object (Json.shownMembers (KeyMap.ofList l).entries) .closed := by
    rw [Json.ofMembers, Json.ofMap, Json.shown]
  rw [hobject, read] at h
  obtain ⟨seen, hseen, h⟩ := bind_eq_ok h
  obtain ⟨_, -, h⟩ := bind_eq_ok h
  split at h
  · obtain rfl := Except.ok.inj h
    obtain ⟨hnodup, -, hread⟩ := mem_of_readMembers hseen List.nodup_nil
    have hshown : (some k, e.shown) ∈ Json.shownMembers (KeyMap.ofList l).entries :=
      Json.mem_shownMembers.mpr ⟨(k, e), (KeyMap.mem_entries_ofList hl).mpr hmem, rfl, rfl⟩
    have hfield : readField false fs k e.shown = some (s.read false e.shown) := by
      rw [readField_eq, hs, Option.map_some]
    obtain ⟨v, hv, hout⟩ := hread k e.shown _ hshown hfield
    exact ⟨v, hv, (Json.member?_ofMembers hnodup).mpr hout⟩
  · cases h

theorem mem_names_of_required {name : String} (h : name ∈ fs.requiredNames) : name ∈ fs.names.map (·.1) := by
  obtain ⟨e, he, rfl⟩ := List.mem_map.mp h
  exact List.mem_map_of_mem (List.mem_filter.mp he).1

/-- A record that has all its fields is read if each of them is. -/
theorem read_record (hnames : l.map (·.1) = fs.names.map (·.1)) (hl : (l.map (·.1)).Nodup)
    (hfields : ∀ e ∈ l, ∃ s v, fs.shape? e.1 = some s ∧ s.read false e.2.shown = .ok v) :
    ∃ j, (record strict fs).read false (Json.ofMembers l).shown = .ok j := by
  have hkeys : ((Json.shownMembers (KeyMap.ofList l).entries).map (·.1)).Nodup := by
    have hsome := (KeyMap.nodup_keys (KeyMap.ofList l)).map (Option.some_injective _)
    rw [List.map_map] at hsome
    rw [Json.map_shownMembers]
    exact hsome
  have hread : ∀ m ∈ Json.shownMembers (KeyMap.ofList l).entries,
      ∃ k v, m.1 = some k ∧ readField false fs k m.2 = some (.ok v) := by
    rintro ⟨key, d⟩ hm
    obtain ⟨e, he, rfl, rfl⟩ := Json.mem_shownMembers.mp hm
    obtain ⟨s, v, hs, hv⟩ := hfields e ((KeyMap.mem_entries_ofList hl).mp he)
    exact ⟨e.1, v, rfl, by rw [readField_eq, hs, Option.map_some, hv]⟩
  have hseen : ∀ e ∈ ([] : List (String × Json)), some e.1 ∉ (Json.shownMembers (KeyMap.ofList l).entries).map (·.1) := by
    simp
  obtain ⟨out, hout, hmem⟩ : ∃ out, readMembers _ strict _ _ = .ok out ∧ _ := readMembers_isOk hkeys hseen hread
  have hall : fs.requiredNames.all (fun name => out.any (·.1 = name)) = true := by
    rw [List.all_eq_true]
    intro name hname
    have hmember : name ∈ l.map (·.1) := hnames ▸ mem_names_of_required hname
    obtain ⟨e, he, rfl⟩ := List.mem_map.mp hmember
    have hshown : some e.1 ∈ (Json.shownMembers (KeyMap.ofList l).entries).map (·.1) := by
      rw [Json.map_shownMembers]
      exact List.mem_map.mpr ⟨e, (KeyMap.mem_entries_ofList hl).mpr he, rfl⟩
    obtain ⟨o, ho, heq⟩ := List.mem_map.mp ((hmem e.1).mpr (.inr hshown))
    exact List.any_eq_true.mpr ⟨o, ho, decide_eq_true heq⟩
  refine ⟨.ofMembers out, ?_⟩
  have hobject : (Json.ofMembers l).shown = .object (Json.shownMembers (KeyMap.ofList l).entries) .closed := by
    rw [Json.ofMembers, Json.ofMap, Json.shown]
  rw [hobject, read, hout]
  show (if fs.requiredNames.all fun name => out.any (·.1 = name) then _ else _) = _
  rw [hall]
  rfl

/-! ### Fields -/

theorem Yields.read_field {k : String} {e : Json} (h : s.Yields f e.shown x) (hs : fs.shape? k = some s) :
    ∃ s v, fs.shape? (k, e).1 = some s ∧ s.read false (k, e).2.shown = .ok v := by
  obtain ⟨v, hv, -⟩ := h
  exact ⟨s, v, hs, hv⟩

theorem field?_of_read (h : (record strict fs).read false (Json.ofMembers l).shown = .ok j)
    (hl : (l.map (·.1)).Nodup) (k : String) {e : Json} (hmem : (k, e) ∈ l) (hs : fs.shape? k = some s)
    (hy : s.Yields f e.shown x) : j.field? k f = some x := by
  obtain ⟨v, hv, hj⟩ := member?_of_read h hl hmem hs
  obtain ⟨w, hw, hx⟩ := hy
  obtain rfl := Except.ok.inj (hv.symm.trans hw)
  rw [Json.field?, hj]
  exact hx

theorem fieldOr?_of_read (h : (record strict fs).read false (Json.ofMembers l).shown = .ok j)
    (hl : (l.map (·.1)).Nodup) (k : String) {e : Json} (hmem : (k, e) ∈ l) (hs : fs.shape? k = some s)
    (hy : s.Yields f e.shown x) (absent : α) : j.fieldOr? k f absent = some x := by
  obtain ⟨v, hv, hj⟩ := member?_of_read h hl hmem hs
  obtain ⟨w, hw, hx⟩ := hy
  obtain rfl := Except.ok.inj (hv.symm.trans hw)
  rw [Json.fieldOr?, hj]
  exact hx

/-! ### Values -/

theorem yields_text (t : String) : text.Yields Json.string? (Json.string t).shown t := ⟨_, rfl, rfl⟩

theorem yields_flag (b : Bool) : flag.Yields Json.bool? (Json.bool b).shown b := ⟨_, rfl, rfl⟩

/-- A value that may be `null`, of a shape that has no `null` of its own. -/
theorem yields_nullable (hs : ∀ j, s.read false .null ≠ .ok j) (hf : f .null = none) {g : α → Json} {o : Option α}
    (h : ∀ x, o = some x → s.Yields f (g x).shown x) :
    (nullable s).Yields (Json.maybe? f) (o.elim Json.null g).shown o := by
  cases o with
  | none => exact ⟨.null, rfl, rfl⟩
  | some x =>
    obtain ⟨v, hv, hx⟩ := h x rfl
    refine ⟨v, ?_, ?_⟩
    · rw [Option.elim_some]
      cases hd : (g x).shown with
      | null =>
        rw [hd] at hv
        exact absurd hv (hs v)
      | _ =>
        rw [hd] at hv
        exact hv
    · cases v with
      | null => exact absurd (hf.symm.trans hx) (by simp)
      | bool | number | string | array | object => exact congrArg (Option.map some) hx

theorem yields_ofText? (o : Option String) : (nullable text).Yields (Json.maybe? Json.string?) (Json.ofText? o).shown o := by
  have h := yields_nullable (s := text) (f := Json.string?) (g := Json.string) (o := o) (fun _ h => by cases h) rfl
    fun t _ => yields_text t
  cases o <;> exact h

/-- A whole number of 64 bits is shown as itself. -/
theorem shown_whole {n : Int} (hlow : -0x8000000000000000 ≤ n) (hhigh : n ≤ 0xFFFFFFFFFFFFFFFF) :
    (Json.whole n).shown = .number (some (.whole n)) := by
  have hvalue : (⟨n < 0, Numeral.digits n.natAbs, [], none⟩ : Numeral).value = some (.whole n) := by
    unfold Numeral.value
    dsimp only
    rw [if_pos ⟨rfl, rfl⟩, Numeral.digitsValue_digits]
    rcases lt_or_ge n 0 with h | h
    · have hm : 0 < n.natAbs ∧ n.natAbs ≤ 0x8000000000000000 := by omega
      have hback : -(n.natAbs : Int) = n := by omega
      rw [if_pos (decide_eq_true h), if_pos hm, hback]
    · have hm : n.natAbs ≤ Numeral.wordMax := by
        unfold Numeral.wordMax
        omega
      have hback : (n.natAbs : Int) = n := by omega
      rw [if_neg (by simpa using h), if_pos hm, hback]
  exact congrArg Draft.number hvalue

theorem Yields.comp {β : Type} (h : s.Yields f d x) (g : α → β) : s.Yields (fun j => (f j).map g) d (g x) := by
  obtain ⟨v, hv, hx⟩ := h
  exact ⟨v, hv, congrArg (Option.map g) hx⟩

theorem yields_whole {least greatest n : Int} (hlow : -0x8000000000000000 ≤ n) (hhigh : n ≤ 0xFFFFFFFFFFFFFFFF)
    (hn : least ≤ n ∧ n ≤ greatest) (hf : f (.whole n) = some x) :
    (whole least greatest).Yields f (Json.whole n).shown x := by
  refine ⟨.whole n, ?_, hf⟩
  rw [shown_whole hlow hhigh]
  exact if_pos hn

/-! ### Lists and maps -/

theorem yields_list {β : Type} {g : β → Json} {h : β → α} {items : List β}
    (hitems : ∀ b ∈ items, s.Yields f (g b).shown (h b)) :
    (list s).Yields (Json.list? f) (Json.array (items.map g)).shown (items.map h) := by
  obtain ⟨vs, hvs⟩ := exists_forall₂ hitems
  refine ⟨.array vs, ?_, ?_⟩
  · have hread : ((items.map g).map Json.shown).mapM (fun d => s.read false d) = .ok vs := by
      rw [mapM_eq_ok, List.map_map, List.forall₂_map_left_iff]
      exact hvs.imp fun _ _ h => h.1
    rw [Json.shown, Json.shownItems_eq, Shape.read, readList, hread]
    rfl
  · refine mapM_eq_some.mpr ?_
    rw [List.forall₂_map_right_iff]
    exact (hvs.flip).imp fun _ _ h => h.2

/-- The entries of a map that was read. -/
theorem read_map {m : KeyMap Json} :
    (map s).read false (Json.ofMap m).shown = .ok j ↔
      ∃ vs, List.Forall₂ (fun e v => v.1 = e.1 ∧ s.read false e.2.shown = .ok v.2) m.entries vs ∧
        j = .ofMembers vs := by
  have hmap : (map s).read false (Json.ofMap m).shown =
      readMap (fun d => s.read false d) (Json.shownMembers m.entries) .closed := by
    rw [Json.ofMap, Json.shown, Shape.read]
  rw [hmap, readMap, Json.shownMembers_eq]
  constructor
  · intro h
    obtain ⟨vs, hvs, h⟩ := bind_eq_ok h
    obtain ⟨_, -, h⟩ := bind_eq_ok h
    rw [mapM_eq_ok, List.forall₂_map_left_iff] at hvs
    refine ⟨vs, hvs.imp fun e v hv => ?_, (Except.ok.inj h).symm⟩
    obtain ⟨k, hk, hv⟩ := bind_eq_ok hv
    obtain ⟨w, hw, hv⟩ := bind_eq_ok hv
    obtain rfl := Except.ok.inj hv
    exact ⟨(Except.ok.inj hk).symm, hw⟩
  · rintro ⟨vs, hvs, rfl⟩
    have hread : (m.entries.map fun e => (some e.1, e.2.shown)).mapM
        (fun e => do return (← Draft.textValue e.1, ← s.read false e.2)) = .ok vs := by
      rw [mapM_eq_ok, List.forall₂_map_left_iff]
      refine hvs.imp fun e v hv => ?_
      obtain ⟨k, w⟩ := v
      obtain ⟨rfl, hw⟩ := hv
      show (do return (e.1, ← s.read false e.2.shown)) = _
      rw [hw]
      rfl
    rw [hread]
    rfl

theorem keys_of_forall₂ {β : Type} {P : String × α → String × β → Prop} {es : List (String × α)}
    {vs : List (String × β)} (h : List.Forall₂ (fun e v => v.1 = e.1 ∧ P e v) es vs) : vs.map (·.1) = es.map (·.1) := by
  induction h with
  | nil => rfl
  | cons hv _ ih => rw [List.map_cons, List.map_cons, hv.1, ih]

/-- Members with the keys of a map are in order. -/
theorem ofMembers_of_keys {m : KeyMap α} {vs : List (String × Json)} (h : vs.map (·.1) = m.entries.map (·.1)) :
    Json.ofMembers vs = .object vs := by
  have hkeys := List.pairwise_map.mpr m.ordered
  rw [← h] at hkeys
  have hvs : vs.Pairwise fun a b => a.1 < b.1 := List.pairwise_map.mp hkeys
  exact congrArg (fun n : KeyMap Json => Json.object n.entries) (KeyMap.ofList_entries ⟨vs, hvs⟩)

theorem yields_map {β : Type} {m : KeyMap β} {g : β → Json} {h : β → α}
    (hm : ∀ k b, m.get? k = some b → s.Yields f (g b).shown (h b)) :
    (map s).Yields (Json.map? f) (Json.ofMap (m.mapValues fun _ => g)).shown (m.mapValues fun _ => h) := by
  have hentries : ∀ e ∈ m.entries, ∃ v : String × Json,
      v.1 = e.1 ∧ s.read false (g e.2).shown = .ok v.2 ∧ f v.2 = some (h e.2) := by
    intro e he
    obtain ⟨v, hv, hx⟩ := hm e.1 e.2 (KeyMap.get?_eq_some_iff_mem.mpr he)
    exact ⟨(e.1, v), rfl, hv, hx⟩
  obtain ⟨vs, hvs⟩ := exists_forall₂ hentries
  refine ⟨.ofMembers vs, read_map.mpr ⟨vs, ?_, rfl⟩, ?_⟩
  · show List.Forall₂ _ (m.entries.map fun e => (e.1, g e.2)) vs
    rw [List.forall₂_map_left_iff]
    exact hvs.imp fun _ _ h => ⟨h.1, h.2.1⟩
  · have hback : vs.mapM (fun e => (f e.2).map (e.1, ·)) = some (m.mapValues fun _ => h).entries := by
      rw [mapM_eq_some]
      refine List.forall₂_map_right_iff.mpr (hvs.flip.imp fun v e hv => ?_)
      rw [hv.1, hv.2.2]
      rfl
    rw [ofMembers_of_keys (keys_of_forall₂ hvs)]
    show (vs.mapM fun e => (f e.2).map (e.1, ·)).map KeyMap.ofList = some _
    rw [hback, Option.map_some, KeyMap.ofList_entries]

theorem yields_map_self {m : KeyMap α} {g : α → Json} (hm : ∀ k x, m.get? k = some x → s.Yields f (g x).shown x) :
    (map s).Yields (Json.map? f) (Json.ofMap (m.mapValues fun _ => g)).shown m := by
  have h := yields_map (h := id) hm
  have hid : m.mapValues (fun _ => id) = m := KeyMap.ext fun k => by rw [KeyMap.get?_mapValues]; exact Option.map_id'
  rwa [hid] at h

/-- An entry of a map that was read. -/
theorem entry_of_read_map {m : KeyMap α} {g : α → Json}
    (h : (map s).read false (Json.ofMap (m.mapValues fun _ => g)).shown = .ok j) {k : String} (hx : m.get? k = some x) :
    ∃ v, s.read false (g x).shown = .ok v := by
  obtain ⟨vs, hvs, rfl⟩ := read_map.mp h
  have hmem : (k, g x) ∈ (m.mapValues fun _ => g).entries :=
    List.mem_map.mpr ⟨(k, x), KeyMap.get?_eq_some_iff_mem.mp hx, rfl⟩
  obtain ⟨v, -, -, hread⟩ := exists_of_forall₂ hvs hmem
  exact ⟨v.2, hread⟩

end Shape

end Workboard
