import Workboard.Board.Codec
import Workboard.Proofs.Records
import Workboard.Proofs.ValueText

/-! Values that are in normal form already.

`Shape.Keeps s j` says that a value is of a shape and is read as it is. A record is if it has all fields of its shape
and each of them is (`Shape.keeps_record`), and a variant is with the tag put in front (`Variants.read_tagged`). -/

namespace Workboard

namespace KeyMap

variable {α : Type} {l : List (String × α)} {k : String} {v : α}

theorem find_eq_some (hl : (l.map (·.1)).Nodup) : find k l = some v ↔ (k, v) ∈ l := by
  induction l with
  | nil => simp [find]
  | cons e r ih =>
    obtain ⟨he, hr⟩ := List.nodup_cons.mp hl
    rw [find, List.mem_cons, Prod.ext_iff]
    split
    · rename_i hk
      subst hk
      have hnone : (e.1, v) ∉ r := fun h => he (List.mem_map.mpr ⟨_, h, rfl⟩)
      simp [hnone, eq_comm]
    · rename_i hk
      rw [ih hr]
      exact (or_iff_right fun h => hk h.1.symm).symm

theorem get?_ofList_eq (hl : (l.map (·.1)).Nodup) (k : String) : (ofList l).get? k = find k l :=
  Option.ext fun _ => (get?_ofList hl).trans (find_eq_some hl).symm

/-- Lists with the same entries, no key twice, are one map. -/
theorem ofList_congr {l' : List (String × α)} (hl : (l.map (·.1)).Nodup) (hl' : (l'.map (·.1)).Nodup)
    (h : ∀ e, e ∈ l ↔ e ∈ l') : ofList l = ofList l' :=
  ext fun k => Option.ext fun v => by rw [get?_ofList hl, get?_ofList hl', h]

end KeyMap

theorem Json.member?_ofMembers_eq {l : List (String × Json)} (hl : (l.map (·.1)).Nodup) (k : String) :
    (ofMembers l).member? k = KeyMap.find k l := KeyMap.get?_ofList_eq hl k

namespace Draft

variable {members : List (String × Json)}

theorem find?_ofMembers (k : String) :
    (ofMembers members).find? (·.1 = some k) = (KeyMap.find k members).map fun j => (some k, ofJson j) := by
  induction members with
  | nil => rfl
  | cons e r ih =>
    rw [ofMembers, List.find?_cons, KeyMap.find, ih]
    by_cases hk : e.1 = k
    · simp [hk]
    · simp [hk]

theorem filter_ofMembers (k : String) :
    (ofMembers members).filter (·.1 ≠ some k) = ofMembers (members.filter (·.1 ≠ k)) := by
  rw [ofMembers_eq, ofMembers_eq, List.filter_map]
  refine congrArg (List.map _) (List.filter_congr fun e _ => ?_)
  simp

end Draft

namespace Shape

variable {s : Shape} {fs : Fields} {strict : Bool}

/-- A value is read in a shape as it is. -/
def Keeps (s : Shape) (j : Json) : Prop := s.read true (.ofJson j) = .ok j

/-! ### Values -/

theorem keeps_text (t : String) : text.Keeps (.string t) := rfl

theorem keeps_flag (b : Bool) : flag.Keeps (.bool b) := rfl

theorem keeps_real {x : Float} (h : x.isFinite = true) : real.Keeps (.real x) := by
  rw [Json.real, if_pos h]
  rfl

theorem keeps_any {j : Json} (hdepth : j.depth < Draft.nestingLimit) (hsorted : j.sorted = j) : any.Keeps j := by
  rw [Keeps, read, Draft.value_ofJson j hdepth, hsorted]

theorem keeps_nullable {j : Json} (h : s.Keeps j) : (nullable s).Keeps j := by
  cases j with
  | null => rfl
  | bool | number | string | array | object => exact h

theorem keeps_ofMaybe {α : Type} {enc : α → Json} {o : Option α} (h : ∀ x ∈ o, s.Keeps (enc x)) :
    (nullable s).Keeps (.ofMaybe enc o) := by
  cases o with
  | none => rfl
  | some x => exact keeps_nullable (h x rfl)

theorem keeps_ofText? (o : Option String) : (nullable text).Keeps (.ofText? o) := by
  cases o <;> rfl

theorem keeps_list {α : Type} {enc : α → Json} {l : List α} (h : ∀ x ∈ l, s.Keeps (enc x)) :
    (list s).Keeps (.array (l.map enc)) := by
  have hitems : ((l.map enc).map Draft.ofJson).mapM (fun d => s.read true d) = .ok (l.map enc) := by
    rw [mapM_eq_ok, List.map_map, List.forall₂_map_left_iff, List.forall₂_map_right_iff]
    exact List.forall₂_same.mpr h
  rw [Keeps, Draft.ofJson, Draft.ofItems_eq, read, readList, hitems]
  rfl

theorem keeps_ofTexts (l : List String) : (list text).Keeps (.ofTexts l) := keeps_list fun t _ => keeps_text t

/-! ### Records -/

theorem readField_true (fs : Fields) (name : String) (d : Draft) :
    readField true fs name d = (fs.shape? name).map fun s => s.read true d := by
  cases fs with
  | nil => rw [readField, Fields.shape?, Option.map_none]
  | cons key presence s rest =>
    rw [readField, Fields.shape?]
    split
    · rfl
    · exact readField_true rest name d

/-- Members of known fields that are read as they are. -/
theorem readMembers_keeps {field : String → Draft → Option (Except Fault Json)} {m : KeyMap Json}
    (h : ∀ e ∈ m.entries, field e.1 (Draft.ofJson e.2) = some (.ok e.2)) :
    ∃ out, readMembers field strict [] (Draft.ofMembers m.entries) = .ok out ∧ (∀ e, e ∈ out ↔ e ∈ m.entries) ∧
      KeyMap.ofList out = m := by
  have hmembers (e : String × Json) : (some e.1, Draft.ofJson e.2) ∈ Draft.ofMembers m.entries ↔
      ∃ f ∈ m.entries, f.1 = e.1 ∧ Draft.ofJson f.2 = Draft.ofJson e.2 := by
    rw [Draft.ofMembers_eq]
    simp
  have hkeys : ((Draft.ofMembers m.entries).map (·.1)).Nodup := by
    have hsome := m.nodup_keys.map (Option.some_injective _)
    rw [List.map_map] at hsome
    rw [Draft.ofMembers_eq, List.map_map]
    exact hsome
  have hread : ∀ d ∈ Draft.ofMembers m.entries, ∃ k v, d.1 = some k ∧ field k d.2 = some (.ok v) := by
    intro d hd
    rw [Draft.ofMembers_eq] at hd
    obtain ⟨e, he, rfl⟩ := List.mem_map.mp hd
    exact ⟨e.1, e.2, rfl, h e he⟩
  obtain ⟨out, hout, hnames⟩ : ∃ out, readMembers field strict [] _ = .ok out ∧ _ :=
    readMembers_isOk hkeys (by simp) hread
  obtain ⟨hnodup, -, hvalues⟩ := mem_of_readMembers hout List.nodup_nil
  have hkept : ∀ e ∈ m.entries, e ∈ out := fun e he => by
    obtain ⟨v, hv, hmem⟩ := hvalues e.1 _ _ ((hmembers e).mpr ⟨e, he, rfl, rfl⟩) (h e he)
    rwa [← Except.ok.inj hv] at hmem
  have hsame : ∀ e, e ∈ out ↔ e ∈ m.entries := by
    refine fun e => ⟨fun he => ?_, hkept e⟩
    -- An entry that was read has the key of one of the map, which was read, too.
    have hkey : some e.1 ∈ (Draft.ofMembers m.entries).map (·.1) := by
      simpa using (hnames e.1).mp (List.mem_map_of_mem he)
    obtain ⟨d, hd, hname⟩ := List.mem_map.mp hkey
    rw [Draft.ofMembers_eq] at hd
    obtain ⟨f, hf, rfl⟩ := List.mem_map.mp hd
    exact List.inj_on_of_nodup_map hnodup (hkept f hf) he (Option.some.inj hname) ▸ hf
  exact ⟨out, hout, hsame, (KeyMap.ofList_congr hnodup m.nodup_keys hsame).trans m.ofList_entries⟩

end Shape

/-- Members that are the fields in their order, each read as it is. -/
def Fields.Keep : Fields → List (String × Json) → Prop
  | .nil, [] => True
  | .cons name _ s rest, (k, j) :: r => k = name ∧ s.Keeps j ∧ rest.Keep r
  | _, _ => False

namespace Fields

theorem Keep.keys {fs : Fields} {l : List (String × Json)} (h : fs.Keep l) : l.map (·.1) = fs.names.map (·.1) := by
  match fs, l with
  | .nil, [] => rfl
  | .cons name _ s rest, e :: r =>
    obtain ⟨hname, -, hrest⟩ := h
    rw [List.map_cons, names, List.map_cons, hrest.keys, hname]

theorem Keep.shape {fs : Fields} {l : List (String × Json)} (h : fs.Keep l) (hnames : (fs.names.map (·.1)).Nodup)
    {e : String × Json} (he : e ∈ l) : ∃ s, fs.shape? e.1 = some s ∧ s.Keeps e.2 := by
  match fs, l with
  | .nil, [] => cases he
  | .cons name _ s rest, e' :: r =>
    obtain ⟨hname, hs, hrest⟩ := h
    obtain ⟨hfresh, hnames⟩ := List.nodup_cons.mp hnames
    rcases List.mem_cons.mp he with rfl | he
    · exact ⟨s, by rw [shape?, if_pos hname.symm], hs⟩
    · have hne : name ≠ e.1 := fun heq => hfresh (by
        rw [heq, ← hrest.keys]
        exact List.mem_map_of_mem he)
      obtain ⟨t, ht, hkeeps⟩ := hrest.shape hnames he
      exact ⟨t, by rw [shape?, if_neg hne, ht], hkeeps⟩

end Fields

namespace Shape

variable {fs : Fields} {l : List (String × Json)} {strict : Bool}

/-- A record with all its fields is read as it is. -/
theorem keeps_record (h : fs.Keep l) (hnames : (fs.names.map (·.1)).Nodup) : (record strict fs).Keeps (.ofMembers l) := by
  have hl : (l.map (·.1)).Nodup := h.keys ▸ hnames
  have hfield : ∀ e ∈ (KeyMap.ofList l).entries, readField true fs e.1 (Draft.ofJson e.2) = some (.ok e.2) := by
    intro e he
    obtain ⟨s, hs, hkeeps⟩ := h.shape hnames ((KeyMap.mem_entries_ofList hl).mp he)
    rw [readField_true, hs, Option.map_some, hkeeps]
  obtain ⟨out, hout, hsame, hmap⟩ : ∃ out, readMembers _ strict [] _ = .ok out ∧ _ := readMembers_keeps hfield
  have hall : fs.requiredNames.all (fun name => out.any (·.1 = name)) = true := by
    rw [List.all_eq_true]
    intro name hname
    have hmember : name ∈ l.map (·.1) := h.keys ▸ mem_names_of_required hname
    obtain ⟨e, he, rfl⟩ := List.mem_map.mp hmember
    exact List.any_eq_true.mpr ⟨e, (hsame e).mpr ((KeyMap.mem_entries_ofList hl).mpr he), decide_eq_true rfl⟩
  rw [Keeps, Json.ofMembers, Json.ofMap, Draft.ofJson, read, hout]
  show (if fs.requiredNames.all fun name => out.any (·.1 = name) then _ else _) = _
  rw [hall, if_pos rfl, Json.ofMembers, hmap]
  rfl

end Shape

/-- A variant is read as it is: its tag is taken away and put back. -/
theorem Variants.read_tagged {v : Variants} {name : String} {fs : Fields} {l : List (String × Json)}
    (hcase : v.cases.find? (·.1 = name) = some (name, fs)) (hnames : (v.tag :: fs.names.map (·.1)).Nodup) (h : fs.Keep l) :
    v.check (.ofMembers ((v.tag, .string name) :: l)) = .ok (.ofMembers ((v.tag, .string name) :: l)) := by
  obtain ⟨htag, hfields⟩ := List.nodup_cons.mp hnames
  have hl : (l.map (·.1)).Nodup := h.keys ▸ hfields
  have hall : (((v.tag, Json.string name) :: l).map (·.1)).Nodup := by
    rw [List.map_cons, h.keys]
    exact hnames
  have hrest : (KeyMap.ofList ((v.tag, Json.string name) :: l)).erase v.tag = KeyMap.ofList l := by
    refine KeyMap.ext fun k => ?_
    rw [KeyMap.get?_erase, KeyMap.get?_ofList_eq hall, KeyMap.get?_ofList_eq hl, KeyMap.find]
    split
    · rename_i hk
      refine (Option.eq_none_iff_forall_ne_some.mpr fun j hj => ?_).symm
      have hmem := (KeyMap.find_eq_some hl).mp hj
      exact htag (hk ▸ h.keys ▸ List.mem_map_of_mem hmem)
    · rfl
  have hfind : (Draft.ofMembers (KeyMap.ofList ((v.tag, Json.string name) :: l)).entries).find? (·.1 = some v.tag) =
      some (some v.tag, .text (some name)) := by
    have hget : KeyMap.find v.tag (KeyMap.ofList ((v.tag, Json.string name) :: l)).entries = some (.string name) :=
      (KeyMap.get?_ofList hall).mpr List.mem_cons_self
    rw [Draft.find?_ofMembers, hget]
    rfl
  have hkeeps : (Shape.record false fs).Keeps (.ofMembers l) := Shape.keeps_record h hfields
  rw [Shape.Keeps, Json.ofMembers, Json.ofMap, Draft.ofJson, ← hrest] at hkeeps
  have hkeys : (((v.tag, Json.string name) :: (KeyMap.ofList l).entries).map (·.1)).Nodup := by
    refine List.nodup_cons.mpr ⟨fun hmem => ?_, KeyMap.nodup_keys _⟩
    obtain ⟨e, he, heq⟩ := List.mem_map.mp hmem
    rw [← h.keys] at htag
    exact htag (List.mem_map.mpr ⟨e, (KeyMap.mem_entries_ofList hl).mp he, heq⟩)
  -- Members are kept by key, so it does not matter that the tag is put back in front.
  have hback : Json.ofMembers ((v.tag, .string name) :: (KeyMap.ofList l).entries) =
      .ofMembers ((v.tag, .string name) :: l) :=
    congrArg Json.ofMap (KeyMap.ofList_congr hkeys hall fun e => by
      rw [List.mem_cons, List.mem_cons, KeyMap.mem_entries_ofList hl])
  have hread : v.read (Draft.ofJson (.ofMembers ((v.tag, .string name) :: l))) =
      .ok (.ofMembers ((v.tag, .string name) :: l)) := by
    have hfields : v.fields? (.text (some name)) = some (name, fs) := hcase
    have hrecord : Shape.read true (.record false fs) (.object ((Draft.ofMembers
        (KeyMap.ofList ((v.tag, Json.string name) :: l)).entries).filter (·.1 ≠ some v.tag)) .closed) =
        .ok (.ofMap (KeyMap.ofList l)) := by
      rw [Draft.filter_ofMembers, ← hrest]
      exact hkeeps
    rw [Json.ofMembers, Json.ofMap, Draft.ofJson, read, hfind]
    dsimp only
    rw [hfields]
    dsimp only
    rw [hrecord]
    exact congrArg Except.ok hback
  rw [check, hread]
  rfl

end Workboard
