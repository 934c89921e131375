import Mathlib
import Workboard.Proofs.LayerCycles

/-! The names around a layer, for every chain of parents.

From a layer on, each id is followed by the parent of its layer, and there is one longest run of layers that this passes
before it repeats or leaves the board (`exists_longest`). A climb follows that run (`climbFrom_run`), so where it ends is
told by the run and the id behind it (`Ends`): this is proved for the four ways to end one by one (`climb_of_ends`), and
that there is always one of them (`exists_ends`). Main statements: what a climb yields (`Board.exists_breadcrumb`), and what
a parent that is no layer changes (`Board.rooted_spec`): nothing but the error of a climb of just `maxLayerDepth` layers. -/

namespace Workboard

namespace Board

variable {b : Board} {id x : String} {run ids : List String}

/-- Ids from one on, each followed by the parent of its layer, none of them twice. -/
structure Trail (b : Board) (id : String) (ids : List String) : Prop where
  head : ∀ x ∈ ids.head?, x = id
  chain : ids.IsChain b.Inside
  nodup : ids.Nodup

/-- A trail of layers that exist. -/
structure Run (b : Board) (id : String) (run : List String) : Prop extends Trail b id run where
  known : ∀ x ∈ run, b.layers.contains x = true

/-- The id behind a run: the parent of its last layer, or the first id of all. -/
def after (b : Board) (id : String) (run : List String) : Option String :=
  match run.getLast? with
  | none => some id
  | some x => (b.layers.get? x).bind (·.parent)

/-- The names of layers. -/
def layerNames (b : Board) (ids : List String) : List String := ids.filterMap fun x => (b.layers.get? x).map (·.name)

def rungsOf (b : Board) (ids : List String) : List Rung :=
  ids.filterMap fun x => (b.layers.get? x).map fun l => ⟨x, l.name⟩

/-! ### Trails and runs -/

theorem Trail.of_isPrefix (h : b.Trail id ids) (hpre : run <+: ids) : b.Trail id run where
  head x hx := by
    obtain ⟨rest, rfl⟩ := hpre
    exact h.head x (List.mem_head?_append_of_mem_head? hx)
  chain := h.chain.prefix hpre
  nodup := h.nodup.sublist hpre.sublist

theorem Run.of_isPrefix (h : b.Run id ids) (hpre : run <+: ids) : b.Run id run where
  toTrail := h.toTrail.of_isPrefix hpre
  known x hx := h.known x (hpre.subset hx)

theorem after_concat (run : List String) (x : String) : b.after id (run ++ [x]) = (b.layers.get? x).bind (·.parent) := by
  simp [after]

/-- What is last on a trail is the id behind the others. -/
theorem Trail.after_eq (h : b.Trail id (run ++ [x])) : b.after id run = some x := by
  induction run using List.reverseRecOn with
  | nil => rw [h.head x rfl]; rfl
  | append_singleton run y =>
    have hchain : (run ++ ([y] ++ [x])).IsChain b.Inside := List.append_assoc run [y] [x] ▸ h.chain
    obtain ⟨l, hl, hparent⟩ := List.isChain_pair.mp hchain.right_of_append
    rw [after_concat, hl, Option.bind_some, hparent]

/-- A run goes on to the id behind it, unless that is on it. -/
theorem Run.concat (h : b.Run id run) (hx : b.after id run = some x) (hnew : x ∉ run) : b.Trail id (run ++ [x]) where
  head y hy := by
    cases run with
    | nil =>
      obtain rfl := Option.some.inj hx
      exact (Option.some.inj hy).symm
    | cons first rest => exact h.head y hy
  chain := by
    refine List.isChain_append.mpr ⟨h.chain, List.isChain_singleton x, fun y hy z hz => ?_⟩
    obtain rfl := Option.some.inj hz
    rw [after, Option.mem_def.mp hy] at hx
    exact Option.bind_eq_some_iff.mp hx
  nodup := by
    refine List.nodup_append.mpr ⟨h.nodup, List.nodup_singleton x, fun y hy z hz => ?_⟩
    rintro rfl
    exact hnew (List.mem_singleton.mp hz ▸ hy)

theorem Trail.eq_of_concat {y : String} (h : b.Trail id (run ++ [x])) (h' : b.Trail id (run ++ [y])) : x = y :=
  Option.some.inj (h.after_eq.symm.trans h'.after_eq)

/-- What has something behind it on a trail is a layer. -/
theorem Trail.run_of_concat (h : b.Trail id (run ++ [x])) : b.Run id run where
  toTrail := h.of_isPrefix (List.prefix_append _ _)
  known y hy := by
    obtain ⟨pre, post, rfl⟩ := List.append_of_mem hy
    have hchain : (y :: (post ++ [x])).IsChain b.Inside := by
      have := h.chain
      rw [List.append_assoc] at this
      exact this.right_of_append
    cases post with
    | nil => exact (List.isChain_cons_cons.mp hchain).1.contains
    | cons z post => exact (List.isChain_cons_cons.mp hchain).1.contains

/-- Of two trails one is the beginning of the other. -/
theorem Trail.isPrefix (h : b.Trail id run) (h' : b.Trail id ids) (hle : run.length ≤ ids.length) : run <+: ids := by
  induction run using List.reverseRecOn with
  | nil => exact List.nil_prefix
  | append_singleton run x ih =>
    have hlt : run.length < ids.length := by simpa using hle
    have hpre : run <+: ids := ih (h.of_isPrefix (List.prefix_append _ _)) hlt.le
    obtain ⟨rest, rfl⟩ := hpre
    cases rest with
    | nil => simp at hlt
    | cons y rest =>
      have hy : b.Trail id (run ++ [y]) := h'.of_isPrefix ⟨rest, by simp⟩
      exact ⟨rest, by simp [h.eq_of_concat hy]⟩

theorem Run.length_le (h : b.Run id run) : run.length ≤ b.layers.keys.length :=
  (h.nodup.subperm fun x hx => KeyMap.mem_keys.mpr (h.known x hx)).length_le

/-- There is a longest run, and the runs are its beginnings. -/
theorem exists_longest (b : Board) (id : String) : ∃ run, ∀ ids, b.Run id ids ↔ ids <+: run := by
  classical
  have hnil : b.Run id [] := ⟨⟨fun x hx => (by cases hx), List.isChain_nil, List.nodup_nil⟩, fun x hx => (by cases hx)⟩
  obtain ⟨run, hrun, hlength⟩ := Nat.findGreatest_spec (P := fun n => ∃ run, b.Run id run ∧ run.length = n)
    (Nat.zero_le b.layers.keys.length) ⟨[], hnil, rfl⟩
  refine ⟨run, fun ids => ⟨fun h => h.isPrefix hrun.toTrail ?_, hrun.of_isPrefix⟩⟩
  exact (Nat.le_findGreatest h.length_le ⟨ids, h, rfl⟩).trans hlength.ge

/-! ### A climb along a run -/

theorem map_id_rungsOf (h : ∀ x ∈ ids, b.layers.contains x = true) : (b.rungsOf ids).map (·.id) = ids := by
  induction ids with
  | nil => rfl
  | cons x ids ih =>
    obtain ⟨l, hl⟩ := KeyMap.contains_iff.mp (h x List.mem_cons_self)
    have hrest : (b.rungsOf ids).map (·.id) = ids := ih fun y hy => h y (List.mem_cons_of_mem x hy)
    unfold rungsOf at hrest ⊢
    rw [List.filterMap_cons_some (by rw [hl]; rfl), List.map_cons, hrest]

theorem map_name_rungsOf (b : Board) (ids : List String) : (b.rungsOf ids).map (·.name) = b.layerNames ids := by
  simp [rungsOf, layerNames, List.map_filterMap, Function.comp_def]

theorem length_rungsOf (h : ∀ x ∈ ids, b.layers.contains x = true) : (b.rungsOf ids).length = ids.length := by
  rw [← List.length_map (·.id), map_id_rungsOf h]

theorem any_rungsOf (h : ∀ x ∈ ids, b.layers.contains x = true) :
    (b.rungsOf ids).reverse.any (·.id = x) = true ↔ x ∈ ids := by
  conv_rhs => rw [← map_id_rungsOf h]
  simp [List.any_eq_true]

/-- As long as there is room, a climb passes the layers of a run. -/
theorem climbFrom_run (h : b.Run id run) (hroom : run.length ≤ maxLayerDepth) (fuel : Nat) :
    climbFrom b.layers (fuel + run.length) [] (some id) =
      climbFrom b.layers fuel (b.rungsOf run).reverse (b.after id run) := by
  induction run using List.reverseRecOn generalizing fuel with
  | nil => rfl
  | append_singleton run x ih =>
    rw [List.length_append, List.length_singleton] at hroom ⊢
    have hpre : b.Run id run := h.of_isPrefix (List.prefix_append _ _)
    obtain ⟨l, hl⟩ := KeyMap.contains_iff.mp (h.known x (by simp))
    have hnew : ¬ (b.rungsOf run).reverse.any (·.id = x) = true := by
      rw [any_rungsOf hpre.known]
      exact fun hx => (List.nodup_append.mp h.nodup).2.2 x hx x (List.mem_singleton_self x) rfl
    have hlow : ¬ maxLayerDepth ≤ (b.rungsOf run).reverse.length := by
      rw [List.length_reverse, length_rungsOf hpre.known]
      omega
    have hrungs : (b.rungsOf (run ++ [x])).reverse = ⟨x, l.name⟩ :: (b.rungsOf run).reverse := by
      simp [rungsOf, List.filterMap_append, hl]
    rw [show fuel + (run.length + 1) = (fuel + 1) + run.length by omega, ih hpre (by omega), h.toTrail.after_eq, climbFrom,
      if_neg hnew, if_neg hlow, hl, after_concat, hl, Option.bind_some, hrungs]

/-- The ways in which a climb along the longest run from a layer ends. -/
inductive Ends (b : Board) (id : String) (run : List String) : Option ClimbFault → Prop
  | outermost (hroom : run.length ≤ maxLayerDepth) (hafter : b.after id run = none) : Ends b id run none
  | unknown {x : String} (hroom : run.length < maxLayerDepth) (hafter : b.after id run = some x)
      (hx : b.layers.contains x = false) : Ends b id run none
  | back {x : String} (hroom : run.length ≤ maxLayerDepth) (hafter : b.after id run = some x) (hx : x ∈ run) :
      Ends b id run (some (.cycle (run.dropWhile (· ≠ x))))
  | deep {ids : List String} (htrail : b.Trail id ids) (hlength : ids.length = maxLayerDepth + 1) :
      Ends b id run (some .tooDeep)

theorem exists_ends (h : ∀ ids, b.Run id ids ↔ ids <+: run) : ∃ fault, b.Ends id run fault := by
  have hrun : b.Run id run := (h run).mpr List.prefix_rfl
  rcases Nat.lt_or_ge maxLayerDepth run.length with hdeep | hroom
  · exact ⟨_, .deep (hrun.toTrail.of_isPrefix (List.take_prefix (maxLayerDepth + 1) run)) (by simpa using hdeep)⟩
  cases hafter : b.after id run with
  | none => exact ⟨_, .outermost hroom hafter⟩
  | some x =>
    by_cases hx : x ∈ run
    · exact ⟨_, .back hroom hafter hx⟩
    have htrail := hrun.concat hafter hx
    have hunknown : b.layers.contains x = false := by
      by_contra hknown
      have hmore : b.Run id (run ++ [x]) := ⟨htrail, fun y hy => by
        rcases List.mem_append.mp hy with hy | hy
        · exact hrun.known y hy
        · exact List.mem_singleton.mp hy ▸ Bool.eq_true_of_not_eq_false hknown⟩
      simpa using ((h _).mp hmore).length_le
    rcases Nat.lt_or_eq_of_le hroom with hlow | hfull
    · exact ⟨_, .unknown hlow hafter hunknown⟩
    · exact ⟨_, .deep htrail (by simp [hfull])⟩

/-- The part of a climb from an id on, when the run of the climb comes back to the id. -/
theorem cycleFrom_rungsOf (h : b.Run id run) (hx : x ∈ run) :
    cycleFrom x (b.rungsOf run).reverse = run.dropWhile (· ≠ x) := by
  obtain ⟨pre, post, rfl, hpre⟩ := List.eq_append_cons_of_mem hx
  have hbefore : ∀ y ∈ pre, decide (y ≠ x) = true := fun y hy => decide_eq_true (ne_of_mem_of_not_mem hy hpre)
  have hbehind : ∀ y ∈ post.reverse, decide (y ≠ x) = true := fun y hy =>
    decide_eq_true (ne_of_mem_of_not_mem (List.mem_reverse.mp hy) (List.nodup_cons.mp h.nodup.of_append_right).1)
  unfold cycleFrom
  have hpassed : (pre ++ x :: post).reverse = post.reverse ++ x :: pre.reverse := by simp
  rw [List.map_reverse, map_id_rungsOf h.known, hpassed, List.takeWhile_append_of_pos hbehind,
    List.takeWhile_cons_of_neg (by simp), List.dropWhile_append_of_pos hbefore, List.dropWhile_cons_of_neg (by simp)]
  simp

/-- What a climb with steps enough does behind a run. -/
theorem exists_climbFrom_run (h : b.Run id run) (hroom : run.length ≤ maxLayerDepth) {fuel : Nat}
    (hfuel : maxLayerDepth < fuel) : ∃ steps, climbFrom b.layers fuel [] (some id) =
      climbFrom b.layers (steps + 1) (b.rungsOf run).reverse (b.after id run) := by
  refine ⟨fuel - run.length - 1, ?_⟩
  rw [← climbFrom_run h hroom]
  congr 1
  omega

/-- A climb with steps enough passes the longest run, as far as there is room, and ends in the way in which it ends. -/
theorem climbFrom_of_ends (h : ∀ ids, b.Run id ids ↔ ids <+: run) {fault : Option ClimbFault} (hends : b.Ends id run fault)
    {fuel : Nat} (hfuel : maxLayerDepth < fuel) :
    climbFrom b.layers fuel [] (some id) = ((b.rungsOf (run.take maxLayerDepth)).reverse, fault) := by
  have hrun : b.Run id run := (h run).mpr List.prefix_rfl
  cases hends with
  | outermost hroom hafter =>
    obtain ⟨steps, hsteps⟩ := exists_climbFrom_run hrun hroom hfuel
    rw [hsteps, hafter, List.take_of_length_le hroom]
    rfl
  | @unknown x hroom hafter hx =>
    obtain ⟨steps, hsteps⟩ := exists_climbFrom_run hrun hroom.le hfuel
    have hnew : x ∉ run := fun hmem => Bool.eq_false_iff.mp hx (hrun.known x hmem)
    have hlow : ¬ maxLayerDepth ≤ (b.rungsOf run).reverse.length := by
      rwa [List.length_reverse, length_rungsOf hrun.known, Nat.not_le]
    rw [hsteps, hafter, climbFrom, if_neg (mt (any_rungsOf hrun.known).mp hnew), if_neg hlow,
      KeyMap.contains_eq_false_iff.mp hx, List.take_of_length_le hroom.le]
  | @back x hroom hafter hx =>
    obtain ⟨steps, hsteps⟩ := exists_climbFrom_run hrun hroom hfuel
    rw [hsteps, hafter, climbFrom, if_pos ((any_rungsOf hrun.known).mpr hx), cycleFrom_rungsOf hrun hx,
      List.take_of_length_le hroom]
  | @deep ids htrail hids =>
    obtain ⟨pre, x, rfl⟩ := (List.eq_nil_or_concat' ids).resolve_left (List.ne_nil_of_length_eq_add_one hids)
    have hfull : pre.length = maxLayerDepth := by simpa using hids
    have hpre : b.Run id pre := htrail.run_of_concat
    obtain ⟨steps, hsteps⟩ := exists_climbFrom_run hpre hfull.le hfuel
    have hnew : x ∉ pre := fun hmem => (List.nodup_append.mp htrail.nodup).2.2 x hmem x (List.mem_singleton_self x) rfl
    have hhigh : maxLayerDepth ≤ (b.rungsOf pre).reverse.length := by
      rw [List.length_reverse, length_rungsOf hpre.known, hfull]
    have htake : run.take maxLayerDepth = pre := by rw [← hfull, ← List.prefix_iff_eq_take.mp ((h pre).mp hpre)]
    rw [hsteps, htrail.after_eq, climbFrom, if_neg (mt (any_rungsOf hpre.known).mp hnew), if_pos hhigh, htake]

/-- A climb ends in just one way. -/
theorem climb_eq_iff (h : ∀ ids, b.Run id ids ↔ ids <+: run) {fault : Option ClimbFault} :
    (b.climb id).2 = fault ↔ b.Ends id run fault := by
  have hclimb {fault : Option ClimbFault} (hends : b.Ends id run fault) : (b.climb id).2 = fault := by
    rw [climb, climbFrom_of_ends h hends (by decide)]
  constructor
  · rintro rfl
    obtain ⟨fault, hends⟩ := exists_ends h
    rwa [hclimb hends]
  · exact hclimb

/-! ### What a climb yields -/

theorem layerPath_eq (b : Board) (id : String) : b.layerPath id = match (b.climb id).2 with
    | some fault => .error fault
    | none => .ok (b.layerPathSoFar id) := by
  unfold layerPath layerPathSoFar
  rcases b.climb id with ⟨rungs, _ | fault⟩ <;> rfl

theorem layerPath_eq_ok {names : List String} :
    b.layerPath id = .ok names ↔ names = b.layerPathSoFar id ∧ (b.climb id).2 = none := by
  rw [layerPath_eq]
  cases (b.climb id).2 with
  | none => simp [eq_comm]
  | some fault => simp

theorem layerPath_eq_error {fault : ClimbFault} : b.layerPath id = .error fault ↔ (b.climb id).2 = some fault := by
  rw [layerPath_eq]
  cases (b.climb id).2 <;> simp

/-- The names that a climb meets are those of the longest run, as far as there is room, the last first. -/
theorem layerPathSoFar_eq (h : ∀ ids, b.Run id ids ↔ ids <+: run) :
    b.layerPathSoFar id = (b.layerNames (run.take maxLayerDepth)).reverse := by
  obtain ⟨fault, hends⟩ := exists_ends h
  rw [layerPathSoFar, climb, climbFrom_of_ends h hends (by decide), List.map_reverse, map_name_rungsOf]

/-- What a climb from an id yields: `run` is the longest run of layers from it. -/
structure Breadcrumb (b : Board) (id : String) (run : List String) : Prop where
  longest : ∀ ids, b.Run id ids ↔ ids <+: run
  /-- The climb ends: more steps change nothing. -/
  ends : ∀ fuel > maxLayerDepth, climbFrom b.layers fuel [] (some id) = b.climb id
  names : b.layerPathSoFar id = (b.layerNames (run.take maxLayerDepth)).reverse
  length : (b.layerPathSoFar id).length = min maxLayerDepth run.length
  own : ∀ l, b.layers.get? id = some l → (b.layerPathSoFar id).getLast? = some l.name
  ok : ∀ names, b.layerPath id = .ok names ↔ names = b.layerPathSoFar id ∧
    (b.after id run = none ∧ run.length ≤ maxLayerDepth ∨
      ∃ x, b.after id run = some x ∧ b.layers.contains x = false ∧ run.length < maxLayerDepth)
  cycle : ∀ c, b.layerPath id = .error (.cycle c) ↔
    run.length ≤ maxLayerDepth ∧ ∃ x ∈ run, b.after id run = some x ∧ c = run.dropWhile (· ≠ x)
  tooDeep : b.layerPath id = .error .tooDeep ↔ ∃ ids, b.Trail id ids ∧ ids.length = maxLayerDepth + 1

theorem length_layerNames (h : ∀ x ∈ ids, b.layers.contains x = true) : (b.layerNames ids).length = ids.length := by
  rw [← map_name_rungsOf, List.length_map, length_rungsOf h]

/-- Every climb ends and goes by the longest run of layers; it fails on a cycle that the run comes back to, and on an id
    behind `maxLayerDepth` others, whether that names a layer or not. -/
theorem exists_breadcrumb (b : Board) (id : String) : ∃ run, b.Breadcrumb id run := by
  obtain ⟨run, h⟩ := exists_longest b id
  have hrun : b.Run id run := (h run).mpr List.prefix_rfl
  have hnames := layerPathSoFar_eq h
  refine ⟨run, h, ?_, hnames, ?_, ?_, ?_, ?_, ?_⟩
  · intro fuel hfuel
    obtain ⟨fault, hends⟩ := exists_ends h
    rw [climb, climbFrom_of_ends h hends hfuel, climbFrom_of_ends h hends (by decide)]
  · rw [hnames, List.length_reverse, length_layerNames fun x hx => hrun.known x (List.mem_of_mem_take hx), List.length_take]
  · intro l hl
    -- The run starts with the layer itself, so its name is the last one.
    have hone : b.Run id [id] := ⟨⟨by simp, List.isChain_singleton id, List.nodup_singleton id⟩,
      by simpa using KeyMap.contains_iff.mpr ⟨l, hl⟩⟩
    obtain ⟨rest, rfl⟩ := (h _).mp hone
    rw [hnames, List.getLast?_reverse, layerNames, List.singleton_append, maxLayerDepth, List.take_succ_cons,
      List.filterMap_cons_some (by rw [hl]; rfl), List.head?_cons]
  · intro names
    rw [layerPath_eq_ok, climb_eq_iff h]
    refine and_congr_right fun _ => ⟨?_, ?_⟩
    · rintro (⟨hroom, hafter⟩ | ⟨hroom, hafter, hx⟩)
      · exact Or.inl ⟨hafter, hroom⟩
      · exact Or.inr ⟨_, hafter, hx, hroom⟩
    · rintro (⟨hafter, hroom⟩ | ⟨x, hafter, hx, hroom⟩)
      · exact .outermost hroom hafter
      · exact .unknown hroom hafter hx
  · intro c
    rw [layerPath_eq_error, climb_eq_iff h]
    constructor
    · rintro (_ | _ | ⟨hroom, hafter, hx⟩)
      exact ⟨hroom, _, hx, hafter, rfl⟩
    · rintro ⟨hroom, x, hx, hafter, rfl⟩
      exact .back hroom hafter hx
  · rw [layerPath_eq_error, climb_eq_iff h]
    constructor
    · rintro (_ | _ | _ | ⟨htrail, hlength⟩)
      exact ⟨_, htrail, hlength⟩
    · rintro ⟨ids, htrail, hlength⟩
      exact .deep htrail hlength

/-! ### Parents that are no layers -/

/-- The board on which a parent that is no layer is none. -/
def rooted (b : Board) : Board :=
  { b with layers := b.layers.mapValues fun _ l => { l with parent := l.parent.filter (b.layers.contains ·) } }

theorem get?_rooted (b : Board) (id : String) : b.rooted.layers.get? id =
    (b.layers.get? id).map fun l => { l with parent := l.parent.filter (b.layers.contains ·) } :=
  KeyMap.get?_mapValues _ b.layers id

theorem contains_rooted (b : Board) (id : String) : b.rooted.layers.contains id = b.layers.contains id := by
  unfold KeyMap.contains
  rw [get?_rooted, Option.isSome_map]

theorem keys_rooted (b : Board) : b.rooted.layers.keys = b.layers.keys := KeyMap.keys_mapValues _ b.layers

theorem inside_rooted {y : String} : b.rooted.Inside x y ↔ b.Inside x y ∧ b.layers.contains y = true := by
  constructor
  · rintro ⟨l', hl', hparent⟩
    rw [get?_rooted, Option.map_eq_some_iff] at hl'
    obtain ⟨l, hl, rfl⟩ := hl'
    obtain ⟨hparent, hy⟩ := Option.filter_eq_some_iff.mp hparent
    exact ⟨⟨l, hl, hparent⟩, hy⟩
  · rintro ⟨⟨l, hl, hparent⟩, hy⟩
    refine ⟨_, by rw [get?_rooted, hl]; rfl, Option.filter_eq_some_iff.mpr ⟨hparent, hy⟩⟩

theorem innerLayers_rooted (b : Board) : b.rooted.innerLayers = b.innerLayers := by
  funext id
  unfold innerLayers
  rw [contains_rooted]
  cases hid : b.layers.contains id with
  | false => rfl
  | true =>
    have hvalues : b.rooted.layers.values =
        b.layers.values.map fun l => { l with parent := l.parent.filter (b.layers.contains ·) } := by
      simp [rooted, KeyMap.values, KeyMap.mapValues, Function.comp_def]
    have hparent (parent : Option String) : parent.filter (b.layers.contains ·) = some id ↔ parent = some id := by
      rw [Option.filter_eq_some_iff]
      exact and_iff_left hid
    rw [hvalues, List.filter_map, List.map_map]
    simp only [Function.comp_def, contains_rooted, hparent]

theorem reachFrom_congr {b' : Board} (h : b'.innerLayers = b.innerLayers) (fuel : Nat) (reached last : List String) :
    b'.reachFrom fuel reached last = b.reachFrom fuel reached last := by
  induction fuel generalizing reached last with
  | zero => rfl
  | succ fuel ih => simp only [reachFrom, h, ih]

theorem layerCycles_rooted (b : Board) : b.rooted.layerCycles = b.layerCycles := by
  have hsize : b.rooted.layers.size = b.layers.size := List.length_map _
  unfold layerCycles nesting layersWithin
  simp only [keys_rooted, hsize, reachFrom_congr (innerLayers_rooted b)]

theorem trail_rooted (h : ∀ x ∈ ids, b.layers.contains x = true) : b.rooted.Trail id ids ↔ b.Trail id ids := by
  have hchain : ids.IsChain b.rooted.Inside ↔ ids.IsChain b.Inside :=
    List.IsChain.iff_of_mem_imp fun x y _ hy => inside_rooted.trans (and_iff_left (h y hy))
  exact ⟨fun ⟨head, chain, nodup⟩ => ⟨head, hchain.mp chain, nodup⟩,
    fun ⟨head, chain, nodup⟩ => ⟨head, hchain.mpr chain, nodup⟩⟩

theorem run_rooted : b.rooted.Run id run ↔ b.Run id run := by
  constructor
  · rintro ⟨htrail, hknown⟩
    simp only [contains_rooted] at hknown
    exact ⟨(trail_rooted hknown).mp htrail, hknown⟩
  · rintro ⟨htrail, hknown⟩
    exact ⟨(trail_rooted hknown).mpr htrail, by simpa only [contains_rooted] using hknown⟩

/-- Behind a layer of a run there is the same as before, unless it is no layer. -/
theorem after_rooted (hne : run ≠ []) :
    b.rooted.after id run = (b.after id run).filter (b.layers.contains ·) := by
  obtain ⟨pre, x, rfl⟩ := (List.eq_nil_or_concat' run).resolve_left hne
  rw [after_concat, after_concat, get?_rooted]
  cases b.layers.get? x <;> rfl

/-- There is something behind as many layers as a climb passes, and it is no layer. -/
def Overhangs (b : Board) (id : String) : Prop :=
  ∃ ids x, b.Trail id (ids ++ [x]) ∧ ids.length = maxLayerDepth ∧ b.layers.contains x = false

/-- A climb ends in the same way if it does not end behind the last layer that it may pass. -/
theorem Ends.rooted {fault : Option ClimbFault} (h : b.Ends id run fault) (hrun : b.Run id run) (hnot : ¬ b.Overhangs id) :
    b.rooted.Ends id run fault := by
  have hhere (hne : run ≠ []) {x : String} (hafter : b.after id run = some x) (hx : b.layers.contains x = true) :
      b.rooted.after id run = some x := by
    rw [after_rooted hne, hafter, Option.filter_some, if_pos hx]
  cases h with
  | outermost hroom hafter =>
    refine .outermost hroom ?_
    cases run with
    | nil => cases hafter
    | cons => rw [after_rooted (List.cons_ne_nil _ _), hafter]; rfl
  | @unknown x hroom hafter hx =>
    by_cases hne : run = []
    · subst hne
      exact .unknown hroom hafter (by rw [contains_rooted, hx])
    · refine .outermost hroom.le ?_
      rw [after_rooted hne, hafter, Option.filter_some, if_neg (by simp [hx])]
  | @back x hroom hafter hx => exact .back hroom (hhere (List.ne_nil_of_mem hx) hafter (hrun.known x hx)) hx
  | @deep ids htrail hids =>
    refine .deep ((trail_rooted fun y hy => ?_).mpr htrail) hids
    obtain ⟨pre, x, rfl⟩ := (List.eq_nil_or_concat' ids).resolve_left (List.ne_nil_of_length_eq_add_one hids)
    rcases List.mem_append.mp hy with hy | hy
    · exact htrail.run_of_concat.known y hy
    · obtain rfl := List.mem_singleton.mp hy
      by_contra hunknown
      exact hnot ⟨pre, y, htrail, by simpa using hids, Bool.eq_false_of_not_eq_true hunknown⟩

/-- Where the longest run has an end that is no layer and no room behind it, it is an end of the chain of parents. -/
theorem Overhangs.ends (hover : b.Overhangs id) (h : ∀ ids, b.Run id ids ↔ ids <+: run) :
    b.Ends id run (some .tooDeep) ∧ b.rooted.Ends id run none := by
  obtain ⟨pre, x, htrail, hlength, hx⟩ := hover
  have hpre : b.Run id pre := htrail.run_of_concat
  have hrun : run = pre := by
    obtain ⟨rest, rfl⟩ := (h pre).mp hpre
    cases rest with
    | nil => exact List.append_nil pre
    | cons y rest =>
      have hy : b.Run id (pre ++ [y]) := (h _).mpr ⟨rest, by simp⟩
      have hknown := hy.known x (by simp [htrail.eq_of_concat hy.toTrail])
      exact absurd hknown (by simp [hx])
  subst hrun
  refine ⟨.deep htrail (by simp [hlength]), .outermost hlength.le ?_⟩
  rw [after_rooted (List.ne_nil_of_length_eq_add_one hlength), htrail.after_eq, Option.filter_some, if_neg (by simp [hx])]

/-- A parent that is no layer counts as none in all that is told of the nesting, but for the error of a climb: where just
    as many layers as a climb may pass end at such a parent, the climb fails, and would yield the names of all of them
    without the parent. -/
theorem rooted_spec (b : Board) (id : String) :
    b.rooted.innerLayers id = b.innerLayers id ∧ b.rooted.layerCycles = b.layerCycles ∧
      b.rooted.layerPathSoFar id = b.layerPathSoFar id ∧
      (b.rooted.layerPath id = b.layerPath id ↔ ¬ b.Overhangs id) ∧
      (b.Overhangs id ↔
        b.layerPath id = .error .tooDeep ∧ b.rooted.layerPath id = .ok (b.layerPathSoFar id)) := by
  obtain ⟨run, h⟩ := exists_longest b id
  have hrun : b.Run id run := (h run).mpr List.prefix_rfl
  have h' (ids : List String) : b.rooted.Run id ids ↔ ids <+: run := run_rooted.trans (h ids)
  have hnames : b.rooted.layerPathSoFar id = b.layerPathSoFar id := by
    have hsame (ids : List String) : b.rooted.layerNames ids = b.layerNames ids := by
      unfold layerNames
      simp only [get?_rooted, Option.map_map, Function.comp_def]
    rw [layerPathSoFar_eq h', layerPathSoFar_eq h, hsame]
  have hover (hover : b.Overhangs id) :
      b.layerPath id = .error .tooDeep ∧ b.rooted.layerPath id = .ok (b.layerPathSoFar id) := by
    obtain ⟨hends, hends'⟩ := hover.ends h
    exact ⟨layerPath_eq_error.mpr ((climb_eq_iff h).mpr hends),
      layerPath_eq_ok.mpr ⟨hnames.symm, (climb_eq_iff h').mpr hends'⟩⟩
  have hsame (hnot : ¬ b.Overhangs id) : b.rooted.layerPath id = b.layerPath id := by
    obtain ⟨fault, hends⟩ := exists_ends h
    rw [layerPath_eq, layerPath_eq, (climb_eq_iff h).mpr hends, (climb_eq_iff h').mpr (hends.rooted hrun hnot), hnames]
  refine ⟨congrFun (innerLayers_rooted b) id, layerCycles_rooted b, hnames, ⟨fun heq hover' => ?_, hsame⟩, hover, ?_⟩
  · obtain ⟨hdeep, hok⟩ := hover hover'
    rw [hdeep, hok] at heq
    cases heq
  · rintro ⟨hdeep, hok⟩
    by_contra hnot
    rw [hsame hnot, hdeep] at hok
    cases hok

def level (i : Nat) : String := String.singleton (Char.ofNat (87 - i))

/-- As many layers as a climb may pass, each inside the next one; the last is inside one that there is not. -/
def tower : Board :=
  { blank "b" "board" with
    layers := .ofList ((List.range maxLayerDepth).map fun i =>
      (level i, ⟨level i, level i, none, some (level (i + 1)), ∅, ∅, ⟨0, 0, 0⟩, none⟩)) }

/-- The names up the tower are all met, and yet its path fails. -/
theorem overhangs_tower : tower.Overhangs (level 0) ∧ tower.layerPath (level 0) = .error .tooDeep ∧
    tower.layerPathSoFar (level 0) = ((List.range maxLayerDepth).map level).reverse := by
  have hpath : tower.layerPath (level 0) = .error .tooDeep := by decide +kernel
  have hrooted : tower.rooted.layerPath (level 0) = .ok (tower.layerPathSoFar (level 0)) := by decide +kernel
  exact ⟨(rooted_spec tower (level 0)).2.2.2.2.mpr ⟨hpath, hrooted⟩, hpath, by decide +kernel⟩

end Board

end Workboard
