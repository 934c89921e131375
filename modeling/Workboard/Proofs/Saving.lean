import Workboard.Cli.Disk
import Workboard.Cli.Run
import Workboard.Proofs.Proper

/-! What is on a disk after a board was saved.

A text that was written is read again at the same path: writing changes one file, and what a path leads to does
not depend on what is in files (`Disk.read_of_write`). So loading a saved board reads its document
(`read_of_saveBoard`, `loadBoard_on`). -/

namespace Workboard.Cli

/-! ### Disks -/

namespace Disk

variable {d d' : Disk} {names : List String} {text : String}

/-- The disk with a text in a file. -/
def put (d : Disk) (names : List String) (text : String) : Disk := { d with files := d.files.insert (key names) text }

theorem entry_put_self (hne : names ≠ []) : (d.put names text).entry names = .file text := by
  have hempty : names.isEmpty = false := by simpa using hne
  unfold entry put
  rw [hempty]
  simp only [Bool.false_eq_true, if_false, KeyMap.get?_insert, if_true]

theorem entry_congr {there : List String} (hkey : key names ≠ key there) :
    (d.put names text).entry there = d.entry there := by
  unfold entry put
  dsimp only
  rw [KeyMap.get?_insert, if_neg hkey]

theorem entry_of_key {there : List String} (hne : there ≠ []) (hkey : key names = key there)
    (h : d.entry there = .folder) : d.entry names = .folder := by
  have hempty : there.isEmpty = false := by simpa using hne
  unfold entry at h ⊢
  rw [hempty, if_neg Bool.false_ne_true] at h
  split
  · rfl
  · rw [hkey]
    exact h

/-- The folders are the same as before. -/
theorem entry_put_eq_folder (hnames : d.entry names ≠ .folder) {there : List String} :
    (d.put names text).entry there = .folder ↔ d.entry there = .folder := by
  by_cases hne : there = []
  · subst hne
    exact Iff.rfl
  · by_cases hkey : key names = key there
    · have hfile : (d.put names text).entry there = .file text := by
        have hself : (d.put there text).entry there = .file text := entry_put_self hne
        rw [← hself]
        unfold put
        rw [hkey]
      rw [hfile]
      exact ⟨fun h => (by cases h), fun h => absurd (entry_of_key hne hkey h) hnames⟩
    · rw [entry_congr hkey]

/-- A path leads where it led before. -/
theorem follow_put (hnames : d.entry names ≠ .folder) {path here : List String} {l : Location}
    (h : d.follow here path = .ok l) : (d.put names text).follow here path = .ok l := by
  fun_induction d.follow here path with
  | case1 here => exact h
  | case2 here r ih | case3 here r ih => exact ih h
  | case4 here r hhere => cases h
  | case5 here r hhere ih => rw [follow, if_neg hhere, ih h]
  | case6 => cases h
  | case7 here name r h1 h2 h3 there hlong hlast =>
    rw [follow, if_neg hlong, if_pos hlast, h] <;> assumption
  | case8 here name r h1 h2 h3 there hlong hlast hfolder ih =>
    rw [follow, if_neg hlong, if_neg hlast, (entry_put_eq_folder hnames).mpr hfolder]
    · exact ih h
    all_goals assumption
  | case9 here name r h1 h2 h3 there hlong hlast found hentry hall
  | case11 here name r h1 h2 h3 there hlong hlast hentry hall =>
    have hfolder : (d.put names text).entry there ≠ .folder := by
      rw [Ne, entry_put_eq_folder hnames, hentry]
      exact fun h => by cases h
    rw [follow, if_neg hlong, if_neg hlast]
    · split
      · rename_i he
        exact absurd he hfolder
      · rw [if_pos hall, h]
      · rw [if_pos hall, h]
    all_goals assumption
  | case10 => cases h
  | case12 => cases h

/-- A text that was written is read again. -/
theorem read_of_write {path : String} (h : d.write path text = .ok d') : d'.read path = .ok text := by
  obtain ⟨l, hl, h⟩ := bind_eq_ok h
  have hplace : d.entry l.names ≠ .folder ∧ l.folderOnly = false ∧ d' = d.put l.names text := by
    split at h
    · cases h
    · rename_i hentry
      split at h
      · cases h
      · rename_i honly
        exact ⟨hentry, by simpa using honly, (Except.ok.inj h).symm⟩
  obtain ⟨hentry, honly, rfl⟩ := hplace
  have hne : l.names ≠ [] := by
    intro he
    rw [he] at hentry
    exact hentry rfl
  have hagain : (d.put l.names text).locate path = .ok l := by
    unfold locate at hl ⊢
    split at hl
    · cases hl
    · rename_i hlong
      rw [if_neg hlong]
      split at hl
      · cases hl
      · exact follow_put hentry hl
  unfold read
  rw [hagain]
  simp only [Bind.bind, Except.bind, entry_put_self hne, honly, Bool.false_eq_true, if_false]

end Disk

/-! ### Runs -/

variable {α β : Type}

theorem Console.run_bind (x : Console α) (f : α → Console β) (d : Disk) :
    (x >>= f).run d = (f (x.run d).1).run (x.run d).2 := by
  show (x.bind f).run d = _
  induction x generalizing d with
  | done a => rfl
  | read path next ih => exact ih _ d
  | write path text next ih =>
    simp only [Console.bind, Console.run]
    cases d.write path text with
    | ok d' => exact ih _ d'
    | error e => exact ih _ d
  | makeFolder path next ih =>
    simp only [Console.bind, Console.run]
    cases d.makeFolder path with
    | ok d' => exact ih _ d'
    | error e => exact ih _ d
  | isFolder path next ih => exact ih _ d

namespace Task

/-- The result of a task on a disk, and the disk behind it. -/
def on (x : Task α) (d : Disk) : Except Failure α × Disk := x.run.run d

variable {d d' : Disk}

theorem on_bind (x : Task α) (f : α → Task β) (d : Disk) :
    (x >>= f).on d =
      match x.on d with
      | (.ok a, d') => (f a).on d'
      | (.error e, d') => (.error e, d') := by
  show (x.run >>= ExceptT.bindCont f).run d = _
  rw [Console.run_bind]
  unfold on
  rcases x.run.run d with ⟨e | a, d'⟩
  · rfl
  · rfl

/-- A task that succeeds has done so part by part. -/
theorem on_bind_ok {x : Task α} {f : α → Task β} {b : β} (h : (x >>= f).on d = (.ok b, d')) :
    ∃ a d'', x.on d = (.ok a, d'') ∧ (f a).on d'' = (.ok b, d') := by
  rw [on_bind] at h
  rcases hx : x.on d with ⟨e | a, d''⟩
  · rw [hx] at h
    cases h
  · rw [hx] at h
    exact ⟨a, d'', rfl, h⟩

theorem on_read (what path : String) (d : Disk) :
    (Task.read what path).on d = (Task.file s!"Failed to read {what} file {path}" (d.read path), d) := rfl

theorem on_expect {ε : Type} (r : Except ε α) (failure : ε → Failure) (d : Disk) :
    (Task.expect r failure).on d = (r.mapError failure, d) := by
  cases r <;> rfl

end Task

/-! ### Boards on disks -/

variable {d d' : Disk} {path text : String}

/-- A file is loaded as what its text is read as. -/
theorem on_load_of_read {ε : Type} {what : String} {g : String → Except ε α} {failure : ε → Failure}
    (h : d.read path = .ok text) :
    (Task.read what path >>= fun text => Task.expect (g text) failure).on d = ((g text).mapError failure, d) := by
  rw [Task.on_bind, Task.on_read, h]
  exact Task.on_expect _ _ d

theorem loadBoard_on (h : d.read path = .ok text) :
    (loadBoard path).on d =
      ((Board.ofText text).mapError fun f => ⟨.badInput, [s!"Board file {path} is not a valid board", f.name]⟩, d) :=
  on_load_of_read h

/-- A board that was saved is on the disk. -/
theorem read_of_saveBoard {b : Board} (h : (saveBoard path b).on d = (.ok (), d')) : d'.read path = .ok b.document := by
  have hwrite : ∀ {d : Disk}, Task.on (.mk (.write path b.document fun r =>
      .done (Task.file s!"Failed to write board to {path}" r))) d = (.ok (), d') → d'.read path = .ok b.document := by
    intro d h
    simp only [Task.on, ExceptT.run_mk, Console.run] at h
    cases hd : d.write path b.document with
    | ok d'' =>
      rw [hd] at h
      obtain ⟨-, rfl⟩ := Prod.mk.inj h
      exact Disk.read_of_write hd
    | error e =>
      rw [hd] at h
      cases h
  unfold saveBoard at h
  split at h
  · obtain ⟨u, d'', -, h⟩ := Task.on_bind_ok h
    exact hwrite h
  · exact hwrite h

/-- Loading leaves the disk as it is. -/
theorem on_load {ε : Type} (what : String) (g : String → Except ε α) (failure : ε → Failure) (d : Disk) :
    ((Task.read what path >>= fun text => Task.expect (g text) failure).on d).2 = d := by
  rw [Task.on_bind, Task.on_read]
  cases d.read path with
  | error e => rfl
  | ok text => exact congrArg Prod.snd (Task.on_expect _ _ d)

/-- What applying a batch leaves on the disk: the document of the board behind the run. -/
theorem read_of_runApply {s : Surroundings} {r : ApplyRequest} {orders : MapOrders} {a : Answer} (hout : r.out = some path)
    (h : (runApply s r orders).on d = (.ok a, d')) :
    ∃ b catalog commands,
      (loadBoard r.board).on d = (.ok b, d) ∧ (loadCatalog r.catalog).on d = (.ok catalog, d) ∧
      (loadCommands r.commands).on d = (.ok commands, d) ∧
      let t : Occasion := ⟨⟨catalog, .standard, if r.settle then s.pauses else .zero, s.now⟩, orders.pins⟩
      d'.read path = .ok ((Batch.apply t b commands).run Memory.facility (.ofBoard b)).2.board.document := by
  unfold runApply at h
  obtain ⟨b, d₁, hb, h₁⟩ := Task.on_bind_ok h
  have hd₁ : d₁ = d := (congrArg Prod.snd hb).symm.trans (on_load _ _ _ d)
  obtain ⟨catalog, d₂, hc, h₂⟩ := Task.on_bind_ok h₁
  have hd₂ : d₂ = d₁ := (congrArg Prod.snd hc).symm.trans (on_load _ _ _ d₁)
  obtain ⟨commands, d₃, hx, h₃⟩ := Task.on_bind_ok h₂
  have hd₃ : d₃ = d₂ := (congrArg Prod.snd hx).symm.trans (on_load _ _ _ d₂)
  rw [hd₃, hd₂, hd₁] at hx
  rw [hd₂, hd₁] at hc
  rw [hd₁] at hb
  refine ⟨b, catalog, commands, hb, hc, hx, ?_⟩
  dsimp only at h₃
  rw [hout] at h₃
  obtain ⟨u, d₄, hsave, hend⟩ := Task.on_bind_ok h₃
  have hd₄ : d' = d₄ := by
    split at hend
    · exact (Prod.mk.inj hend).2.symm
    · exact (Prod.mk.inj hend).2.symm
  rw [hd₄]
  exact read_of_saveBoard hsave

end Workboard.Cli
