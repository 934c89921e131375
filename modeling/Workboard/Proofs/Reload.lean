import Workboard.Board.Fingerprint
import Workboard.Proofs.BoardText
import Workboard.Proofs.Comparison
import Workboard.Proofs.Obtained
import Workboard.Proofs.Saving

/-! Loading a board that was saved.

A board is read from its document as it is if all numbers on it are finite, and keeps its fingerprint
(`Cli.loadBoard_saveBoard`). A board that was saved after a batch is the board behind the batch exactly if all numbers on
that are finite (`Cli.loadBoard_runApply`). Positions, sizes and cells of the grid are narrowed and may become infinite on
the way, and so may the sum that the middle of nodes is computed from, though the middle itself is in range
(`Cli.loadBoard_runApply_far`). -/

namespace Workboard

/-! ### Finite numbers -/

theorem Place.isFinite_iff {p : Place} : p.isFinite = true ↔ p.Within (·.isFinite = true) := by
  simp only [isFinite, Within, Bool.and_eq_true, and_assoc]

theorem Comment.written_eq_iff {c : Comment} : c.written = c ↔ ∀ x ∈ c.sizes, x.isFinite = true := by
  have hsize (o : Option Float32) : o.filter Float32.isFinite = o ↔ ∀ x ∈ o.toList, x.isFinite = true := by
    cases o with
    | none => simp
    | some x => cases hx : x.isFinite <;> simp [Option.filter, hx]
  rw [sizes, List.forall_mem_append, ← hsize, ← hsize]
  constructor
  · intro h
    exact ⟨congrArg Comment.width h, congrArg Comment.height h⟩
  · rintro ⟨hwidth, hheight⟩
    unfold written
    rw [hwidth, hheight]

namespace Board

variable {b : Board}

theorem written_eq_iff : b.written = b ↔ ∀ k c, b.comments.get? k = some c → ∀ x ∈ c.sizes, x.isFinite = true := by
  have hget (k : String) : b.written.comments.get? k = (b.comments.get? k).map Comment.written :=
    KeyMap.get?_mapValues _ _ _
  simp only [← Comment.written_eq_iff]
  constructor
  · intro h k c hc
    have hk := hget k
    rw [h, hc] at hk
    exact (Option.some.inj hk).symm
  · intro h
    have hcomments : b.written.comments = b.comments := KeyMap.ext fun k => by
      rw [hget]
      cases hc : b.comments.get? k with
      | none => rfl
      | some c => exact congrArg some (h k c hc)
    calc b.written = { b with comments := b.written.comments } := rfl
      _ = b := by rw [hcomments]

/-- The document of a board is read as that board exactly if all of its numbers are finite. -/
theorem ofText_document_eq_ok : ofText b.document = .ok b ↔ ∀ x ∈ b.numbers, x.isFinite = true := by
  have hplaces : (∀ p ∈ b.places, p.isFinite = true) ↔
      ∀ x ∈ b.places.flatMap Place.numbers, x.isFinite = true := by
    simp only [Place.isFinite_iff, Place.within_iff, List.mem_flatMap]
    exact ⟨fun h x ⟨p, hp, hx⟩ => h p hp x hx, fun h p hp x hx => h x ⟨p, hp, hx⟩⟩
  have hsizes : (∀ k c, b.comments.get? k = some c → ∀ x ∈ c.sizes, x.isFinite = true) ↔
      ∀ x ∈ b.comments.values.flatMap Comment.sizes, x.isFinite = true := by
    simp only [List.mem_flatMap, KeyMap.mem_values]
    exact ⟨fun h x ⟨c, ⟨k, hc⟩, hx⟩ => h k c hc x hx, fun h k c hc x hx => h x ⟨c, ⟨k, hc⟩, hx⟩⟩
  have htext := b.ofText_document
  rw [numbers, List.forall_mem_append, ← hplaces, ← hsizes, ← written_eq_iff]
  split at htext
  · rename_i hfinite
    rw [htext, Except.ok.injEq]
    exact ⟨fun h => ⟨hfinite, h⟩, fun h => h.2⟩
  · rename_i hinfinite
    obtain ⟨f, hf⟩ := htext
    rw [hf]
    exact ⟨fun h => (by cases h), fun h => absurd h.1 hinfinite⟩

end Board

/-! ### Loading again -/

namespace Cli

/-- A board of finite numbers is read from its document as it is, and has the same fingerprint. Where the document was
    saved it is loaded. -/
theorem loadBoard_saveBoard {b : Board} (hfinite : ∀ x ∈ b.numbers, x.isFinite = true) :
    ∃ b', Board.ofText b.document = .ok b' ∧ b' = b ∧ (b' == b) = true ∧ b'.fingerprint = b.fingerprint ∧
      ∀ {path : String} {d d' : Disk}, (saveBoard path b).on d = (.ok (), d') → (loadBoard path).on d' = (.ok b', d') := by
  have hread : Board.ofText b.document = .ok b := Board.ofText_document_eq_ok.mpr hfinite
  have hself : (b == b) = true := Board.beq_self_iff.mpr fun x hx => float32_isNaN_of_isFinite (hfinite x hx)
  refine ⟨b, hread, rfl, hself, rfl, fun hsave => ?_⟩
  rw [loadBoard_on (read_of_saveBoard hsave), hread]
  rfl

/-- A board with something of every kind: escaped and other characters, empty and other byte strings, both zeros, the
    smallest and the largest number, limits of whole numbers, and what may be left out left out and given. -/
def motleyBoard : Board :=
  let pin : Pin := ⟨"p", "a\x00\n\"\\/", "\x7f", "", .output, .struct, .set, some [0, 34, 255], .ofList ["q", "\u2028"], ∅⟩
  let other : Pin := ⟨"", "é😀", "", "d", .input, .execution, .single, some [], ∅, .ofList [""]⟩
  let node : Node := ⟨"n", "log", "Log", "c", "", some "", .ofList [("p", pin), ("", other)],
    ⟨.ofBits 0x80000000, .ofBits 1, .ofBits 0x7f7fffff⟩, some "l"⟩
  { id := "b"
    name := ""
    description := "\t"
    nodes := .ofList [("n", node), ("k", { node with pins := ∅, layer := none })]
    vars := .ofList [("v", ⟨"w", "x", .date, .map, none, some [10], true, false, false⟩)]
    comments := .ofList [("c", ⟨"c", "", none, .origin, some (.ofBits 0x3dcccccd), none, some (-0x80000000), some "me",
      0xFFFFFFFFFFFFFFFF, none⟩)]
    layers := .ofList [("l", ⟨"l", "L", none, some "l", .ofList [("n", node)], .ofList [("p", pin)], .origin, some "#fff"⟩)]
    version := ⟨0, 0xFFFFFFFF, 7⟩ }

/-- It is saved in a folder that has to be made, and loaded from there. -/
theorem loadBoard_saveBoard_motley :
    (∀ x ∈ motleyBoard.numbers, x.isFinite = true) ∧
      ∃ b' d', Board.ofText motleyBoard.document = .ok b' ∧ (b' == motleyBoard) = true ∧
        b'.fingerprint = motleyBoard.fingerprint ∧ (saveBoard "new/out.json" motleyBoard).on ⟨∅, ∅⟩ = (.ok (), d') ∧
        (loadBoard "new/out.json").on d' = (.ok b', d') := by
  have hfinite : ∀ x ∈ motleyBoard.numbers, x.isFinite = true := by decide +kernel
  obtain ⟨d', hsave⟩ : ∃ d', (saveBoard "new/out.json" motleyBoard).on ⟨∅, ∅⟩ = (.ok (), d') := by
    have hok : ((saveBoard "new/out.json" motleyBoard).on ⟨∅, ∅⟩).1.isOk = true := by decide +kernel
    generalize (saveBoard "new/out.json" motleyBoard).on ⟨∅, ∅⟩ = result at hok ⊢
    obtain ⟨r, d⟩ := result
    cases r with
    | ok u => exact ⟨d, rfl⟩
    | error f => cases hok
  obtain ⟨b', hread, -, hself, hprint, hload⟩ := loadBoard_saveBoard hfinite
  exact ⟨hfinite, b', d', hread, hself, hprint, hsave, hload hsave⟩

/-- After a batch was applied and its board saved, the board that is loaded is the one behind the run exactly if
    all numbers on that are finite. It is refused if a coordinate is not, and without the sizes that are not
    otherwise. The numbers come from the board before, the commands and the grid. -/
theorem loadBoard_runApply {s : Surroundings} {r : ApplyRequest} {orders : MapOrders} {path : String} {a : Answer}
    {d d' : Disk} (hout : r.out = some path) (happly : (runApply s r orders).on d = (.ok a, d')) :
    ∃ b catalog commands, (loadBoard r.board).on d = (.ok b, d) ∧ (loadCatalog r.catalog).on d = (.ok catalog, d) ∧
      (loadCommands r.commands).on d = (.ok commands, d) ∧
      let t : Occasion := ⟨⟨catalog, .standard, if r.settle then s.pauses else .zero, s.now⟩, orders.pins⟩
      let final := ((Batch.apply t b commands).run Memory.facility (.ofBoard b)).2.board
      ((loadBoard path).on d' = (.ok final, d') ↔ ∀ x ∈ final.numbers, x.isFinite = true) ∧
      (if ∀ p ∈ final.places, p.isFinite = true then (loadBoard path).on d' = (.ok final.written, d')
        else ∃ f, (loadBoard path).on d' = (.error f, d')) ∧
      ∀ x ∈ final.numbers, Obtained t b commands x := by
  obtain ⟨b, catalog, commands, hb, hc, hx, hread⟩ := read_of_runApply hout happly
  refine ⟨b, catalog, commands, hb, hc, hx, ?_⟩
  intro t final
  have hload := loadBoard_on hread
  refine ⟨?_, ?_, Batch.obtained_apply t b commands⟩
  · rw [hload, ← Board.ofText_document_eq_ok]
    cases Board.ofText final.document with
    | ok b' => simp [Except.mapError]
    | error f => simp [Except.mapError]
  · have htext := final.ofText_document
    split
    · rename_i hfinite
      rw [if_pos hfinite] at htext
      rw [hload, htext]
      rfl
    · rename_i hinfinite
      rw [if_neg hinfinite] at htext
      obtain ⟨f, hf⟩ := htext
      rw [hload, hf]
      exact ⟨_, rfl⟩

/-- Two nodes whose coordinates have a middle that can be written, but no sum. -/
def farNodes : String :=
  "\x7b\"id\":\"b\",\"name\":\"b\",\"nodes\":\x7b"
    ++ "\"m\":\x7b\"id\":\"m\",\"name\":\"log\",\"friendly_name\":\"Log\",\"coordinates\":[3e38,0,0]\x7d,"
    ++ "\"n\":\x7b\"id\":\"n\",\"name\":\"log\",\"friendly_name\":\"Log\",\"coordinates\":[3e38,0,0]\x7d\x7d\x7d"

/-- A layer around both, at no position. -/
def groupThem : String := "[\x7b\"command_type\":\"CreateLayer\",\"name\":\"g\",\"node_ids\":[\"m\",\"n\"]\x7d]"

def farDisk : Disk := ⟨.ofList [("board", farNodes), ("catalog", "[]"), ("commands", groupThem)], ∅⟩

def groupRequest : ApplyRequest := ⟨"board", "catalog", "commands", some "out", false, false⟩

/-- The layer is put at an infinite coordinate, and the board that was saved is refused. -/
theorem loadBoard_runApply_far :
    ∃ a d, (runApply ⟨0, .zero⟩ groupRequest).on farDisk = (.ok a, d) ∧ ∃ f, (loadBoard "out").on d = (.error f, d) := by
  obtain ⟨a, d, happly⟩ : ∃ a d, (runApply ⟨0, .zero⟩ groupRequest).on farDisk = (.ok a, d) := by
    have hok : ((runApply ⟨0, .zero⟩ groupRequest).on farDisk).1.isOk = true := by decide +kernel
    generalize (runApply ⟨0, .zero⟩ groupRequest).on farDisk = result at hok ⊢
    obtain ⟨r, d⟩ := result
    cases r with
    | ok a => exact ⟨a, d, rfl⟩
    | error f => cases hok
  obtain ⟨b, catalog, commands, hb, hc, hx, -, hload, -⟩ := loadBoard_runApply rfl happly
  refine ⟨a, d, happly, ?_⟩
  have hfar : (do
      let b ← ((loadBoard "board").on farDisk).1
      let catalog ← ((loadCatalog "catalog").on farDisk).1
      let commands ← ((loadCommands "commands").on farDisk).1
      let t : Occasion := ⟨⟨catalog, .standard, .zero, 0⟩, fun _ => []⟩
      let final := ((Batch.apply t b commands).run Memory.facility (.ofBoard b)).2.board
      if final.places.all Place.isFinite then throw ⟨.other, []⟩ else pure () : Except Failure Unit).toBool = true := by
    decide +kernel
  have hb' : (loadBoard "board").on farDisk = (.ok b, farDisk) := hb
  have hc' : (loadCatalog "catalog").on farDisk = (.ok catalog, farDisk) := hc
  have hx' : (loadCommands "commands").on farDisk = (.ok commands, farDisk) := hx
  rw [hb', hc', hx'] at hfar
  rw [if_neg] at hload
  · exact hload
  · intro hall
    rw [← List.all_eq_true] at hall
    have hall' : ((Batch.apply ⟨⟨catalog, .standard, .zero, 0⟩, fun _ => []⟩ b commands).run
        Memory.facility (.ofBoard b)).2.board.places.all Place.isFinite = true := hall
    simp only [bind, Except.bind, hall'] at hfar
    cases hfar

end Cli

end Workboard
