import Workboard.Proofs.CommandText
import Workboard.Proofs.Repeats
import Workboard.Proofs.Segments

/-! The commands of a batch, read from their text.

A batch is written as the array of its commands, by itself or as the field `commands` of an object. Either text is read as
the commands, since it shows the JSON form of each (`Batch.readJson_listed`, `Batch.readJson_wrapped`). If no string or key
of the batch has a mark of a block, the text is not cut, and in a block of another text it is the block; so a batch is read
as its commands without repeats (`Batch.ofText_batchText`). A coordinate that is not finite would be written as `null`, and
an explicit default of `null` would count as absent, so neither is read back. -/

namespace Workboard

namespace Text

/-- A text between two characters that are not blank has nothing to trim. -/
theorem trim_of_ends {s : String} {a z : Char} {l : List Char} (hs : s.toList = a :: (l ++ [z])) (ha : isBlank a = false)
    (hz : isBlank z = false) : trim s = s := by
  have hchars : trimChars s.toList = s.toList := by
    rw [hs, trimChars, List.dropWhile_cons_of_neg (by simp [ha]), trimEndChars, List.reverse_cons, List.reverse_append,
      List.reverse_singleton, List.singleton_append, List.cons_append, List.dropWhile_cons_of_neg (by simp [hz])]
    simp
  rw [trim, hchars, String.ofList_toList]

end Text

namespace Command

/-- The array of the commands of a batch. -/
def listed (l : List Command) : Json := .array (l.map printed)

/-- An object with the commands of a batch. -/
def wrapped (l : List Command) : Json := .object [("commands", listed l)]

variable {l : List Command}

theorem batchText_eq (l : List Command) : batchText l = (listed l).compress := rfl

theorem compress_wrapped (l : List Command) : (wrapped l).compress = "\x7b\"commands\":" ++ batchText l ++ "\x7d" := by
  have hchars : (wrapped l).chars = "\x7b\"commands\":".toList ++ (listed l).chars ++ "\x7d".toList := by
    simp [wrapped, Json.chars, Json.memberChars, Json.quote, Json.escape]
  rw [batchText_eq, Json.compress, Json.compress, hchars, String.ofList_append, String.ofList_append, String.ofList_toList,
    String.ofList_toList]

theorem sorted_listed (hplain : ∀ c ∈ l, c.action.Plain) : (listed l).sorted = .array (l.map toJson) :=
  Json.sorted_array fun c hc => sorted_printed fun j hj => ((hplain c hc).values j hj).sorted

theorem readsBack_listed (hplain : ∀ c ∈ l, c.action.Plain)
    (hreal : ∀ x, .real x ∈ (listed l).numbers → (JsonNumber.real x).ReadsBack) : ∀ n ∈ (listed l).numbers, n.ReadsBack := by
  intro n hn
  obtain ⟨j, hj, hnj⟩ := Json.mem_itemNumbers.mp hn
  obtain ⟨c, hc, rfl⟩ := List.mem_map.mp hj
  exact readsBack_printed (hplain c hc) (fun x hx => hreal x (Json.mem_itemNumbers.mpr ⟨_, hj, hx⟩)) n hnj

/-- The commands of a batch are read from their JSON forms. -/
theorem mapM_ofJson (hplain : ∀ c ∈ l, c.action.Plain) (hdepth : (listed l).depth < Draft.nestingLimit) :
    (l.map toJson).mapM ofJson = .ok l := by
  rw [mapM_eq_ok, List.forall₂_map_left_iff, List.forall₂_same]
  intro c hc
  refine ofJson_toJson (hplain c hc) fun j hj => ?_
  have hcommand : c.printed.depth < (listed l).depth :=
    Nat.lt_succ_of_le (Json.depth_le_items (List.mem_map_of_mem hc))
  exact (depth_value hj).trans (hcommand.trans hdepth)

end Command

namespace Batch

open Command (listed wrapped batchText)

variable {l : List Command} {text : String}

/-! ### One JSON text -/

theorem readJson_listed (hplain : ∀ c ∈ l, c.action.Plain)
    (hreal : ∀ x, .real x ∈ (listed l).numbers → (JsonNumber.real x).ReadsBack)
    (hdepth : (listed l).depth < Draft.nestingLimit) : readJson (batchText l) = .ok l := by
  have htrim : Text.trim (batchText l) = batchText l :=
    Text.trim_of_ends (a := '[') (z := ']') String.toList_ofList (by decide) (by decide)
  have hread := Json.ofText_compress (Command.readsBack_listed hplain hreal) hdepth
  rw [readJson, htrim, Command.batchText_eq, hread, Command.sorted_listed hplain]
  exact congrArg (Except.mapError BatchFault.notCommands) (Command.mapM_ofJson hplain hdepth)

theorem readJson_wrapped (hplain : ∀ c ∈ l, c.action.Plain)
    (hreal : ∀ x, .real x ∈ (listed l).numbers → (JsonNumber.real x).ReadsBack)
    (hdepth : (wrapped l).depth < Draft.nestingLimit) : readJson (wrapped l).compress = .ok l := by
  have htrim : Text.trim (wrapped l).compress = (wrapped l).compress :=
    Text.trim_of_ends (a := '\x7b') (z := '\x7d') String.toList_ofList (by decide) (by decide)
  have hnumbers : ∀ n ∈ (wrapped l).numbers, n.ReadsBack := by
    intro n hn
    obtain ⟨e, he, hne⟩ := Json.mem_memberNumbers.mp hn
    rw [List.mem_singleton.mp he] at hne
    exact Command.readsBack_listed hplain hreal n hne
  have hlisted : (listed l).depth < Draft.nestingLimit :=
    lt_of_le_of_lt (Json.depth_le_members (e := ("commands", listed l)) List.mem_cons_self) (Nat.lt_of_succ_lt hdepth)
  have hread := Json.ofText_compress hnumbers hdepth
  have hsorted : (wrapped l).sorted = .object [("commands", .array (l.map Command.toJson))] := by
    rw [wrapped, Json.sorted_object (by rw [List.map_singleton, Command.sorted_listed hplain])]
    rfl
  rw [readJson, htrim, hread, hsorted]
  exact congrArg (Except.mapError BatchFault.notCommands) (Command.mapM_ofJson hplain hlisted)

/-! ### Free text -/

theorem ofText_of_readJson (htext : Untagged text.toList) (h : readJson text = .ok l) :
    ofText text = .ok (Command.distinct l) := by
  rw [ofText_eq, commandsOf, blocks_eq_nil htext.1]
  dsimp only
  rw [h]
  rfl

/-- A text with one block is read as the block. -/
theorem ofText_block {before after : String} (hbefore : Untagged before.toList) (htext : Untagged text.toList)
    (hafter : Untagged after.toList) (h : readJson text = .ok l) :
    ofText (before ++ "<commands>" ++ text ++ "</commands>" ++ after) = .ok (Command.distinct l) := by
  have hchars : (before ++ "<commands>" ++ text ++ "</commands>" ++ after).toList =
      before.toList ++ (openTag ++ (text.toList ++ (closeTag ++ after.toList))) := by
    simp only [String.toList_append, List.append_assoc]
    rfl
  rw [ofText_eq, commandsOf, hchars, blocks_block hbefore.1 htext.2 hafter.1]
  dsimp only
  rw [readBlocks, String.ofList_toList, h, readBlocks]
  simp [Except.mapError, Except.map, Bind.bind, Except.bind, Pure.pure, Except.pure]

theorem untagged_compress {j : Json} (h : ∀ s ∈ j.texts, Untagged s.toList) : Untagged j.compress.toList := by
  have hmark {mark : List Char} (hmark : IsMark mark) (hnone : ∀ s ∈ j.texts, ¬ mark <:+: s.toList) :
      ¬ mark <:+: j.compress.toList := fun hinfix => by
    rw [Json.compress, String.toList_ofList] at hinfix
    obtain ⟨s, hs, hmem⟩ := Json.exists_of_infix_chars hmark hinfix
    exact hnone s hs hmem
  exact ⟨hmark isMark_openTag fun s hs => (h s hs).1, hmark isMark_closeTag fun s hs => (h s hs).2⟩

/-- Reading undoes writing, but for repeated commands: this holds for the array of the commands, for an object with it, and
    for a block with it in a text that has no other mark. -/
theorem ofText_batchText (l : List Command) (hplain : ∀ c ∈ l, c.action.Plain)
    (hreal : ∀ x, .real x ∈ (listed l).numbers → (JsonNumber.real x).ReadsBack)
    (htexts : ∀ s ∈ (listed l).texts, Untagged s.toList) (hdepth : (listed l).depth < Draft.nestingLimit) :
    ofText (batchText l) = .ok (Command.distinct l) ∧
      ((wrapped l).depth < Draft.nestingLimit →
        ofText ("\x7b\"commands\":" ++ batchText l ++ "\x7d") = .ok (Command.distinct l)) ∧
      ∀ before after : String, Untagged before.toList → Untagged after.toList →
        ofText (before ++ "<commands>" ++ batchText l ++ "</commands>" ++ after) = .ok (Command.distinct l) := by
  have hlisted := readJson_listed hplain hreal hdepth
  have htagged : Untagged (batchText l).toList := untagged_compress htexts
  refine ⟨ofText_of_readJson htagged hlisted, fun hwrapped => ?_, fun before after hbefore hafter =>
    ofText_block hbefore htagged hafter hlisted⟩
  rw [← Command.compress_wrapped]
  refine ofText_of_readJson (untagged_compress fun s hs => ?_) (readJson_wrapped hplain hreal hwrapped)
  obtain ⟨e, he, hse⟩ := Json.mem_memberTexts.mp hs
  rw [List.mem_singleton.mp he] at hse
  rcases hse with rfl | hse
  · exact (by decide : Untagged "commands".toList)
  · exact htexts s hse

/-- A batch that asks twice for one node to be removed, and has places, values and characters that are escaped. -/
def mixed : List Command := [
  ⟨.addNode ⟨"log", some "first", some ⟨500, 0.5⟩, none, none⟩, some "Say \"hello\"\n"⟩,
  ⟨.updateNodePin "first" "message" (.object [("size", .whole (-3)), ("text", .string "<command>")]), none⟩,
  ⟨.removeNode "old", none⟩,
  ⟨.removeNode "old", some "again"⟩]

theorem ofText_batchText_mixed :
    ofText ("Here it is: " ++ "<commands>" ++ batchText mixed ++ "</commands>" ++ " <done>") = .ok (mixed.take 3) := by
  have hfinite : (500 : Float).isFinite = true ∧ (0.5 : Float).isFinite = true := by decide +kernel
  have hvalue : (Json.object [("size", .whole (-3)), ("text", .string "<command>")]).Held := by
    refine ⟨rfl, fun n hn => ?_⟩
    rw [show n = .whole (-3) from List.mem_singleton.mp hn]
    exact ⟨by decide, by decide⟩
  have hplain : ∀ c ∈ mixed, c.action.Plain := by
    simp only [mixed, List.forall_mem_cons]
    refine ⟨⟨?_, ?_, ?_, ?_⟩, ⟨?_, ?_, ?_, ?_⟩, ⟨?_, ?_, ?_, ?_⟩, ⟨?_, ?_, ?_, ?_⟩, ?_⟩
    all_goals simp [Action.spots, Action.sizes, Action.values, Action.value?, hfinite, hvalue]
  have hreal : ∀ x, .real x ∈ (listed mixed).numbers → (JsonNumber.real x).ReadsBack := by
    have hnumbers : (listed mixed).numbers = [.real 500, .real 0.5, .whole (-3)] := by
      simp [listed, mixed, Command.printed, Command.members, Command.kind, Action.kind, Action.members, Json.numbers,
        Json.itemNumbers, Json.memberNumbers, Json.ofText?, Json.ofMaybe, Json.whole, Spot.toJson_eq,
        Json.real, hfinite]
    rw [hnumbers]
    have hread : (JsonNumber.real 500).ReadsBack ∧ (JsonNumber.real 0.5).ReadsBack :=
      ⟨JsonNumber.readsBack_iff.mpr rfl, JsonNumber.readsBack_iff.mpr rfl⟩
    intro x hx
    simp only [List.mem_cons, JsonNumber.real.injEq, reduceCtorEq, List.not_mem_nil, or_false] at hx
    rcases hx with rfl | rfl
    · exact hread.1
    · exact hread.2
  have hdistinct : Command.distinct mixed = mixed.take 3 := rfl
  rw [← hdistinct]
  exact (ofText_batchText mixed hplain hreal (by decide +kernel) (by decide +kernel)).2.2 "Here it is: " " <done>"
    (by decide) (by decide)

end Batch

end Workboard
