import Mathlib
import Workboard.Proofs.Blocks

/-! The blocks of a text, told by how the text can be written.

A segment of a text ends with a block, and its tags are the first that can be taken; a text is segments and a rest that
has no block (`Batch.Segmentation`). One round of the scan takes one segment (`Batch.blocksWithin_segment`) and nothing
else can be the first one (`Batch.Segment.append_inj`), so there is just one way to write a text like this, and the scan
follows it (`Batch.blocks_exact`). -/

namespace Workboard

namespace Batch

/-! ### The first mark -/

section
variable {mark text before after : List Char}

theorem cutAt_eq_some (h : cutAt mark text = some (before, after)) :
    text = before ++ (mark ++ after) := by
  induction text generalizing before with
  | nil =>
    rw [cutAt] at h
    split_ifs at h with hmark
    obtain ⟨rfl, rfl⟩ := Prod.mk.inj (Option.some.inj h)
    rw [List.isEmpty_iff.mp hmark]
    rfl
  | cons c r ih =>
    rw [cutAt] at h
    split_ifs at h with hmark
    · obtain ⟨rfl, rfl⟩ := Prod.mk.inj (Option.some.inj h)
      obtain ⟨t, ht⟩ := List.isPrefixOf_iff_prefix.mp hmark
      rw [← ht, List.drop_left, List.nil_append]
    · obtain ⟨⟨b, a⟩, hcut, heq⟩ := Option.map_eq_some_iff.mp h
      obtain ⟨rfl, rfl⟩ := Prod.mk.inj heq
      rw [ih hcut]
      rfl

theorem not_infix_of_cutAt (hmark : mark ≠ []) (h : cutAt mark text = some (before, after)) : ¬ mark <:+: before := by
  induction text generalizing before with
  | nil =>
    rw [cutAt] at h
    split_ifs at h with hempty
    exact absurd (List.isEmpty_iff.mp hempty) hmark
  | cons c r ih =>
    have htext := cutAt_eq_some h
    rw [cutAt] at h
    split_ifs at h with hstart
    · obtain ⟨rfl, -⟩ := Prod.mk.inj (Option.some.inj h)
      rwa [List.infix_nil]
    · obtain ⟨⟨b, a⟩, hcut, heq⟩ := Option.map_eq_some_iff.mp h
      obtain ⟨rfl, rfl⟩ := Prod.mk.inj heq
      rw [List.infix_cons_iff, not_or]
      refine ⟨fun hprefix => hstart (List.isPrefixOf_iff_prefix.mpr ?_), ih hcut⟩
      rw [htext]
      exact hprefix.trans (List.prefix_append _ _)

/-- A text is cut at a mark exactly if no other comes before it. -/
theorem cutAt_eq_some_iff (hmark : IsMark mark) :
    cutAt mark text = some (before, after) ↔ text = before ++ (mark ++ after) ∧ ¬ mark <:+: before := by
  constructor
  · intro h
    have hne : mark ≠ [] := by
      obtain ⟨m, rfl, -⟩ := hmark.starts
      exact List.cons_ne_nil _ _
    exact ⟨cutAt_eq_some h, not_infix_of_cutAt hne h⟩
  · rintro ⟨rfl, h⟩
    exact cutAt_append hmark h after

/-- A text is cut at its first mark, so what is behind some mark stays. -/
theorem exists_cutAt (hmark : mark ≠ []) (before after : List Char) :
    ∃ b a, cutAt mark (before ++ (mark ++ after)) = some (b, a) ∧ after <:+ a := by
  induction before with
  | nil =>
    obtain ⟨c, m, rfl⟩ := List.exists_cons_of_ne_nil hmark
    refine ⟨[], after, ?_, List.suffix_rfl⟩
    rw [List.nil_append, List.cons_append, cutAt, if_pos (by simp)]
    simp
  | cons c before ih =>
    rw [List.cons_append, cutAt]
    split
    · refine ⟨[], _, rfl, ?_⟩
      rw [← List.append_assoc, ← List.cons_append, List.drop_append_of_le_length (by simp; omega)]
      exact List.suffix_append _ after
    · obtain ⟨b, a, hcut, hsuffix⟩ := ih
      exact ⟨c :: b, a, by rw [hcut]; rfl, hsuffix⟩

end

/-! ### Tags -/

/-- The marks stand in the text, each behind the one before. -/
def InOrder : List (List Char) → List Char → Prop
  | [], _ => True
  | mark :: marks, text => ∃ before after, text = before ++ (mark ++ after) ∧ InOrder marks after

/-- A text with a block: an opening tag, and a closing tag behind it. -/
def Tagged (text : List Char) : Prop := InOrder [openTag, closeTag] text

theorem Tagged.opens {text : List Char} (h : Tagged text) : openTag <:+: text := by
  obtain ⟨before, after, rfl, -⟩ := h
  exact ⟨before, after, List.append_assoc _ _ _⟩

/-! ### Segments -/

/-- A part of a text that ends with a block. What stands before the block does not open one, and the block ends where it
    is first closed. -/
@[ext]
structure Segment where
  before : List Char
  block : List Char
  unopened : ¬ openTag <:+: before
  unclosed : ¬ closeTag <:+: block

namespace Segment

def text (s : Segment) : List Char := s.before ++ (openTag ++ (s.block ++ closeTag))

variable (s : Segment)

theorem text_append (rest : List Char) :
    s.text ++ rest = s.before ++ (openTag ++ (s.block ++ (closeTag ++ rest))) := by
  simp only [text, List.append_assoc]

theorem tagged_append (rest : List Char) : Tagged (s.text ++ rest) :=
  ⟨s.before, s.block ++ (closeTag ++ rest), s.text_append rest, s.block, rest, rfl, trivial⟩

theorem cutAt_openTag (rest : List Char) :
    cutAt openTag (s.text ++ rest) = some (s.before, s.block ++ (closeTag ++ rest)) :=
  (cutAt_eq_some_iff isMark_openTag).mpr ⟨s.text_append rest, s.unopened⟩

theorem cutAt_closeTag (rest : List Char) : cutAt closeTag (s.block ++ (closeTag ++ rest)) = some (s.block, rest) :=
  (cutAt_eq_some_iff isMark_closeTag).mpr ⟨rfl, s.unclosed⟩

theorem length_text : openTag.length + closeTag.length ≤ s.text.length := by
  simp only [text, List.length_append]
  omega

/-- A text has no two first segments. -/
theorem append_inj {s s' : Segment} {rest rest' : List Char} (h : s.text ++ rest = s'.text ++ rest') :
    s = s' ∧ rest = rest' := by
  have hopen := s.cutAt_openTag rest
  rw [h, s'.cutAt_openTag, Option.some.injEq, Prod.mk.injEq] at hopen
  have hclose := s.cutAt_closeTag rest
  rw [← hopen.2, s'.cutAt_closeTag, Option.some.injEq, Prod.mk.injEq] at hclose
  exact ⟨Segment.ext hopen.1.symm hclose.1.symm, hclose.2.symm⟩

end Segment

/-- A text with a block starts with a segment. -/
theorem Tagged.exists_segment {text : List Char} (h : Tagged text) :
    ∃ (s : Segment) (rest : List Char), text = s.text ++ rest := by
  obtain ⟨front, _, rfl, middle, after, rfl, -⟩ := h
  obtain ⟨before, _, hopen, ahead, rfl⟩ := exists_cutAt (by decide : openTag ≠ []) front (middle ++ (closeTag ++ after))
  obtain ⟨block, rest, hclose, -⟩ := exists_cutAt (by decide : closeTag ≠ []) (ahead ++ middle) after
  rw [List.append_assoc] at hclose
  obtain ⟨htext, hunopened⟩ := (cutAt_eq_some_iff isMark_openTag).mp hopen
  obtain ⟨hbody, hunclosed⟩ := (cutAt_eq_some_iff isMark_closeTag).mp hclose
  refine ⟨⟨before, block, hunopened, hunclosed⟩, rest, ?_⟩
  rw [Segment.text_append, htext, hbody]

/-! ### Whole texts -/

/-- A way to write a text: segments, and what is left of it, in which no block is complete. -/
@[ext]
structure Segmentation where
  segments : List Segment
  rest : List Char
  untagged : ¬ Tagged rest

namespace Segmentation

def text (s : Segmentation) : List Char := s.segments.flatMap Segment.text ++ s.rest

def blocks (s : Segmentation) : List (List Char) := s.segments.map Segment.block

/-- A segment in front of a text that is written already. -/
def cons (first : Segment) (s : Segmentation) : Segmentation := ⟨first :: s.segments, s.rest, s.untagged⟩

theorem text_cons (first : Segment) (s : Segmentation) : (cons first s).text = first.text ++ s.text := by
  simp only [text, cons, List.flatMap_cons, List.append_assoc]

end Segmentation

/-- Every text can be written as segments and a rest. -/
theorem exists_segmentation (text : List Char) : ∃ s : Segmentation, s.text = text := by
  -- The text behind the first segment is shorter.
  induction hn : text.length using Nat.strong_induction_on generalizing text with
  | h n ih =>
    by_cases htagged : Tagged text
    · obtain ⟨first, rest, rfl⟩ := htagged.exists_segment
      have hopen : 0 < openTag.length := by decide
      have hlength := first.length_text
      obtain ⟨s, hs⟩ := ih rest.length (by rw [← hn, List.length_append]; omega) rest rfl
      exact ⟨.cons first s, by rw [Segmentation.text_cons, hs]⟩
    · exact ⟨⟨[], text, htagged⟩, rfl⟩

theorem tagged_segments (first : Segment) (l : List Segment) (rest : List Char) :
    Tagged ((first :: l).flatMap Segment.text ++ rest) := by
  rw [List.flatMap_cons, List.append_assoc]
  exact first.tagged_append _

theorem segments_unique {l l' : List Segment} {rest rest' : List Char} (hrest : ¬ Tagged rest) (hrest' : ¬ Tagged rest')
    (h : l.flatMap Segment.text ++ rest = l'.flatMap Segment.text ++ rest') : l = l' ∧ rest = rest' := by
  -- The first segments agree; where only one side has another segment, the rest of the other side has a block.
  induction l generalizing l' with
  | nil =>
    cases l' with
    | nil => exact ⟨rfl, h⟩
    | cons first r =>
      have hall : rest = (first :: r).flatMap Segment.text ++ rest' := h
      exact absurd (hall ▸ tagged_segments first r rest') hrest
  | cons first r ih =>
    cases l' with
    | nil =>
      have hall : (first :: r).flatMap Segment.text ++ rest = rest' := h
      exact absurd (hall ▸ tagged_segments first r rest) hrest'
    | cons first' r' =>
      rw [List.flatMap_cons, List.flatMap_cons, List.append_assoc, List.append_assoc] at h
      obtain ⟨rfl, hbehind⟩ := Segment.append_inj h
      obtain ⟨rfl, rfl⟩ := ih hbehind
      exact ⟨rfl, rfl⟩

/-- A text can be written as segments and a rest in one way. -/
theorem Segmentation.eq_of_text_eq {s s' : Segmentation} (h : s.text = s'.text) : s = s' := by
  obtain ⟨hsegments, hrest⟩ := segments_unique s.untagged s'.untagged h
  exact Segmentation.ext hsegments hrest

/-! ### The scan -/

theorem blocksWithin_eq_nil {text : List Char} (h : ¬ Tagged text) (fuel : ℕ) : blocksWithin fuel text = [] := by
  cases fuel with
  | zero => rfl
  | succ n =>
    rw [blocksWithin]
    split
    · rfl
    · rename_i before body hopen
      split
      · rfl
      · rename_i block rest hclose
        exact absurd ⟨before, body, cutAt_eq_some hopen, block, rest, cutAt_eq_some hclose, trivial⟩ h

/-- One round of the scan takes one segment. -/
theorem blocksWithin_segment (s : Segment) (rest : List Char) (fuel : ℕ) :
    blocksWithin (fuel + 1) (s.text ++ rest) = s.block :: blocksWithin fuel rest := by
  rw [blocksWithin, s.cutAt_openTag]
  dsimp only
  rw [s.cutAt_closeTag]

/-- After as many rounds as there are segments there is nothing left to find. -/
theorem blocksWithin_segments (l : List Segment) {rest : List Char} (hrest : ¬ Tagged rest) (extra : ℕ) :
    blocksWithin (l.length + extra) (l.flatMap Segment.text ++ rest) = l.map Segment.block := by
  induction l with
  | nil => exact blocksWithin_eq_nil hrest _
  | cons first r ih =>
    rw [List.length_cons, Nat.add_right_comm, List.flatMap_cons, List.append_assoc, blocksWithin_segment, ih]
    rfl

namespace Segmentation

theorem length_text (s : Segmentation) :
    (openTag.length + closeTag.length) * s.segments.length ≤ s.text.length := by
  rw [text, List.length_append]
  refine Nat.le_add_right_of_le ?_
  induction s.segments with
  | nil => simp
  | cons first r ih =>
    have hfirst := first.length_text
    rw [List.flatMap_cons, List.length_append, List.length_cons, Nat.mul_succ]
    omega

theorem blocks_text (s : Segmentation) : Batch.blocks s.text = s.blocks := by
  have hfuel : s.segments.length ≤ s.text.length :=
    (Nat.le_mul_of_pos_left _ (by decide)).trans s.length_text
  obtain ⟨extra, hextra⟩ := Nat.exists_eq_add_of_le hfuel
  rw [Batch.blocks, hextra]
  exact blocksWithin_segments s.segments s.untagged extra

end Segmentation

theorem blocks_eq_nil_iff {text : List Char} : blocks text = [] ↔ ¬ Tagged text := by
  refine ⟨fun hnil htagged => ?_, fun htagged => blocksWithin_eq_nil htagged _⟩
  obtain ⟨first, rest, rfl⟩ := htagged.exists_segment
  obtain ⟨s, rfl⟩ := exists_segmentation rest
  rw [← Segmentation.text_cons, Segmentation.blocks_text] at hnil
  cases hnil

theorem blocks_eq_nil {text : List Char} (h : ¬ openTag <:+: text) : blocks text = [] :=
  blocks_eq_nil_iff.mpr fun htagged => h htagged.opens

/-- The block of a text with one block. -/
theorem blocks_block {before text after : List Char} (hbefore : ¬ openTag <:+: before) (htext : ¬ closeTag <:+: text)
    (hafter : ¬ openTag <:+: after) : blocks (before ++ (openTag ++ (text ++ (closeTag ++ after)))) = [text] := by
  have hblocks := Segmentation.blocks_text ⟨[⟨before, text, hbefore, htext⟩], after, fun htagged => hafter htagged.opens⟩
  rw [Segmentation.text, List.flatMap_singleton, Segment.text_append] at hblocks
  exact hblocks

/-- A text has the given blocks exactly if it can be written with them: each behind a text without an opening tag and up
    to its first closing tag, and then a rest in which no opening tag is closed. There is one way to write it so. The scan
    goes on for one round a block, each of which takes two tags from the text; any further round changes nothing. -/
theorem blocks_exact (text : List Char) :
    (∀ found, blocks text = found ↔ ∃ s : Segmentation, s.text = text ∧ s.blocks = found) ∧
      (∃! s : Segmentation, s.text = text) ∧
      (∀ extra, blocksWithin ((blocks text).length + extra) text = blocks text) ∧
      (openTag.length + closeTag.length) * (blocks text).length ≤ text.length := by
  obtain ⟨s, rfl⟩ := exists_segmentation text
  have hcount : (blocks s.text).length = s.segments.length := by
    rw [s.blocks_text, Segmentation.blocks, List.length_map]
  refine ⟨fun found => ⟨fun h => ?_, ?_⟩, ⟨s, rfl, fun _ => Segmentation.eq_of_text_eq⟩, fun extra => ?_, ?_⟩
  · exact ⟨s, rfl, s.blocks_text.symm.trans h⟩
  · rintro ⟨s', htext, rfl⟩
    rw [← htext, s'.blocks_text]
  · rw [hcount, s.blocks_text]
    exact blocksWithin_segments s.segments s.untagged extra
  · rw [hcount]
    exact s.length_text

/-- A closing tag that comes first, an opening tag in a block and one that is not closed are text. -/
example : blocks "a</commands><commands>b<commands>c</commands></commands>d<commands>".toList = ["b<commands>c".toList] := by
  decide +kernel

end Batch

end Workboard
