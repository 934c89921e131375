import Workboard.Cli.Listing
import Workboard.Proofs.Occurrences

/-! A text with its highlighted ranges in brackets.

Highlighted ranges start and end between characters, because they do so where an occurrence starts or ends
(`isBorder_highlight`). So the text can be cut at all of them, none is passed over, and what is printed is the text with a
pair of brackets around each (`highlight_marked`). -/

namespace Workboard

namespace Search

open String ByteRange

/-! ### Cutting a text -/

theorem splitBytes?_append (front rest : List Char) : splitBytes? (utf8Len front) (front ++ rest) = some (front, rest) := by
  induction front with
  | nil => cases rest <;> rfl
  | cons c r ih =>
    have hpos := c.utf8Size_pos
    obtain ⟨n, hn⟩ := Nat.exists_eq_succ_of_ne_zero (n := utf8Len (c :: r)) (by rw [utf8Len_cons]; omega)
    have hsize : c.utf8Size ≤ n + 1 := by rw [utf8Len_cons] at hn; omega
    have hrest : n + 1 - c.utf8Size = utf8Len r := by rw [utf8Len_cons] at hn; omega
    rw [hn, List.cons_append, splitBytes?, if_pos hsize, hrest, ih]
    rfl

theorem slice?_eq_some {text front part rest : List Char} (htext : text = front ++ part ++ rest) :
    ByteRange.slice? ⟨utf8Len front, utf8Len (front ++ part)⟩ text = some part := by
  have hlen : utf8Len (front ++ part) - utf8Len front = utf8Len part := by
    rw [utf8Len_append, Nat.add_sub_cancel_left]
  have hle : utf8Len front ≤ utf8Len (front ++ part) := by
    rw [utf8Len_append]
    exact Nat.le_add_right _ _
  rw [htext, List.append_assoc]
  simp only [ByteRange.slice?, if_pos hle, hlen, splitBytes?_append, Option.bind_eq_bind, Option.bind_some]

/-- A number of bytes of a text that ends between characters. -/
def IsBorder (text : List Char) (k : ℕ) : Prop := ∃ front, front <+: text ∧ utf8Len front = k

theorem isValid_iff_isBorder {text : String} {k : ℕ} : (⟨k⟩ : Pos.Raw).IsValid text ↔ IsBorder text.toList k := by
  rw [Pos.Raw.isValid_iff_exists_append]
  constructor
  · rintro ⟨front, rest, rfl, hend⟩
    refine ⟨front.toList, ⟨rest.toList, toList_append.symm⟩, ?_⟩
    rw [utf8Len_toList, ← byteIdx_rawEndPos, ← hend]
  · rintro ⟨front, ⟨rest, htext⟩, hlen⟩
    refine ⟨.ofList front, .ofList rest, ?_, ?_⟩
    · rw [← ofList_append, htext, ofList_toList]
    · rw [rawEndPos_ofList, hlen]

theorem prefix_of_utf8Len_le {text front back : List Char} (hfront : front <+: text) (hback : back <+: text)
    (h : utf8Len front ≤ utf8Len back) : front <+: back := by
  rcases List.prefix_or_prefix_of_prefix hfront hback with hpre | ⟨more, rfl⟩
  · exact hpre
  · rw [utf8Len_append] at h
    have hnil : more = [] := utf8Len_eq_zero.mp (by omega)
    rw [hnil, List.append_nil]

/-! ### Borders of highlighted ranges -/

section
variable {text query : String} {x : ByteRange}

theorem isBorder_source {c : FoldedChar} {text : List Char} (hc : c ∈ foldFrom 0 text) :
    IsBorder text c.source.start ∧ IsBorder text c.source.stop := by
  obtain ⟨before, own, after, rfl, hsource, -⟩ := exists_of_mem_foldFrom hc
  rw [hsource, Nat.zero_add]
  refine ⟨⟨before, List.prefix_append before _, rfl⟩, before ++ [own], ⟨after, by simp⟩, ?_⟩
  rw [utf8Len_append, utf8Len_cons, utf8Len_nil, Nat.zero_add]

/-- A range starts where a character starts that takes part in an occurrence. -/
theorem exists_source_start (hx : x ∈ highlight text query) :
    ∃ c ∈ foldFrom 0 text.toList, c.source.start = x.start ∧ c.source.Within x := by
  obtain ⟨parts, hparts, hjoins⟩ := exists_joins_of_mem_highlight hx
  obtain ⟨p, hp, hstart⟩ := hjoins.start_mem
  obtain ⟨o, -, rfl⟩ := hparts p hp
  obtain ⟨q, hq, hsource⟩ := o.joins_span.start_mem
  obtain ⟨c, hc, rfl⟩ := List.mem_map.mp hq
  exact ⟨c, Occurrence.mem_foldFrom hc, hsource.trans hstart, (Occurrence.within_span hc).trans (hjoins.within _ hp)⟩

theorem exists_source_stop (hx : x ∈ highlight text query) : ∃ c ∈ foldFrom 0 text.toList, c.source.stop = x.stop := by
  obtain ⟨parts, hparts, hjoins⟩ := exists_joins_of_mem_highlight hx
  obtain ⟨p, hp, hstop⟩ := hjoins.stop_mem
  obtain ⟨o, -, rfl⟩ := hparts p hp
  obtain ⟨q, hq, hsource⟩ := o.joins_span.stop_mem
  obtain ⟨c, hc, rfl⟩ := List.mem_map.mp hq
  exact ⟨c, Occurrence.mem_foldFrom hc, hsource.trans hstop⟩

theorem start_lt_stop_of_mem_highlight (hx : x ∈ highlight text query) : x.start < x.stop := by
  obtain ⟨c, hc, hstart, hwithin⟩ := exists_source_start hx
  exact hstart ▸ (start_lt_stop hc).trans_le hwithin.le_stop

theorem isBorder_highlight (hx : x ∈ highlight text query) :
    IsBorder text.toList x.start ∧ IsBorder text.toList x.stop := by
  obtain ⟨c, hc, hstart, -⟩ := exists_source_start hx
  obtain ⟨d, hd, hstop⟩ := exists_source_stop hx
  exact ⟨hstart ▸ (isBorder_source hc).1, hstop ▸ (isBorder_source hd).2⟩

theorem exists_bytes_eq (hx : x ∈ highlight text query) :
    ∃ os : Set (Occurrence text query), x.bytes = ⋃ o ∈ os, o.bytes := by
  obtain ⟨parts, hparts, hjoins⟩ := exists_joins_of_mem_highlight hx
  refine ⟨{o | span o.chars ∈ parts}, ?_⟩
  rw [hjoins.bytes_eq]
  ext k
  simp only [Set.mem_iUnion₂, Set.mem_ofPred_eq, exists_prop]
  constructor
  · rintro ⟨p, hp, hk⟩
    obtain ⟨o, -, rfl⟩ := hparts p hp
    exact ⟨o, hp, o.bytes_span ▸ hk⟩
  · rintro ⟨o, ho, hk⟩
    exact ⟨span o.chars, ho, o.bytes_span.symm ▸ hk⟩

end

end Search

namespace Cli

open Search String

/-! ### Brackets -/

/-- A piece of a text that stands in brackets, and the text before it. -/
structure Mark where
  before : List Char
  hit : List Char

namespace Mark

def plain (m : Mark) : List Char := m.before ++ m.hit

def bracketed (m : Mark) : List Char := m.before ++ '[' :: m.hit ++ [']']

/-- Where the bracketed pieces of marks stand that come one behind the other from a byte on. -/
def hitsFrom (start : ℕ) : List Mark → List ByteRange
  | [] => []
  | m :: r => ⟨start + utf8Len m.before, start + utf8Len m.plain⟩ :: hitsFrom (start + utf8Len m.plain) r

end Mark

variable {text front rest : List Char}

theorem markFrom_nil (htext : text = front ++ rest) : markFrom text (utf8Len front) [] = rest := by
  rw [markFrom, htext, splitBytes?_append]
  rfl

theorem markFrom_cons {before hit behind : List Char} (htext : text = front ++ before ++ hit ++ behind) (more : List ByteRange) :
    markFrom text (utf8Len front) (⟨utf8Len (front ++ before), utf8Len (front ++ before ++ hit)⟩ :: more) =
      Mark.bracketed ⟨before, hit⟩ ++ markFrom text (utf8Len (front ++ before ++ hit)) more := by
  have hbefore : ByteRange.slice? ⟨utf8Len front, utf8Len (front ++ before)⟩ text = some before :=
    slice?_eq_some (by rw [htext, List.append_assoc _ hit])
  have hhit : ByteRange.slice? ⟨utf8Len (front ++ before), utf8Len (front ++ before ++ hit)⟩ text = some hit :=
    slice?_eq_some htext
  rw [markFrom]
  simp only [hbefore, hhit]
  simp only [Mark.bracketed, List.append_assoc, List.cons_append, List.nil_append]

/-- The rest of a text from a border on is printed with brackets around all of the ranges that stand in it. -/
theorem exists_marks {ranges : List ByteRange} (htext : text = front ++ rest)
    (hbehind : ∀ x ∈ ranges, utf8Len front ≤ x.start) (hle : ∀ x ∈ ranges, x.start ≤ x.stop)
    (hborders : ∀ x ∈ ranges, IsBorder text x.start ∧ IsBorder text x.stop)
    (hapart : ranges.Pairwise fun x y => x.stop < y.start) :
    ∃ marks last, rest = marks.flatMap Mark.plain ++ last ∧
      markFrom text (utf8Len front) ranges = marks.flatMap Mark.bracketed ++ last ∧
      Mark.hitsFrom (utf8Len front) marks = ranges := by
  induction ranges generalizing front rest with
  | nil => exact ⟨[], rest, rfl, markFrom_nil htext, rfl⟩
  | cons x more ih =>
    obtain ⟨hfirst, hmore⟩ := List.pairwise_cons.mp hapart
    obtain ⟨start, stop⟩ := x
    -- The borders of the first range cut the rest into what is before it, the range and what is behind it.
    obtain ⟨⟨upto, hupto, rfl⟩, through, hthrough, rfl⟩ := hborders _ List.mem_cons_self
    obtain ⟨before, rfl⟩ := prefix_of_utf8Len_le ⟨rest, htext.symm⟩ hupto (hbehind _ List.mem_cons_self)
    obtain ⟨hit, rfl⟩ := prefix_of_utf8Len_le hupto hthrough (hle _ List.mem_cons_self)
    obtain ⟨behind, hbehind'⟩ := hthrough
    obtain ⟨marks, last, rfl, hprinted, hhits⟩ := ih hbehind'.symm (fun y hy => (hfirst y hy).le)
      (fun y hy => hle y (List.mem_cons_of_mem _ hy)) (fun y hy => hborders y (List.mem_cons_of_mem _ hy)) hmore
    refine ⟨⟨before, hit⟩ :: marks, last, ?_, ?_, ?_⟩
    · have hrest := hbehind'.trans htext
      simp only [List.append_assoc, List.append_cancel_left_eq] at hrest
      rw [← hrest, List.flatMap_cons, Mark.plain]
      simp only [List.append_assoc]
    · rw [markFrom_cons hbehind'.symm, hprinted, List.flatMap_cons, List.append_assoc]
    · rw [Mark.hitsFrom, Mark.plain, ← utf8Len_append, ← utf8Len_append, ← List.append_assoc, hhits]

/-- Highlighted ranges are not empty, start and end between characters of the text, stand apart in ascending order and are
    unions of occurrences. The printed text is the text with a pair of brackets around each of them. -/
theorem highlight_marked (text query : String) :
    (∀ x ∈ highlight text query, x.start < x.stop ∧
      (⟨x.start⟩ : Pos.Raw).IsValid text ∧ (⟨x.stop⟩ : Pos.Raw).IsValid text) ∧
    ((highlight text query).Pairwise fun x y => x.stop < y.start) ∧
    (∀ x ∈ highlight text query, ∃ os : Set (Occurrence text query), x.bytes = ⋃ o ∈ os, o.bytes) ∧
    ∃ marks last, text.toList = marks.flatMap Mark.plain ++ last ∧
      (marked text query).toList = marks.flatMap Mark.bracketed ++ last ∧
      Mark.hitsFrom 0 marks = highlight text query := by
  refine ⟨fun x hx => ⟨start_lt_stop_of_mem_highlight hx, ?_, ?_⟩, pairwise_highlight text query,
    fun x hx => exists_bytes_eq hx, ?_⟩
  · exact isValid_iff_isBorder.mpr (isBorder_highlight hx).1
  · exact isValid_iff_isBorder.mpr (isBorder_highlight hx).2
  · have hwhole : text.toList = [] ++ text.toList := rfl
    obtain ⟨marks, last, htext, hmarked, hhits⟩ := exists_marks hwhole
      (fun x _ => Nat.zero_le x.start) (fun x hx => (start_lt_stop_of_mem_highlight hx).le)
      (fun x hx => isBorder_highlight hx) (pairwise_highlight text query)
    exact ⟨marks, last, htext, by rw [marked, toList_ofList]; exact hmarked, hhits⟩

-- `İ` is two characters when it is folded, and two bytes before.
example : marked "İstanbul" "stan" = "İ[stan]bul" := by decide +kernel

end Cli

end Workboard
