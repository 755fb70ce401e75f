/-
# ModuleLinker.Proofs.MarkedText -- a text behind a byte order mark

A byte order mark in front of a text moves every offset of the text on by the size of the mark, and
leaves every line where it is: no line ends with the mark. A span that is moved along therefore
covers the same piece of text on the same lines, and only a span that begins with the text itself,
such as the one in front of the first statement, has the mark in its piece.

The script in the text is the same, so that the same statements are read from it, and their spans
do not move either; it only begins behind the mark (`Program.read_marked`).
-/

import ModuleLinker.Module.Classify
import ModuleLinker.Proofs.LineNumbers

namespace ModuleLinker

open Text Script

/-! ## Texts -/

namespace Text

/-- The text behind a byte order mark. -/
def marked (text : List Char) : List Char := byteOrderMark :: text

/-- The number of bytes of a byte order mark. -/
def markSize : Nat := byteOrderMark.utf8Size

theorem byteSize_marked (text : List Char) : byteSize (marked text) = byteSize text + markSize :=
  Nat.add_comm _ _

end Text

/-- The span in the text behind the mark. -/
def Span.behindMark (span : Span) : Span := span.shift markSize

/-- The span in the text behind the mark, on the same lines. -/
def LineSpan.behindMark (span : LineSpan) : LineSpan :=
  { span with toSpan := span.toSpan.behindMark }

namespace Text

theorem dropBytes?_cons (c : Char) (cs : List Char) (n : Nat) :
    dropBytes? (c :: cs) (n + c.utf8Size) = dropBytes? cs n := by
  have hsize : n + c.utf8Size = (n + c.utf8Size - 1) + 1 := by
    have := c.utf8Size_pos
    omega
  rw [hsize, dropBytes?, ← hsize, if_pos (Nat.le_add_left _ _), Nat.add_sub_cancel]

theorem takeBytes?_cons (c : Char) (cs : List Char) (n : Nat) :
    takeBytes? (c :: cs) (n + c.utf8Size) = (takeBytes? cs n).map (c :: ·) := by
  have hsize : n + c.utf8Size = (n + c.utf8Size - 1) + 1 := by
    have := c.utf8Size_pos
    omega
  rw [hsize, takeBytes?, ← hsize, if_pos (Nat.le_add_left _ _), Nat.add_sub_cancel]

/-- A span that is moved along covers the same piece. -/
theorem slice?_marked (text : List Char) (span : Span) :
    slice? (marked text) span.behindMark = slice? text span := by
  have hstart : dropBytes? (marked text) (span.start + markSize) = dropBytes? text span.start :=
    dropBytes?_cons byteOrderMark text span.start
  have hlength : span.stop + markSize - (span.start + markSize) = span.stop - span.start :=
    Nat.add_sub_add_right _ _ _
  simp only [slice?, Span.behindMark, Span.shift, Nat.add_le_add_iff_right, hstart, hlength]

/-- A span that begins with the text has the mark in its piece. -/
theorem slice?_marked_zero (text : List Char) (stop : Nat) :
    slice? (marked text) ⟨0, stop + markSize⟩ = (slice? text ⟨0, stop⟩).map marked := by
  have hdrop : ∀ cs : List Char, dropBytes? cs 0 = some cs := fun cs => by simp [dropBytes?]
  have htake : takeBytes? (marked text) (stop + markSize) = (takeBytes? text stop).map marked :=
    takeBytes?_cons byteOrderMark text stop
  simp only [slice?, Nat.zero_le, if_true, hdrop, Option.bind_some, Nat.sub_zero, htake]

/-- The mark stands at the beginning of the first line. -/
theorem splitLines_marked (text : List Char) :
    ∃ line lines, splitLines text = line :: lines ∧
      splitLines (marked text) = marked line :: lines := by
  have hmark : byteOrderMark ≠ '\n' := by decide
  obtain ⟨line, lines, hlines⟩ : ∃ line lines, splitLines text = line :: lines := by
    unfold splitLines
    split
    · exact ⟨_, _, rfl⟩
    · split
      · exact ⟨_, _, rfl⟩
      · split <;> exact ⟨_, _, rfl⟩
  refine ⟨line, lines, hlines, ?_⟩
  rw [marked, splitLines, if_neg hmark, hlines]
  rfl

end Text

/-! ## Lines -/

namespace LineIndex

/-- The lines of a text that begins further on start as much further on. -/
theorem startsAfter_add (offset n : Nat) (text : List Char) :
    startsAfter (offset + n) text = (startsAfter offset text).map (· + n) := by
  induction text generalizing offset with
  | nil => rfl
  | cons c text ih =>
      have hnext : offset + n + c.utf8Size = offset + c.utf8Size + n := Nat.add_right_comm _ _ _
      simp only [startsAfter, hnext, ih]
      split <;> rfl

/-- The bisection only looks at which starts are above the offset. -/
theorem bisect_congr {starts starts' : Array Nat} {offset offset' : Nat}
    (h : ∀ place, starts'.getD place 0 ≤ offset' ↔ starts.getD place 0 ≤ offset)
    (steps low high : Nat) :
    bisect starts' offset' steps low high = bisect starts offset steps low high := by
  induction steps generalizing low high with
  | zero => rfl
  | succ steps ih => simp only [bisect, h, ih]

/-- An offset that is moved along is on the same line. -/
theorem lineOf_marked (text : List Char) (offset : Nat) :
    (ofText (marked text)).lineOf (offset + markSize) = (ofText text).lineOf offset := by
  have hmark : startsAfter 0 (marked text) = (startsAfter 0 text).map (· + markSize) := by
    rw [marked, startsAfter, if_neg (by decide)]
    exact startsAfter_add 0 markSize text
  have hsize : (ofText (marked text)).starts.size = (ofText text).starts.size := by
    simp [ofText, hmark]
  have hstarts : ∀ place, (ofText (marked text)).starts.getD place 0 ≤ offset + markSize ↔
      (ofText text).starts.getD place 0 ≤ offset := by
    intro place
    simp only [ofText, hmark, Array.getD_eq_getD_getElem?, List.getElem?_toArray]
    -- the first start is zero in both texts, and so is what is read behind the last
    cases place with
    | zero => exact iff_of_true (Nat.zero_le _) (Nat.zero_le _)
    | succ place =>
        rw [List.getElem?_cons_succ, List.getElem?_cons_succ, List.getElem?_map]
        cases (startsAfter 0 text)[place]? with
        | none => exact iff_of_true (Nat.zero_le _) (Nat.zero_le _)
        | some start => exact Nat.add_le_add_iff_right
  unfold lineOf
  rw [hsize, bisect_congr hstarts]

theorem lineOf_zero (text : List Char) : (ofText text).lineOf 0 = 0 := lineOf_ofText [] text

theorem locate_marked (text : List Char) (span : Span) :
    (ofText (marked text)).locate span.behindMark = ((ofText text).locate span).behindMark := by
  have hfirst : (ofText (marked text)).lineOf span.behindMark.start =
      (ofText text).lineOf span.start := lineOf_marked text span.start
  have hempty : span.behindMark.start < span.behindMark.stop ↔ span.start < span.stop :=
    Nat.add_lt_add_iff_right
  have hlast : (ofText (marked text)).lineOf (if span.behindMark.start < span.behindMark.stop then
      span.behindMark.stop - 1 else span.behindMark.start) =
      (ofText text).lineOf (if span.start < span.stop then span.stop - 1 else span.start) := by
    by_cases hlt : span.start < span.stop
    · have hstop : span.behindMark.stop - 1 = span.stop - 1 + markSize := by
        show span.stop + markSize - 1 = span.stop - 1 + markSize
        omega
      rw [if_pos hlt, if_pos (hempty.2 hlt), hstop, lineOf_marked]
    · rw [if_neg hlt, if_neg (mt hempty.1 hlt), hfirst]
  unfold locate LineSpan.behindMark
  rw [hfirst, hlast]

end LineIndex

/-! ## Scripts -/

namespace Script

/-- The program of the text behind the mark. -/
def Program.marked (program : Program) : Program :=
  { program with origin := program.origin + markSize }

/-- The refusal of the text behind the mark. -/
def NotAScript.behindMark : NotAScript → NotAScript
  | .syntaxError offset => .syntaxError (offset + markSize)
  | .declarations => .declarations

namespace Program

theorem scriptOf_marked (text : List Char) : scriptOf (Text.marked text) = (markSize, text) := by
  rw [Text.marked, scriptOf, if_pos rfl, markSize]

variable {text : List Char} (h : text.head? ≠ some byteOrderMark)

include h

theorem scriptOf_of_unmarked : scriptOf text = (0, text) := by
  cases text with
  | nil => rfl
  | cons c rest => exact if_neg fun hc => h (congrArg some hc)

/-- The mark is not part of the script: the same statements are read behind it, and an error is
found as much further on. -/
theorem read_marked :
    read (Text.marked text) = ((read text).map marked).mapError NotAScript.behindMark := by
  unfold read
  rw [scriptOf_of_unmarked h, scriptOf_marked]
  dsimp only
  cases readScript text with
  | ok stmts => simp [Except.map, Except.mapError, marked]
  | error failure => cases failure <;> simp [Except.map, Except.mapError, NotAScript.behindMark]

/-- The parser knows of no mark, so it says the same about the text behind one. -/
theorem complaint_marked [ParserWording] : complaint (Text.marked text) = complaint text := by
  unfold complaint
  rw [scriptOf_of_unmarked h, scriptOf_marked]

end Program

end Script

/-- The literals that run over several lines are the same, moved along. -/
theorem Module.multilineLiterals_marked (text : List Char) (program : Program) :
    multilineLiterals (LineIndex.ofText (Text.marked text)) program.marked =
      (multilineLiterals (LineIndex.ofText text) program).map Span.behindMark := by
  have hshift : ∀ span : Span, span.shift program.marked.origin =
      (span.shift program.origin).behindMark := by
    intro span
    simp only [Program.marked, Span.behindMark, Span.shift, Nat.add_assoc]
  have hlocate := LineIndex.locate_marked text
  simp only [multilineLiterals, List.filter_map, List.map_map, Function.comp_def, hshift, hlocate]
  rfl

/-! ## Sources -/

namespace Source

/-- The source behind the mark. -/
def marked (source : Source) : Source :=
  Source.ofText (Text.marked source.text) (source.literals.map Span.behindMark)

variable (source : Source)

theorem lineOf_marked (offset : Nat) :
    source.marked.lines.lineOf (offset + markSize) = source.lines.lineOf offset := by
  rw [source.lines_eq]
  exact LineIndex.lineOf_marked source.text offset

theorem locate_marked (span : Span) :
    source.marked.locate span.behindMark = (source.locate span).behindMark := by
  unfold Source.locate
  rw [source.lines_eq]
  exact LineIndex.locate_marked source.text span

theorem slice?_marked (span : Span) : source.marked.slice? span.behindMark = source.slice? span :=
  Text.slice?_marked source.text span

theorem insideLiteral_marked (offset : Nat) :
    source.marked.insideLiteral (offset + markSize) = source.insideLiteral offset := by
  simp [insideLiteral, marked, Source.ofText, List.any_map, Function.comp_def, Span.behindMark,
    Span.shift]

end Source

end ModuleLinker
