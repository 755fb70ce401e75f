/-
# ModuleLinker.Proofs.LineNumbers -- the number of a line

The bisection in the starts of the lines ends where the starts above an offset begin. The line of an
offset is therefore the number of newlines in front of it, and a literal runs over several lines if
and only if there is a newline in it. An offset may lie anywhere in the encoding of the text or
behind it: it lies in a character, and the bytes of a character other than a newline are no newlines
(`lineOf_exact`).
-/

import ModuleLinker.Proofs.Fork
import ModuleLinker.Text.Lines

namespace ModuleLinker

/-! ## Newlines in the encoding of a text -/

namespace Text

/-- The encoding of a text. -/
def bytes (text : List Char) : List UInt8 := text.flatMap String.utf8EncodeChar

/-- The byte of a newline, and of no other character. -/
def newlineByte : UInt8 := 10

/-- The number of newlines at the positions from `first` on that lie in front of `last`. -/
def newlines (text : List Char) (first last : Nat) : Nat :=
  (((bytes text).take last).drop first).count newlineByte

theorem bytes_append (above below : List Char) :
    bytes (above ++ below) = bytes above ++ bytes below := List.flatMap_append

theorem length_bytes (text : List Char) : (bytes text).length = byteSize text := by
  induction text with
  | nil => rfl
  | cons c text ih =>
      have hfirst : bytes (c :: text) = String.utf8EncodeChar c ++ bytes text := List.flatMap_cons
      rw [hfirst, List.length_append, String.length_utf8EncodeChar, ih, byteSize]

/-- The bytes of a character outside of ASCII are large. -/
theorem newlineByte_notMem_utf8EncodeChar {c : Char} (h : c ≠ '\n') :
    newlineByte ∉ String.utf8EncodeChar c := by
  have hlarge : ∀ n, 128 ≤ n → n < 256 → newlineByte ≠ UInt8.ofNat n := by
    intro n hlow hhigh heq
    have hvalue := congrArg UInt8.toNat heq
    rw [UInt8.toNat_ofNat_of_lt' hhigh] at hvalue
    have hnewline : newlineByte.toNat = 10 := rfl
    omega
  unfold String.utf8EncodeChar
  dsimp only
  split
  · next hascii =>
    rw [List.mem_singleton]
    intro heq
    have hvalue := congrArg UInt8.toNat heq
    rw [UInt8.toNat_ofNat_of_lt' (by show _ < 256; omega)] at hvalue
    apply h
    apply Char.ext
    apply UInt32.toNat_inj.1
    exact hvalue.symm
  · -- every byte of a longer encoding has its highest bit set
    repeat' split
    all_goals
      simp only [List.mem_cons, List.not_mem_nil, or_false, not_or]
      and_intros
    all_goals exact hlarge _ (by omega) (by omega)

theorem count_bytes (text : List Char) : (bytes text).count newlineByte = text.count '\n' := by
  induction text with
  | nil => rfl
  | cons c text ih =>
      have hfirst : bytes (c :: text) = String.utf8EncodeChar c ++ bytes text := List.flatMap_cons
      rw [hfirst, List.count_append, ih, List.count_cons, Nat.add_comm]
      by_cases hc : c = '\n'
      · subst hc
        rfl
      · rw [List.count_eq_zero.2 (newlineByte_notMem_utf8EncodeChar hc), if_neg (by simpa using hc)]

/-- Every position lies in a character of the text, or behind the text. -/
theorem exists_cut (text : List Char) (offset : Nat) :
    ∃ above below, text = above ++ below ∧ byteSize above ≤ offset ∧
      ∀ c ∈ below.head?, offset < byteSize above + c.utf8Size := by
  induction text generalizing offset with
  | nil => exact ⟨[], [], rfl, Nat.zero_le _, by simp⟩
  | cons c text ih =>
      by_cases hfirst : offset < c.utf8Size
      · refine ⟨[], c :: text, rfl, Nat.zero_le _, ?_⟩
        rintro _ ⟨⟩
        rwa [byteSize, Nat.zero_add]
      · obtain ⟨above, below, rfl, hle, hlt⟩ := ih (offset - c.utf8Size)
        refine ⟨c :: above, below, rfl, ?_, fun d hd => ?_⟩
        · rw [byteSize]
          omega
        · have hinside := hlt d hd
          rw [byteSize]
          omega

/-- No part of a character in front of its last byte is a newline. -/
theorem newlines_of_cut {above below : List Char} {offset : Nat} (hle : byteSize above ≤ offset)
    (hlt : ∀ c ∈ below.head?, offset < byteSize above + c.utf8Size) :
    newlines (above ++ below) 0 offset = above.count '\n' := by
  have htake : (bytes (above ++ below)).take offset =
      bytes above ++ (bytes below).take (offset - byteSize above) := by
    rw [bytes_append, List.take_append, length_bytes, List.take_of_length_le]
    rwa [length_bytes]
  have hnone : ((bytes below).take (offset - byteSize above)).count newlineByte = 0 := by
    cases below with
    | nil => simp [bytes]
    | cons c below =>
        have hinside := hlt c rfl
        have hfirst : bytes (c :: below) = String.utf8EncodeChar c ++ bytes below :=
          List.flatMap_cons
        rw [hfirst, List.take_append_of_le_length (by rw [String.length_utf8EncodeChar]; omega),
          List.count_eq_zero]
        intro hmem
        by_cases hc : c = '\n'
        · -- a newline has no byte in front of its last one
          subst hc
          have hzero : offset - byteSize above = 0 := by
            have hsize : '\n'.utf8Size = 1 := rfl
            omega
          simp [hzero] at hmem
        · exact newlineByte_notMem_utf8EncodeChar hc (List.mem_of_mem_take hmem)
  rw [newlines, List.drop_zero, htake, List.count_append, hnone, count_bytes, Nat.add_zero]

theorem newlines_eq_zero {first last : Nat} (text : List Char) (h : last ≤ first) :
    newlines text first last = 0 := by
  have hshort : ((bytes text).take last).length ≤ first :=
    Nat.le_trans (List.length_take_le _ _) h
  rw [newlines, List.drop_eq_nil_of_le hshort, List.count_nil]

theorem newlines_add (text : List Char) {middle last : Nat} (h : middle ≤ last) :
    newlines text 0 middle + newlines text middle last = newlines text 0 last := by
  have hbelow : (bytes text).take middle = ((bytes text).take last).take middle := by
    rw [List.take_take, Nat.min_eq_left h]
  rw [newlines, newlines, newlines, List.drop_zero, List.drop_zero, hbelow, ← List.count_append,
    List.take_append_drop]

end Text

/-! ## Starts of lines -/

namespace LineIndex

open Text

theorem startsAfter_append (offset : Nat) (above below : List Char) :
    startsAfter offset (above ++ below) =
      startsAfter offset above ++ startsAfter (offset + byteSize above) below := by
  induction above generalizing offset with
  | nil => rfl
  | cons c above ih =>
      simp only [List.cons_append, startsAfter, ih, byteSize, Nat.add_assoc]
      split <;> rfl

theorem length_startsAfter (offset : Nat) (text : List Char) :
    (startsAfter offset text).length = text.count '\n' := by
  induction text generalizing offset with
  | nil => rfl
  | cons c text ih =>
      rw [startsAfter, List.count_cons]
      split
      · next hc => rw [List.length_cons, ih, if_pos (beq_iff_eq.2 hc)]
      · next hc => rw [ih, if_neg (by simpa using hc), Nat.add_zero]

theorem mem_startsAfter_bounds {offset start : Nat} {text : List Char}
    (h : start ∈ startsAfter offset text) :
    offset < start ∧ start ≤ offset + byteSize text := by
  induction text generalizing offset with
  | nil => cases h
  | cons c text ih =>
      have hsize := c.utf8Size_pos
      have hlater : start ∈ startsAfter (offset + c.utf8Size) text →
          offset < start ∧ start ≤ offset + byteSize (c :: text) := by
        intro hmem
        obtain ⟨hlow, hhigh⟩ := ih hmem
        rw [byteSize]
        omega
      rw [startsAfter] at h
      split at h
      · rcases List.mem_cons.1 h with rfl | hmem
        · rw [byteSize]
          omega
        · exact hlater hmem
      · exact hlater h

/-- A line starts behind the whole of a character. -/
theorem add_utf8Size_le_of_mem_startsAfter {offset start : Nat} {c : Char} {text : List Char}
    (h : start ∈ startsAfter offset (c :: text)) : offset + c.utf8Size ≤ start := by
  have hlater : start ∈ startsAfter (offset + c.utf8Size) text → offset + c.utf8Size ≤ start :=
    fun hmem => Nat.le_of_lt (mem_startsAfter_bounds hmem).1
  rw [startsAfter] at h
  split at h
  · rcases List.mem_cons.1 h with rfl | hmem
    · exact Nat.le_refl _
    · exact hlater hmem
  · exact hlater h

/-! ## Bisection -/

/-- The bisection ends where the starts above the offset begin. -/
theorem bisect_eq {low high offset steps : Nat} {first second : List Nat}
    (hfirst : ∀ start ∈ first, start ≤ offset) (hsecond : ∀ start ∈ second, offset < start)
    (hlow : low ≤ first.length) (hhigh : first.length ≤ high)
    (hsize : high ≤ (first ++ second).length) (hsteps : high ≤ low + steps) :
    bisect (first ++ second).toArray offset steps low high = first.length := by
  induction steps generalizing low high with
  | zero =>
      rw [bisect]
      omega
  | succ steps ih =>
      rw [bisect]
      split
      · next hlt =>
        extract_lets middle
        have hmiddle : middle < (first ++ second).length := by omega
        have hget : (first ++ second).toArray.getD middle 0 = (first ++ second)[middle] := by
          rw [Array.getD_eq_getD_getElem?, List.getElem?_toArray, List.getElem?_eq_getElem hmiddle,
            Option.getD_some]
        rw [hget]
        -- the half that is kept is the one that the border between the two lists lies in
        by_cases hside : middle < first.length
        · rw [List.getElem_append_left hside,
            if_pos (hfirst _ (List.getElem_mem hside))]
          exact ih hside hhigh hsize (by omega)
        · have habove : offset < (first ++ second)[middle] := by
            rw [List.getElem_append_right (Nat.le_of_not_lt hside)]
            exact hsecond _ (List.getElem_mem _)
          rw [if_neg (Nat.not_le.2 habove)]
          exact ih hlow (Nat.le_of_not_lt hside) (Nat.le_of_lt hmiddle) (by omega)
      · omega

/-- The line of an offset in a character, or behind the text, is the number of newlines in front of
that character. -/
theorem lineOf_of_cut {above below : List Char} {offset : Nat} (hle : byteSize above ≤ offset)
    (hlt : ∀ c ∈ below.head?, offset < byteSize above + c.utf8Size) :
    (ofText (above ++ below)).lineOf offset = above.count '\n' := by
  have hstarts : ofText (above ++ below) =
      ⟨((0 :: startsAfter 0 above) ++ startsAfter (byteSize above) below).toArray⟩ := by
    rw [ofText, startsAfter_append, Nat.zero_add, List.cons_append]
  have hfirst : ∀ start ∈ 0 :: startsAfter 0 above, start ≤ offset := by
    refine List.forall_mem_cons.2 ⟨Nat.zero_le _, fun start hstart => ?_⟩
    have hbound := (mem_startsAfter_bounds hstart).2
    omega
  have hsecond : ∀ start ∈ startsAfter (byteSize above) below, offset < start := by
    intro start hstart
    cases below with
    | nil => cases hstart
    | cons c below =>
        have hbehind := add_utf8Size_le_of_mem_startsAfter hstart
        have hinside := hlt c rfl
        omega
  rw [hstarts, lineOf, List.size_toArray, bisect_eq hfirst hsecond (Nat.zero_le _) (by simp)
    (Nat.le_refl _) (Nat.le_add_left _ _), List.length_cons, Nat.add_sub_cancel, length_startsAfter]

/-- The line of an offset is the number of newlines in front of it. -/
theorem lineOf_ofText (above below : List Char) :
    (ofText (above ++ below)).lineOf (byteSize above) = above.count '\n' :=
  lineOf_of_cut (Nat.le_refl _) fun c _ => Nat.lt_add_of_pos_right c.utf8Size_pos

example : (ofText "a\nbc\n\nd".toList).lineOf 5 = 2 := by decide

/-- A piece of a text that ends with a single byte runs over several lines if and only if there is a
newline in front of that byte. -/
theorem firstLine_lt_lastLine_iff {above body below : List Char} {last : Char} {span : Span}
    (hlast : last.utf8Size = 1) (hstart : byteSize above = span.start)
    (hstop : span.start + byteSize (body ++ [last]) = span.stop) :
    ((ofText (above ++ (body ++ [last] ++ below))).locate span).firstLine <
      ((ofText (above ++ (body ++ [last] ++ below))).locate span).lastLine ↔ '\n' ∈ body := by
  have hsize : byteSize (body ++ [last]) = byteSize body + 1 := by
    rw [byteSize_append, byteSize, hlast]
    rfl
  have hend : span.stop - 1 = byteSize (above ++ body) := by
    rw [byteSize_append]
    omega
  have hfirst := lineOf_ofText above (body ++ [last] ++ below)
  have hbehind := lineOf_ofText (above ++ body) ([last] ++ below)
  rw [List.append_assoc, ← List.append_assoc body] at hbehind
  rw [locate, if_pos (show span.start < span.stop by omega), ← hstart, hend, hfirst, hbehind,
    List.count_append, ← List.count_pos_iff]
  exact Nat.lt_add_right_iff_pos

/-- The line of a byte is the number of newlines in front of it, so that a later byte is on no
earlier line. Between the two lines of a range are as many newlines as the range has in front of its
last byte. -/
theorem lineOf_exact (text : List Char) :
    (∀ offset, (ofText text).lineOf offset = newlines text 0 offset) ∧
    (∀ offset later, offset ≤ later →
      (ofText text).lineOf offset ≤ (ofText text).lineOf later) ∧
    ∀ span : Span, span.start ≤ span.stop →
      ((ofText text).locate span).firstLine ≤ ((ofText text).locate span).lastLine ∧
      ((ofText text).locate span).lastLine - ((ofText text).locate span).firstLine =
        newlines text span.start (span.stop - 1) := by
  -- An offset may stand inside a character: the text is cut in front of that character.
  have hline : ∀ offset, (ofText text).lineOf offset = newlines text 0 offset := by
    intro offset
    obtain ⟨above, below, rfl, hle, hlt⟩ := exists_cut text offset
    rw [lineOf_of_cut hle hlt, newlines_of_cut hle hlt]
  refine ⟨hline, ?_, ?_⟩
  · intro offset later h
    rw [hline, hline, ← newlines_add text h]
    exact Nat.le_add_right _ _
  · intro span h
    show (ofText text).lineOf span.start ≤ (ofText text).lineOf _ ∧
      (ofText text).lineOf _ - (ofText text).lineOf span.start = _
    rw [hline, hline]
    by_cases hempty : span.start = span.stop
    · rw [if_neg (by omega), newlines_eq_zero text (show span.stop - 1 ≤ span.start by omega)]
      omega
    · rw [if_pos (by omega), ← newlines_add text (show span.start ≤ span.stop - 1 by omega)]
      omega

/-- The second byte of a character is on the line of the character, and what lies behind the text on
the last line. A newline ends its own line, also at the end of a range. -/
theorem range_past_end_lines :
    (ofText "é\n\n".toList).lineOf 1 = 0 ∧ (ofText "é\n\n".toList).lineOf 9 = 2 ∧
      (ofText "é\n\n".toList).lineOf 1 ≤ (ofText "é\n\n".toList).lineOf 9 ∧
      ((ofText "é\n\n".toList).locate ⟨1, 4⟩).lastLine -
        ((ofText "é\n\n".toList).locate ⟨1, 4⟩).firstLine = 1 := by
  obtain ⟨hline, hlater, hrange⟩ := lineOf_exact "é\n\n".toList
  refine ⟨?_, ?_, hlater 1 9 (by decide), ?_⟩
  · rw [hline]
    decide
  · rw [hline]
    decide
  · rw [(hrange ⟨1, 4⟩ (by decide)).2]
    decide

end LineIndex

end ModuleLinker
