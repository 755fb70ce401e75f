/-
# ModuleLinker.Text.Lines -- lines of a text

Only the newline character ends a line. `LineIndex` keeps the offset at which every line starts
and finds the line of an offset by bisection; `splitLines` cuts a text at its newlines, which
belong to neither neighbour.
-/

import ModuleLinker.Text.Slice

namespace ModuleLinker

/-- A span together with the zero-based lines of its first and of its last byte. -/
structure LineSpan extends Span where
  firstLine : Nat
  lastLine : Nat
deriving DecidableEq, Repr, Inhabited

/-- The offsets at which the lines of a text start, in increasing order. -/
structure LineIndex where
  starts : Array Nat
deriving DecidableEq, Repr

namespace LineIndex

/-- The offset after every newline of a text that begins at `offset`. -/
def startsAfter (offset : Nat) : List Char → List Nat
  | [] => []
  | c :: cs =>
    let next := offset + c.utf8Size
    if c = '\n' then next :: startsAfter next cs else startsAfter next cs

/-- The first line starts at offset zero, every other line after a newline. -/
def ofText (text : List Char) : LineIndex :=
  ⟨(0 :: startsAfter 0 text).toArray⟩

/-- Bisection between `low` and `high` for the first start above `offset`. -/
def bisect (starts : Array Nat) (offset : Nat) : (steps low high : Nat) → Nat
  | 0, low, _ => low
  | steps + 1, low, high =>
    if low < high then
      let middle := (low + high) / 2
      if starts.getD middle 0 ≤ offset then bisect starts offset steps (middle + 1) high
      else bisect starts offset steps low middle
    else
      low

/-- The zero-based line that holds the byte at `offset`; the last line for an offset past the
end. -/
def lineOf (index : LineIndex) (offset : Nat) : Nat :=
  bisect index.starts offset index.starts.size 0 index.starts.size - 1

/-- A span with its lines; an empty span lies on the line of its start. -/
def locate (index : LineIndex) (span : Span) : LineSpan where
  toSpan := span
  firstLine := index.lineOf span.start
  lastLine := index.lineOf (if span.start < span.stop then span.stop - 1 else span.start)

end LineIndex

namespace Text

/-- The pieces of a text between its newlines; a text without one is a single piece. -/
def splitLines : List Char → List (List Char)
  | [] => [[]]
  | c :: cs =>
    if c = '\n' then [] :: splitLines cs
    else
      match splitLines cs with
      | [] => [[c]]
      | line :: lines => (c :: line) :: lines

end Text

end ModuleLinker
