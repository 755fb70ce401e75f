/-
# ModuleLinker.SourceMap.Vlq -- numbers of variable length in base 64

A number is written in groups of five bits, the lowest first. The lowest bit of the first group
is the sign, and the sixth bit of a group says that another one follows.
-/

namespace ModuleLinker.Vlq

/-- The character of a six-bit group. -/
def digit (n : Nat) : Char :=
  if n < 26 then Char.ofNat (65 + n)
  else if n < 52 then Char.ofNat (71 + n)
  else if n < 62 then Char.ofNat (n - 4)
  else if n = 62 then '+'
  else '/'

/-- The sign in the lowest bit, the size above it. -/
def zigzag (n : Int) : Nat :=
  if n < 0 then 2 * n.natAbs + 1 else 2 * n.natAbs

/-- Groups of five bits, the lowest first; `steps` bounds their number. -/
def groups : (steps n : Nat) → List Char
  | 0, _ => []
  | steps + 1, n =>
    if n < 32 then [digit n] else digit (n % 32 + 32) :: groups steps (n / 32)

/-- The text of a number. -/
def encode (n : Int) : List Char :=
  groups (zigzag n + 1) (zigzag n)

end ModuleLinker.Vlq
