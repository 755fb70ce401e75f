/-
# ModuleLinker.Text.Blank -- blank characters

The characters with the Unicode property White_Space, and trimming by it. The byte order mark is
not one of them.
-/

namespace ModuleLinker.Text

/-- The byte order mark, which may open a text without being part of it. -/
def byteOrderMark : Char := '\uFEFF'

/-- The characters with the Unicode property White_Space. -/
def isBlank (c : Char) : Bool :=
  let n := c.toNat
  (9 ≤ n && n ≤ 13) || n == 0x20 || n == 0x85 || n == 0xA0 || n == 0x1680 ||
    (0x2000 ≤ n && n ≤ 0x200A) || n == 0x2028 || n == 0x2029 || n == 0x202F || n == 0x205F ||
    n == 0x3000

def trimStart (cs : List Char) : List Char := cs.dropWhile isBlank

def trimEnd (cs : List Char) : List Char := (cs.reverse.dropWhile isBlank).reverse

def trim (cs : List Char) : List Char := trimEnd (trimStart cs)

end ModuleLinker.Text
