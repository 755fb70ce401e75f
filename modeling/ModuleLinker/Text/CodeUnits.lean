/-
# ModuleLinker.Text.CodeUnits -- characters written as numbers

An escape inside a string may give a character by its number, or half of one: beyond U+FFFF a
character takes two 16-bit units, a high surrogate and a low one. `charsOf` puts the halves
together again.
-/

namespace ModuleLinker.Text

/-- The value of a hexadecimal digit. -/
def hexValue? (c : Char) : Option Nat :=
  if '0' ≤ c ∧ c ≤ '9' then some (c.toNat - 48)
  else if 'a' ≤ c ∧ c ≤ 'f' then some (c.toNat - 87)
  else if 'A' ≤ c ∧ c ≤ 'F' then some (c.toNat - 55)
  else none

/-- The number that hexadecimal digits spell. -/
def hexNumber? (digits : List Char) : Option Nat :=
  digits.foldlM (fun n c => (hexValue? c).map (n * 16 + ·)) 0

def isHighSurrogate (unit : Nat) : Bool := 0xD800 ≤ unit && unit < 0xDC00

def isLowSurrogate (unit : Nat) : Bool := 0xDC00 ≤ unit && unit < 0xE000

/-- Whether a number is half of a surrogate pair and no character by itself. -/
def isSurrogate (unit : Nat) : Bool := isHighSurrogate unit || isLowSurrogate unit

/-- The character that a surrogate pair encodes. -/
def surrogatePair (high low : Nat) : Char :=
  Char.ofNat (0x10000 + (high - 0xD800) * 0x400 + (low - 0xDC00))

/-- What one spelling inside a string stands for: a character, or a number of one that may be
half of a surrogate pair. -/
inductive Piece where
  | char (c : Char)
  | unit (n : Nat)

/-- The characters that pieces spell; there are none where half of a surrogate pair stands alone. -/
def charsOf : List Piece → Option (List Char)
  | [] => some []
  | .char c :: pieces => (charsOf pieces).map (c :: ·)
  | .unit high :: .unit low :: pieces =>
    if isHighSurrogate high ∧ isLowSurrogate low then
      (charsOf pieces).map (surrogatePair high low :: ·)
    else if isSurrogate high then none
    else (charsOf (.unit low :: pieces)).map (Char.ofNat high :: ·)
  | .unit n :: pieces => if isSurrogate n then none else (charsOf pieces).map (Char.ofNat n :: ·)

end ModuleLinker.Text
