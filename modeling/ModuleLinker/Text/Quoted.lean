/-
# ModuleLinker.Text.Quoted -- double-quoted text

The quoted form of a text is at once a string of a JSON document and a string literal of a
script. Quotes and backslashes are escaped by a backslash, the control characters below U+0020
by their short name where they have one and by four hexadecimal digits otherwise; every other
character stands for itself. The quoted form of a text therefore has no line break in it.
-/

namespace ModuleLinker.Text

/-- The lower-case hexadecimal digit of a number below sixteen. -/
def hexDigit (n : Nat) : Char :=
  if n < 10 then Char.ofNat (48 + n) else Char.ofNat (87 + n)

/-- The characters that stand for `c` between the quotes. -/
def escaped (c : Char) : List Char :=
  if c = '"' then ['\\', '"']
  else if c = '\\' then ['\\', '\\']
  else if c.toNat < 0x20 then
    if c.toNat = 0x08 then ['\\', 'b']
    else if c = '\t' then ['\\', 't']
    else if c = '\n' then ['\\', 'n']
    else if c.toNat = 0x0C then ['\\', 'f']
    else if c = '\r' then ['\\', 'r']
    else ['\\', 'u', '0', '0', hexDigit (c.toNat / 16), hexDigit (c.toNat % 16)]
  else [c]

/-- A text between double quotes. -/
def quotedChars (cs : List Char) : List Char :=
  '"' :: (cs.flatMap escaped ++ ['"'])

/-- A text between double quotes. -/
def quoted (text : String) : String :=
  String.ofList (quotedChars text.toList)

@[simp] theorem toList_quoted (text : String) :
    (quoted text).toList = quotedChars text.toList := by
  simp [quoted]

end ModuleLinker.Text
