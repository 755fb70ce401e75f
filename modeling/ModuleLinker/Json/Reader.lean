/-
# ModuleLinker.Json.Reader -- reading JSON documents

`Json.ofString?` reads a whole text as one document with blanks around it. Numbers follow the
JSON grammar (no leading zero, no leading plus, digits on both sides of a point), strings may not
hold a raw control character, and nothing may follow the document.
-/

import ModuleLinker.Json.Value
import ModuleLinker.Text.CodeUnits

namespace ModuleLinker.Json

open Text

/-! ## Tokens -/

def skipBlanks (cs : List Char) : List Char :=
  cs.dropWhile fun c => c = ' ' || c = '\n' || c = '\t' || c = '\r'

/-- The character that a one-letter escape stands for. -/
def shortEscape? (c : Char) : Option Char :=
  if c = '"' ∨ c = '\\' ∨ c = '/' then some c
  else if c = 'b' then some '\x08'
  else if c = 'f' then some '\x0C'
  else if c = 'n' then some '\n'
  else if c = 'r' then some '\r'
  else if c = 't' then some '\t'
  else none

/-- The pieces up to the closing quote, and what follows the quote. -/
def readPieces : List Char → Option (List Piece × List Char)
  | [] => none
  | '"' :: rest => some ([], rest)
  | '\\' :: 'u' :: a :: b :: c :: d :: rest => do
    let unit ← hexNumber? [a, b, c, d]
    let (pieces, after) ← readPieces rest
    return (.unit unit :: pieces, after)
  | '\\' :: c :: rest => do
    let char ← shortEscape? c
    let (pieces, after) ← readPieces rest
    return (.char char :: pieces, after)
  | c :: rest => do
    guard (c ≠ '\\' ∧ 0x20 ≤ c.toNat)
    let (pieces, after) ← readPieces rest
    return (.char c :: pieces, after)

/-- The text up to the closing quote, `none` if an unpaired surrogate is in it, and what follows
the quote. -/
def readString (cs : List Char) : Option (Option String × List Char) :=
  (readPieces cs).map fun (pieces, after) => ((charsOf pieces).map String.ofList, after)

/-- At least one digit, and what follows the digits. -/
def readDigits (cs : List Char) : Option (List Char × List Char) :=
  let digits := cs.takeWhile Char.isDigit
  if digits.isEmpty then none else some (digits, cs.dropWhile Char.isDigit)

/-- The whole part of a number: a zero, or digits that do not begin with one. -/
def readWhole : List Char → Option (List Char × List Char)
  | '0' :: rest =>
    match rest with
    | d :: _ => if d.isDigit then none else some (['0'], rest)
    | [] => some (['0'], rest)
  | cs => readDigits cs

/-- The part of a number after the point, if there is one. -/
def readFraction : List Char → Option (List Char × List Char)
  | '.' :: rest => (readDigits rest).map fun (digits, after) => ('.' :: digits, after)
  | cs => some ([], cs)

/-- The exponent of a number, if there is one. -/
def readExponent : List Char → Option (List Char × List Char)
  | c :: rest =>
    if c = 'e' ∨ c = 'E' then
      match rest with
      | s :: rest' =>
        if s = '+' ∨ s = '-' then
          (readDigits rest').map fun (digits, after) => (c :: s :: digits, after)
        else
          (readDigits rest).map fun (digits, after) => (c :: digits, after)
      | [] => none
    else
      some ([], c :: rest)
  | [] => some ([], [])

/-- A number without its sign. -/
def readUnsigned (cs : List Char) : Option (List Char × List Char) := do
  let (whole, cs) ← readWhole cs
  let (fraction, cs) ← readFraction cs
  let (exponent, cs) ← readExponent cs
  return (whole ++ fraction ++ exponent, cs)

def readNumber : List Char → Option (List Char × List Char)
  | '-' :: rest => (readUnsigned rest).map fun (digits, after) => ('-' :: digits, after)
  | cs => readUnsigned cs

/-! ## Documents -/

mutual

/-- A document at the start of the text, and what follows it; `steps` bounds the depth. -/
def readValue : (steps : Nat) → List Char → Option (Json × List Char)
  | 0, _ => none
  | steps + 1, cs =>
    match skipBlanks cs with
    | 'n' :: 'u' :: 'l' :: 'l' :: rest => some (.null, rest)
    | 't' :: 'r' :: 'u' :: 'e' :: rest => some (.bool true, rest)
    | 'f' :: 'a' :: 'l' :: 's' :: 'e' :: rest => some (.bool false, rest)
    | '"' :: rest =>
      (readString rest).map fun (text, after) => (.string text, after)
    | '[' :: rest =>
      match skipBlanks rest with
      | ']' :: after => some (.array [], after)
      | _ => (readItems steps rest).map fun (items, after) => (.array items, after)
    | '\x7b' :: rest =>
      match skipBlanks rest with
      | '\x7d' :: after => some (.object [], after)
      | _ => (readFields steps rest).map fun (fields, after) => (.object fields, after)
    | cs => (readNumber cs).map fun (digits, after) => (.number (String.ofList digits), after)

/-- The items of an array up to its closing bracket. -/
def readItems : (steps : Nat) → List Char → Option (List Json × List Char)
  | 0, _ => none
  | steps + 1, cs =>
    match readValue steps cs with
    | none => none
    | some (item, rest) =>
      match skipBlanks rest with
      | ',' :: rest => (readItems steps rest).map fun (items, after) => (item :: items, after)
      | ']' :: after => some ([item], after)
      | _ => none

/-- The fields of an object up to its closing brace. -/
def readFields : (steps : Nat) → List Char → Option (List (Option String × Json) × List Char)
  | 0, _ => none
  | steps + 1, cs =>
    match skipBlanks cs with
    | '"' :: rest =>
      match readString rest with
      | none => none
      | some (name, rest) =>
        match skipBlanks rest with
        | ':' :: rest =>
          match readValue steps rest with
          | none => none
          | some (value, rest) =>
            match skipBlanks rest with
            | ',' :: rest =>
              (readFields steps rest).map fun (fields, after) => ((name, value) :: fields, after)
            | '\x7d' :: after => some ([(name, value)], after)
            | _ => none
        | _ => none
    | _ => none

end

/-- The document that a whole text spells. -/
def ofString? (text : String) : Option Json :=
  let cs := text.toList
  match readValue (cs.length + 1) cs with
  | some (value, rest) => if (skipBlanks rest).isEmpty then some value else none
  | none => none

end ModuleLinker.Json
