/-
# ModuleLinker.Script.Literal -- the inside of literals

Scanners for what stands inside strings, templates, numbers and regular expressions. Each starts
at a place and reports the place where it stops. `legacy` marks spellings that strict code
refuses: octal escapes, and numbers that begin with a superfluous zero.
-/

import ModuleLinker.Script.Trivia
import ModuleLinker.Text.CodeUnits
import ModuleLinker.Text.Identifier

namespace ModuleLinker.Script

open Text

/-! ## Escapes -/

/-- A run of hexadecimal digits and the text behind it. -/
def hexRun : List Char → List Char × List Char
  | [] => ([], [])
  | c :: rest =>
    if (hexValue? c).isSome then
      let (digits, after) := hexRun rest
      (c :: digits, after)
    else
      ([], c :: rest)

/-- The number behind the first two characters of an escape by number, and how many characters it
takes: four hexadecimal digits, or any positive count of them in braces up to the largest code
point. -/
def unicodeEscape? : List Char → Option (Nat × Nat)
  | '\x7b' :: rest =>
    match hexRun rest with
    | (digits, '\x7d' :: _) => do
      guard (digits ≠ [])
      let n ← hexNumber? digits
      guard (n ≤ 0x10FFFF)
      return (n, digits.length + 2)
    | _ => none
  | a :: b :: c :: d :: _ => (hexNumber? [a, b, c, d]).map fun n => (n, 4)
  | _ => none

/-- Whether a character is an octal digit. -/
def isOctal (c : Char) : Bool := '0' ≤ c && c ≤ '7'

/-- The digits of an octal escape: at most three, and at most two when the first is above three. -/
def octalRun (cs : List Char) : List Char :=
  match cs with
  | a :: rest =>
    let limit := if a ≤ '3' then 2 else 1
    a :: (rest.take limit).takeWhile isOctal
  | [] => []

/-- The number that octal digits spell. -/
def octalNumber (digits : List Char) : Nat :=
  digits.foldl (fun n c => n * 8 + (c.toNat - 48)) 0

/-- What an escape by number stands for: its character, or its own spelling, of which `rest` is
what follows the first two characters, where the number is half of a surrogate pair. -/
def escapedChars (n : Nat) (rest : List Char) : List Char :=
  if isSurrogate n then '\\' :: 'u' :: rest else [Char.ofNat n]

/-- What a backslash and the characters behind it stand for; `length` counts those characters. -/
inductive Escape where
  | chars (chars : List Char) (legacy : Bool) (length : Nat)
  | lineContinuation (length : Nat)
  | malformed
  | cutOff

/-- What a backslash and a letter stand for, which is the letter itself for most. -/
def plainEscape : Char → Char
  | 'b' => '\x08'
  | 'f' => '\x0c'
  | 'n' => '\n'
  | 'r' => '\r'
  | 't' => '\t'
  | 'v' => '\x0b'
  | c => c

/-- Reads an escape behind its backslash. -/
def Escape.read : List Char → Escape
  | [] => .cutOff
  | '\r' :: '\n' :: _ => .lineContinuation 2
  | 'u' :: rest =>
    match unicodeEscape? rest with
    | some (n, length) => .chars (escapedChars n (rest.take length)) false (length + 1)
    | none => .malformed
  | 'x' :: a :: b :: _ =>
    match hexNumber? [a, b] with
    | some n => .chars [Char.ofNat n] false 3
    | none => .malformed
  | 'x' :: _ => .malformed
  | c :: rest =>
    if isLineEnd c then .lineContinuation 1
    else if c = '0' ∧ (rest.head?.map Char.isDigit) ≠ some true then .chars ['\x00'] false 1
    else if isOctal c then
      let digits := octalRun (c :: rest)
      .chars [Char.ofNat (octalNumber digits)] true digits.length
    else if c = '8' ∨ c = '9' then .chars [c] true 1
    else .chars [plainEscape c] false 1

/-! ## Strings -/

/-- How the inside of a string ends: at its quote, at a line end or the end of the text, or at
the backslash of a malformed escape. -/
inductive StringEnd where
  | closed
  | unterminated
  | malformed
deriving DecidableEq

/-- The inside of a string. -/
structure StringBody where
  value : List Char
  legacy : Bool
  ending : StringEnd
  next : Cursor

/-- Puts characters in front of a string. -/
def StringBody.prepend (chars : List Char) (legacy : Bool) (body : StringBody) : StringBody :=
  { body with value := chars ++ body.value, legacy := legacy || body.legacy }

/-- Reads a string behind its opening quote; the first `pending` characters belong to an escape
that was read already. -/
def StringBody.read (quote : Char) : (pending offset : Nat) → List Char → StringBody
  | _, offset, [] => ⟨[], false, .unterminated, ⟨[], offset⟩⟩
  | pending + 1, offset, c :: rest => read quote pending (offset + c.utf8Size) rest
  | 0, offset, c :: rest =>
    let next := offset + c.utf8Size
    if c = quote then ⟨[], false, .closed, ⟨rest, next⟩⟩
    else if c = '\n' ∨ c = '\r' then ⟨[], false, .unterminated, ⟨c :: rest, offset⟩⟩
    else if c = '\\' then
      match Escape.read rest with
      | .chars chars legacy length => (read quote length next rest).prepend chars legacy
      | .lineContinuation length => read quote length next rest
      | .malformed => ⟨[], false, .malformed, ⟨c :: rest, offset⟩⟩
      | .cutOff => ⟨[], false, .unterminated, ⟨rest, next⟩⟩
    else (read quote 0 next rest).prepend [c] false

/-! ## Templates -/

/-- A stretch of a template up to its end or to the next hole. -/
structure Chunk where
  /-- Whether the template ends here. -/
  ends : Bool
  /-- Whether every escape in it is well formed. -/
  valid : Bool
  /-- Whether the text ended first. -/
  cutOff : Bool
  next : Cursor

/-- Reads a stretch behind the mark that opens it; the first `pending` characters belong to an
escape that was read already. -/
def Chunk.read (valid : Bool) : (pending offset : Nat) → List Char → Chunk
  | _, offset, [] => ⟨true, valid, true, ⟨[], offset⟩⟩
  | pending + 1, offset, c :: rest => read valid pending (offset + c.utf8Size) rest
  | 0, offset, '$' :: '\x7b' :: rest => ⟨false, valid, false, ⟨rest, offset + 2⟩⟩
  | 0, offset, c :: rest =>
    let next := offset + c.utf8Size
    if c = '`' then ⟨true, valid, false, ⟨rest, next⟩⟩
    else if c = '\\' then
      match Escape.read rest with
      | .chars _ legacy length => read (valid && !legacy) length next rest
      | .lineContinuation length => read valid length next rest
      | .malformed => read false 1 next rest
      | .cutOff => ⟨true, valid, true, ⟨rest, next⟩⟩
    else read valid 0 next rest

/-! ## Numbers -/

/-- Reads digits with single underscores between them. The result says whether there are digits
and every underscore has one on both sides. -/
def readDigits (isDigit : Char → Bool) (afterDigit : Bool) (offset : Nat) :
    List Char → Bool × Cursor
  | [] => (afterDigit, ⟨[], offset⟩)
  | c :: rest =>
    if isDigit c then readDigits isDigit true (offset + 1) rest
    else if c = '_' then
      if afterDigit then readDigits isDigit false (offset + 1) rest
      else (false, ⟨c :: rest, offset⟩)
    else (afterDigit, ⟨c :: rest, offset⟩)

/-- A number. -/
structure Number where
  valid : Bool
  legacy : Bool
  next : Cursor

/-- Reads the digits of a base and the mark of a big integer. -/
def Number.readRadix (isDigit : Char → Bool) (cursor : Cursor) : Number :=
  let (valid, next) := readDigits isDigit false cursor.offset cursor.rest
  ⟨valid, false, if next.rest.head? = some 'n' then next.skip 1 else next⟩

/-- Reads the exponent of a number, if there is one. -/
def Number.readExponent (valid : Bool) (cursor : Cursor) : Bool × Cursor :=
  match cursor.rest with
  | e :: rest =>
    if e = 'e' ∨ e = 'E' then
      let signed := rest.head? = some '+' ∨ rest.head? = some '-'
      let digits := cursor.skip (if signed then 2 else 1)
      let (ok, next) := readDigits Char.isDigit false digits.offset digits.rest
      (valid && ok, next)
    else (valid, cursor)
  | [] => (valid, cursor)

/-- Reads a fraction and an exponent, or the mark of a big integer, behind the whole part of a
number. -/
def Number.readTail (valid legacy : Bool) (cursor : Cursor) : Number :=
  match cursor.rest with
  | 'n' :: _ => ⟨valid && !legacy, legacy, cursor.skip 1⟩
  | '.' :: c :: _ =>
    let digits := cursor.skip 1
    if c.isDigit ∨ c = '_' then
      let (ok, next) := readDigits Char.isDigit false digits.offset digits.rest
      let (valid, next) := readExponent (valid && ok) next
      ⟨valid, legacy, next⟩
    else
      let (valid, next) := readExponent valid digits
      ⟨valid, legacy, next⟩
  | '.' :: [] => ⟨valid, legacy, cursor.skip 1⟩
  | _ =>
    let (valid, next) := readExponent valid cursor
    ⟨valid, legacy, next⟩

/-- Reads a number at its first digit, or at the point in front of that digit. -/
def Number.read (cursor : Cursor) : Number :=
  match cursor.rest with
  | '0' :: c :: rest =>
    if c = 'x' ∨ c = 'X' then readRadix (fun c => (hexValue? c).isSome) (cursor.skip 2)
    else if c = 'o' ∨ c = 'O' then readRadix isOctal (cursor.skip 2)
    else if c = 'b' ∨ c = 'B' then readRadix (fun c => c = '0' || c = '1') (cursor.skip 2)
    else if c.isDigit then
      let digits := (c :: rest).takeWhile Char.isDigit
      let next := cursor.skip (digits.length + 1)
      if next.rest.head? = some '_' then ⟨false, true, next⟩
      else if digits.all isOctal then ⟨true, true, next⟩
      else readTail true true next
    else if c = '_' then ⟨false, false, cursor.skip 1⟩
    else readTail true false (cursor.skip 1)
  | '.' :: _ => readTail true false cursor
  | _ =>
    let (valid, next) := readDigits Char.isDigit false cursor.offset cursor.rest
    readTail valid false next

/-! ## Regular expressions -/

/-- The place behind the slash that closes a regular expression; a slash inside brackets does not
close it. -/
def regexEnd (inBrackets : Bool) (offset : Nat) : List Char → Option Cursor
  | [] => none
  | '\\' :: c :: rest =>
    if isLineEnd c then none else regexEnd inBrackets (offset + 1 + c.utf8Size) rest
  | c :: rest =>
    if isLineEnd c then none
    else if c = '/' ∧ ¬ inBrackets then some ⟨rest, offset + 1⟩
    else if c = '[' then regexEnd true (offset + 1) rest
    else if c = ']' then regexEnd false (offset + 1) rest
    else regexEnd inBrackets (offset + c.utf8Size) rest

/-- Whether flags of a regular expression are known and none is repeated. -/
def regexFlagsValid : List Char → Bool
  | [] => true
  | c :: flags => "dgimsuvy".toList.contains c && !flags.contains c && regexFlagsValid flags

end ModuleLinker.Script
