/-
# ModuleLinker.Script.Trivia -- what stands between tokens

A cursor is a place in a text: the characters that remain and the offset of the first of them.
Blanks, line ends and comments say nothing except where a line ends. Besides the two usual forms
there are comments that begin like those of HTML, with an opening mark anywhere and with a
closing mark at the start of a line; the token behind such a comment counts from the mark.
-/

import ModuleLinker.Text.Blank
import ModuleLinker.Text.Slice

namespace ModuleLinker.Script

/-- A place in a text. -/
structure Cursor where
  rest : List Char
  offset : Nat
deriving DecidableEq, Repr, Inhabited

namespace Cursor

/-- The place behind `n` characters. -/
def skip : (n : Nat) → Cursor → Cursor
  | 0, cursor => cursor
  | n + 1, ⟨c :: rest, offset⟩ => skip n ⟨rest, offset + c.utf8Size⟩
  | _ + 1, ⟨[], offset⟩ => ⟨[], offset⟩

end Cursor

/-- The characters that end a line of a script. -/
def isLineEnd (c : Char) : Bool :=
  c = '\n' || c = '\r' || c = '\u2028' || c = '\u2029'

/-- The characters that separate tokens without ending a line. -/
def isSpace (c : Char) : Bool :=
  (Text.isBlank c && !isLineEnd c) || c = Text.byteOrderMark

/-- Where a scan of trivia stands; a block comment knows where it opens. -/
inductive TriviaMode where
  | between
  | lineComment
  | blockComment (start : Nat)

/-- What separates two tokens. -/
structure Trivia where
  /-- The place of the next token. -/
  cursor : Cursor
  /-- Whether a line ends in between. -/
  lineBreak : Bool
  /-- Where the first comment with an HTML mark begins. -/
  mark : Option Nat
  /-- Where a comment opens that is still open at the end of the text. -/
  unclosed : Option Nat

/-- Scans trivia from a place on. -/
def Trivia.scan (mode : TriviaMode) (lineBreak : Bool) (mark : Option Nat) (offset : Nat)
    (cs : List Char) : Trivia :=
  match mode, cs with
  | .blockComment start, [] => ⟨⟨[], offset⟩, lineBreak, mark, some start⟩
  | _, [] => ⟨⟨[], offset⟩, lineBreak, mark, none⟩
  | .lineComment, c :: rest =>
    let next := offset + c.utf8Size
    if isLineEnd c then scan .between true mark next rest
    else scan .lineComment lineBreak mark next rest
  | .blockComment _, '*' :: '/' :: rest => scan .between lineBreak mark (offset + 2) rest
  | .blockComment start, c :: rest =>
    scan (.blockComment start) (lineBreak || isLineEnd c) mark (offset + c.utf8Size) rest
  | .between, '/' :: '/' :: rest => scan .lineComment lineBreak mark (offset + 2) rest
  | .between, '/' :: '*' :: rest => scan (.blockComment offset) lineBreak mark (offset + 2) rest
  | .between, '<' :: '!' :: '-' :: '-' :: rest =>
    scan .lineComment lineBreak (mark.or (some offset)) (offset + 4) rest
  | .between, '-' :: '-' :: '>' :: rest =>
    if lineBreak then scan .lineComment lineBreak (mark.or (some offset)) (offset + 3) rest
    else ⟨⟨'-' :: '-' :: '>' :: rest, offset⟩, lineBreak, mark, none⟩
  | .between, c :: rest =>
    if isLineEnd c then scan .between true mark (offset + c.utf8Size) rest
    else if isSpace c then scan .between lineBreak mark (offset + c.utf8Size) rest
    else ⟨⟨c :: rest, offset⟩, lineBreak, mark, none⟩

/-- The trivia at a place; `lineStart` says that a line begins there. -/
def Trivia.atCursor (cursor : Cursor) (lineStart : Bool) : Trivia :=
  scan .between lineStart none cursor.offset cursor.rest

end ModuleLinker.Script
