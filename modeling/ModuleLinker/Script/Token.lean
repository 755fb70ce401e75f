/-
# ModuleLinker.Script.Token -- the tokens of a script

`Token.scan` reads the token at a place. Two tokens cannot be told from their characters alone: a
slash may open a regular expression, and a closing brace may continue a template. Both are read
as punctuators, and the grammar rereads them where the other reading is meant.
-/

import ModuleLinker.Script.Literal

namespace ModuleLinker.Script

/-- What a token is. A word is an identifier or a keyword; `illegal` carries the offset at which
its characters stop making sense. -/
inductive TokenKind where
  | word (name : String) (escaped : Bool)
  | privateWord (name : String)
  | punctuator (text : String)
  | number (legacy : Bool)
  | string (value : String) (legacy : Bool)
  | regex
  | endOfText
  | illegal (offset : Nat)
deriving DecidableEq, Repr, Inhabited

/-- A token of a script. -/
structure Token where
  kind : TokenKind
  span : Span
  /-- Whether a line ends between this token and the one before it. -/
  lineBreak : Bool
  /-- Offsets of errors inside the token that do not stop the reading. -/
  faults : List Nat
deriving Repr, Inhabited

/-- A token and where it stands in the text. -/
structure Scanned extends Token where
  /-- The place of its first character. -/
  place : Cursor
  /-- The place behind it. -/
  next : Cursor
deriving Repr, Inhabited

/-! ## Words -/

/-- The characters of a word from a place on, and whether one of them was escaped; nothing if an
escape does not stand for a character of a word. The first `pending` characters belong to an
escape that was read already. -/
def readWord (first : Bool) : (pending offset : Nat) → List Char →
    Option (List Char × Bool × Cursor)
  | _, offset, [] => some ([], false, ⟨[], offset⟩)
  | pending + 1, offset, c :: rest => readWord first pending (offset + c.utf8Size) rest
  | 0, offset, c :: rest =>
    let fits := fun c => if first then Text.isIdentifierStart c else Text.isIdentifierPart c
    if c = '\\' then
      match rest with
      | 'u' :: after => do
        let (n, length) ← unicodeEscape? after
        guard (fits (Char.ofNat n))
        let (name, _, next) ← readWord false (length + 1) (offset + 1) rest
        return (Char.ofNat n :: name, true, next)
      | _ => none
    else if fits c then do
      let (name, escaped, next) ← readWord false 0 (offset + c.utf8Size) rest
      return (c :: name, escaped, next)
    else some ([], false, ⟨c :: rest, offset⟩)

/-! ## Punctuators -/

/-- The punctuators that begin with a character, longer ones in front of their beginnings. -/
def punctuatorsFrom : Char → List String
  | '>' => [">>>=", ">>>", ">>=", ">>", ">=", ">"]
  | '<' => ["<<=", "<<", "<=", "<"]
  | '=' => ["===", "==", "=>", "="]
  | '!' => ["!==", "!=", "!"]
  | '+' => ["++", "+=", "+"]
  | '-' => ["--", "-=", "-"]
  | '*' => ["**=", "**", "*=", "*"]
  | '/' => ["/=", "/"]
  | '%' => ["%=", "%"]
  | '&' => ["&&=", "&&", "&=", "&"]
  | '|' => ["||=", "||", "|=", "|"]
  | '^' => ["^=", "^"]
  | '~' => ["~"]
  | '?' => ["??=", "??", "?.", "?"]
  | '.' => ["...", "."]
  | '\x7b' => ["\x7b"]
  | '\x7d' => ["\x7d"]
  | '(' => ["("]
  | ')' => [")"]
  | '[' => ["["]
  | ']' => ["]"]
  | ';' => [";"]
  | ',' => [","]
  | ':' => [":"]
  | '`' => ["`"]
  | _ => []

/-- Whether a punctuator stands at the start of a text. A question mark and a point in front of a
digit are not one punctuator. -/
def startsWith (cs : List Char) (text : String) : Bool :=
  text.toList.isPrefixOf cs && !(text = "?." && (cs.drop 2).head?.any Char.isDigit)

/-- The longest punctuator at the start of a text. -/
def punctuator? : List Char → Option String
  | [] => none
  | c :: cs => (punctuatorsFrom c).find? (startsWith (c :: cs))

/-! ## Tokens -/

/-- Whether no word and no digit follows a number directly. -/
def endsNumber (cursor : Cursor) : Bool :=
  match cursor.rest with
  | [] => true
  | c :: _ => !(Text.isIdentifierStart c || c.isDigit || c = '\\')

/-- The kind of the token at a place, the errors inside it, and the place behind it. -/
def TokenKind.read (cursor : Cursor) : TokenKind × List Nat × Cursor :=
  let illegal := (.illegal cursor.offset, [], cursor)
  let number :=
    let number := Number.read cursor
    if number.valid && endsNumber number.next then (.number number.legacy, [], number.next)
    else illegal
  match cursor.rest with
  | [] => (.endOfText, [], cursor)
  | '#' :: rest =>
    match readWord true 0 (cursor.offset + 1) rest with
    | some (c :: name, _, next) => (.privateWord (String.ofList (c :: name)), [], next)
    | _ => illegal
  | '.' :: c :: _ =>
    if c.isDigit then number
    else
      let text := (punctuator? cursor.rest).getD "."
      (.punctuator text, [], cursor.skip text.length)
  | c :: rest =>
    if c = '"' ∨ c = '\'' then
      let body := StringBody.read c 0 (cursor.offset + 1) rest
      let kind := .string (String.ofList body.value) body.legacy
      match body.ending with
      | .closed => (kind, [], body.next)
      | .unterminated => (kind, [cursor.offset], body.next)
      | .malformed => (.illegal body.next.offset, [], body.next)
    else if c.isDigit then number
    else
      match punctuator? cursor.rest with
      | some text => (.punctuator text, [], cursor.skip text.length)
      | none =>
        match readWord true 0 cursor.offset (c :: rest) with
        | some (c :: name, escaped, next) =>
          (.word (String.ofList (c :: name)) escaped, [], next)
        | _ => illegal

/-- The token at a place; `lineStart` says that a line of the text begins there. -/
def Token.scan (cursor : Cursor) (lineStart : Bool) : Scanned :=
  let trivia := Trivia.atCursor cursor lineStart
  let (kind, faults, next) := TokenKind.read trivia.cursor
  let start := trivia.mark.getD trivia.cursor.offset
  { kind
    span := ⟨start, next.offset⟩
    lineBreak := trivia.lineBreak
    faults := trivia.unclosed.toList ++ faults
    place := trivia.cursor
    next }

/-- What comes behind a word, and any other token itself: only words are ever looked past. -/
def Scanned.behindWord (token : Scanned) : Scanned :=
  match token.kind with
  | .word _ _ => Token.scan token.next false
  | _ => token

/-- The place behind the slash that closes the regular expression at a place. -/
def regexClose? (place : Cursor) : Option Cursor :=
  match place.rest with
  | '/' :: body => regexEnd false (place.offset + 1) body
  | _ => none

/-- The regular expression that a slash opens. -/
def Scanned.asRegex (token : Scanned) : Scanned :=
  match regexClose? token.place with
  | none => { token with kind := .illegal token.span.start }
  | some close =>
    match readWord false 0 close.offset close.rest with
    | some (flags, escaped, next) =>
      { token with
        kind := .regex
        span := ⟨token.span.start, next.offset⟩
        faults := if regexFlagsValid flags && !escaped then [] else [token.span.start]
        next }
    | none => { token with kind := .illegal close.offset }

end ModuleLinker.Script
