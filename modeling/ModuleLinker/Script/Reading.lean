/-
# ModuleLinker.Script.Reading -- reading a script token by token

A reader goes over the tokens of a text. It either stops at an offset where no script can go on,
or goes on and notes the offsets of errors that do not stop it. Spellings that only strict code
refuses are noted apart, because it may turn out later that the code around them is strict.
-/

import ModuleLinker.Script.Token
import ModuleLinker.Script.Tree

namespace ModuleLinker.Script

/-- Where a reader stands. Lists of offsets have the latest first. -/
structure Progress where
  /-- The token that is read next. -/
  token : Scanned
  /-- Where the token before it ends. -/
  lastStop : Nat
  /-- Errors that did not stop the reading. -/
  faults : List Nat := []
  /-- What would be an error in strict code. -/
  strictFaults : List Nat := []
  /-- Properties that only a pattern may have, as long as they are not part of one. -/
  patternOnly : List Nat := []
  /-- Spread elements with a comma behind them, which no pattern may have. -/
  spreadCommas : List Nat := []
  /-- Private names that no enclosing class has declared so far. -/
  privateUses : List (String × Nat) := []
  /-- Whether something was read that only modules have. -/
  isModule : Bool := false
  /-- Whether a declaration was read that imports or exports. -/
  hasDeclarations : Bool := false
deriving Inhabited

/-- Goes on at a place of the text. -/
def Progress.goOn (cursor : Cursor) (state : Progress) : Progress :=
  let token := Token.scan cursor false
  { state with
    token, lastStop := cursor.offset, faults := token.faults.reverse ++ state.faults }

/-- A reader of some part of a script; its error is the offset where it stops. -/
abbrev Reader := StateT Progress (Except Nat)

/-- What the code around a place allows there. -/
structure Context where
  strict : Bool := false
  /-- Whether `in` is an operator here. -/
  allowIn : Bool := true
  /-- Whether this is the body or the parameters of a function. -/
  inFunction : Bool := false
  inAsync : Bool := false
  inGenerator : Bool := false
  inParameters : Bool := false
  /-- Whether `await` may not be a name. -/
  awaitReserved : Bool := false
  /-- Whether `await` outside of functions is an operator. -/
  awaitTop : Bool := false
  /-- Whether import and export declarations may stand here. -/
  declarations : Bool := false
  inLoop : Bool := false
  inSwitch : Bool := false
  /-- The labels around this place, those of loops among them, and those of this statement. -/
  labels : List String := []
  loopLabels : List String := []
  openLabels : List String := []
  superMember : Bool := false
  superCall : Bool := false
  newTarget : Bool := false
  /-- Whether this is a field or a static block of a class, where `arguments` means nothing. -/
  inClassField : Bool := false
  /-- The offset at which an arrow function may begin. -/
  arrowAt : Option Nat := none

namespace Reader

/-! ## Tokens -/

/-- The token that is read next. -/
def current : Reader Token := return (← get).token.toToken

/-- The offset at which a token makes no sense. -/
def complaint (token : Token) : Nat :=
  match token.kind with
  | .illegal offset => offset
  | _ => token.span.start

/-- Stops at the next token. -/
def stop : Reader α := do throw (complaint (← current))

/-- Takes the next token and moves behind it; there is nothing to take at the end of the text. -/
def advance : Reader Token := do
  let state ← get
  match state.token.kind with
  | .illegal offset => throw offset
  | .endOfText => throw state.token.span.start
  | _ =>
    set (state.goOn state.token.next)
    return state.token.toToken

/-- The token behind the next one, if that is a word. -/
def peek : Reader Token := return (← get).token.behindWord.toToken

/-- The token behind the next two, if they are words. -/
def peekBeyond : Reader Token := return (← get).token.behindWord.behindWord.toToken

def isPunctuator (token : Token) (text : String) : Bool := token.kind = .punctuator text

/-- Whether a token is the given word, written without escapes. -/
def isWord (token : Token) (name : String) : Bool := token.kind = .word name false

def at? (text : String) : Reader Bool := return isPunctuator (← current) text

def atWord? (name : String) : Reader Bool := return isWord (← current) name

/-- Takes a punctuator if it is next. -/
def eat (text : String) : Reader Bool := do
  if ← at? text then
    let _ ← advance
    return true
  else return false

/-- Takes the regular expression that the slash of the next token opens. -/
def advanceRegex : Reader Token := do
  let state ← get
  unless isPunctuator state.token.toToken "/" || isPunctuator state.token.toToken "/=" do stop
  let regex := state.token.asRegex
  set { state with token := regex, faults := regex.faults.reverse ++ state.faults }
  advance

/-- Takes a word if it is next. -/
def eatWord (name : String) : Reader Bool := do
  if ← atWord? name then
    let _ ← advance
    return true
  else return false

def expect (text : String) : Reader Unit := do
  unless ← eat text do stop

def expectWord (name : String) : Reader Unit := do
  unless ← eatWord name do stop

/-- Where the next token starts. -/
def here : Reader Nat := return (← current).span.start

/-- The span from a start to the end of the last token. -/
def spanFrom (start : Nat) : Reader Span := return ⟨start, (← get).lastStop⟩

/-- The end of a statement: a semicolon, or a place where one may be left out. -/
def semicolon : Reader Unit := do
  let token ← current
  if isPunctuator token ";" then
    let _ ← advance
  else
    unless isPunctuator token "\x7d" || token.kind = .endOfText || token.lineBreak do stop

/-! ## Errors that do not stop the reading -/

/-- Notes an error. -/
def note (offset : Nat) : Reader Unit :=
  modify fun state => { state with faults := offset :: state.faults }

/-- Notes an error of strict code. -/
def noteStrict (ctx : Context) (offset : Nat) : Reader Unit := do
  if ctx.strict then note offset
  modify fun state => { state with strictFaults := offset :: state.strictFaults }

/-- How many errors of strict code were noted so far. -/
def strictMark : Reader Nat := return (← get).strictFaults.length

/-- The code since a mark turned out to be strict. -/
def becomeStrict (mark : Nat) : Reader Unit :=
  modify fun state =>
    let since := state.strictFaults.take (state.strictFaults.length - mark)
    { state with faults := since ++ state.faults }

def noteModule : Reader Unit := modify fun state => { state with isModule := true }

def notePatternOnly (offset : Nat) : Reader Unit :=
  modify fun state => { state with patternOnly := offset :: state.patternOnly }

/-- The property at an offset became part of a pattern. -/
def acceptInPattern (offset : Nat) : Reader Unit :=
  modify fun state => { state with patternOnly := state.patternOnly.filter (· ≠ offset) }

def noteSpreadComma (offset : Nat) : Reader Unit :=
  modify fun state => { state with spreadCommas := offset :: state.spreadCommas }

/-- Whether a comma stands behind the spread element at an offset. -/
def hasSpreadComma (offset : Nat) : Reader Bool :=
  return (← get).spreadCommas.contains offset

def notePrivateUse (name : String) (offset : Nat) : Reader Unit :=
  modify fun state => { state with privateUses := (name, offset) :: state.privateUses }

/-- Puts the private names aside that were used so far. -/
def takePrivateUses : Reader (List (String × Nat)) := do
  let uses := (← get).privateUses
  modify fun state => { state with privateUses := [] }
  return uses

/-- Settles the uses of declared private names, and brings back those that were put aside. -/
def settlePrivateUses (declared : List String) (aside : List (String × Nat)) : Reader Unit :=
  modify fun state =>
    { state with
      privateUses := state.privateUses.filter (fun use => !declared.contains use.1) ++ aside }

/-- Reads something with nothing noted so far, and puts its notes in front of the earlier ones. -/
def apart (reader : Reader α) : Reader α := do
  let before ← get
  set ({ token := before.token, lastStop := before.lastStop } : Progress)
  let result ← reader
  modify fun after =>
    { after with
      faults := after.faults ++ before.faults
      strictFaults := after.strictFaults ++ before.strictFaults
      patternOnly := after.patternOnly ++ before.patternOnly
      spreadCommas := after.spreadCommas ++ before.spreadCommas
      privateUses := after.privateUses ++ before.privateUses
      isModule := after.isModule || before.isModule
      hasDeclarations := after.hasDeclarations || before.hasDeclarations }
  return result

/-! ## Names -/

/-- Words that are never names. -/
def reservedWords : List String :=
  ["break", "case", "catch", "class", "const", "continue", "debugger", "default", "delete", "do",
    "else", "enum", "export", "extends", "false", "finally", "for", "function", "if", "import",
    "in", "instanceof", "new", "null", "return", "super", "switch", "this", "throw", "true",
    "try", "typeof", "var", "void", "while", "with"]

/-- Words that are not names in strict code. -/
def strictWords : List String :=
  ["implements", "interface", "let", "package", "private", "protected", "public", "static",
    "yield"]

/-- Checks that a word may be a name here. -/
def checkName (ctx : Context) (name : String) (offset : Nat) : Reader Unit := do
  if name ∈ reservedWords then throw offset
  if name ∈ strictWords then noteStrict ctx offset
  if name = "yield" ∧ ctx.inGenerator then note offset
  if name = "await" ∧ (ctx.inAsync ∨ ctx.awaitReserved) then note offset
  if name = "arguments" ∧ ctx.inClassField then note offset

/-- Strict code binds neither `eval` nor `arguments`. -/
def checkBound (ctx : Context) (name : String) (offset : Nat) : Reader Unit := do
  if name = "eval" ∨ name = "arguments" then noteStrict ctx offset

/-- A name that is bound here. -/
def bindingName (ctx : Context) : Reader (Span × String) := do
  let token ← current
  match token.kind with
  | .word name _ =>
    checkName ctx name token.span.start
    checkBound ctx name token.span.start
    let _ ← advance
    return (token.span, name)
  | _ => stop

/-! ## Repetition -/

/-- Reads items up to a closing punctuator, with a comma between any two and possibly one behind
the last; `steps` bounds their number. -/
def commaList (closer : String) (item : Reader α) : (steps : Nat) → Reader (List α)
  | 0 => stop
  | steps + 1 => do
    if ← eat closer then return []
    let first ← item
    unless ← at? closer do expect ","
    let rest ← commaList closer item steps
    return first :: rest

/-- Reads items while one more is wanted; `steps` bounds their number. -/
def many (more : Reader Bool) (item : Reader α) : (steps : Nat) → Reader (List α)
  | 0 => stop
  | steps + 1 => do
    if ← more then
      let first ← item
      let rest ← many more item steps
      return first :: rest
    else return []

end Reader

end ModuleLinker.Script
