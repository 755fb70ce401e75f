/-
# ModuleLinker.Script.Program -- reading whole scripts

`Program.read` turns a text into the list of its statements. A byte order mark in front of the
script is not part of it, and no position inside the script knows of the mark. A first line that
begins with a number sign and an exclamation mark is skipped. A script in which something stops
the reading, or in which an error was noted, is no list of statements; one that imports or exports
is none either, although it may be read to its end. Why a script cannot be read is said in words of
the parser's own (`ParserWording`), which are handed on as they are.
-/

import ModuleLinker.Script.Grammar.Declaration

namespace ModuleLinker.Script

open Reader

namespace Grammar

/-! ## Statements -/

/-- A statement that begins with a word. -/
def wordStatement (g : Grammar) (ctx : Context) (nested : Bool) (token : Token) (name : String) :
    Reader Stmt := do
  let start := token.span.start
  let inner := { ctx with openLabels := [], declarations := false }
  let next ← peek
  match name with
  | "var" => g.variableStatement inner "var"
  | "const" =>
    if nested then note start
    g.variableStatement inner "const"
  | "let" =>
    let opens := opensVariables token next
    let isName := nested && !isPunctuator next "[" && next.lineBreak
    if opens && !isName then
      if nested then throw start
      g.variableStatement inner "let"
    else g.expressionStatement ctx
  | "function" =>
    if nested then throw start
    let _ ← advance
    g.functionDeclaration inner start false
  | "async" =>
    if isWord next "function" && !next.lineBreak then
      if nested then throw start
      let _ ← advance
      let _ ← advance
      g.functionDeclaration inner start true
    else g.expressionStatement ctx
  | "class" =>
    if nested then throw start
    let _ ← advance
    g.classDeclaration inner start
  | "if" =>
    let _ ← advance
    g.ifRest inner start
  | "for" =>
    let _ ← advance
    g.forStatement ctx start
  | "while" =>
    let _ ← advance
    g.whileRest ctx start
  | "do" =>
    let _ ← advance
    g.doRest ctx start
  | "break" =>
    let _ ← advance
    jump inner start .breakOut
  | "continue" =>
    let _ ← advance
    jump inner start .continueOn
  | "return" =>
    let _ ← advance
    g.returnRest inner start
  | "throw" =>
    let _ ← advance
    g.throwRest inner start
  | "try" =>
    let _ ← advance
    g.tryRest inner start
  | "switch" =>
    let _ ← advance
    g.switchRest inner start
  | "with" =>
    noteStrict ctx start
    let _ ← advance
    let value ← g.condition inner
    let body ← g.statement inner true
    group start .withObject [.expression value, .statement body]
  | "debugger" =>
    let _ ← advance
    semicolon
    group start .debugger []
  | "import" =>
    if isPunctuator next "(" || isPunctuator next "." then g.expressionStatement ctx
    else
      let _ ← advance
      g.declaration ctx start true
  | "export" =>
    let _ ← advance
    g.declaration ctx start false
  | _ => g.expressionStatement ctx

/-- A statement. Only at the top of the text can it be an import or export declaration. -/
def anyStatement (g : Grammar) (ctx : Context) (nested : Bool) : Reader Stmt := do
  let token ← current
  let ctx := if nested then { ctx with declarations := false } else ctx
  match token.kind with
  | .punctuator "\x7b" =>
    let stmts ← g.block { ctx with openLabels := [], declarations := false }
    group token.span.start .block (stmts.map .statement)
  | .punctuator ";" =>
    let _ ← advance
    group token.span.start .empty []
  | .word name false => g.wordStatement ctx nested token name
  | _ => g.expressionStatement ctx

/-! ## The recursive readers -/

/-- Readers that do not recurse any deeper. -/
def exhausted : Grammar where
  steps := 0
  assignment _ := stop
  unary _ := stop
  binary _ _ := stop
  operand _ := stop
  pattern _ := stop
  statement _ _ := stop

/-- Readers that recurse to the given depth. -/
def ofDepth : (depth : Nat) → Grammar
  | 0 => exhausted
  | depth + 1 =>
    { steps := depth + 1
      assignment := fun ctx => (ofDepth depth).assignmentExpression ctx
      unary := fun ctx => (ofDepth depth).unaryExpression ctx
      binary := fun ctx limit => (ofDepth depth).binaryExpression ctx limit
      operand := fun ctx => (ofDepth depth).primary ctx
      pattern := fun ctx => (ofDepth depth).bindingTarget ctx
      statement := fun ctx nested => (ofDepth depth).anyStatement ctx nested }

end Grammar

/-! ## Scripts -/

/-- Why a text is not a list of statements. -/
inductive NotAScript where
  /-- An error at an offset of the text. -/
  | syntaxError (offset : Nat)
  /-- The text imports or exports. -/
  | declarations
deriving DecidableEq, Repr

/-- A parser, as far as its words go: what it says about a script that it cannot read. -/
class ParserWording where
  complaint : List Char → String

/-- A parser that does not say what is wrong. -/
instance (priority := low) ParserWording.silent : ParserWording where
  complaint _ := ""

/-- The statements of a script and the offset at which the script begins in its text. All spans
in the statements count from there. -/
structure Program where
  statements : List Stmt
  origin : Nat

namespace Program

/-- Moves to the end of a line. -/
def lineEnd (offset : Nat) : List Char → Cursor
  | [] => ⟨[], offset⟩
  | c :: rest => if isLineEnd c then ⟨c :: rest, offset⟩ else lineEnd (offset + c.utf8Size) rest

/-- The place behind a first line that names an interpreter. -/
def afterInterpreter : List Char → Cursor
  | '#' :: '!' :: rest => lineEnd 2 rest
  | script => ⟨script, 0⟩

/-- The reader at the first token of a script. -/
def begin (script : List Char) : Progress :=
  let cursor := afterInterpreter script
  let token := Token.scan cursor true
  { token, lastStop := cursor.offset, faults := token.faults }

/-- Reads statements to the end of a script. -/
def toEnd (script : List Char) : Reader (List Stmt) := do
  let g := Grammar.ofDepth (2 * script.length + 4)
  let ctx : Context := { awaitTop := true, declarations := true }
  let (strict, stmts) ← g.statements ctx true g.steps
  unless (← current).kind = .endOfText do stop
  if strict then becomeStrict 0
  return stmts

/-- The errors noted in a script, in the order in which they were noted. -/
def errors (state : Progress) : List Nat :=
  state.faults.reverse ++ state.patternOnly.reverse ++ (state.privateUses.map (·.2)).reverse ++
    (if state.isModule then state.strictFaults.reverse else [])

/-- The statements of a script. -/
def readScript (script : List Char) : Except NotAScript (List Stmt) :=
  match (toEnd script).run (begin script) with
  | .error offset => .error (.syntaxError offset)
  | .ok (stmts, state) =>
    match errors state with
    | offset :: _ => .error (.syntaxError offset)
    | [] => if state.hasDeclarations then .error .declarations else .ok stmts

/-- The offset at which the script begins, and the script. -/
def scriptOf : List Char → Nat × List Char
  | [] => (0, [])
  | c :: rest => if c = Text.byteOrderMark then (c.utf8Size, rest) else (0, c :: rest)

/-- What the parser says about a text that it cannot read. -/
def complaint [ParserWording] (text : List Char) : String :=
  ParserWording.complaint (scriptOf text).2

/-- The program that a text holds. -/
def read (text : List Char) : Except NotAScript Program :=
  let (origin, script) := scriptOf text
  match readScript script with
  | .ok statements => .ok ⟨statements, origin⟩
  | .error (.syntaxError offset) => .error (.syntaxError (offset + origin))
  | .error .declarations => .error .declarations

end Program

end ModuleLinker.Script
