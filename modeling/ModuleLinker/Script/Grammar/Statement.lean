/-
# ModuleLinker.Script.Grammar.Statement -- declarations, loops and other statements

The statements of a script. A nested statement, such as the body of a loop, may not be a
declaration.
-/

import ModuleLinker.Script.Grammar.Operator

namespace ModuleLinker.Script

open Reader

namespace Grammar

/-- A group of parts that began at `start`. -/
def group (start : Nat) (layout : Layout) (parts : List Part) : Reader Stmt :=
  return .group (← spanFrom start) layout parts

/-- The context of a statement inside a loop, whose own labels can be continued. -/
def loopContext (ctx : Context) : Context :=
  { ctx with
    inLoop := true
    loopLabels := ctx.openLabels ++ ctx.loopLabels
    openLabels := [] }

/-! ## Variables -/

/-- Whether a word opens a declaration of variables, given the token behind it. A `let` may also
be a name. -/
def opensVariables (token next : Token) : Bool :=
  if isWord token "var" || isWord token "const" then true
  else if isWord token "let" then
    match next.kind with
    | .word name escaped =>
      escaped || !reservedWords.contains name
    | .punctuator text => text = "[" || text = "\x7b"
    | _ => false
  else false

/-- Whether a declaration without a first value is an error outside of the head of a loop. -/
def needsValue (constant : Bool) : Pattern → Bool
  | .name _ _ => constant
  | _ => true

/-- One declared pattern with its first value, and where it starts. -/
def declarator (g : Grammar) (ctx : Context) (lexical : Bool) : Reader (Nat × Declarator) := do
  let start ← here
  if lexical && (← atWord? "let") then note start
  let pattern ← g.bindingTarget ctx
  if ← eat "=" then
    let value ← g.assignment ctx
    return (start, .mk pattern (some value))
  else return (start, .mk pattern none)

/-- The declarators behind the word that opens them, and whether a first value is missing
somewhere. -/
def declarators (g : Grammar) (ctx : Context) (kind : String) :
    Reader (List Declarator × Option Nat) := do
  let lexical := kind ≠ "var"
  let first ← g.declarator ctx lexical
  let others ←
    many (at? ",") (do let _ ← advance; g.declarator ctx lexical) g.steps
  let all := first :: others
  let missing := all.findSome? fun
    | (start, .mk pattern none) => if needsValue (kind = "const") pattern then some start else none
    | _ => none
  return (all.map (·.2), missing)

/-- Notes that a first value is missing. -/
def noteMissing (missing : Option Nat) : Reader Unit :=
  match missing with
  | some offset => note offset
  | none => return

/-- A declaration of variables. -/
def variableStatement (g : Grammar) (ctx : Context) (kind : String) : Reader Stmt := do
  let start ← here
  let _ ← advance
  let declared ← g.declarators ctx kind
  noteMissing declared.2
  semicolon
  return .declaration (← spanFrom start) declared.1

/-! ## Blocks and branches -/

/-- Statements in braces. -/
def block (g : Grammar) (ctx : Context) : Reader (List Stmt) := do
  expect "\x7b"
  let (_, stmts) ← g.statements ctx false g.steps
  expect "\x7d"
  return stmts

/-- The condition of a statement, in its parentheses. -/
def condition (g : Grammar) (ctx : Context) : Reader Expr := do
  expect "("
  let test ← g.expression ctx
  expect ")"
  return test

/-- A branch of a conditional statement, which in sloppy code may be a function. -/
def branch (g : Grammar) (ctx : Context) : Reader Stmt := do
  if ← atWord? "function" then
    let start ← here
    noteStrict ctx start
    let _ ← advance
    if ← at? "*" then note start
    let (name, code) ← g.functionRest ctx false false
    return .function (← spanFrom start) name code
  else g.statement ctx true

/-- A conditional statement behind its word. -/
def ifRest (g : Grammar) (ctx : Context) (start : Nat) : Reader Stmt := do
  let test ← g.condition ctx
  let yes ← g.branch ctx
  let no ← if ← eatWord "else" then do
      let no ← g.branch ctx
      pure [Part.statement no]
    else pure []
  group start .conditional (.expression test :: .statement yes :: no)

/-- One case of a `switch`, and whether it is the default. -/
def switchCase (g : Grammar) (ctx : Context) : Reader (Bool × Nat × Stmt) := do
  let start ← here
  let test ←
    if ← eatWord "default" then pure []
    else do
      expectWord "case"
      let test ← g.expression ctx
      pure [Part.expression test]
  expect ":"
  let more := do
    return !((← atWord? "case") || (← atWord? "default") || (← at? "\x7d"))
  let stmts ← many more (g.statement ctx false) g.steps
  let stmt ← group start .case (test ++ stmts.map .statement)
  return (test.isEmpty, start, stmt)

/-- A `switch` behind its word. -/
def switchRest (g : Grammar) (ctx : Context) (start : Nat) : Reader Stmt := do
  let value ← g.condition ctx
  expect "\x7b"
  let cases ←
    many (do return !(← at? "\x7d")) (g.switchCase { ctx with inSwitch := true }) g.steps
  expect "\x7d"
  let defaults := cases.filterMap fun (isDefault, offset, _) =>
    if isDefault then some offset else none
  (defaults.drop 1).forM note
  group start .switch (.expression value :: cases.map fun (_, _, stmt) => .statement stmt)

/-- The parameter of a handler, which may be left out. -/
def handlerParameter (g : Grammar) (ctx : Context) : Reader (List Part) := do
  if ← eat "(" then
    let pattern ← g.bindingTarget ctx
    expect ")"
    return [.binding pattern]
  else return []

/-- The handler of a `try`, if there is one. -/
def handler (g : Grammar) (ctx : Context) : Reader (List Part) := do
  let start ← here
  if ← eatWord "catch" then
    let param ← g.handlerParameter ctx
    let stmts ← g.block ctx
    let stmt ← group start .handler (param ++ stmts.map .statement)
    return [.statement stmt]
  else return []

/-- The last block of a `try`, if there is one. -/
def finalizer (g : Grammar) (ctx : Context) : Reader (List Part) := do
  let start ← here
  if ← eatWord "finally" then
    let stmts ← g.block ctx
    let stmt ← group start .block (stmts.map .statement)
    return [.statement stmt]
  else return []

/-- A `try` behind its word. -/
def tryRest (g : Grammar) (ctx : Context) (start : Nat) : Reader Stmt := do
  let blockStart ← here
  let guarded ← g.block ctx
  let guardedStmt ← group blockStart .block (guarded.map .statement)
  let handler ← g.handler ctx
  let final ← g.finalizer ctx
  if handler.isEmpty && final.isEmpty then note (complaint (← current))
  group start .tryCatch (.statement guardedStmt :: (handler ++ final))

/-! ## Loops -/

/-- The rest of a loop over the elements or keys of a value, at the word in its head. -/
def forEachRest (g : Grammar) (ctx : Context) (start : Nat) (head : Part) : Reader Stmt := do
  let overElements ← eatWord "of"
  unless overElements do expectWord "in"
  let value ← if overElements then g.assignment ctx else g.expression ctx
  expect ")"
  let body ← g.statement (loopContext ctx) true
  group start .forEach [head, .expression value, .statement body]

/-- The rest of a loop with a condition, at the semicolon behind its first part. -/
def forRest (g : Grammar) (ctx : Context) (start : Nat) (first : List Part) : Reader Stmt := do
  expect ";"
  let test ← if ← at? ";" then pure [] else do
    let test ← g.expression ctx
    pure [Part.expression test]
  expect ";"
  let update ← if ← at? ")" then pure [] else do
    let update ← g.expression ctx
    pure [Part.expression update]
  expect ")"
  let body ← g.statement (loopContext ctx) true
  group start .forLoop (first ++ test ++ update ++ [.statement body])

/-- Whether the head of a loop goes on with the word in front of the value. -/
def atForEach : Reader Bool := return (← atWord? "of") || (← atWord? "in")

/-- Checks a declaration in the head of a loop over elements or keys: it declares one pattern, and
a first value is only left to a name in sloppy code. -/
def checkForEach (ctx : Context) (headStart : Nat) (kind : String) (overElements : Bool)
    (declared : List Declarator) : Reader Unit :=
  match declared with
  | [.mk _ none] => return
  | [.mk pattern (some _)] =>
    let isName := match pattern with | .name _ _ => true | _ => false
    if overElements || kind ≠ "var" || !isName then note headStart
    else noteStrict ctx headStart
  | _ => note headStart

/-- A loop whose head declares variables. -/
def forVariables (g : Grammar) (ctx : Context) (start : Nat) (kind : String) (awaited : Bool) :
    Reader Stmt := do
  let headStart ← here
  let _ ← advance
  let declared ← g.declarators { ctx with allowIn := false } kind
  let head := Part.statement (.declaration (← spanFrom headStart) declared.1)
  if ← atForEach then
    let overElements ← atWord? "of"
    checkForEach ctx headStart kind overElements declared.1
    if awaited && !overElements then stop
    g.forEachRest ctx start head
  else
    if awaited then stop
    noteMissing declared.2
    g.forRest ctx start [head]

/-- A loop whose head begins with an expression. -/
def forExpression (g : Grammar) (ctx : Context) (start : Nat) (awaited : Bool) :
    Reader Stmt := do
  let headStart ← here
  let opensWithLet ← atWord? "let"
  let first ← g.expression { ctx with allowIn := false }
  if ← atForEach then
    if opensWithLet && (← atWord? "of") then note headStart
    let target ← assigned ctx first
    if awaited && !(← atWord? "of") then stop
    g.forEachRest ctx start (.target target)
  else
    if awaited then stop
    g.forRest ctx start [.expression first]

/-- A `for` behind the words in front of its head. -/
def forHead (g : Grammar) (ctx : Context) (start : Nat) (awaited : Bool) : Reader Stmt := do
  expect "("
  let token ← current
  if isPunctuator token ";" then
    if awaited then stop
    g.forRest ctx start []
  else
    let next ← peek
    let isOfHead := isWord token "let" && isWord next "of"
    let declares ←
      if isOfHead then do
        -- a variable named like the word in the head, unless that word stands there
        let after ← peekBeyond
        pure (isPunctuator after "=" || isPunctuator after ";" || isPunctuator after "," ||
          isWord after "of" || isWord after "in")
      else pure (opensVariables token next)
    if declares then
      let kind :=
        if isWord token "var" then "var" else if isWord token "let" then "let" else "const"
      g.forVariables ctx start kind awaited
    else g.forExpression ctx start awaited

/-- A `for` behind its word. -/
def forStatement (g : Grammar) (ctx : Context) (start : Nat) : Reader Stmt := do
  let awaited ← eatWord "await"
  if awaited then
    if ctx.awaitTop then noteModule
    else unless ctx.inAsync do note start
  g.forHead ctx start awaited

/-- A loop that tests first, behind its word. -/
def whileRest (g : Grammar) (ctx : Context) (start : Nat) : Reader Stmt := do
  let test ← g.condition ctx
  let body ← g.statement (loopContext ctx) true
  group start .whileLoop [.expression test, .statement body]

/-- A loop that tests last, behind its word. Its condition is examined before its body, and the
semicolon behind it may always be left out. -/
def doRest (g : Grammar) (ctx : Context) (start : Nat) : Reader Stmt := do
  let body ← g.statement (loopContext ctx) true
  expectWord "while"
  let test ← g.condition ctx
  let _ ← eat ";"
  group start .doWhile [.expression test, .statement body]

/-! ## Jumps -/

/-- A jump to a label or out of what surrounds it, behind its word. -/
def jump (ctx : Context) (start : Nat) (layout : Layout) : Reader Stmt := do
  let token ← current
  let continues := layout = .continueOn
  match token.kind with
  | .word name _ =>
    if token.lineBreak then
      unless ctx.inLoop || (ctx.inSwitch && !continues) do note start
    else
      checkName ctx name token.span.start
      let _ ← advance
      unless (if continues then ctx.loopLabels else ctx.labels).contains name do note start
  | _ => unless ctx.inLoop || (ctx.inSwitch && !continues) do note start
  semicolon
  group start layout []

/-- A return behind its word. -/
def returnRest (g : Grammar) (ctx : Context) (start : Nat) : Reader Stmt := do
  unless ctx.inFunction do note start
  let token ← current
  let bare :=
    token.lineBreak || token.kind = .endOfText || isPunctuator token ";" ||
      isPunctuator token "\x7d"
  let value ← if bare then pure [] else do
    let value ← g.expression ctx
    pure [Part.expression value]
  semicolon
  group start .returnBack value

/-- A throw behind its word, with its value on the same line. -/
def throwRest (g : Grammar) (ctx : Context) (start : Nat) : Reader Stmt := do
  if (← current).lineBreak then stop
  let value ← g.expression ctx
  semicolon
  group start .throw [.expression value]

/-! ## Expressions and labels -/

/-- A statement behind its label. -/
def labelled (g : Grammar) (ctx : Context) (name : String) (start : Nat) : Reader Stmt := do
  if ctx.labels.contains name then note start
  let inner := { ctx with labels := name :: ctx.labels, openLabels := name :: ctx.openLabels }
  let stmt ←
    if ← atWord? "function" then do
      let functionStart ← here
      noteStrict ctx functionStart
      let _ ← advance
      if ← at? "*" then note functionStart
      let (functionName, code) ← g.functionRest { inner with openLabels := [] } false false
      pure (.function (← spanFrom functionStart) functionName code)
    else g.statement inner true
  group start .labelled [.statement stmt]

/-- What an expression is the beginning of: a label with its statement if the expression is a word
in front of a colon, otherwise a statement of its own. -/
def behindExpression (g : Grammar) (ctx : Context) (start : Nat) (token : Token) (value : Expr) :
    Reader Stmt :=
  match token.kind, value with
  | .word _ _, .name _ name => do
    if ← eat ":" then g.labelled ctx name start
    else
      semicolon
      return .expression (← spanFrom start) value
  | _, _ => do
    semicolon
    return .expression (← spanFrom start) value

/-- An expression as a statement, or a label with its statement. -/
def expressionStatement (g : Grammar) (ctx : Context) : Reader Stmt := do
  let start ← here
  let token ← current
  let value ← g.expression { ctx with openLabels := [] }
  g.behindExpression ctx start token value

/-! ## Declarations of functions and classes -/

/-- A function declaration behind its words. -/
def functionDeclaration (g : Grammar) (ctx : Context) (start : Nat) (async : Bool) :
    Reader Stmt := do
  let (name, code) ← g.functionRest ctx async false
  return .function (← spanFrom start) name code

/-- A class declaration behind its word. -/
def classDeclaration (g : Grammar) (ctx : Context) (start : Nat) : Reader Stmt := do
  let (name, members, heritage) ← g.classRest ctx true
  return .classBody (← spanFrom start) name members heritage

end Grammar

end ModuleLinker.Script
