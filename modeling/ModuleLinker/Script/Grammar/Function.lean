/-
# ModuleLinker.Script.Grammar.Function -- patterns, parameters and function bodies

Declared patterns, parameter lists, bodies with their directives, and the functions made of them.
A body may say by a directive that it is strict; then the name and the parameters of the function
were strict all along.
-/

import ModuleLinker.Script.Grammar.Basic

namespace ModuleLinker.Script

open Reader

namespace Grammar

/-! ## Declared patterns -/

/-- A pattern with the value that it takes when there is none. -/
def withInitial (g : Grammar) (ctx : Context) (target : Reader Pattern) : Reader Pattern := do
  let pattern ← target
  if ← eat "=" then
    let value ← g.assignment (bracketed ctx)
    return .initialized pattern value
  else return pattern

/-- An element of an array pattern; a hole is no element. -/
def bindingElement (g : Grammar) (ctx : Context) : Reader (Option Pattern) := do
  if ← at? "," then return none
  if ← eat "..." then
    let pattern ← g.pattern ctx
    unless ← at? "]" do stop
    return some (.rest pattern)
  else return some (← g.withInitial ctx (g.pattern ctx))

/-- A field of an object pattern. -/
def bindingField (g : Grammar) (ctx : Context) : Reader PatternField := do
  if ← eat "..." then
    let (span, name) ← bindingName ctx
    unless ← at? "\x7d" do stop
    return .rest (.name span name)
  else
    let token ← current
    let key ← g.propertyKey ctx
    if ← eat ":" then return .keyed key (← g.withInitial ctx (g.pattern ctx))
    else
      match token.kind with
      | .word name _ =>
        checkName ctx name token.span.start
        checkBound ctx name token.span.start
        return .keyed key (← g.withInitial ctx (pure (.name token.span name)))
      | _ => stop

/-- A declared name or a pattern of them. -/
def bindingTarget (g : Grammar) (ctx : Context) : Reader Pattern := do
  if ← eat "[" then
    let elements ← commaList "]" (g.bindingElement ctx) g.steps
    return .array (elements.filterMap id)
  else if ← eat "\x7b" then
    return .object (← commaList "\x7d" (g.bindingField ctx) g.steps)
  else
    let (span, name) ← bindingName ctx
    return .name span name

/-- A parameter; one that takes the rest is the last. -/
def parameter (g : Grammar) (ctx : Context) : Reader Pattern := do
  if ← eat "..." then
    let pattern ← g.bindingTarget ctx
    unless ← at? ")" do stop
    return .rest pattern
  else g.withInitial ctx (g.bindingTarget ctx)

/-! ## Bodies -/

/-- Whether a statement is a directive, and whether it is the one for strict code. -/
def directive? : Stmt → Option Bool
  | .expression _ (.string span value) =>
    some (value = "use strict" ∧ span.stop - span.start = 12)
  | _ => none

/-- Statements up to a closing brace or the end of the text, each read apart from the others. As
long as `opening` holds, string statements are directives. The result says whether one of them
makes the code strict. -/
def statements (g : Grammar) (ctx : Context) (opening : Bool) :
    (steps : Nat) → Reader (Bool × List Stmt)
  | 0 => stop
  | steps + 1 => do
    let token ← current
    if isPunctuator token "\x7d" || token.kind = .endOfText then return (false, [])
    else
      let stmt ← apart (g.statement ctx false)
      match if opening then directive? stmt else none with
      | some strict =>
        let ctx := { ctx with strict := ctx.strict || strict }
        let (later, rest) ← statements g ctx true steps
        return (strict || later, stmt :: rest)
      | none =>
        let (_, rest) ← statements g ctx false steps
        return (false, stmt :: rest)

/-- The body of a function with its braces, and whether a directive makes it strict. -/
def body (g : Grammar) (ctx : Context) : Reader (Bool × List Stmt) := do
  expect "\x7b"
  let result ← g.statements ctx true g.steps
  expect "\x7d"
  return result

/-! ## Functions -/

/-- What is special about a function. -/
structure Shape where
  async : Bool := false
  generator : Bool := false
  /-- Methods refuse repeated parameters. -/
  method : Bool := false
  superMember : Bool := false
  superCall : Bool := false

/-- The context of the body of a function. -/
def Shape.context (shape : Shape) (outer : Context) : Context :=
  { strict := outer.strict
    inFunction := true
    inAsync := shape.async
    inGenerator := shape.generator
    superMember := shape.superMember
    superCall := shape.superCall
    newTarget := true }

/-- Checks parameters once the body is known. -/
def checkParameters (start : Nat) (params : List Pattern) (strict directive unique : Bool) :
    Reader Unit := do
  let simple := simpleParameters params
  if directive && !simple then note start
  if (strict || unique || !simple) && hasRepetition (boundNamesOfList params) then note start

/-- Parameters and body of a function. `mark` tells the errors of strict code that were noted
before its name. -/
def functionCode (g : Grammar) (outer : Context) (mark : Nat) (shape : Shape) :
    Reader Function := do
  let start ← here
  let ctx := shape.context outer
  expect "("
  let params ← commaList ")" (g.parameter { ctx with inParameters := true }) g.steps
  let (strict, body) ← g.body ctx
  if strict && !outer.strict then becomeStrict mark
  checkParameters start params (strict || outer.strict) strict shape.method
  return .mk params body

/-- A function behind the word that opens it, and its name, which only an expression may leave
out. -/
def functionRest (g : Grammar) (outer : Context) (async expression : Bool) :
    Reader (String × Function) := do
  let generator ← eat "*"
  let mark ← strictMark
  let nameContext :=
    if expression then
      { outer with inAsync := async, inGenerator := generator, inClassField := false }
    else outer
  let name ←
    if expression && (← at? "(") then pure ""
    else do
      let (_, name) ← bindingName nameContext
      pure name
  let code ← g.functionCode outer mark { async, generator }
  return (name, code)

/-- The rest of an arrow function that began at `start`, at its arrow. -/
def arrowRest (g : Grammar) (outer : Context) (start mark : Nat) (async : Bool)
    (params : List Pattern) : Reader Expr := do
  unless ← arrowFollows do stop
  let _ ← advance
  let ctx :=
    { outer with
      inFunction := true, inAsync := async, inGenerator := false, inParameters := false
      awaitReserved := async, awaitTop := false, declarations := false, arrowAt := none
      inLoop := false, inSwitch := false, labels := [], loopLabels := [], openLabels := [] }
  if async && (boundNamesOfList params).contains "await" then note start
  if ← at? "\x7b" then
    let (strict, body) ← g.body { ctx with allowIn := true }
    if strict && !outer.strict then becomeStrict mark
    checkParameters start params (strict || outer.strict) strict true
    return .function (← spanFrom start) true (.mk params body)
  else
    let value ← g.assignment ctx
    checkParameters start params outer.strict false true
    let body := [.group value.span .returnBack [.expression value]]
    return .function (← spanFrom start) true (.mk params body)

/-- An arrow function whose parameters were read as expressions. -/
def arrowOf (g : Grammar) (ctx : Context) (start mark : Nat) (async : Bool)
    (params : List Expr) : Reader Expr := do
  let patterns ← elementsAsPatterns ctx true params
  g.arrowRest ctx start mark async patterns

end Grammar

end ModuleLinker.Script
