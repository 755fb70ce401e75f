/-
# ModuleLinker.Script.Grammar.Basic -- the recursive readers, and what builds on them directly

The grammar of scripts refers to itself in a few places only: a statement, an expression, an
operand, a nested pattern. `Grammar` holds readers for those, and every production is an ordinary
function of such a record. The record itself is built level by level, so that each reader in it
only uses readers of a smaller depth.

This module holds comma expressions, arguments, templates, property keys and what follows an
operand.
-/

import ModuleLinker.Script.Reinterpret

namespace ModuleLinker.Script

open Reader

/-- Readers for the recursive parts of the grammar, and a bound for its repetitions. -/
structure Grammar where
  steps : Nat
  assignment : Context → Reader Expr
  unary : Context → Reader Expr
  binary : Context → (precedence : Nat) → Reader Expr
  operand : Context → Reader Expr
  pattern : Context → Reader Pattern
  statement : Context → (nested : Bool) → Reader Stmt

namespace Grammar

/-- The context inside brackets of any kind. -/
def bracketed (ctx : Context) : Context := { ctx with allowIn := true, arrowAt := none }

/-- Expressions separated by commas. -/
def expression (g : Grammar) (ctx : Context) : Reader Expr := do
  let start ← here
  let first ← g.assignment ctx
  let others ← many (at? ",") (do let _ ← advance; g.assignment ctx) g.steps
  if others.isEmpty then return first
  else return .group (← spanFrom start) .sequence (first :: others)

/-- An expression, possibly spread over the list that it stands in. -/
def spreadable (g : Grammar) (ctx : Context) : Reader Expr := do
  let start ← here
  if ← eat "..." then
    let inner ← g.assignment ctx
    if ← at? "," then noteSpreadComma start
    return .group (← spanFrom start) .spread [inner]
  else g.assignment ctx

/-- The arguments of a call, with their parentheses. -/
def arguments (g : Grammar) (ctx : Context) : Reader (List Expr) := do
  expect "("
  commaList ")" (g.spreadable (bracketed ctx)) g.steps

/-! ## Templates -/

/-- A stretch of a template behind the mark that opens it, and whether the template ends with
it. -/
def stretch (opener : String) (tagged : Bool) : Reader Bool := do
  let state ← get
  unless isPunctuator state.token.toToken opener do stop
  let inside := state.token.next
  let chunk := Chunk.read true 0 inside.offset inside.rest
  if chunk.cutOff then throw chunk.next.offset
  unless chunk.valid || tagged do note inside.offset
  modify (Progress.goOn chunk.next)
  return chunk.ends

/-- The holes of a template from the mark that opens a stretch of it to its end. -/
def templateHoles (g : Grammar) (ctx : Context) (tagged : Bool) :
    (steps : Nat) → (opener : String) → Reader (List Expr)
  | 0, _ => stop
  | steps + 1, opener => do
    if ← stretch opener tagged then return []
    else
      let hole ← g.expression (bracketed ctx)
      let holes ← templateHoles g ctx tagged steps "\x7d"
      return hole :: holes

/-- A template, at its opening mark. -/
def template (g : Grammar) (ctx : Context) (tagged : Bool) : Reader Expr := do
  let start ← here
  let holes ← g.templateHoles ctx tagged g.steps "`"
  return .group (← spanFrom start) .template holes

/-! ## Keys -/

/-- The key of a property. -/
def propertyKey (g : Grammar) (ctx : Context) : Reader PropertyKey := do
  let token ← current
  match token.kind with
  | .word name _ =>
    let _ ← advance
    return .name name
  | .string value legacy =>
    if legacy then noteStrict ctx token.span.start
    let _ ← advance
    return .string token.span value
  | .number legacy =>
    if legacy then noteStrict ctx token.span.start
    let _ ← advance
    return .number
  | .punctuator "[" =>
    let _ ← advance
    let value ← g.assignment (bracketed ctx)
    expect "]"
    return .computed value
  | _ => stop

/-- The name behind a point. -/
def memberName : Reader PropertyKey := do
  let token ← current
  match token.kind with
  | .word name _ =>
    let _ ← advance
    return .name name
  | .privateWord name =>
    notePrivateUse name token.span.start
    let _ ← advance
    return .privateName name
  | _ => stop

/-! ## What follows an operand -/

/-- The access to a property of an object, or of what `super` stands for. -/
def access (span : Span) (object : Expr) (key : PropertyKey) : Expr :=
  match object, key with
  | .leaf _ .super, .computed value => .group span .superMember [value]
  | .leaf _ .super, _ => .group span .superMember []
  | _, _ => .member span object key

/-- One link of an optional chain. -/
def link (inChain : Bool) (e : Expr) : Expr := if inChain then .group e.span .chain [e] else e

/-- Whether an arrow comes next that belongs to what was just read. -/
def arrowFollows : Reader Bool := do
  let token ← current
  return isPunctuator token "=>" && !token.lineBreak

/-- Accesses, calls and tagged templates behind an operand that began at `start`. `arrow` reads
the rest of an arrow function behind its parameters. -/
def suffixes (g : Grammar) (arrow : (async : Bool) → List Expr → Reader Expr) (ctx : Context)
    (start : Nat) (calls : Bool) : (steps : Nat) → (inChain : Bool) → Expr → Reader Expr
  | 0, _, _ => stop
  | steps + 1, inChain, base => do
    let token ← current
    match token.kind with
    | .punctuator "." =>
      let _ ← advance
      let key ← memberName
      let e := link inChain (access (← spanFrom start) base key)
      suffixes g arrow ctx start calls steps inChain e
    | .punctuator "?." =>
      unless calls do stop
      let _ ← advance
      let next ← current
      if isPunctuator next "(" then
        let args ← g.arguments ctx
        let e := link true (.group (← spanFrom start) .call (base :: args))
        suffixes g arrow ctx start calls steps true e
      else if isPunctuator next "[" then
        let key ← g.propertyKey ctx
        let e := link true (.member (← spanFrom start) base key)
        suffixes g arrow ctx start calls steps true e
      else
        if isPunctuator next "`" then note next.span.start
        let key ← memberName
        let e := link true (.member (← spanFrom start) base key)
        suffixes g arrow ctx start calls steps true e
    | .punctuator "[" =>
      let _ ← advance
      let value ← g.expression (bracketed ctx)
      expect "]"
      let e := link inChain (access (← spanFrom start) base (.computed value))
      suffixes g arrow ctx start calls steps inChain e
    | .punctuator "(" =>
      if calls then
        let args ← g.arguments ctx
        let isAsync :=
          match base with
          | .name span "async" => span.stop - span.start = 5 && !token.lineBreak
          | _ => false
        if isAsync && ctx.arrowAt = some start && (← arrowFollows) then arrow true args
        else
          let e := link inChain (.group (← spanFrom start) .call (base :: args))
          suffixes g arrow ctx start calls steps inChain e
      else return base
    | .punctuator "`" =>
      if inChain then note token.span.start
      let text ← g.template ctx true
      let e := .group (← spanFrom start) .tagged [base, text]
      suffixes g arrow ctx start calls steps inChain e
    | _ => return base

end Grammar

end ModuleLinker.Script
