/-
# ModuleLinker.Script.Grammar.Declaration -- import and export declarations

Import and export declarations are read so that errors behind them are found, but a list of
statements has no place for them: reading one is remembered, and what it says is forgotten.
-/

import ModuleLinker.Script.Grammar.Statement

namespace ModuleLinker.Script

open Reader

namespace Grammar

/-- A word or a string that names an import or an export. -/
def externalName : Reader Unit := do
  match (← current).kind with
  | .word _ _ | .string _ _ =>
    let _ ← advance
  | _ => stop

/-- A string. -/
def stringToken : Reader Unit := do
  match (← current).kind with
  | .string _ _ =>
    let _ ← advance
  | _ => stop

/-- The module that a declaration refers to, and the attributes of the reference. -/
def moduleReference (g : Grammar) (ctx : Context) : Reader Unit := do
  stringToken
  let token ← current
  if isWord token "with" || (isWord token "assert" && !token.lineBreak) then
    let _ ← advance
    let _ ← g.objectLiteral ctx
  semicolon

/-- One name in the braces of an import. -/
def importName (ctx : Context) : Reader Unit := do
  let token ← current
  externalName
  if ← eatWord "as" then
    let _ ← bindingName ctx
  else
    match token.kind with
    | .word name _ =>
      checkName ctx name token.span.start
      checkBound ctx name token.span.start
    | _ => stop

/-- The names behind the word of an import, up to its module. -/
def importNames (g : Grammar) (ctx : Context) : Reader Unit := do
  if ← eat "*" then
    expectWord "as"
    let _ ← bindingName ctx
  else
    expect "\x7b"
    let _ ← commaList "\x7d" (importName ctx) g.steps

/-- An import declaration behind its word. -/
def importRest (g : Grammar) (ctx : Context) : Reader Unit := do
  match (← current).kind with
  | .string _ _ => g.moduleReference ctx
  | .word _ _ =>
    let _ ← bindingName ctx
    if ← eat "," then g.importNames ctx
    expectWord "from"
    g.moduleReference ctx
  | _ =>
    g.importNames ctx
    expectWord "from"
    g.moduleReference ctx

/-- One name in the braces of an export, and where it starts. -/
def exportName : Reader Unit := do
  externalName
  if ← eatWord "as" then externalName

/-- The default export behind its words. -/
def defaultExport (g : Grammar) (ctx : Context) : Reader Unit := do
  let token ← current
  let next ← peek
  if isWord token "function" then
    let _ ← advance
    let _ ← g.functionRest ctx false true
  else if isWord token "async" && isWord next "function" && !next.lineBreak then
    let _ ← advance
    let _ ← advance
    let _ ← g.functionRest ctx true true
  else if isWord token "class" then
    let _ ← advance
    let _ ← g.classRest ctx false
  else
    let _ ← g.assignment ctx
    semicolon

/-- An export declaration behind its word. -/
def exportRest (g : Grammar) (ctx : Context) : Reader Unit := do
  let token ← current
  let next ← peek
  if ← eatWord "default" then g.defaultExport ctx
  else if ← eat "*" then
    if ← eatWord "as" then externalName
    expectWord "from"
    g.moduleReference ctx
  else if ← eat "\x7b" then
    let _ ← commaList "\x7d" exportName g.steps
    if ← eatWord "from" then g.moduleReference ctx else semicolon
  else if opensVariables token next || isWord token "function" || isWord token "class" ||
      (isWord token "async" && isWord next "function" && !next.lineBreak) then
    let _ ← g.statement { ctx with declarations := false } false
  else stop

/-- Remembers that a declaration was read. -/
def noteDeclaration : Reader Unit :=
  modify fun state => { state with isModule := true, hasDeclarations := true }

/-- An import or export declaration behind its word; it leaves an empty statement. -/
def declaration (g : Grammar) (ctx : Context) (start : Nat) (imports : Bool) : Reader Stmt := do
  unless ctx.declarations do throw start
  if imports then g.importRest ctx else g.exportRest ctx
  noteDeclaration
  group start .empty []

end Grammar

end ModuleLinker.Script
