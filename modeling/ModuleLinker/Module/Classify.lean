/-
# ModuleLinker.Module.Classify -- from a text to a module

`Module.classify` reads the text of a module and gives every top-level statement its element, in
the order of the statements. The forms that are recognised are the ones a compiler writes:

* a single variable bound to a call of `require` with one string,
* a single variable with a value, or a function,
* an object literal assigned to `module.exports`,
* a value assigned to a property of `exports`.

Every other statement is kept as it is. Only a table of exports can be refused: its properties
have to be names, or members of a name, under a written key.
-/

import ModuleLinker.Module.Basic
import ModuleLinker.Script.Occurrence
import ModuleLinker.Script.Program

namespace ModuleLinker

open Script

namespace Script

/-! ## Recognised statements -/

/-- The variable and the path of a require. -/
def Stmt.require? : Stmt → Option (String × String)
  | .declaration _ [.mk (.name _ binder)
      (some (.group _ .call [.name _ "require", .string _ path]))] => some (binder, path)
  | _ => none

/-- The name and the value of an internal member. -/
def Stmt.member? : Stmt → Option (String × Expr)
  | .declaration _ [.mk (.name _ binder) (some value)] => some (binder, value)
  | .function span binder code => some (binder, .function span false code)
  | _ => none

/-- The properties of a table of exports. -/
def Stmt.exportTable? : Stmt → Option (List Property)
  | .expression _ (.assign _ true (.target target) (.object _ properties)) =>
    if target.access? = some ("module", "exports") then some properties else none
  | _ => none

/-- The name and the value of a single export. -/
def Stmt.export? : Stmt → Option (String × Expr)
  | .expression _ (.assign _ true (.target (.member _ (.name _ "exports") key)) value) =>
    key.accessed?.map fun binder => (binder, value)
  | _ => none

end Script

namespace Module

/-- What the statements of a module are classified against. -/
structure Site where
  id : ModuleId
  /-- The names of all modules of the program. -/
  names : List String
  source : Source
  /-- The offset at which the script begins in the text. -/
  origin : Nat

namespace Site

/-- A span of the script as a span of the text, with its lines. -/
def locate (site : Site) (span : Span) : LineSpan := site.source.locate (span.shift site.origin)

/-- The piece of the text under a span of the script. -/
def textOf (site : Site) (span : Span) : Except Failure String :=
  let span := span.shift site.origin
  match site.source.slice? span with
  | some piece => .ok (String.ofList piece)
  | none => .error (.outOfText span)

end Site

/-! ## Exports -/

/-- The requires seen so far that lead to a module of the program, the latest first. -/
abbrev Imports := List (String × ModuleId)

/-- The refusal of a property. -/
def unsupported (site : Site) (span : Span) : Except Failure α := do
  .error (.error (.unsupportedExport (← site.textOf span)))

/-- What the value of an export binds it to; only names and members of names are bound. -/
def bindingOf? (site : Site) (imports : Imports) (value : Expr) :
    Except Failure (Option ExportBinding) := do
  match value, value.access? with
  | .name _ binder, _ => return some (.expression binder)
  | _, some (object, _) =>
    let isForeign := (imports.lookup object).any ModuleId.isForeign
    if isForeign then return some .foreign
    else return some (.expression (← site.textOf value.span))
  | _, none => return none

/-- The export that a property of the table declares. -/
def exportOf (site : Site) (imports : Imports) : Property → Except Failure ExportEntry
  | .shorthand span binder =>
    return { name := binder, binding := .expression binder, value := .name span binder
             span := site.locate span }
  | .keyed span key value => do
    match key.declared? with
    | none => unsupported site span
    | some binder =>
      match ← bindingOf? site imports value with
      | none => unsupported site span
      | some binding =>
        return { name := binder, binding, value, span := site.locate value.span }
  | property => unsupported site property.span

/-! ## Statements -/

/-- The element of a statement, given the requires in front of it. -/
def elementOf (site : Site) (imports : Imports) (stmt : Stmt) : Except Failure Element := do
  let span := site.locate stmt.span
  match stmt.require? with
  | some (binder, path) =>
    return .require span binder (RequireTarget.resolve site.id site.names path)
  | none =>
    match stmt.member? with
    | some (binder, value) => return .member span .internal binder value []
    | none =>
      match stmt.exportTable? with
      | some properties => return .exports span (← properties.mapM (exportOf site imports))
      | none =>
        match stmt.export? with
        | some (binder, value) => return .member span .exported binder value []
        | none => return .other span

/-- The requires behind an element. -/
def importsAfter (imports : Imports) : Element → Imports
  | .require _ binder (.resolved id) => (binder, id) :: imports
  | _ => imports

/-- The elements of statements in their order. -/
def elementsOf (site : Site) : Imports → List Stmt → Except Failure (List Element)
  | _, [] => return []
  | imports, stmt :: stmts => do
    let element ← elementOf site imports stmt
    return element :: (← elementsOf site (importsAfter imports element) stmts)

/-! ## Texts -/

/-- The literals of a program that run over several lines, as spans of its text. -/
def multilineLiterals (lines : LineIndex) (program : Program) : List Span :=
  let spans := (literalSpans (occurrencesOfStmts [] program.statements)).map
    fun span => span.shift program.origin
  spans.filter fun span => (lines.locate span).firstLine < (lines.locate span).lastLine

/-- The module of a text, or why there is none, without the module's name around it. -/
def classifyText [ParserWording] (names : List String) (input : ModuleInput) :
    Except Failure Module := do
  let text := input.text.toList
  let lines := LineIndex.ofText text
  match Program.read text with
  | .error (.syntaxError offset) =>
    .error (.error (.unparsable (lines.lineOf offset) (Program.complaint text)))
  | .error .declarations => .error (.error .invalidTopLevel)
  | .ok program =>
    let source := Source.ofText text (multilineLiterals lines program)
    let elements ← elementsOf ⟨input.id, names, source, program.origin⟩ [] program.statements
    return { id := input.id, filePath := input.filePath, source, elements }

/-- The module of a text; `names` are the names of all modules of the program. -/
def classify [ParserWording] (names : List String) (input : ModuleInput) : Except Failure Module :=
  match classifyText names input with
  | .error (.error error) => .error (.error (.inModule input.id error))
  | result => result

end Module

end ModuleLinker
