/-
# ModuleLinker.Link.Emission -- the text of a linked program

A program is written line by line. Every module becomes a function that is called with the slot
of the module in a global object; inside it the statements of the module follow in their order,
with the comments between them. A line knows which line of which file it was copied from, and
the source mapping of the program is read off its lines.

A require of a module of the program becomes the slot of that module, and a table of exports an
assignment for each of its entries. All other statements are copied; their lines are indented,
except those that begin inside a literal.
-/

import ModuleLinker.Module.Basic
import ModuleLinker.Options
import ModuleLinker.SourceMap.Mapping
import ModuleLinker.Text.Blank

namespace ModuleLinker

/-- The line of a file that a line was copied from. -/
structure Origin where
  file : String
  line : Nat
deriving DecidableEq, Repr, Inhabited

/-- A line of a program. -/
structure Line where
  text : String
  origin : Option Origin := none
deriving DecidableEq, Repr, Inhabited

/-- A linked program, and where its lines come from if its file is known. -/
structure Bundle where
  code : String
  sourceMap : Option SourceMapping
deriving DecidableEq, Repr, Inhabited

namespace Emission

open Text

/-- Two blanks in front of every line of a module. -/
def indent (line : List Char) : String := String.ofList (' ' :: ' ' :: line)

/-- The pieces of a text between its newlines with the offset of each. -/
def numberedLines (offset : Nat) : List (List Char) → List (Nat × List Char)
  | [] => []
  | line :: lines => (offset, line) :: numberedLines (offset + byteSize line + 1) lines

/-- A line copied from a line of a file, if the file is known. -/
def copied (file : Option String) (text : String) (line : Nat) : Line :=
  { text, origin := file.map fun file => ⟨file, line⟩ }

/-! ## Comments -/

/-- A line between two statements, `none` if there is nothing on it. `opens` says that the line
goes on behind the end of a statement. -/
def commentText? (start : Nat) (opens : Bool) (line : List Char) : Option (List Char) :=
  let line := line.dropWhile (· = byteOrderMark)
  if (trim line).isEmpty || (start = 0 && line.take 2 = ['#', '!']) then none
  else if opens then some (trim line)
  else some (trimEnd line)

/-- The lines between two statements. A first line that names an interpreter is left out. -/
def comments (file : Option String) (source : Source) (gap : Span) : List Line :=
  match source.slice? gap with
  | none => []
  | some piece =>
    (numberedLines gap.start (splitLines piece)).filterMap fun (start, line) =>
      (commentText? start (start = gap.start && 0 < start) line).map fun text =>
        copied file (indent text) (source.lines.lineOf start)

/-! ## Statements -/

/-- A line without the carriage return at its end. -/
def withoutReturn (line : List Char) : List Char :=
  if line.getLast? = some '\r' then line.dropLast else line

/-- A copied line of a statement; `first` says that the statement begins on it. -/
def statementText (source : Source) (first : Bool) (start : Nat) (line : List Char) : String :=
  let line := withoutReturn line
  if line.isEmpty || (!first && source.insideLiteral start) then String.ofList line
  else indent line

/-- The lines of a statement, numbered from `line`. -/
def statementLines (file : Option String) (source : Source) (line : Nat) (first : Bool) :
    List (Nat × List Char) → List Line
  | [] => []
  | (start, text) :: rest =>
    copied file (statementText source first start text) line ::
      statementLines file source (line + 1) false rest

/-- A statement as it stands in the text. -/
def verbatim (file : Option String) (source : Source) (span : LineSpan) :
    Except Failure (List Line) :=
  match source.slice? span.toSpan with
  | none => .error (.outOfText span.toSpan)
  | some piece =>
    .ok (statementLines file source span.firstLine true
      (numberedLines span.start (splitLines piece)))

/-- The slot of a module in the global object. -/
def slot (globalObject name : String) : String := globalObject ++ "[" ++ quoted name ++ "]"

/-- The text that an export is bound to. -/
def boundText (source : Source) (entry : ExportEntry) : Except Failure String :=
  match entry.binding with
  | .expression text => .ok text
  | .foreign =>
    match source.slice? entry.span.toSpan with
    | some piece => .ok (String.ofList piece)
    | none => .error (.outOfText entry.span.toSpan)

/-- The assignment of an exported property. -/
def exportLine (file : Option String) (source : Source) (entry : ExportEntry) :
    Except Failure Line := do
  let value ← boundText source entry
  return copied file ("  exports[" ++ quoted entry.name ++ "] = " ++ value ++ ";")
    entry.span.firstLine

/-- What all modules of a program share. -/
structure Setting where
  globalObject : String
  /-- The modules of the program. -/
  present : List ModuleId

/-- The lines of an element. -/
def elementLines (setting : Setting) (m : Module) (file : Option String) (element : Element) :
    Except Failure (List Line) :=
  match element with
  | .skipped _ => .ok []
  | .exports _ entries => entries.mapM (exportLine file m.source)
  | .require span binder (.resolved id) =>
    if !m.id.isForeign && setting.present.contains id then
      .ok [copied file ("  var " ++ binder ++ " = " ++ slot setting.globalObject id.name ++ ";")
        span.firstLine]
    else verbatim file m.source span
  | element => verbatim file m.source element.span

/-! ## Modules -/

/-- The lines of elements behind the offset `previous`, with the comments in front of those that
are not skipped, and the comments behind the last. -/
def bodyLines (setting : Setting) (m : Module) (file : Option String) :
    (previous : Nat) → List Element → Except Failure (List Line)
  | previous, [] => .ok (comments file m.source ⟨previous, byteSize m.source.text⟩)
  | previous, element :: elements => do
    let gap :=
      if element.isSkipped then []
      else comments file m.source ⟨previous, element.span.start⟩
    let lines ← elementLines setting m file element
    let rest ← bodyLines setting m file element.span.stop elements
    return gap ++ lines ++ rest

/-- A module as a function called with its slot. -/
def moduleLines (setting : Setting) (outputFile : Option String) (m : Module) :
    Except Failure (List Line) := do
  let file := outputFile.bind fun output => m.filePath.map fun path => Path.sourcePath path output
  let body ← bodyLines setting m file 0 m.elements
  let slot := slot setting.globalObject m.id.name
  return { text := "(function(exports) \x7b" } :: body ++
    [{ text := "\x7d)(" ++ slot ++ " = " ++ slot ++ " || \x7b\x7d);" }]

/-! ## Programs -/

/-- The name of the output file. -/
def outputName (options : Options) : Option String :=
  options.outputFile.bind fun path => Path.fileName? (Path.components path)

/-- The lines of a program whose modules are in load order. -/
def programLines (modules : List Module) (options : Options) : Except Failure (List Line) := do
  let setting : Setting := ⟨options.globalObject, modules.map (·.id)⟩
  let bodies ← modules.mapM (moduleLines setting options.outputFile)
  let start : List Line := [{ text := "var " ++ options.globalObject ++ " = \x7b\x7d;" }]
  let main : List Line := options.mainModule.toList.map fun name =>
    { text := slot options.globalObject name ++ ".main();" }
  let link : List Line := (outputName options).toList.map fun name =>
    { text := "//# sourceMappingURL=" ++ name ++ ".map" }
  return start ++ bodies.flatten ++ main ++ link

/-- Lines with a newline behind each. -/
def joined : List Line → String
  | [] => ""
  | line :: lines => line.text ++ "\n" ++ joined lines

/-- The mappings of the lines that were copied, `line` being the number of the first. -/
def mappings (line : Nat) : List Line → List LineMapping
  | [] => []
  | ⟨_, some origin⟩ :: lines =>
    { generatedLine := line, generatedColumn := 0, sourceFile := origin.file
      sourceLine := origin.line, sourceColumn := 0 } :: mappings (line + 1) lines
  | ⟨_, none⟩ :: lines => mappings (line + 1) lines

end Emission

open Emission in
/-- The text of a program whose modules are in load order, and its source mapping if the output
file is known. -/
def emit (modules : List Module) (options : Options) : Except Failure Bundle := do
  let lines ← programLines modules options
  return {
    code := joined lines
    sourceMap := options.outputFile.map fun _ =>
      { file := (outputName options).getD "", mappings := mappings 0 lines } }

end ModuleLinker
