/-
# ModuleLinker.Options -- how modules are linked

The options of a link, their defaults, and how a JSON document gives them: as an object whose
known fields appear at most once and whose other fields are ignored, or as an array of the field
values in the order of their declaration. Fields that are left out keep their defaults.
-/

import ModuleLinker.Json.Value
import ModuleLinker.Module.Identifier

namespace ModuleLinker

/-- How a set of modules is linked. -/
structure Options where
  /-- Modules whose public members are all kept. -/
  entryPoints : List ModuleId := []
  /-- The module whose `main` is called at the end; it is always an entry point. -/
  mainModule : Option String := none
  /-- The global object that holds the exports of every module. -/
  globalObject : String := "PS"
  /-- The path the output will be written to; a source mapping is made when it is given. -/
  outputFile : Option String := none
deriving DecidableEq, Repr, Inhabited

namespace Options

/-- One choice among the options. -/
inductive Choice where
  | entryPoints (ids : List ModuleId)
  | mainModule (name : String)
  | globalObject (name : String)
  | outputFile (path : String)
deriving DecidableEq, Repr, Inhabited

/-- Makes a choice; the last choice of a kind counts. -/
def choose (options : Options) : Choice → Options
  | .entryPoints ids => { options with entryPoints := ids }
  | .mainModule name => { options with mainModule := some name }
  | .globalObject name => { options with globalObject := name }
  | .outputFile path => { options with outputFile := some path }

end Options

/-! ## Reading from JSON -/

/-- The only value of a field, `none` inside if it is absent; a repeated field is refused. -/
def Json.field? (fields : List (Option String × Json)) (name : String) : Option (Option Json) :=
  match Json.valuesOf fields name with
  | [] => some none
  | [value] => some (some value)
  | _ => none

/-- Whether the name of every field is a text. -/
def Json.namesAreTexts (fields : List (Option String × Json)) : Bool :=
  fields.all fun field => field.1.isSome

/-- A kind is its name, or an object whose one field has that name and no value. -/
def ModuleKind.ofJson? : Json → Option ModuleKind
  | .string (some "regular") => some .regular
  | .string (some "foreign") => some .foreign
  | .object [(some "regular", .null)] => some .regular
  | .object [(some "foreign", .null)] => some .foreign
  | _ => none

/-- An identifier is an object with its two fields, or an array of their values. -/
def ModuleId.ofJson? : Json → Option ModuleId
  | .array [name, kind] => do return ⟨← name.text?, ← ModuleKind.ofJson? kind⟩
  | .object fields => do
    guard (Json.namesAreTexts fields)
    let name ← ← Json.field? fields "name"
    let kind ← ← Json.field? fields "kind"
    return ⟨← name.text?, ← ModuleKind.ofJson? kind⟩
  | _ => none

/-- A text, or nothing where the document has a null. -/
def Json.optionalText? : Json → Option (Option String)
  | .null => some none
  | value => value.text?.map some

/-- A list of identifiers. -/
def Json.moduleIds? : Json → Option (List ModuleId)
  | .array items => items.mapM ModuleId.ofJson?
  | _ => none

namespace Options

/-- Options from the values of the fields, each absent or present. -/
def ofValues? (entryPoints mainModule globalObject outputFile : Option Json) :
    Option Options := do
  let defaults : Options := {}
  let entryPoints ← (entryPoints.map Json.moduleIds?).getD (some defaults.entryPoints)
  let mainModule ← (mainModule.map Json.optionalText?).getD (some defaults.mainModule)
  let globalObject ← (globalObject.map Json.text?).getD (some defaults.globalObject)
  let outputFile ← (outputFile.map Json.optionalText?).getD (some defaults.outputFile)
  return { entryPoints, mainModule, globalObject, outputFile }

/-- Options from a document. -/
def ofJson? : Json → Option Options
  | .array items =>
    if items.length ≤ 4 then ofValues? items[0]? items[1]? items[2]? items[3]? else none
  | .object fields => do
    guard (Json.namesAreTexts fields)
    ofValues? (← Json.field? fields "entryPoints") (← Json.field? fields "mainModule")
      (← Json.field? fields "namespace") (← Json.field? fields "outputFile")
  | _ => none

end Options

end ModuleLinker
