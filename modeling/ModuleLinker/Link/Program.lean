/-
# ModuleLinker.Link.Program -- linking modules into one program

`link` checks the entry points, reads every module, finds what the entry points need, leaves out
the rest, and writes what remains in load order. It fails with the first error: of the entry
points in their order, of the main module, of the modules in their order.
-/

import ModuleLinker.Link.Elimination
import ModuleLinker.Link.Emission
import ModuleLinker.Link.LoadOrder
import ModuleLinker.Module.Classify
import ModuleLinker.Module.Dependencies

namespace ModuleLinker

/-- The entry points of the options, all of which have to be among `ids`. -/
def checkEntryPoints (ids : List ModuleId) : List ModuleId → Except LinkError (List ModuleId)
  | [] => .ok []
  | id :: rest =>
    if id ∈ ids then (checkEntryPoints ids rest).map (id :: ·)
    else .error (.missingEntryPoint id.display)

/-- The entry points with the main module, which has to be among `ids` too. -/
def entryPoints (ids : List ModuleId) (options : Options) : Except LinkError (List ModuleId) := do
  let entries ← checkEntryPoints ids options.entryPoints
  match options.mainModule with
  | none => return entries
  | some name =>
    if .regular name ∈ ids then return entries ++ [.regular name]
    else .error (.missingMainModule name)

/-- The modules of some inputs with their dependencies. -/
def loadModules [Script.ParserWording] (inputs : List ModuleInput) : Except Failure (List Module) :=
  inputs.mapM fun input =>
    (Module.classify (inputs.map (·.id.name)) input).map Module.analyze

/-- The program that some modules make. -/
def link [Script.ParserWording] (inputs : List ModuleInput) (options : Options) :
    Except Failure Bundle := do
  let entries ← (entryPoints (inputs.map (·.id)) options).mapError .error
  let modules ← loadModules inputs
  let r := Reachability.compute (definitions modules) entries
  emit (loadOrder (eliminate r modules)) options

end ModuleLinker
