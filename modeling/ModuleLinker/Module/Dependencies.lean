/-
# ModuleLinker.Module.Dependencies -- what members and exports refer to

The top level of a module binds its internal members and the aliases of its requires.
`Module.analyze` gives each member and each export the keys that its value refers to, in the
order of their first occurrence:

* a member access through an alias refers to an export of the required module,
* a member access through `exports` refers to an export of the module itself,
* a name of an internal member refers to that member.

A name that a parameter hides refers to nothing, except that `exports` is never hidden.
-/

import ModuleLinker.Module.Basic
import ModuleLinker.Script.Occurrence

namespace ModuleLinker

open Script

/-- What the top level of a module binds. -/
structure Scope where
  self : ModuleId
  members : List String
  /-- The aliases of requires, the latest first. -/
  imports : List (String × ModuleId)

namespace Scope

/-- The internal member that an element declares. -/
def memberOf? : Element → Option String
  | .member _ .internal name _ _ => some name
  | _ => none

/-- The alias and the module of a require. -/
def importOf? : Element → Option (String × ModuleId)
  | .require _ binder (.resolved id) => some (binder, id)
  | _ => none

def ofModule (m : Module) : Scope where
  self := m.id
  members := m.elements.filterMap memberOf?
  imports := (m.elements.filterMap importOf?).reverse

/-- The internal member that a name refers to. -/
def member? (scope : Scope) (hidden : List String) (name : String) : Option Key :=
  if name ∈ scope.members ∧ name ∉ hidden then some ⟨scope.self, name, .internal⟩ else none

/-- The module that a name stands for. -/
def import? (scope : Scope) (hidden : List String) (name : String) : Option ModuleId :=
  if name ∈ hidden then none else scope.imports.lookup name

/-- What an occurrence refers to. -/
def refer? (scope : Scope) (occurrence : Occurrence) : Option Key :=
  match occurrence.mention with
  | .literal _ => none
  | .reference name => scope.member? occurrence.hidden name
  | .access object property =>
    match scope.import? occurrence.hidden object with
    | some id => some ⟨id, property, .exported⟩
    | none =>
      if object = "exports" then some ⟨scope.self, property, .exported⟩
      else scope.member? occurrence.hidden object

/-- The keys that a value refers to. -/
def dependencies (scope : Scope) (value : Expr) : List Key :=
  distinct ((value.occurrences []).filterMap scope.refer?)

/-- An exported property with its dependencies. -/
def analyzeEntry (scope : Scope) (entry : ExportEntry) : ExportEntry :=
  { entry with dependencies := scope.dependencies entry.value }

/-- An element with the dependencies of its values. -/
def analyzeElement (scope : Scope) : Element → Element
  | .member span visibility name value _ =>
    .member span visibility name value (scope.dependencies value)
  | .exports span entries => .exports span (entries.map scope.analyzeEntry)
  | element => element

end Scope

/-- The module with the dependencies of all its members and exports. -/
def Module.analyze (m : Module) : Module :=
  { m with elements := m.elements.map (Scope.ofModule m).analyzeElement }

end ModuleLinker
