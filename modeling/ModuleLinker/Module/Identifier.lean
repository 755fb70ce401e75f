/-
# ModuleLinker.Module.Identifier -- names of modules and of their members

A module is known by its name and its kind: a regular module and the foreign one beside it share
the name. Inside a module a member is known by its name and by whether other modules can see it.
The order on identifiers goes by name first, regular before foreign; the order on keys goes by
module, name, and then public before internal.
-/

import ModuleLinker.Order

namespace ModuleLinker

/-- Whether a module was compiled, or is the hand-written code beside a compiled module. -/
inductive ModuleKind where
  | regular
  | foreign
deriving DecidableEq, Repr, Inhabited

/-- Identifies one module of a program. -/
structure ModuleId where
  name : String
  kind : ModuleKind
deriving DecidableEq, Repr, Inhabited

/-- Whether other modules can see a member. -/
inductive Visibility where
  | exported
  | internal
deriving DecidableEq, Repr, Inhabited

/-- Identifies one member or export of a program. -/
structure Key where
  owner : ModuleId
  name : String
  visibility : Visibility
deriving DecidableEq, Repr, Inhabited

namespace ModuleId

def regular (name : String) : ModuleId := ⟨name, .regular⟩

def foreign (name : String) : ModuleId := ⟨name, .foreign⟩

def isForeign (id : ModuleId) : Bool := id.kind = .foreign

/-- The identifier as messages show it. -/
def display (id : ModuleId) : String :=
  match id.kind with
  | .regular => id.name
  | .foreign => id.name ++ " (foreign)"

/-- By name, then regular before foreign. -/
def precedes (a b : ModuleId) : Bool :=
  a.name < b.name || (a.name = b.name && a.kind = .regular && b.kind = .foreign)

end ModuleId

namespace Key

/-- The key as messages show it: a point before a public name, a hash before an internal one. -/
def display (key : Key) : String :=
  match key.visibility with
  | .exported => key.owner.display ++ "." ++ key.name
  | .internal => key.owner.display ++ "#" ++ key.name

/-- By module, then name, then public before internal. -/
def precedes (a b : Key) : Bool :=
  a.owner.precedes b.owner ||
    (a.owner = b.owner &&
      (a.name < b.name ||
        (a.name = b.name && a.visibility = .exported && b.visibility = .internal)))

end Key

end ModuleLinker
