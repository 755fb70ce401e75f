/-
# ModuleLinker.Link.Reachability -- what the entry points need

The members and exports of all modules are the definitions of the program. A key may be defined
several times; its dependencies are those of all its definitions. Live are the public keys of the
entry points and every defined key that a live key depends on.
-/

import ModuleLinker.Module.Basic

namespace ModuleLinker

/-- A member or an export with the keys that it depends on. -/
structure Definition where
  key : Key
  dependencies : List Key
deriving DecidableEq, Repr, Inhabited

/-- The definitions of an element of the module `owner`. -/
def Element.definitions (owner : ModuleId) : Element → List Definition
  | .member _ visibility name _ dependencies => [⟨⟨owner, name, visibility⟩, dependencies⟩]
  | .exports _ entries => entries.map fun entry => ⟨entry.key owner, entry.dependencies⟩
  | _ => []

def Module.definitions (m : Module) : List Definition :=
  m.elements.flatMap (Element.definitions m.id)

/-- The definitions of all modules in their order. -/
def definitions (modules : List Module) : List Definition := modules.flatMap Module.definitions

/-- The dependencies of all definitions of a key. -/
def dependenciesOf (defs : List Definition) (key : Key) : List Key :=
  defs.flatMap fun d => if d.key = key then d.dependencies else []

/-- Whether some definition has the key. -/
def isDefined (defs : List Definition) (key : Key) : Bool := defs.any fun d => d.key = key

/-- The public keys of the entry points. -/
def roots (defs : List Definition) (entryPoints : List ModuleId) : List Key :=
  distinct ((defs.map (·.key)).filter fun key =>
    key.visibility = .exported && entryPoints.contains key.owner)

/-- Adds what the keys of the frontier depend on, then what that depends on, and so on; every
round adds a defined key or is the last. -/
def spread (defs : List Definition) : (rounds : Nat) → (frontier live : List Key) → List Key
  | 0, _, live => live
  | rounds + 1, frontier, live =>
    let next := distinct ((frontier.flatMap (dependenciesOf defs)).filter fun key =>
      isDefined defs key && !live.contains key)
    if next.isEmpty then live else spread defs rounds next (live ++ next)

/-- What is live in a program, and which modules live code refers to. -/
structure Reachability where
  live : List Key := []
  /-- Pairs of a module and another module that its live keys depend on. -/
  references : List (ModuleId × ModuleId) := []
deriving Repr, Inhabited

namespace Reachability

/-- The modules that a live key refers to, besides its own. -/
def referencesOf (defs : List Definition) (key : Key) : List (ModuleId × ModuleId) :=
  ((dependenciesOf defs key).filter (·.owner ≠ key.owner)).map fun d => (key.owner, d.owner)

/-- What is reachable from the public keys of the entry points. -/
def compute (defs : List Definition) (entryPoints : List ModuleId) : Reachability :=
  let start := roots defs entryPoints
  let live := spread defs defs.length start start
  { live, references := distinct (live.flatMap (referencesOf defs)) }

def isLive (r : Reachability) (key : Key) : Bool := r.live.contains key

/-- How many keys are live. -/
def liveCount (r : Reachability) : Nat := r.live.length

def isReferenced (r : Reachability) (source target : ModuleId) : Bool :=
  r.references.contains (source, target)

end Reachability

end ModuleLinker
