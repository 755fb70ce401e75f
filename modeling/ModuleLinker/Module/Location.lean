/-
# ModuleLinker.Module.Location -- where modules live

A compiled program has one directory per module, with the module itself in `index.js` and its
foreign code in `foreign.js`. `ModuleId.ofPath` reads the identifier off a file path, and
`RequireTarget.resolve` reads it off the path that a module requires.
-/

import ModuleLinker.Error
import ModuleLinker.Path.Component

namespace ModuleLinker

/-- The identifier of the module in the file at `path`: the file name tells its kind, the
directory around it its name. -/
def ModuleId.ofPath (path : String) : Except LinkError ModuleId :=
  let steps := Path.components path
  let kind? :=
    match Path.fileName? steps with
    | some "index.js" => some ModuleKind.regular
    | some "foreign.js" => some ModuleKind.foreign
    | _ => none
  match kind?, Path.fileName? steps.dropLast with
  | some kind, some name => .ok ⟨name, kind⟩
  | _, _ => .error (.unsupportedModulePath path)

/-- What a module requires: a module of the program, or a path left for the runtime. -/
inductive RequireTarget where
  | unresolved (path : String)
  | resolved (id : ModuleId)
deriving DecidableEq, Repr, Inhabited

namespace RequireTarget

/-- The path under which every module requires its own foreign code. -/
def foreignPath : String := "./foreign.js"

/-- The rest of a text behind a given beginning. -/
def after? : (beginning text : List Char) → Option (List Char)
  | [], text => some text
  | _ :: _, [] => none
  | b :: beginning, c :: text => if b = c then after? beginning text else none

/-- The part of a text in front of a given ending. -/
def before? (ending text : List Char) : Option (List Char) :=
  (after? ending.reverse text.reverse).map List.reverse

/-- The text without the slashes at its end. -/
def withoutSlashes (text : List Char) : List Char :=
  (text.reverse.dropWhile (· = '/')).reverse

/-- The module name in a path to a neighbour directory, with or without the file in it. -/
def neighbour? (path : List Char) : Option (List Char) :=
  (after? "../".toList path).map fun name =>
    (before? "/index.js".toList name).getD (withoutSlashes name)

/-- The module that `self` requires under `path`, given the names of all modules. -/
def resolve (self : ModuleId) (names : List String) (path : String) : RequireTarget :=
  if path = foreignPath then .resolved (.foreign self.name)
  else
    match (neighbour? path.toList).map String.ofList with
    | some name => if name ∈ names then .resolved (.regular name) else .unresolved path
    | none => .unresolved path

end RequireTarget

end ModuleLinker
