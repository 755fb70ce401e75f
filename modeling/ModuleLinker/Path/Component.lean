/-
# ModuleLinker.Path.Component -- paths as lists of components

A path is a text in which slashes separate names. Repeated slashes and single points between
names say nothing and are dropped; a single point is kept only where a relative path opens with
it. `Path.relativeTo` is the path that leads from a directory to a file.
-/

namespace ModuleLinker.Path

/-- One step of a path. -/
inductive Component where
  | root
  | current
  | parent
  | normal (name : String)
deriving DecidableEq, Repr, Inhabited

/-- The pieces of a path between its slashes. -/
def segments : List Char → List (List Char)
  | [] => [[]]
  | c :: cs =>
    if c = '/' then [] :: segments cs
    else
      match segments cs with
      | [] => [[c]]
      | segment :: rest => (c :: segment) :: rest

/-- The step that a piece stands for, if it stands for one. -/
def step? (segment : List Char) : Option Component :=
  if segment = [] ∨ segment = ['.'] then none
  else if segment = ['.', '.'] then some .parent
  else some (.normal (String.ofList segment))

/-- The steps of a path. -/
def components (path : String) : List Component :=
  match segments path.toList with
  | [] => []
  | first :: rest =>
    let steps := rest.filterMap step?
    if first = [] then
      if rest = [] then [] else .root :: steps
    else if first = ['.'] then .current :: steps
    else (step? first).toList ++ steps

/-- A path is absolute when it begins at the root. -/
def isAbsolute (steps : List Component) : Bool := steps.head? = some .root

/-- The name at the end of a path. -/
def fileName? (steps : List Component) : Option String :=
  match steps.getLast? with
  | some (.normal name) => some name
  | _ => none

/-- The steps to the directory of a path; a path without steps has none. -/
def directory (steps : List Component) : List Component :=
  match steps.getLast? with
  | some .root => []
  | _ => steps.dropLast

/-! ## From one path to another -/

/-- Up from every step of `base`, then down `path`. There is no way out of a directory that is
itself reached by climbing. -/
def climb (path base : List Component) : Option (List Component) :=
  if base.head? = some .parent ∧ path ≠ [] then none
  else some (base.map (fun _ => .parent) ++ path)

/-- The steps that lead from `base` to `path`: what both begin with is dropped, and what remains
of the base is climbed. Where only the base opens with a point, the first step of the path is
taken from there. -/
def relativeTo : (path base : List Component) → Option (List Component)
  | a :: path, b :: base =>
    if a = b then relativeTo path base
    else if b = .current then (climb path base).map (a :: ·)
    else climb (a :: path) (b :: base)
  | path, base => climb path base

/-- The text of one step. -/
def Component.text : Component → String
  | .root => "/"
  | .current => "."
  | .parent => ".."
  | .normal name => name

/-- The text of a path; nothing separates the root from the step after it. -/
def text : List Component → String
  | [] => ""
  | [step] => step.text
  | .root :: steps => "/" ++ text steps
  | step :: steps => step.text ++ "/" ++ text steps

/-- The path of `file` as seen from the directory of `output`, with slashes only. Where no such
path exists, the path of the file stays as it is. -/
def sourcePath (file output : String) : String :=
  let path := components file
  let base := directory (components output)
  let relative :=
    if isAbsolute path = isAbsolute base then (relativeTo path base).map text else none
  (relative.getD file).map fun c => if c = '\\' then '/' else c

end ModuleLinker.Path
