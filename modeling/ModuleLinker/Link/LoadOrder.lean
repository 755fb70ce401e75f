/-
# ModuleLinker.Link.LoadOrder -- required modules first

`postorder` lists the vertices of a graph so that a vertex comes behind its successors wherever
no cycle forbids it. It goes depth first from the vertices in their order, along the successors
in theirs, and keeps the vertices whose successors are not all visited on a stack. `loadOrder`
applies it to modules and their requires, from the modules in the order of their identifiers.
-/

import ModuleLinker.Module.Basic

namespace ModuleLinker

/-! ## Depth-first postorder -/

/-- A vertex on the stack with the successors that are still to be visited. -/
structure Frame (α : Type) where
  vertex : α
  pending : List α

/-- The state of a traversal. -/
structure Traversal (α : Type) where
  /-- The vertices whose successors are being visited, the latest first. -/
  stack : List (Frame α)
  visited : List α
  /-- The finished vertices, the latest first. -/
  finished : List α

namespace Traversal

variable {α : Type} [DecidableEq α]

/-- Puts a vertex on the stack. -/
def visit (successors : α → List α) (t : Traversal α) (vertex : α) : Traversal α :=
  { t with stack := ⟨vertex, successors vertex⟩ :: t.stack, visited := vertex :: t.visited }

/-- One step: looks at the next successor of the vertex on top, or finishes that vertex. -/
def step (successors : α → List α) (t : Traversal α) : Traversal α :=
  match t.stack with
  | [] => t
  | ⟨vertex, []⟩ :: below => { t with stack := below, finished := vertex :: t.finished }
  | ⟨vertex, next :: pending⟩ :: below =>
    let t := { t with stack := ⟨vertex, pending⟩ :: below }
    if next ∈ t.visited then t else t.visit successors next

/-- Steps until the stack is empty; `steps` bounds their number. -/
def run (successors : α → List α) : (steps : Nat) → Traversal α → Traversal α
  | 0, t => t
  | steps + 1, t => if t.stack.isEmpty then t else run successors steps (t.step successors)

/-- Visits everything that can be reached from a vertex, unless it was visited before. -/
def explore (successors : α → List α) (steps : Nat) (t : Traversal α) (root : α) :
    Traversal α :=
  if root ∈ t.visited then t else run successors steps (t.visit successors root)

end Traversal

/-- How many steps a traversal can take: each vertex is visited and finished once, and each edge
is looked at once. -/
def traversalSteps (vertices : List α) (successors : α → List α) : Nat :=
  vertices.foldr (fun vertex steps => (successors vertex).length + 2 + steps) 0

/-- The depth-first postorder of a graph whose edges stay among its vertices. -/
def postorder {α : Type} [DecidableEq α] (vertices : List α) (successors : α → List α) : List α :=
  let steps := traversalSteps vertices successors
  (vertices.foldl (Traversal.explore successors steps) ⟨[], [], []⟩).finished.reverse

/-! ## Modules -/

/-- The last module with an identifier. -/
def lastWithId? (modules : List Module) (id : ModuleId) : Option Module :=
  modules.reverse.find? fun m => m.id = id

/-- The identifiers of the modules in their order, each once. -/
def identifiers (modules : List Module) : List ModuleId :=
  sorted ModuleId.precedes (distinct (modules.map (·.id)))

/-- The modules among `ids` that a module requires, each once, in the order of its statements. -/
def requiredAmong (ids : List ModuleId) (modules : List Module) (id : ModuleId) : List ModuleId :=
  match lastWithId? modules id with
  | none => []
  | some m => distinct (m.required.filter (ids.contains ·))

/-- The modules with every module behind the ones that it requires, as far as cycles permit. Of
several modules with one identifier the last counts. -/
def loadOrder (modules : List Module) : List Module :=
  let ids := identifiers modules
  (postorder ids (requiredAmong ids modules)).filterMap (lastWithId? modules)

end ModuleLinker
