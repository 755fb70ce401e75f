/-
# ModuleLinker.Module.Basic -- modules as lists of classified statements

A module is its identifier, its text, and one element per top-level statement: a require, a
member, a table of exports, any other statement, or a statement that was found dead and only
keeps its place.
-/

import ModuleLinker.Module.Location
import ModuleLinker.Module.Source
import ModuleLinker.Script.Tree

namespace ModuleLinker

/-- What an export is bound to: an expression of this module, with its text, or a member of the
foreign module beside it. -/
inductive ExportBinding where
  | expression (text : String)
  | foreign
deriving DecidableEq, Repr, Inhabited

/-- One property of a table of exports. The span is that of its value. -/
structure ExportEntry where
  name : String
  binding : ExportBinding
  value : Script.Expr
  span : LineSpan
  dependencies : List Key := []

/-- A classified top-level statement. -/
inductive Element where
  | require (span : LineSpan) (binder : String) (target : RequireTarget)
  | member (span : LineSpan) (visibility : Visibility) (name : String) (value : Script.Expr)
      (dependencies : List Key)
  | exports (span : LineSpan) (entries : List ExportEntry)
  | other (span : LineSpan)
  | skipped (span : LineSpan)

/-- A module as the linker sees it. -/
structure Module where
  id : ModuleId
  filePath : Option String
  source : Source
  elements : List Element

/-- The text of a module and where it comes from. -/
structure ModuleInput where
  id : ModuleId
  filePath : Option String := none
  text : String
deriving DecidableEq, Repr

namespace Element

/-- The span of the statement. -/
def span : Element → LineSpan
  | .require span _ _ => span
  | .member span _ _ _ _ => span
  | .exports span _ => span
  | .other span => span
  | .skipped span => span

def isSkipped : Element → Bool
  | .skipped _ => true
  | _ => false

/-- Whether the element holds nothing that another module could see. -/
def isSilent : Element → Bool
  | .member .. => false
  | .exports _ entries => entries.isEmpty
  | _ => true

/-- The module of the program that the element requires. -/
def required? : Element → Option ModuleId
  | .require _ _ (.resolved id) => some id
  | _ => none

end Element

/-- The key of an exported property. -/
def ExportEntry.key (entry : ExportEntry) (owner : ModuleId) : Key :=
  ⟨owner, entry.name, .exported⟩

namespace Module

/-- A module is empty when nothing is left in it that another module could see. -/
def isEmpty (m : Module) : Bool := m.elements.all Element.isSilent

/-- The modules of the program that a module requires, in the order of its statements. -/
def required (m : Module) : List ModuleId := m.elements.filterMap Element.required?

end Module

end ModuleLinker
