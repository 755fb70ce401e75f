/-
# ModuleLinker.Link.Elimination -- leaving out what is dead

A dead member and a require that no live code refers to become skipped elements of the same span;
a table of exports keeps its live entries; every other element stays. A module that is empty
afterwards is dropped.
-/

import ModuleLinker.Link.Reachability

namespace ModuleLinker

/-- The element without what is dead in it. -/
def Element.eliminate (r : Reachability) (owner : ModuleId) : Element → Element
  | .member span visibility name value dependencies =>
    if r.isLive ⟨owner, name, visibility⟩ then .member span visibility name value dependencies
    else .skipped span
  | .exports span entries => .exports span (entries.filter fun entry => r.isLive (entry.key owner))
  | .require span binder (.resolved id) =>
    if r.isReferenced owner id then .require span binder (.resolved id) else .skipped span
  | element => element

/-- The module without what is dead in it. -/
def Module.eliminate (r : Reachability) (m : Module) : Module :=
  { m with elements := m.elements.map (Element.eliminate r m.id) }

/-- The modules that are not empty once their dead elements are gone, in their order. -/
def eliminate (r : Reachability) (modules : List Module) : List Module :=
  (modules.map (Module.eliminate r)).filter fun m => !m.isEmpty

end ModuleLinker
