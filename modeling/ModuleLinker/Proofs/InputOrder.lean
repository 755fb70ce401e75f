/-
# ModuleLinker.Proofs.InputOrder -- the order of the inputs does not matter

Modules are loaded in the order in which they are given, and every later stage goes over lists that
inherit this order. None of it reaches the program: which keys are live depends on what the modules
declare, elimination goes element by element, and the load order starts from the identifiers in
their own order (`loadOrder_congr`), also where requires go round in circles.

`link_eq_ok_iff_of_perm` says so for inputs with different identifiers: in any order, and with the
entry points in any order and repeated at will, they link to the same program or not at all.
-/

import Mathlib.Data.List.Forall2
import Mathlib.Data.Prod.Lex
import Mathlib.Data.String.Basic
import ModuleLinker.Proofs.Idempotence
import ModuleLinker.Proofs.KnownNames
import ModuleLinker.Proofs.LoadOrder
import ModuleLinker.Proofs.Sorting

namespace ModuleLinker

/-- By name, then regular before foreign, as an order of pairs. -/
def ModuleId.rank (id : ModuleId) : String ×ₗ Bool := toLex (id.name, id.isForeign)

theorem ModuleId.rank_injective : Function.Injective ModuleId.rank := by
  rintro ⟨name, kind⟩ ⟨name', kind'⟩ h
  obtain ⟨rfl, hkind⟩ := Prod.mk.inj (toLex.injective h)
  cases kind <;> cases kind' <;> first | rfl | cases hkind

theorem ModuleId.precedes_iff_rank_lt (a b : ModuleId) : a.precedes b ↔ a.rank < b.rank := by
  rw [rank, rank, Prod.Lex.toLex_lt_toLex, precedes]
  cases ha : a.kind <;> cases hb : b.kind <;> simp [isForeign, ha, hb]

/-! ## The order of the modules -/

section Order

variable {modules others : List Module}

theorem mem_map_id_iff (modules : List Module) (id : ModuleId) :
    id ∈ modules.map (·.id) ↔ (lastWithId? modules id).isSome := by
  rw [lastWithId?, List.find?_isSome, List.mem_map]
  simp

/-- The order only depends on which module is found under which identifier. -/
theorem loadOrder_congr (h : ∀ id, lastWithId? modules id = lastWithId? others id) :
    loadOrder modules = loadOrder others := by
  have hdistinct : (distinct (modules.map (·.id))).Perm (distinct (others.map (·.id))) := by
    refine (List.perm_ext_iff_of_nodup (distinct_nodup _) (distinct_nodup _)).2 fun id => ?_
    rw [mem_distinct, mem_distinct, mem_map_id_iff, mem_map_id_iff, h]
  have hids : identifiers modules = identifiers others :=
    sorted_eq_of_perm ModuleId.precedes_iff_rank_lt ModuleId.rank_injective hdistinct
  have hrequired : requiredAmong (identifiers modules) modules =
      requiredAmong (identifiers others) others := by
    funext id
    rw [hids, requiredAmong, requiredAmong, h]
  have hfound : lastWithId? modules = lastWithId? others := funext h
  simp only [loadOrder]
  rw [hrequired, hids, hfound]

/-- Modules with different identifiers are put in the same order wherever they come from. -/
theorem loadOrder_eq_of_perm (hids : (modules.map (·.id)).Nodup) (hperm : modules.Perm others) :
    loadOrder modules = loadOrder others := by
  refine loadOrder_congr fun id => Option.ext fun m => ?_
  rw [lastWithId?_eq_some_iff hids,
    lastWithId?_eq_some_iff ((hperm.map (·.id)).nodup_iff.1 hids), hperm.mem_iff]

end Order

/-! ## The stages up to the order -/

section Stages

variable {inputs inputs' : List ModuleInput} {options : Options} {modules others : List Module}
  {entryPoints' : List ModuleId}

/-- What is loaded from inputs in another order is the same in another order. -/
theorem exists_loadModules_of_perm [Script.ParserWording] (hperm : inputs.Perm inputs')
    (h : loadModules inputs = .ok modules) :
    ∃ others, loadModules inputs' = .ok others ∧ modules.Perm others := by
  have hnames : ∀ name, name ∈ inputs.map (·.id.name) ↔ name ∈ inputs'.map (·.id.name) :=
    fun name => (hperm.map _).mem_iff
  obtain ⟨others, hothers, hmodules⟩ :=
    List.perm_comp_forall₂ hperm.symm (loadModules_eq_ok_iff.1 h)
  refine ⟨others, loadModules_eq_ok_iff.2 (hothers.imp ?_), hmodules.symm⟩
  rintro input _ ⟨read, hread, rfl⟩
  have hresolve : ∀ path ∈ requiredPaths input,
      RequireTarget.resolve input.id (inputs.map (·.id.name)) path =
        RequireTarget.resolve input.id (inputs'.map (·.id.name)) path :=
    fun path _ => RequireTarget.resolve_congr hnames input.id path
  exact ⟨read, Module.classify_eq_ok_of_resolve hresolve hread, rfl⟩

theorem declares_iff_of_perm (hperm : modules.Perm others) {key : Key} {dependencies : List Key} :
    Declares modules key dependencies ↔ Declares others key dependencies :=
  ⟨fun h => h.mono fun _ => hperm.mem_iff.1, fun h => h.mono fun _ => hperm.mem_iff.2⟩

/-- The survivors of inputs in another order are the same in another order. -/
theorem exists_survivors_of_perm [Script.ParserWording] (hperm : inputs.Perm inputs')
    (hentry : ∀ id, id ∈ options.entryPoints ↔ id ∈ entryPoints')
    (h : survivors inputs options = .ok modules) :
    ∃ others, survivors inputs' { options with entryPoints := entryPoints' } = .ok others ∧
      modules.Perm others := by
  obtain ⟨hknown, loaded, hloaded, rfl⟩ := survivors_eq_ok_iff.1 h
  obtain ⟨loaded', hloaded', hloadedPerm⟩ := exists_loadModules_of_perm hperm hloaded
  have hmem : ∀ id, id ∈ options.allEntryPoints ↔
      id ∈ ({ options with entryPoints := entryPoints' } : Options).allEntryPoints := by
    intro id
    rw [Options.allEntryPoints, Options.allEntryPoints, List.mem_append, List.mem_append, hentry]
  -- Both runs find the same live keys, although they find them in different orders.
  have hagrees : (Reachability.compute (definitions loaded) options.allEntryPoints).Agrees
      (Reachability.compute (definitions loaded')
        ({ options with entryPoints := entryPoints' } : Options).allEntryPoints) := by
    refine agrees_compute (fun key => ⟨?_, ?_⟩) fun key dependencies _ =>
      declares_iff_of_perm hloadedPerm
    · exact Live.mono (fun _ _ => (declares_iff_of_perm hloadedPerm).1) fun id => (hmem id).1
    · exact Live.mono (fun _ _ => (declares_iff_of_perm hloadedPerm).2) fun id => (hmem id).2
  refine ⟨_, survivors_eq_ok_iff.2 ⟨fun id hid => ?_, loaded', hloaded', rfl⟩, ?_⟩
  · exact (hperm.map (·.id)).mem_iff.1 (hknown id ((hmem id).2 hid))
  · rw [← hagrees.eliminate_eq loaded']
    exact (hloadedPerm.map _).filter _

end Stages

/-! ## Linking -/

section Linking

variable {inputs inputs' : List ModuleInput} {options : Options} {entryPoints' : List ModuleId}
  {bundle : Bundle}

theorem link_of_perm [Script.ParserWording] (hids : (inputs.map (·.id)).Nodup)
    (hperm : inputs.Perm inputs') (hentry : ∀ id, id ∈ options.entryPoints ↔ id ∈ entryPoints')
    (h : link inputs options = .ok bundle) :
    link inputs' { options with entryPoints := entryPoints' } = .ok bundle := by
  obtain ⟨modules, hsurvivors, hemit⟩ := link_eq_ok_iff.1 h
  obtain ⟨others, hothers, hmodules⟩ := exists_survivors_of_perm hperm hentry hsurvivors
  refine link_eq_ok_iff.2 ⟨others, hothers, ?_⟩
  rw [← loadOrder_eq_of_perm (nodup_of_survivors hids hsurvivors) hmodules, ← hemit]
  rfl

/-- Inputs with different identifiers link to the same program in every order, and in every order
of the entry points, however often these are repeated; and where they fail to link in one order,
they do in every other. -/
theorem link_eq_ok_iff_of_perm [Script.ParserWording] (hids : (inputs.map (·.id)).Nodup)
    (hperm : inputs.Perm inputs') (hentry : ∀ id, id ∈ options.entryPoints ↔ id ∈ entryPoints')
    (bundle : Bundle) :
    link inputs options = .ok bundle ↔
      link inputs' { options with entryPoints := entryPoints' } = .ok bundle := by
  constructor
  · exact link_of_perm hids hperm hentry
  · intro h
    have hids' : (inputs'.map (·.id)).Nodup := (hperm.map _).nodup_iff.1 hids
    have hentry' : ∀ id, id ∈ ({ options with entryPoints := entryPoints' } : Options).entryPoints ↔
        id ∈ options.entryPoints := fun id => (hentry id).symm
    have hback := link_of_perm hids' hperm.symm hentry' h
    exact hback

/-- Two modules that require each other. -/
def circle : List ModuleInput :=
  [⟨.regular "A", none, "var b=require(\"../B\");exports.a=b.b"⟩,
    ⟨.regular "B", none, "var a=require(\"../A\");exports.b=a.a"⟩]

/-- The program of both modules, `B` first. -/
def circleProgram : String :=
  "var PS = \x7b\x7d;\n(function(exports) \x7b\n  var a = PS[\"A\"];\n  exports.b=a.a\n" ++
  "\x7d)(PS[\"B\"] = PS[\"B\"] || \x7b\x7d);\n(function(exports) \x7b\n  var b = PS[\"B\"];\n" ++
  "  exports.a=b.b\n\x7d)(PS[\"A\"] = PS[\"A\"] || \x7b\x7d);\n"

/-- Given the other way round, and with an entry point named twice, they link to the same. -/
theorem circle_reversed :
    (circle.map (·.id)).Nodup ∧ circle.Perm circle.reverse ∧
      (∀ id, id ∈ [ModuleId.regular "A", .regular "B"] ↔
        id ∈ [ModuleId.regular "B", .regular "A", .regular "B"]) ∧
      link circle.reverse { entryPoints := [.regular "B", .regular "A", .regular "B"] } =
        .ok ⟨circleProgram, none⟩ := by
  let options : Options := { entryPoints := [.regular "A", .regular "B"] }
  have hids : (circle.map (·.id)).Nodup := by decide
  have hperm : circle.Perm circle.reverse := (List.reverse_perm circle).symm
  have hentry : ∀ id, id ∈ options.entryPoints ↔
      id ∈ [ModuleId.regular "B", .regular "A", .regular "B"] := by
    intro id
    simp only [options, List.mem_cons, List.not_mem_nil, or_false]
    tauto
  have hlink : link circle options = .ok ⟨circleProgram, none⟩ :=
    eq_ok_of_toOption (by decide +kernel)
  have hiff := link_eq_ok_iff_of_perm hids hperm hentry ⟨circleProgram, none⟩
  exact ⟨hids, hperm, hentry, hiff.1 hlink⟩

end Linking

end ModuleLinker
