/-
# ModuleLinker.Proofs.Stages -- the modules that a program is written from

Linking is done in two halves: up to the `survivors`, the modules that are left once the dead code
is gone, and from them to the text. Loading and eliminating keep the identifiers of the inputs in
their order, so that survivors of inputs with different identifiers have different identifiers.
-/

import ModuleLinker.Link.Program
import ModuleLinker.Proofs.Elimination
import ModuleLinker.Proofs.Wrapper

namespace ModuleLinker

variable {inputs : List ModuleInput} {options : Options} {modules : List Module}

/-! ## Entry points -/

/-- The entry points with the main module. -/
def Options.allEntryPoints (options : Options) : List ModuleId :=
  options.entryPoints ++ options.mainModule.toList.map .regular

theorem checkEntryPoints_eq_ok_iff {ids wanted entries : List ModuleId} :
    checkEntryPoints ids wanted = .ok entries ↔ (∀ id ∈ wanted, id ∈ ids) ∧ entries = wanted := by
  induction wanted generalizing entries with
  | nil =>
      rw [checkEntryPoints]
      exact ⟨fun h => ⟨by simp, (Except.ok.inj h).symm⟩, fun h => congrArg Except.ok h.2.symm⟩
  | cons id rest ih =>
      unfold checkEntryPoints
      split
      · next hid =>
        cases hrest : checkEntryPoints ids rest with
        | error failure =>
            refine ⟨nofun, fun h => ?_⟩
            have hok : checkEntryPoints ids rest = .ok rest :=
              ih.2 ⟨(List.forall_mem_cons.1 h.1).2, rfl⟩
            cases hrest.symm.trans hok
        | ok found =>
            obtain ⟨hmem, rfl⟩ := ih.1 hrest
            exact ⟨fun h => ⟨List.forall_mem_cons.2 ⟨hid, hmem⟩, (Except.ok.inj h).symm⟩,
              fun h => congrArg Except.ok h.2.symm⟩
      · next hid =>
        exact ⟨nofun, fun h => absurd (List.forall_mem_cons.1 h.1).1 hid⟩

/-- The entry points are found where all of them are among the modules. -/
theorem entryPoints_eq_ok_iff {ids entries : List ModuleId} :
    entryPoints ids options = .ok entries ↔
      (∀ id ∈ options.allEntryPoints, id ∈ ids) ∧ entries = options.allEntryPoints := by
  unfold entryPoints Options.allEntryPoints
  rw [bind_except_eq_ok_iff]
  simp only [checkEntryPoints_eq_ok_iff]
  cases options.mainModule with
  | none =>
      simp only [Option.toList_none, List.map_nil, List.append_nil]
      constructor
      · rintro ⟨_, hwanted, h⟩
        obtain rfl := Except.ok.inj h
        exact hwanted
      · exact fun hwanted => ⟨_, hwanted, rfl⟩
  | some name =>
      simp only [Option.toList_some, List.map_cons, List.map_nil, List.forall_mem_append,
        List.forall_mem_singleton]
      constructor
      · rintro ⟨_, ⟨hwanted, rfl⟩, h⟩
        split at h
        · next hmain => exact ⟨⟨hwanted, hmain⟩, (Except.ok.inj h).symm⟩
        · cases h
      · rintro ⟨⟨hwanted, hmain⟩, rfl⟩
        exact ⟨_, ⟨hwanted, rfl⟩, if_pos hmain⟩

/-! ## Loading -/

/-- What the statements of a text are classified against. -/
def Module.siteOf (names : List String) (input : ModuleInput) (program : Script.Program) :
    Site where
  id := input.id
  names := names
  source := Source.ofText input.text.toList
    (multilineLiterals (LineIndex.ofText input.text.toList) program)
  origin := program.origin

/-- The module of a text is that of its statements, in the order of the statements. -/
theorem Module.classify_eq_ok_iff [Script.ParserWording] {names : List String} {input : ModuleInput}
    {m : Module} :
    classify names input = .ok m ↔
      ∃ program elements, Script.Program.read input.text.toList = .ok program ∧
        elementsOf (siteOf names input program) [] program.statements = .ok elements ∧
        m = ⟨input.id, input.filePath, (siteOf names input program).source, elements⟩ := by
  -- Only an error is changed, which is given the name of its module.
  have hclassify : classify names input = .ok m ↔ classifyText names input = .ok m := by
    unfold classify
    split
    · next h =>
      rw [h]
      exact ⟨nofun, nofun⟩
    · exact Iff.rfl
  rw [hclassify]
  unfold classifyText
  dsimp only
  cases hread : Script.Program.read input.text.toList with
  | error failure =>
      refine ⟨fun h => ?_, nofun⟩
      cases failure <;> cases h
  | ok program =>
      dsimp only
      rw [bind_except_eq_ok_iff]
      constructor
      · rintro ⟨elements, helements, h⟩
        exact ⟨program, elements, rfl, helements, (Except.ok.inj h).symm⟩
      · rintro ⟨program, elements, hprogram, helements, rfl⟩
        obtain rfl := Except.ok.inj hprogram
        exact ⟨elements, helements, rfl⟩

theorem classify_eq_ok [Script.ParserWording] {names : List String} {input : ModuleInput}
    {m : Module} (h : Module.classify names input = .ok m) :
    ∃ program site, Script.Program.read input.text.toList = .ok program ∧
      Module.elementsOf site [] program.statements = .ok m.elements ∧
      site.id = m.id ∧ site.source = m.source ∧ m.id = input.id ∧ m.filePath = input.filePath := by
  obtain ⟨program, elements, hread, helements, rfl⟩ := Module.classify_eq_ok_iff.1 h
  exact ⟨program, _, hread, helements, rfl, rfl, rfl, rfl⟩

/-- Every statement has its element, and every element is that of a statement. -/
theorem Module.forall₂_elementOf {site : Site} {imports : Imports} {stmts : List Script.Stmt}
    {elements : List Element} (h : elementsOf site imports stmts = .ok elements) :
    List.Forall₂ (fun stmt element => ∃ imports, elementOf site imports stmt = .ok element)
      stmts elements := by
  induction stmts generalizing imports elements with
  | nil =>
      obtain rfl := Except.ok.inj h
      exact .nil
  | cons stmt stmts ih =>
      unfold elementsOf at h
      obtain ⟨first, hfirst, h⟩ := bind_except_eq_ok_iff.1 h
      obtain ⟨rest, hrest, h⟩ := bind_except_eq_ok_iff.1 h
      obtain rfl := Except.ok.inj h
      exact .cons ⟨imports, hfirst⟩ (ih hrest)

/-- A require is that of a statement which requires a path. -/
theorem Module.exists_require_of_elementOf {site : Site} {imports : Imports} {stmt : Script.Stmt}
    {span : LineSpan} {binder : String} {target : RequireTarget}
    (h : elementOf site imports stmt = .ok (.require span binder target)) :
    ∃ path, stmt.require? = some (binder, path) ∧
      target = RequireTarget.resolve site.id site.names path := by
  unfold elementOf at h
  dsimp only at h
  split at h
  · next name path hrequire =>
    obtain ⟨-, rfl, rfl⟩ := Element.require.inj (Except.ok.inj h)
    exact ⟨path, hrequire, rfl⟩
  · split at h
    · cases h
    · split at h
      · obtain ⟨_, -, h⟩ := bind_except_eq_ok_iff.1 h
        cases h
      · split at h <;> cases h

theorem id_of_classify [Script.ParserWording] {names : List String} {input : ModuleInput}
    {m : Module} (h : Module.classify names input = .ok m) : m.id = input.id := by
  obtain ⟨_, _, -, -, -, -, hid, -⟩ := classify_eq_ok h
  exact hid

theorem loadModules_eq_ok_iff [Script.ParserWording] :
    loadModules inputs = .ok modules ↔
      List.Forall₂ (fun input m => ∃ read,
        Module.classify (inputs.map (·.id.name)) input = .ok read ∧ read.analyze = m)
        inputs modules := by
  rw [loadModules, mapM_except_eq_ok_iff]
  have hread : ∀ input m, (Module.classify (inputs.map (·.id.name)) input).map Module.analyze =
      .ok m ↔ ∃ read, Module.classify (inputs.map (·.id.name)) input = .ok read ∧
        read.analyze = m := by
    intro input m
    cases Module.classify (inputs.map (·.id.name)) input with
    | error failure => exact ⟨nofun, nofun⟩
    | ok read =>
        exact ⟨fun h => ⟨read, rfl, Except.ok.inj h⟩,
          fun ⟨_, h, hm⟩ => congrArg Except.ok (Except.ok.inj h ▸ hm)⟩
  simp only [hread]

/-- Loading keeps the identifiers. -/
theorem map_id_of_loadModules [Script.ParserWording] (h : loadModules inputs = .ok modules) :
    inputs.map (·.id) = modules.map (·.id) := by
  refine map_eq_map_of_forall₂ ((loadModules_eq_ok_iff.1 h).imp ?_)
  rintro input _ ⟨read, hread, rfl⟩
  exact (id_of_classify hread).symm

/-! ## Survivors -/

/-- The modules that are left of the inputs once the dead code is gone. -/
def survivors [Script.ParserWording] (inputs : List ModuleInput) (options : Options) :
    Except Failure (List Module) := do
  let entries ← (entryPoints (inputs.map (·.id)) options).mapError .error
  let modules ← loadModules inputs
  return eliminate (Reachability.compute (definitions modules) entries) modules

/-- The survivors are what elimination leaves of the loaded modules. -/
theorem survivors_eq_ok_iff [Script.ParserWording] :
    survivors inputs options = .ok modules ↔
      (∀ id ∈ options.allEntryPoints, id ∈ inputs.map (·.id)) ∧
        ∃ loaded, loadModules inputs = .ok loaded ∧ modules =
          eliminate (Reachability.compute (definitions loaded) options.allEntryPoints) loaded := by
  unfold survivors
  simp only [bind_except_eq_ok_iff, mapError_eq_ok_iff, entryPoints_eq_ok_iff]
  constructor
  · rintro ⟨_, ⟨hknown, rfl⟩, loaded, hloaded, h⟩
    exact ⟨hknown, loaded, hloaded, (Except.ok.inj h).symm⟩
  · rintro ⟨hknown, loaded, hloaded, rfl⟩
    exact ⟨_, ⟨hknown, rfl⟩, loaded, hloaded, rfl⟩

theorem link_eq_ok_iff [Script.ParserWording] {bundle : Bundle} :
    link inputs options = .ok bundle ↔
      ∃ modules, survivors inputs options = .ok modules ∧
        emit (loadOrder modules) options = .ok bundle := by
  have hlink : link inputs options =
      survivors inputs options >>= fun modules => emit (loadOrder modules) options := by
    unfold link survivors
    simp only [bind_assoc, pure_bind]
  rw [hlink, bind_except_eq_ok_iff]

/-- Inputs with different identifiers leave modules with different identifiers. -/
theorem nodup_of_survivors [Script.ParserWording] (hids : (inputs.map (·.id)).Nodup)
    (h : survivors inputs options = .ok modules) : (modules.map (·.id)).Nodup := by
  obtain ⟨-, loaded, hloaded, rfl⟩ := survivors_eq_ok_iff.1 h
  have hsublist : ∀ r : Reachability,
      ((eliminate r loaded).map (·.id)).Sublist (loaded.map (·.id)) := by
    intro r
    rw [eliminate]
    refine (List.filter_sublist.map _).trans ?_
    rw [List.map_map]
    exact List.Sublist.refl _
  rw [map_id_of_loadModules hloaded] at hids
  exact hids.sublist (hsublist _)

end ModuleLinker
