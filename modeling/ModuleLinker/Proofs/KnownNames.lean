/-
# ModuleLinker.Proofs.KnownNames -- what a module owes to the names of the others

A module is classified against the names of all modules of its program, and only the paths that it
requires at its top level are looked up in them (`requiredPaths`). Two lists of names under which
these paths lead to the same modules therefore give the same module (`classify_eq_ok_of_resolve`),
such as two orders of the same names.

What a module of a program refers to has a known name, too: it is in the module itself, in the
foreign code beside it, or in a module that was found under its name (`owner_name_mem`).
-/

import ModuleLinker.Proofs.DependencySet
import ModuleLinker.Proofs.Stages

namespace ModuleLinker

open Script

/-- The paths under which the statements of a text require modules. -/
def requiredPaths (input : ModuleInput) : List String :=
  match Program.read input.text.toList with
  | .ok program => program.statements.filterMap fun stmt => stmt.require?.map Prod.snd
  | .error _ => []

theorem mem_requiredPaths {input : ModuleInput} {program : Program}
    (hread : Program.read input.text.toList = .ok program) {stmt : Stmt}
    (hstmt : stmt ∈ program.statements) {binder path : String}
    (hrequire : stmt.require? = some (binder, path)) : path ∈ requiredPaths input := by
  rw [requiredPaths, hread]
  exact List.mem_filterMap.2 ⟨stmt, hstmt, by rw [hrequire]; rfl⟩

section Lookup

variable {names names' : List String}

theorem RequireTarget.resolve_congr (h : ∀ name, name ∈ names ↔ name ∈ names') (self : ModuleId)
    (path : String) : resolve self names path = resolve self names' path := by
  unfold resolve
  simp only [h]

/-- A path leads to the foreign module beside it or to a regular module of a known name. -/
theorem RequireTarget.name_of_resolve {self id : ModuleId} {path : String}
    (h : resolve self names path = .resolved id) : id.name = self.name ∨ id.name ∈ names := by
  unfold resolve at h
  split at h
  · obtain rfl := RequireTarget.resolved.inj h
    exact .inl rfl
  · split at h
    · split at h
      · next hname =>
        obtain rfl := RequireTarget.resolved.inj h
        exact .inr hname
      · cases h
    · cases h

/-- One more name matters only to a path that leads to the regular module of that name. -/
theorem RequireTarget.resolve_eq_of_ne {extra path : String} {self : ModuleId}
    (h : ∀ name, name ∈ names' ↔ name ∈ names ∨ name = extra)
    (hne : resolve self names' path ≠ .resolved (.regular extra)) :
    resolve self names path = resolve self names' path := by
  unfold resolve at hne ⊢
  split
  · rfl
  · next hforeign =>
    rw [if_neg hforeign] at hne
    cases hname : (neighbour? path.toList).map String.ofList with
    | none => rfl
    | some name =>
        rw [hname] at hne
        dsimp only at hne ⊢
        have hextra : name ≠ extra := by
          rintro rfl
          exact hne (if_pos ((h name).2 (.inr rfl)))
        simp only [h, hextra, or_false]

end Lookup

namespace Module

variable {names names' : List String} {id : ModuleId} {source : Source} {origin : Nat}

/-- Only the target of a require is looked up in the names. -/
theorem elementOf_congr {stmt : Stmt} (imports : Imports)
    (h : ∀ binder path, stmt.require? = some (binder, path) →
      RequireTarget.resolve id names path = RequireTarget.resolve id names' path) :
    elementOf ⟨id, names, source, origin⟩ imports stmt =
      elementOf ⟨id, names', source, origin⟩ imports stmt := by
  unfold elementOf
  cases hrequire : stmt.require? with
  | none => rfl
  | some required =>
      obtain ⟨binder, path⟩ := required
      simp only [h binder path hrequire]
      rfl

theorem elementsOf_congr {stmts : List Stmt} (imports : Imports)
    (h : ∀ stmt ∈ stmts, ∀ binder path, stmt.require? = some (binder, path) →
      RequireTarget.resolve id names path = RequireTarget.resolve id names' path) :
    elementsOf ⟨id, names, source, origin⟩ imports stmts =
      elementsOf ⟨id, names', source, origin⟩ imports stmts := by
  induction stmts generalizing imports with
  | nil => rfl
  | cons stmt stmts ih =>
      obtain ⟨hfirst, hrest⟩ := List.forall_mem_cons.1 h
      unfold elementsOf
      rw [elementOf_congr imports hfirst]
      simp only [fun element => ih (importsAfter imports element) hrest]

/-- Names under which every required path leads to the same module give the same module. -/
theorem classify_eq_ok_of_resolve [ParserWording] {input : ModuleInput} {m : Module}
    (h : ∀ path ∈ requiredPaths input,
      RequireTarget.resolve input.id names path = RequireTarget.resolve input.id names' path)
    (hclassify : classify names input = .ok m) : classify names' input = .ok m := by
  obtain ⟨program, elements, hread, helements, rfl⟩ := classify_eq_ok_iff.1 hclassify
  have hpaths : ∀ stmt ∈ program.statements, ∀ binder path, stmt.require? = some (binder, path) →
      RequireTarget.resolve input.id names path = RequireTarget.resolve input.id names' path :=
    fun stmt hstmt binder path hrequire => h path (mem_requiredPaths hread hstmt hrequire)
  exact classify_eq_ok_iff.2
    ⟨program, elements, hread, (elementsOf_congr [] hpaths).symm.trans helements, rfl⟩

/-- A module of the program that is required has a known name. -/
theorem Requires.name_mem [ParserWording] {input : ModuleInput} {m : Module} {binder : String}
    {id : ModuleId} (hclassify : classify names input = .ok m) (h : m.Requires binder id) :
    id.name = m.id.name ∨ id.name ∈ names := by
  obtain ⟨span, hmem⟩ := h
  obtain ⟨program, elements, -, helements, rfl⟩ := classify_eq_ok_iff.1 hclassify
  obtain ⟨stmt, -, imports, helement⟩ :=
    (exists_mem_of_forall₂ (forall₂_elementOf helements)).2 _ hmem
  obtain ⟨path, -, htarget⟩ := exists_require_of_elementOf helement
  exact RequireTarget.name_of_resolve htarget.symm

end Module

/-! ## Names of owners -/

section Owners

variable {inputs : List ModuleInput} {modules : List Module} {key : Key} {dependencies : List Key}

/-- What a value refers to is in its module, or in a module that its module requires. -/
theorem owner_of_refers {m : Module} {value : Expr} (h : m.Refers value key) :
    key.owner = m.id ∨ ∃ binder, m.Requires binder key.owner := by
  cases h with
  | imported _ _ himports =>
      obtain ⟨⟨span, hlast⟩, -⟩ := himports
      exact .inr ⟨_, span, hlast.requires⟩
  | own => exact .inl rfl
  | internal => exact .inl rfl

/-- What is declared in a program, and what it depends on, is owned by modules of known names. -/
theorem owner_name_mem [ParserWording] (hloaded : loadModules inputs = .ok modules)
    (hdeclares : Declares modules key dependencies) :
    key.owner.name ∈ inputs.map (·.id.name) ∧
      ∀ dependency ∈ dependencies, dependency.owner.name ∈ inputs.map (·.id.name) := by
  -- A declaration is recorded by an element of a loaded module, and its dependencies are the names
  -- that the value refers to: members of that module or modules that it requires.
  have hrecords : ∃ m ∈ modules, m.id = key.owner ∧
      ∃ element ∈ m.elements, ∃ value, element.Records value dependencies := by
    cases hdeclares with
    | member hm helement => exact ⟨_, hm, rfl, _, helement, _, .member⟩
    | entry hm helement hentry => exact ⟨_, hm, rfl, _, helement, _, .entry hentry⟩
  obtain ⟨m, hm, hid, element, helement, value, hvalue⟩ := hrecords
  obtain ⟨input, hinput, read, hread, rfl⟩ :=
    (exists_mem_of_forall₂ (loadModules_eq_ok_iff.1 hloaded)).2 m hm
  have hname : read.id.name ∈ inputs.map (·.id.name) := by
    rw [id_of_classify hread]
    exact List.mem_map_of_mem hinput
  refine ⟨hid ▸ hname, fun dependency hdependency => ?_⟩
  obtain rfl := exists_records_of_analyze helement hvalue
  rcases owner_of_refers (refers_of_mem_dependencies hdependency) with howner | ⟨binder, hrequires⟩
  · rwa [howner]
  · rcases hrequires.name_mem hread with hown | hknown
    · rwa [hown]
    · exact hknown

end Owners

end ModuleLinker
