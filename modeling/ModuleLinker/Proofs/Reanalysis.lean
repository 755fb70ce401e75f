/-
# ModuleLinker.Proofs.Reanalysis -- analysis after a change of the module

Analysis looks at the elements of a module twice: for what the top level binds, and for the values.
It looks at no dependencies, and changes nothing else, so that a module is for it what is left when
all dependencies are erased (`Module.bare`).

Elements that bind nothing can be taken out of a module without a change to the rest of it, and
internal members too if they are taken out under all of their definitions. The scope then loses
the names of these members, nothing new is found under them, and every value loses exactly the keys
of these members (`analysis_local`). That an alias of the same name stays is no matter, since what
is accessed through an alias is no internal member before either.
-/

import ModuleLinker.Module.Dependencies

namespace ModuleLinker

/-! ## Changes of dependencies -/

/-- The entry with other dependencies. -/
def ExportEntry.mapDependencies (f : List Key → List Key) (entry : ExportEntry) : ExportEntry :=
  { entry with dependencies := f entry.dependencies }

/-- The element with other dependencies. -/
def Element.mapDependencies (f : List Key → List Key) : Element → Element
  | .member span visibility name value dependencies =>
    .member span visibility name value (f dependencies)
  | .exports span entries => .exports span (entries.map (ExportEntry.mapDependencies f))
  | element => element

namespace Module

/-- The module with other dependencies. -/
def mapDependencies (f : List Key → List Key) (m : Module) : Module :=
  { m with elements := m.elements.map (Element.mapDependencies f) }

/-- The module without its dependencies. -/
def bare (m : Module) : Module := m.mapDependencies fun _ => []

/-- The key is that of an internal member with one of the names. -/
def IsMemberKey (m : Module) (names : List String) (key : Key) : Prop :=
  key.owner = m.id ∧ key.visibility = .internal ∧ key.name ∈ names

instance (m : Module) (names : List String) : DecidablePred (m.IsMemberKey names) :=
  fun _ => inferInstanceAs (Decidable (_ ∧ _))

/-- The module without the dependencies on its internal members with these names. -/
def withoutMembers (m : Module) (names : List String) : Module :=
  m.mapDependencies fun dependencies => dependencies.filter fun key => ¬ m.IsMemberKey names key

/-! ## Removed elements -/

/-- The module with a skip in place of each element that is removed. -/
def skipAt (removed : Nat → Bool) (m : Module) : Module :=
  { m with elements := m.elements.mapIdx fun i element =>
      if removed i then .skipped element.span else element }

/-- No require of a module of the program is removed, and of the internal members those with these
names, under all of their definitions. -/
structure Removes (m : Module) (removed : Nat → Bool) (names : List String) : Prop where
  require : ∀ i span binder id,
    m.elements[i]? = some (.require span binder (.resolved id)) → removed i = false
  member : ∀ i span name value dependencies,
    m.elements[i]? = some (.member span .internal name value dependencies) →
      (removed i ↔ name ∈ names)

end Module

variable {m : Module}

/-! ## What analysis looks at -/

theorem Scope.analyzeElement_mapDependencies (scope : Scope) (f : List Key → List Key)
    (element : Element) :
    scope.analyzeElement (element.mapDependencies f) = scope.analyzeElement element := by
  cases element with
  | exports span entries =>
      show Element.exports span _ = Element.exports span _
      rw [List.map_map]
      rfl
  | _ => rfl

theorem Scope.ofModule_mapDependencies (f : List Key → List Key) (m : Module) :
    Scope.ofModule (m.mapDependencies f) = Scope.ofModule m := by
  have hmember : Scope.memberOf? ∘ Element.mapDependencies f = Scope.memberOf? := by
    funext element
    cases element with
    -- an exported member is none of the scope
    | member _ visibility => cases visibility <;> rfl
    | _ => rfl
  have himport : Scope.importOf? ∘ Element.mapDependencies f = Scope.importOf? := by
    funext element
    cases element <;> rfl
  simp only [Scope.ofModule, Module.mapDependencies, List.filterMap_map, hmember, himport]

/-- Analysis does not look at the dependencies that there were before. -/
theorem Module.analyze_mapDependencies (f : List Key → List Key) (m : Module) :
    (m.mapDependencies f).analyze = m.analyze := by
  unfold Module.analyze
  rw [Scope.ofModule_mapDependencies]
  simp only [Module.mapDependencies, List.map_map, Function.comp_def,
    Scope.analyzeElement_mapDependencies]

/-- Analysis changes nothing but dependencies. -/
theorem Module.bare_analyze (m : Module) : m.analyze.bare = m.bare := by
  have helement : ∀ element, ((Scope.ofModule m).analyzeElement element).mapDependencies
      (fun _ => []) = element.mapDependencies fun _ => [] := by
    intro element
    cases element with
    | exports span entries =>
        show Element.exports span _ = Element.exports span _
        rw [List.map_map]
        rfl
    | _ => rfl
  simp only [Module.bare, Module.mapDependencies, Module.analyze, List.map_map, Function.comp_def,
    helement]

theorem Module.analyze_eq_of_bare_eq {other : Module} (h : other.bare = m.bare) :
    other.analyze = m.analyze := by
  rw [← Module.analyze_mapDependencies (fun _ => []) other,
    ← Module.analyze_mapDependencies (fun _ => []) m]
  exact congrArg Module.analyze h

theorem Module.analyze_analyze (m : Module) : m.analyze.analyze = m.analyze :=
  Module.analyze_eq_of_bare_eq m.bare_analyze

/-! ## A scope with fewer members -/

namespace Scope

/-- The scope without the members of these names. -/
def withoutMembers (scope : Scope) (names : List String) : Scope :=
  { scope with members := scope.members.filter fun name => name ∉ names }

variable {names : List String}

theorem member?_withoutMembers (hidden : List String) (name : String) :
    ((ofModule m).withoutMembers names).member? hidden name =
      ((ofModule m).member? hidden name).filter fun key => ¬ m.IsMemberKey names key := by
  unfold member? withoutMembers
  by_cases hmember : name ∈ (ofModule m).members ∧ name ∉ hidden
  · rw [if_pos hmember, Option.filter_some]
    by_cases hremoved : name ∈ names
    · simp [hremoved, Module.IsMemberKey, ofModule]
    · simp [hremoved, Module.IsMemberKey, hmember]
  · have hgone : ¬ (name ∈ (ofModule m).members.filter (fun name => name ∉ names) ∧
        name ∉ hidden) := fun h => hmember ⟨(List.mem_filter.1 h.1).1, h.2⟩
    rw [if_neg hmember, if_neg hgone]
    rfl

/-- What an occurrence refers to is the same, unless that is a member which is gone. -/
theorem refer?_withoutMembers (occurrence : Script.Occurrence) :
    ((ofModule m).withoutMembers names).refer? occurrence =
      ((ofModule m).refer? occurrence).filter fun key => ¬ m.IsMemberKey names key := by
  -- an export is no member
  have hexported : ∀ id property,
      (some ⟨id, property, .exported⟩ : Option Key).filter (fun key => ¬ m.IsMemberKey names key) =
        some ⟨id, property, .exported⟩ := by
    intro id property
    simp [Module.IsMemberKey]
  unfold refer?
  split
  · rfl
  · exact member?_withoutMembers _ _
  · next object property _ =>
    have himport : ((ofModule m).withoutMembers names).import? occurrence.hidden object =
        (ofModule m).import? occurrence.hidden object := rfl
    rw [himport]
    split
    · exact (hexported _ _).symm
    · split
      · exact (hexported _ _).symm
      · exact member?_withoutMembers _ _

/-- It is no matter whether repetitions are left out before or after elements. -/
theorem distinct_filter {α : Type} [DecidableEq α] (kept : α → Bool) (as : List α) :
    distinct (as.filter kept) = (distinct as).filter kept := by
  induction as with
  | nil => rfl
  | cons a as ih =>
      by_cases ha : kept a
      · rw [List.filter_cons_of_pos ha, distinct, distinct, List.filter_cons_of_pos ha, ih,
          List.filter_filter, List.filter_filter]
        simp only [Bool.and_comm]
      · -- what is kept is no repetition of `a`
        rw [List.filter_cons_of_neg ha, distinct, List.filter_cons_of_neg ha, ih,
          List.filter_filter]
        apply List.filter_congr
        intro b _
        by_cases hkept : kept b
        · have hother : b ≠ a := fun h => ha (h ▸ hkept)
          simp [hkept, hother]
        · simp [hkept]

/-- A value refers to what it has referred to, except for the members which are gone. -/
theorem dependencies_withoutMembers (value : Script.Expr) :
    ((ofModule m).withoutMembers names).dependencies value =
      ((ofModule m).dependencies value).filter fun key => ¬ m.IsMemberKey names key := by
  unfold dependencies
  rw [← distinct_filter, List.filter_filterMap]
  congr 2
  funext occurrence
  exact refer?_withoutMembers occurrence

end Scope

/-! ## The scope of what is left -/

/-- If nothing is found in skips, removing elements keeps what is found in the others. -/
theorem filterMap_mapIdx_skipped {α : Type} {f : Element → Option α} (kept : α → Bool)
    (hskipped : ∀ span, f (.skipped span) = none) {elements : List Element} {removed : Nat → Bool}
    (h : ∀ i element a, elements[i]? = some element → f element = some a →
      removed i = !kept a) :
    (elements.mapIdx fun i element =>
      if removed i then .skipped element.span else element).filterMap f =
      (elements.filterMap f).filter kept := by
  induction elements generalizing removed with
  | nil => rfl
  | cons element elements ih =>
      -- the positions of the rest begin behind the first one
      have hrest := @ih (fun i => removed (i + 1)) fun i => h (i + 1)
      rw [List.mapIdx_cons, List.filterMap_cons, List.filterMap_cons, hrest]
      cases hfound : f element with
      | none =>
          have hnone : f (if removed 0 then .skipped element.span else element) = none := by
            split
            · exact hskipped _
            · exact hfound
          rw [hnone]
      | some a =>
          have hfirst : removed 0 = !kept a := h 0 element a rfl hfound
          dsimp only
          by_cases hkept : kept a
          · rw [hfirst, hkept, List.filter_cons_of_pos hkept]
            simp [hfound]
          · rw [hfirst, List.filter_cons_of_neg hkept]
            simp [hkept, hskipped]

namespace Module

variable {removed : Nat → Bool} {names : List String}

theorem Removes.ofModule_skipAt (h : m.Removes removed names) :
    Scope.ofModule (m.skipAt removed) = (Scope.ofModule m).withoutMembers names := by
  -- A removed element may declare a member, never an import.
  have hmembers : (m.skipAt removed).elements.filterMap Scope.memberOf? =
      (m.elements.filterMap Scope.memberOf?).filter fun name => name ∉ names := by
    refine filterMap_mapIdx_skipped _ (fun _ => rfl) ?_
    intro i element name helement hname
    unfold Scope.memberOf? at hname
    split at hname
    · obtain rfl := Option.some.inj hname
      have hmember := h.member _ _ _ _ _ helement
      rw [Bool.eq_iff_iff, hmember]
      simp
    · cases hname
  have himports : (m.skipAt removed).elements.filterMap Scope.importOf? =
      m.elements.filterMap Scope.importOf? := by
    have hall : (m.elements.filterMap Scope.importOf?).filter (fun _ => true) =
        m.elements.filterMap Scope.importOf? := List.filter_eq_self.2 fun _ _ => rfl
    rw [← hall]
    refine filterMap_mapIdx_skipped _ (fun _ => rfl) ?_
    intro i element required helement hrequired
    unfold Scope.importOf? at hrequired
    split at hrequired
    · exact h.require _ _ _ _ helement
    · cases hrequired
  unfold Scope.ofModule Scope.withoutMembers
  rw [hmembers, himports]
  rfl

/-- In a scope without some members, an element depends on what it did, except for them. -/
theorem analyzeElement_withoutMembers (m : Module) (names : List String) (element : Element) :
    ((Scope.ofModule m).withoutMembers names).analyzeElement element =
      ((Scope.ofModule m).analyzeElement element).mapDependencies
        fun dependencies => dependencies.filter fun key => ¬ m.IsMemberKey names key := by
  cases element with
  | member span visibility name value dependencies =>
      show Element.member span visibility name value _ = Element.member span visibility name value _
      rw [Scope.dependencies_withoutMembers]
  | exports span entries =>
      show Element.exports span _ = Element.exports span _
      rw [List.map_map]
      congr 2
      funext entry
      unfold Scope.analyzeEntry
      rw [Scope.dependencies_withoutMembers]
      rfl
  | _ => rfl

/-- What is left is analyzed as it was before, but for the members which are gone. -/
theorem Removes.analyze_skipAt (h : m.Removes removed names) :
    (m.skipAt removed).analyze = (m.analyze.withoutMembers names).skipAt removed := by
  unfold analyze
  rw [h.ofModule_skipAt]
  unfold skipAt withoutMembers mapDependencies
  congr 1
  apply List.ext_getElem?
  intro i
  simp only [List.getElem?_map, List.getElem?_mapIdx]
  cases m.elements[i]? with
  | none => rfl
  | some element =>
      -- a removed element is a skip either way, and any other one sees the smaller scope
      by_cases hremoved : removed i
      · simp only [hremoved, if_true, Option.map_some]
        cases element <;> rfl
      · simp only [hremoved, Bool.false_eq_true, if_false, Option.map_some,
          analyzeElement_withoutMembers]
        rfl

end Module

/-- Analysis changes nothing but dependencies, and does not depend on those that there were, so that
a second analysis changes nothing. If elements are taken out of an analyzed module that are no
requires of modules of the program, and internal members under all of their definitions, then a new
analysis gives each value that is left the dependencies it has had, in their order, without the keys
of these members. -/
theorem analysis_local (m : Module) :
    m.analyze.bare = m.bare ∧
    (∀ other : Module, other.bare = m.bare → other.analyze = m.analyze) ∧
    m.analyze.analyze = m.analyze ∧
    ∀ removed names, m.analyze.Removes removed names →
      (m.analyze.skipAt removed).analyze = (m.analyze.withoutMembers names).skipAt removed := by
  refine ⟨m.bare_analyze, fun other => Module.analyze_eq_of_bare_eq, m.analyze_analyze, ?_⟩
  intro removed names hremoves
  rw [hremoves.analyze_skipAt, m.analyze_analyze]

/-- A member that refers to another one and to an export, with these dependencies. -/
def referringModule (found : List Key) : Module where
  id := .regular "A"
  filePath := none
  source := Source.ofText [] []
  elements :=
    [.member default .internal "f" (.group default .array [.name default "g",
      .member default (.name default "exports") (.name "p")]) found,
    .member default .internal "g" (.leaf default .literal) [], .other default]

/-- Without the other member, and without the statement behind it, only the export is found. -/
theorem removed_member_forgotten :
    (referringModule []).analyze = referringModule
      [⟨.regular "A", "g", .internal⟩, ⟨.regular "A", "p", .exported⟩] ∧
    ((referringModule []).analyze.skipAt (0 < ·)).analyze =
      (referringModule [⟨.regular "A", "p", .exported⟩]).skipAt (0 < ·) := by
  have hanalyze : (referringModule []).analyze = referringModule
      [⟨.regular "A", "g", .internal⟩, ⟨.regular "A", "p", .exported⟩] := rfl
  refine ⟨hanalyze, ?_⟩
  rw [(analysis_local (referringModule [])).2.2.2 (0 < ·) ["g"] ?_]
  · rfl
  · rw [hanalyze]
    constructor
    · intro i span binder id h
      match i with
      | 0 | 1 | 2 => cases h
      | _ + 3 => cases h
    · intro i span name value dependencies h
      match i with
      | 0 | 1 => cases h; decide
      | 2 | _ + 3 => cases h

end ModuleLinker
