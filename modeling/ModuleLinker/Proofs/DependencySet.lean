/-
# ModuleLinker.Proofs.DependencySet -- the dependencies of a value, position by position

What a value depends on has a definition that knows nothing of lists of occurrences or of a
traversal: `Module.Refers` goes over the positions of the value, and looks at what stands there and
at the parameters above it. `dependencies_exact` says that analysis finds exactly this set, and
each key of it once, and that the pass that takes parameters out of a set of names and puts them
back (`Scope.collect`) finds the same.

An identifier in front of a point is a position of its own, below that of the access. It refers to
an internal member only where the access itself is neither one through an alias nor one through
`exports`.
-/

import ModuleLinker.Proofs.BoundNames
import ModuleLinker.Proofs.Dependency

namespace ModuleLinker

open Script

variable {m : Module} {name : String} {above : List Enclosure}

/-! ## What a value refers to -/

/-- Below these parameters the name stands for the module that was last required under it. -/
def Module.ResolvesTo (m : Module) (above : List Enclosure) (name : String) (id : ModuleId) :
    Prop :=
  (∃ span, m.RequiresLast name span id) ∧ ∀ enclosure ∈ above, ¬ enclosure.Binds name

/-- A position of the value refers to the key. -/
inductive Module.Refers (m : Module) (value : Expr) : Key → Prop
  | imported {above : List Enclosure} {node : Node} {name property : String} {id : ModuleId} :
      Reaches (.expr value) above node → Mentions node (.access name property) →
      m.ResolvesTo above name id → Refers m value ⟨id, property, .exported⟩
  | own {above : List Enclosure} {node : Node} {property : String} :
      Reaches (.expr value) above node → Mentions node (.access "exports" property) →
      (∀ id, ¬ m.ResolvesTo above "exports" id) → Refers m value ⟨m.id, property, .exported⟩
  | internal {parent : Option Node} {above : List Enclosure} {node : Node} {name : String} :
      Stands (.expr value) parent above node → Mentions node (.reference name) →
      (∀ enclosure ∈ above, ¬ enclosure.Binds name) → m.DeclaresInternal name →
      (∀ access property, parent = some access → Mentions access (.access name property) →
        name ≠ "exports" ∧ ∀ id, ¬ m.ResolvesTo above name id) →
      Refers m value ⟨m.id, name, .internal⟩

/-! ## What the scope looks up -/

theorem lookup_imports_eq_some_iff {id : ModuleId} :
    (Scope.ofModule m).imports.lookup name = some id ↔ ∃ span, m.RequiresLast name span id := by
  constructor
  · intro hlookup
    by_cases hrequires : ∃ other, m.Requires name other
    · obtain ⟨other, hrequires⟩ := hrequires
      obtain ⟨span, last, hlast⟩ := hrequires.exists_last
      rw [hlast.lookup_imports] at hlookup
      exact ⟨span, Option.some.inj hlookup ▸ hlast⟩
    · rw [lookup_imports_eq_none (not_exists.1 hrequires)] at hlookup
      cases hlookup
  · rintro ⟨span, hlast⟩
    exact hlast.lookup_imports

theorem import?_eq_some_iff {id : ModuleId} :
    (Scope.ofModule m).import? (hiddenNames above ++ []) name = some id ↔
      m.ResolvesTo above name id := by
  unfold Scope.import? Module.ResolvesTo
  rw [← lookup_imports_eq_some_iff, ← mem_hiddenNames_nil]
  split
  · next hhidden => exact ⟨fun h => (nomatch h), fun h => absurd hhidden h.2⟩
  · next hvisible => exact ⟨fun h => ⟨h, hvisible⟩, fun h => h.1⟩

theorem import?_eq_none_iff :
    (Scope.ofModule m).import? (hiddenNames above ++ []) name = none ↔
      ∀ id, ¬ m.ResolvesTo above name id := by
  simp only [Option.eq_none_iff_forall_ne_some, ne_eq, import?_eq_some_iff]

theorem member?_eq_some_iff {key : Key} :
    (Scope.ofModule m).member? (hiddenNames above ++ []) name = some key ↔
      key = ⟨m.id, name, .internal⟩ ∧ m.DeclaresInternal name ∧
        ∀ enclosure ∈ above, ¬ enclosure.Binds name := by
  unfold Scope.member?
  rw [← mem_members_iff, ← mem_hiddenNames_nil]
  split
  · next hmember =>
    constructor
    · intro h
      exact ⟨(Option.some.inj h).symm, hmember⟩
    · rintro ⟨rfl, -⟩
      rfl
  · next hmember => exact ⟨fun h => (nomatch h), fun h => absurd h.2 hmember⟩

/-! ## Positions and dependencies -/

variable {value : Expr} {key : Key}

/-- A key that is found comes from a position that refers to it. -/
theorem refers_of_mem_dependencies (h : key ∈ (Scope.ofModule m).dependencies value) :
    m.Refers value key := by
  obtain ⟨⟨mention, hidden⟩, hmem, hrefer⟩ := mem_dependencies.1 h
  have hmem : ⟨mention, hidden⟩ ∈ (Node.expr value).occurrences [] := hmem
  obtain ⟨parent, above, node, hstands, hmentions, rfl, hobject⟩ := exists_stands hmem
  unfold Scope.refer? at hrefer
  cases mention with
  | literal span => cases hrefer
  | reference name =>
      obtain ⟨rfl, hdeclares, hvisible⟩ := member?_eq_some_iff.1 hrefer
      refine .internal hstands hmentions hvisible hdeclares ?_
      intro access property hparent haccess
      exact absurd haccess (hobject name access name property rfl hparent)
  | access name property =>
      dsimp only at hrefer
      split at hrefer
      · next id himport =>
        obtain rfl := Option.some.inj hrefer
        exact .imported hstands.reaches hmentions (import?_eq_some_iff.1 himport)
      · next himport =>
        split at hrefer
        · next hexports =>
          obtain rfl := Option.some.inj hrefer
          subst hexports
          exact .own hstands.reaches hmentions (import?_eq_none_iff.1 himport)
        · next hexports =>
          obtain ⟨rfl, hdeclares, hvisible⟩ := member?_eq_some_iff.1 hrefer
          -- the object of the access is the position that refers to the member
          obtain ⟨object, hchild, hreference⟩ := hmentions.exists_object
          refine .internal (.part hstands.reaches hchild) hreference hvisible hdeclares ?_
          intro _ _ _ _
          exact ⟨hexports, import?_eq_none_iff.1 himport⟩

/-- What a position refers to is found. -/
theorem Module.Refers.mem_dependencies (h : m.Refers value key) :
    key ∈ (Scope.ofModule m).dependencies value := by
  rw [ModuleLinker.mem_dependencies]
  cases h with
  | imported hreaches hmentions himports =>
      refine ⟨_, hreaches.mem_of_access hmentions, ?_⟩
      simp only [Scope.refer?, import?_eq_some_iff.2 himports]
  | own hreaches hmentions himports =>
      refine ⟨_, hreaches.mem_of_access hmentions, ?_⟩
      simp only [Scope.refer?, import?_eq_none_iff.2 himports, if_true]
      rfl
  | @internal parent above node name hstands hmentions hvisible hdeclares hobject =>
      have hmember : (Scope.ofModule m).member? (hiddenNames above ++ []) name =
          some ⟨m.id, name, .internal⟩ := member?_eq_some_iff.2 ⟨rfl, hdeclares, hvisible⟩
      by_cases haccess : ∃ access left right, parent = some access ∧
          Mentions access (.access left right)
      · -- the occurrence is that of the access around the name
        obtain ⟨access, left, right, rfl, haccess⟩ := haccess
        obtain ⟨rfl, hreaches⟩ := hstands.of_object haccess hmentions
        obtain ⟨hexports, himports⟩ := hobject access right rfl haccess
        refine ⟨_, hreaches.mem_of_access haccess, ?_⟩
        simp only [Scope.refer?, import?_eq_none_iff.2 himports, if_neg hexports, hmember]
      · refine ⟨_, hstands.mem_of_reference hmentions ?_, hmember⟩
        intro access left right hparent hmentions'
        exact haccess ⟨access, left, right, hparent, hmentions'⟩

/-- Analysis gives every value the keys that its positions refer to, each once, and no other; an
internal one among them is that of an internal member of the module itself. One pass over the value
with a set of bound names finds the same keys in the same order, and leaves the set as it was. -/
theorem dependencies_exact (m : Module) :
    (∀ value, (Scope.ofModule m).collect value =
        ⟨(Scope.ofModule m).bound, (Scope.ofModule m).dependencies value⟩ ∧
      ((Scope.ofModule m).dependencies value).Nodup ∧
      (∀ key, key ∈ (Scope.ofModule m).dependencies value ↔ m.Refers value key) ∧
      ∀ key ∈ (Scope.ofModule m).dependencies value, key.visibility = .internal →
        key.owner = m.id ∧ m.DeclaresInternal key.name) ∧
    ∀ value dependencies,
      (∃ element ∈ m.analyze.elements, element.Records value dependencies) ↔
        dependencies = (Scope.ofModule m).dependencies value ∧
          ∃ element ∈ m.elements, ∃ earlier, element.Records value earlier := by
  refine ⟨fun value => ⟨Scope.collect_eq _ value, distinct_nodup _, fun key => ?_,
    fun key hkey hinternal => ?_⟩, ?_⟩
  · exact ⟨refers_of_mem_dependencies, Module.Refers.mem_dependencies⟩
  · cases refers_of_mem_dependencies hkey with
    | imported => cases hinternal
    | own => cases hinternal
    | internal _ _ _ hdeclares => exact ⟨rfl, hdeclares⟩
  · intro value dependencies
    exact records_analyze_iff

end ModuleLinker
