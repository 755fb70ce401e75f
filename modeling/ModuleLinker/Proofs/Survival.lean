/-
# ModuleLinker.Proofs.Survival -- which modules survive

A module is dropped when nothing is left in it that another module could see, and elimination looks
at internal members there as much as at public ones. Yet the public keys decide alone. An internal
key is only ever a dependency of its own module, so that every path from an entry point to one
comes through a public key of that module (`Live.exists_exported`). `survival_exact` draws the
conclusions for a whole program.
-/

import ModuleLinker.Proofs.KeptReferences
import ModuleLinker.Proofs.Stages

namespace ModuleLinker

variable {modules : List Module} {entryPoints : List ModuleId} {m : Module}

/-! ## Paths to internal keys -/

/-- The dependencies of a definition are those of a value in a module of the key's owner. -/
theorem exists_value_of_declares {key : Key} {dependencies : List Key}
    (h : Declares (modules.map Module.analyze) key dependencies) :
    ∃ m ∈ modules, m.id = key.owner ∧
      ∃ value, dependencies = (Scope.ofModule m).dependencies value := by
  cases h with
  | member hm helement =>
      obtain ⟨m, hmem, rfl⟩ := List.mem_map.1 hm
      exact ⟨m, hmem, rfl, _, exists_records_of_analyze helement .member⟩
  | entry hm helement hentry =>
      obtain ⟨m, hmem, rfl⟩ := List.mem_map.1 hm
      exact ⟨m, hmem, rfl, _, exists_records_of_analyze helement (.entry hentry)⟩

/-- A module with a live key has a live public key. -/
theorem Live.exists_exported {key : Key}
    (h : Live (modules.map Module.analyze) entryPoints key) :
    ∃ name, Live (modules.map Module.analyze) entryPoints ⟨key.owner, name, .exported⟩ := by
  induction h with
  | @root key hdeclared hpublic howner =>
      obtain ⟨owner, name, visibility⟩ := key
      obtain rfl : visibility = .exported := hpublic
      exact ⟨name, .root hdeclared rfl howner⟩
  | @step key dependency dependencies hlive hdeclares hdep hdeclared ih =>
      obtain ⟨owner, name, visibility⟩ := dependency
      cases visibility with
      | exported => exact ⟨name, .step hlive hdeclares hdep hdeclared⟩
      | internal =>
          -- the key in front of an internal one has the same owner
          obtain ⟨m, -, hm, value, rfl⟩ := exists_value_of_declares hdeclares
          have howner : owner = m.id := owner_eq_of_mem_dependencies hdep rfl
          rw [← hm, ← howner] at ih
          exact ih

/-! ## Modules that are left -/

/-- A module survives where one of its keys is live. -/
theorem eliminate_mem_iff {r : Reachability} (hm : m ∈ modules) :
    m.eliminate r ∈ eliminate r modules ↔
      ∃ key, r.isLive key ∧ key.owner = m.id ∧ IsDeclared [m] key := by
  constructor
  · intro hmem
    have hempty : (m.eliminate r).isEmpty = false := by
      simpa using (List.mem_filter.1 hmem).2
    rw [Module.isEmpty, List.all_eq_false] at hempty
    obtain ⟨element, helement, hsilent⟩ := hempty
    -- An element that is not silent was kept for a live key: a member for its own, a table for
    -- that of an entry left in it.
    cases element with
    | member span visibility name value dependencies =>
        obtain ⟨_, key, hlive, howner, hdeclares⟩ :=
          exists_live_of_records (List.mem_singleton_self m) helement .member
        exact ⟨key, hlive, howner, _, hdeclares⟩
    | exports span entries =>
        obtain ⟨entry, hentry⟩ :=
          List.exists_mem_of_ne_nil entries (by simpa [Element.isSilent] using hsilent)
        obtain ⟨_, key, hlive, howner, hdeclares⟩ :=
          exists_live_of_records (List.mem_singleton_self m) helement (.entry hentry)
        exact ⟨key, hlive, howner, _, hdeclares⟩
    | _ => exact absurd rfl hsilent
  · rintro ⟨key, hlive, -, dependencies, hdeclares⟩
    obtain ⟨other, hother, -, element, helement, value, hrecords⟩ :=
      exists_records_of_declares hdeclares hlive
    obtain rfl := List.mem_singleton.1 hother
    exact eliminate_mem_of_records hm helement hrecords

/-- Where identifiers differ, a declared key is declared by the module that owns it. -/
theorem IsDeclared.of_owner (hdistinct : (modules.map (·.id)).Nodup) (hm : m ∈ modules) {key : Key}
    (h : IsDeclared modules key) (howner : key.owner = m.id) : IsDeclared [m] key := by
  have hunique : ∀ other ∈ modules, other.id = m.id → other = m := fun other hother heq =>
    List.inj_on_of_nodup_map hdistinct hother hm heq
  obtain ⟨dependencies, hdeclares⟩ := h
  refine ⟨dependencies, ?_⟩
  cases hdeclares with
  | member hother helement =>
      obtain rfl := hunique _ hother howner
      exact .member (List.mem_singleton_self _) helement
  | entry hother helement hentry =>
      obtain rfl := hunique _ hother howner
      exact .entry (List.mem_singleton_self _) helement hentry

theorem map_id_analyze (modules : List Module) :
    (modules.map Module.analyze).map (·.id) = modules.map (·.id) := by
  rw [List.map_map]
  rfl

/-- A module survives where one of its public keys is live. -/
theorem eliminate_mem_iff_exported (hdistinct : (modules.map (·.id)).Nodup) (hm : m ∈ modules) :
    let r := Reachability.compute (definitions (modules.map Module.analyze)) entryPoints
    m.analyze.eliminate r ∈ eliminate r (modules.map Module.analyze) ↔
      ∃ name, r.isLive ⟨m.id, name, .exported⟩ := by
  intro r
  have hanalyzed : m.analyze ∈ modules.map Module.analyze := List.mem_map.2 ⟨m, hm, rfl⟩
  rw [eliminate_mem_iff hanalyzed]
  constructor
  · rintro ⟨key, hlive, howner, -⟩
    obtain ⟨name, hname⟩ := (isLive_iff.1 hlive).exists_exported
    rw [howner] at hname
    exact ⟨name, isLive_iff.2 hname⟩
  · rintro ⟨name, hlive⟩
    have hdistinct : ((modules.map Module.analyze).map (·.id)).Nodup := by
      rwa [map_id_analyze]
    exact ⟨_, hlive, rfl, (isLive_iff.1 hlive).isDeclared.of_owner hdistinct hanalyzed rfl⟩

/-! ## Entry points -/

/-- Whether the element holds something that another module could name. -/
def Element.isPublic : Element → Bool
  | .member _ visibility _ _ _ => visibility = .exported
  | .exports _ entries => !entries.isEmpty
  | _ => false

/-- Analysis changes no visibility. -/
theorem Scope.isPublic_analyzeElement (scope : Scope) (element : Element) :
    (scope.analyzeElement element).isPublic = element.isPublic := by
  cases element with
  | exports span entries => simp [Scope.analyzeElement, Element.isPublic]
  | _ => rfl

/-- An element is public where it declares a public key. -/
theorem exists_isPublic_iff :
    (∃ element ∈ m.elements, element.isPublic) ↔
      ∃ name, IsDeclared [m] ⟨m.id, name, .exported⟩ := by
  have hm : m ∈ [m] := List.mem_singleton_self m
  constructor
  · rintro ⟨element, helement, hpublic⟩
    cases element with
    | member span visibility name value dependencies =>
        obtain rfl : visibility = .exported := by simpa [Element.isPublic] using hpublic
        exact ⟨name, dependencies, .member hm helement⟩
    | exports span entries =>
        obtain ⟨entry, hentry⟩ :=
          List.exists_mem_of_ne_nil entries (by simpa [Element.isPublic] using hpublic)
        exact ⟨entry.name, entry.dependencies, .entry hm helement hentry⟩
    | _ => cases hpublic
  · rintro ⟨name, dependencies, hdeclares⟩
    generalize hkey : (⟨m.id, name, .exported⟩ : Key) = key at hdeclares
    cases hdeclares with
    | member hother helement =>
        obtain rfl := List.mem_singleton.1 hother
        obtain ⟨-, rfl, rfl⟩ := Key.mk.inj hkey
        exact ⟨_, helement, rfl⟩
    | @entry other span entries entry hother helement hentry =>
        obtain rfl := List.mem_singleton.1 hother
        have hne : entries ≠ [] := List.ne_nil_of_mem hentry
        exact ⟨_, helement, by simpa [Element.isPublic] using hne⟩

theorem exists_isPublic_analyze_iff :
    (∃ element ∈ m.analyze.elements, element.isPublic) ↔
      ∃ element ∈ m.elements, element.isPublic := by
  constructor
  · rintro ⟨element, helement, hpublic⟩
    obtain ⟨original, horiginal, rfl⟩ := List.mem_map.1 helement
    exact ⟨original, horiginal, Scope.isPublic_analyzeElement _ _ ▸ hpublic⟩
  · rintro ⟨element, helement, hpublic⟩
    refine ⟨_, List.mem_map_of_mem helement, ?_⟩
    rwa [Scope.isPublic_analyzeElement]

/-- What is left of an element that is not public is not public either. -/
theorem Element.Filters.isPublic_eq_false {r : Reachability} {owner : ModuleId}
    {element left : Element} (h : element.Filters r owner left) (hprivate : ¬ element.isPublic) :
    left.isPublic = false := by
  cases h with
  | @table span entries =>
      have hnil : entries = [] := by simpa [Element.isPublic] using hprivate
      rw [hnil]
      rfl
  | kept => exact Bool.eq_false_iff.2 hprivate
  | _ => rfl

/-- A public element is left as it was where all public keys of its module are live. -/
theorem Element.eliminate_eq_self {r : Reachability} {element : Element}
    (hlive : ∀ name, IsDeclared [m] ⟨m.id, name, .exported⟩ → r.isLive ⟨m.id, name, .exported⟩)
    (helement : element ∈ m.elements) (hpublic : element.isPublic) :
    element.eliminate r m.id = element := by
  have hm : m ∈ [m] := List.mem_singleton_self m
  cases element with
  | member span visibility name value dependencies =>
      obtain rfl : visibility = .exported := by simpa [Element.isPublic] using hpublic
      exact if_pos (hlive name ⟨dependencies, .member hm helement⟩)
  | exports span entries =>
      have hall : ∀ entry ∈ entries, r.isLive (entry.key m.id) := fun entry hentry =>
        hlive entry.name ⟨entry.dependencies, .entry hm helement hentry⟩
      rw [Element.eliminate, List.filter_eq_self.2 hall]
  | _ => cases hpublic

/-- Then elimination leaves the same public elements, in the same order. -/
theorem filter_isPublic_eliminate {r : Reachability}
    (hlive : ∀ name, IsDeclared [m] ⟨m.id, name, .exported⟩ → r.isLive ⟨m.id, name, .exported⟩) :
    (m.eliminate r).elements.filter Element.isPublic = m.elements.filter Element.isPublic := by
  have hkept : ∀ element ∈ m.elements, element.isPublic → element.eliminate r m.id = element :=
    fun element => Element.eliminate_eq_self hlive
  show (m.elements.map (Element.eliminate r m.id)).filter Element.isPublic = _
  generalize m.elements = elements at hkept ⊢
  induction elements with
  | nil => rfl
  | cons element elements ih =>
      have hrest := ih fun other hother => hkept other (.tail _ hother)
      rw [List.map_cons]
      by_cases hpublic : element.isPublic
      · rw [hkept element (.head _) hpublic, List.filter_cons_of_pos hpublic,
          List.filter_cons_of_pos hpublic, hrest]
      · have hleft : (element.eliminate r m.id).isPublic = false :=
          (element.filters_eliminate m.id).isPublic_eq_false hpublic
        rw [List.filter_cons_of_neg (by simp [hleft]), List.filter_cons_of_neg hpublic, hrest]

/-- All public keys of an entry point are live. -/
theorem isLive_of_entryPoint (hm : m ∈ modules) (hentry : m.id ∈ entryPoints) {name : String}
    (h : IsDeclared [m] ⟨m.id, name, .exported⟩) :
    (Reachability.compute (definitions modules) entryPoints).isLive ⟨m.id, name, .exported⟩ := by
  obtain ⟨dependencies, hdeclares⟩ := h
  have hmono : Declares modules ⟨m.id, name, .exported⟩ dependencies :=
    hdeclares.mono fun other hother => by
      rw [List.mem_singleton.1 hother]
      exact hm
  exact isLive_iff.2 (.root ⟨dependencies, hmono⟩ rfl hentry)

/-! ## Whole programs -/

/-- A module survives exactly where one of its public keys is live: a live internal member comes
with a live export, and without a live export no module of that identifier is left. An entry point,
the main module among them, survives where it has a public member or an export, and keeps all of
them. -/
theorem survival_exact (modules : List Module) (entryPoints : List ModuleId)
    (hdistinct : (modules.map (·.id)).Nodup) :
    let analyzed := modules.map Module.analyze
    let r := Reachability.compute (definitions analyzed) entryPoints
    (∀ m ∈ modules,
      (m.analyze.eliminate r ∈ eliminate r analyzed ↔ ∃ name, r.isLive ⟨m.id, name, .exported⟩) ∧
      (∀ name, r.isLive ⟨m.id, name, .internal⟩ →
        ∃ exported, r.isLive ⟨m.id, exported, .exported⟩) ∧
      ((∀ name, ¬ r.isLive ⟨m.id, name, .exported⟩) →
        ∀ left ∈ eliminate r analyzed, left.id ≠ m.id) ∧
      (m.id ∈ entryPoints →
        (m.analyze.eliminate r ∈ eliminate r analyzed ↔ ∃ element ∈ m.elements, element.isPublic) ∧
          (m.analyze.eliminate r).elements.filter Element.isPublic =
            m.analyze.elements.filter Element.isPublic)) ∧
    ∀ (options : Options) (name : String),
      ModuleLinker.entryPoints (modules.map (·.id)) options = .ok entryPoints →
      options.mainModule = some name → .regular name ∈ entryPoints := by
  intro analyzed r
  constructor
  · intro m hm
    have hanalyzed : m.analyze ∈ analyzed := List.mem_map.2 ⟨m, hm, rfl⟩
    have hsurvives : m.analyze.eliminate r ∈ eliminate r analyzed ↔
        ∃ name, r.isLive ⟨m.id, name, .exported⟩ := eliminate_mem_iff_exported hdistinct hm
    refine ⟨hsurvives, ?_, ?_, ?_⟩
    · intro name hlive
      obtain ⟨exported, hexported⟩ := (isLive_iff.1 hlive).exists_exported
      exact ⟨exported, isLive_iff.2 hexported⟩
    · intro hdead left hleft hid
      obtain ⟨other, hother, rfl⟩ := List.mem_map.1 (List.mem_filter.1 hleft).1
      obtain ⟨original, horiginal, rfl⟩ := List.mem_map.1 hother
      obtain ⟨name, hlive⟩ := (eliminate_mem_iff_exported hdistinct horiginal).1 hleft
      have hid : original.id = m.id := hid
      exact hdead name (hid ▸ hlive)
    · intro hentry
      have hlive : ∀ name, IsDeclared [m.analyze] ⟨m.id, name, .exported⟩ →
          r.isLive ⟨m.id, name, .exported⟩ := fun name h =>
        isLive_of_entryPoint hanalyzed hentry h
      -- All that an entry point declares publicly is live, so it needs one public element.
      refine ⟨?_, filter_isPublic_eliminate hlive⟩
      rw [hsurvives, ← exists_isPublic_analyze_iff, exists_isPublic_iff]
      constructor
      · rintro ⟨name, hname⟩
        have hdeclared := (isLive_iff.1 hname).isDeclared
        exact ⟨name, hdeclared.of_owner (by rwa [map_id_analyze]) hanalyzed rfl⟩
      · rintro ⟨name, hname⟩
        exact ⟨name, hlive name hname⟩
  · intro options name hentries hmain
    obtain ⟨-, rfl⟩ := entryPoints_eq_ok_iff.1 hentries
    simp [Options.allEntryPoints, hmain]

/-- Of the modules `A` and `B` the entry point `A` keeps its export with the internal member `y`;
`B` goes, with its two exports and its require. -/
theorem unreached_module_dropped :
    let modules := [setterKeyModule, selfRequireModule]
    let r := Reachability.compute (definitions (modules.map Module.analyze)) [.regular "A"]
    (modules.map (·.id)).Nodup ∧
      r.isLive ⟨.regular "A", "y", .internal⟩ ∧
      setterKeyModule.analyze.eliminate r ∈ eliminate r (modules.map Module.analyze) ∧
      ∀ left ∈ eliminate r (modules.map Module.analyze), left.id ≠ .regular "B" := by
  intro modules r
  have hdistinct : (modules.map (·.id)).Nodup := by decide
  have hlive : r.live = [⟨.regular "A", "f", .exported⟩, ⟨.regular "A", "y", .internal⟩] := by
    decide
  have hall := (survival_exact modules [.regular "A"] hdistinct).1
  obtain ⟨hsurvives, -⟩ := hall setterKeyModule (.head _)
  obtain ⟨-, -, habsent, -⟩ := hall selfRequireModule (.tail _ (.head _))
  refine ⟨hdistinct, ?_, hsurvives.2 ⟨"f", ?_⟩, habsent fun name hname => ?_⟩
  · rw [Reachability.isLive, hlive]
    decide
  · rw [Reachability.isLive, hlive]
    decide
  · rw [Reachability.isLive, hlive] at hname
    simp [selfRequireModule, ModuleId.regular] at hname

end ModuleLinker
