/-
# ModuleLinker.Proofs.Elimination -- what elimination keeps

A value that survives elimination belongs to a live key of its module, whatever element holds it
(`exists_live_of_records`). Conversely nothing live is lost: a member stays where its key is live
(`member_mem_eliminate_iff`), a require where its module refers to the required one
(`require_mem_eliminate_iff`), and a module that keeps a value survives.

`elimination_exact` puts this together for a whole program. Dropping the modules that are left
without anything to see loses no live key, because such a module has none (`isEmpty_eliminate`).
-/

import ModuleLinker.Link.Elimination
import ModuleLinker.Proofs.LiveKeys

namespace ModuleLinker

/-- The element holds the value of a member or of an export, with its dependencies. -/
inductive Element.Records : Element → Script.Expr → List Key → Prop
  | member {span : LineSpan} {visibility : Visibility} {name : String} {value : Script.Expr}
      {dependencies : List Key} :
      Records (.member span visibility name value dependencies) value dependencies
  | entry {span : LineSpan} {entries : List ExportEntry} {entry : ExportEntry} :
      entry ∈ entries → Records (.exports span entries) entry.value entry.dependencies

variable {m : Module} {r : Reachability}

theorem mem_eliminate_elements {element : Element} :
    element ∈ (m.eliminate r).elements ↔
      ∃ original ∈ m.elements, original.eliminate r m.id = element := by
  simp only [Module.eliminate, List.mem_map]

/-- A member is kept where its key is live. -/
theorem member_mem_eliminate_iff {span : LineSpan} {visibility : Visibility} {name : String}
    {value : Script.Expr} {dependencies : List Key} :
    Element.member span visibility name value dependencies ∈ (m.eliminate r).elements ↔
      Element.member span visibility name value dependencies ∈ m.elements ∧
        r.isLive ⟨m.id, name, visibility⟩ := by
  rw [mem_eliminate_elements]
  constructor
  · rintro ⟨original, hmem, heq⟩
    unfold Element.eliminate at heq
    split at heq
    · split at heq
      · next hlive =>
        obtain ⟨rfl, rfl, rfl, rfl, rfl⟩ := Element.member.inj heq
        exact ⟨hmem, hlive⟩
      · cases heq
    · cases heq
    · split at heq <;> cases heq
    · next hmember _ _ => exact absurd heq (hmember _ _ _ _ _)
  · rintro ⟨hmem, hlive⟩
    exact ⟨_, hmem, by rw [Element.eliminate, if_pos hlive]⟩

/-- A require of a module of the program is kept where the required module is referred to. -/
theorem require_mem_eliminate_iff {span : LineSpan} {binder : String} {id : ModuleId} :
    Element.require span binder (.resolved id) ∈ (m.eliminate r).elements ↔
      Element.require span binder (.resolved id) ∈ m.elements ∧ r.isReferenced m.id id := by
  rw [mem_eliminate_elements]
  constructor
  · rintro ⟨original, hmem, heq⟩
    unfold Element.eliminate at heq
    split at heq
    · split at heq <;> cases heq
    · cases heq
    · split at heq
      · next hreferenced =>
        obtain ⟨rfl, rfl, htarget⟩ := Element.require.inj heq
        obtain rfl := RequireTarget.resolved.inj htarget
        exact ⟨hmem, hreferenced⟩
      · cases heq
    · next hrequire => exact absurd heq (hrequire _ _ _)
  · rintro ⟨hmem, hreferenced⟩
    exact ⟨_, hmem, by rw [Element.eliminate, if_pos hreferenced]⟩

/-- An export is kept, in the table that it stood in, where its key is live. -/
theorem exports_mem_eliminate_iff {span : LineSpan} {entry : ExportEntry} :
    (∃ entries, Element.exports span entries ∈ (m.eliminate r).elements ∧ entry ∈ entries) ↔
      ∃ entries, Element.exports span entries ∈ m.elements ∧ entry ∈ entries ∧
        r.isLive (entry.key m.id) := by
  constructor
  · rintro ⟨entries, hmem, hentry⟩
    obtain ⟨original, horiginal, heq⟩ := mem_eliminate_elements.1 hmem
    unfold Element.eliminate at heq
    split at heq
    · split at heq <;> cases heq
    · obtain ⟨rfl, rfl⟩ := Element.exports.inj heq
      obtain ⟨hentry, hlive⟩ := List.mem_filter.1 hentry
      exact ⟨_, horiginal, hentry, hlive⟩
    · split at heq <;> cases heq
    · next hexports _ => exact absurd heq (hexports _ _)
  · rintro ⟨entries, hmem, hentry, hlive⟩
    exact ⟨_, mem_eliminate_elements.2 ⟨_, hmem, rfl⟩, List.mem_filter.2 ⟨hentry, hlive⟩⟩

/-- A value that is kept is one of a live key. -/
theorem exists_live_of_records {modules : List Module} (hm : m ∈ modules) {element : Element}
    (helement : element ∈ (m.eliminate r).elements) {value : Script.Expr} {dependencies : List Key}
    (hrecords : element.Records value dependencies) :
    (∃ original ∈ m.elements, original.Records value dependencies) ∧
      ∃ key, r.isLive key ∧ key.owner = m.id ∧ Declares modules key dependencies := by
  cases hrecords with
  | @member span visibility name =>
      obtain ⟨hmem, hlive⟩ := member_mem_eliminate_iff.1 helement
      exact ⟨⟨_, hmem, .member⟩, ⟨m.id, name, visibility⟩, hlive, rfl, .member hm hmem⟩
  | @entry span entries entry hentry =>
      obtain ⟨_, hmem, horiginal, hlive⟩ := exports_mem_eliminate_iff.1 ⟨_, helement, hentry⟩
      exact ⟨⟨_, hmem, .entry horiginal⟩, entry.key m.id, hlive, rfl, .entry hm hmem horiginal⟩

/-- A module that keeps a value survives. -/
theorem eliminate_mem_of_records {modules : List Module} (hm : m ∈ modules) {element : Element}
    (helement : element ∈ (m.eliminate r).elements) {value : Script.Expr} {dependencies : List Key}
    (hrecords : element.Records value dependencies) : m.eliminate r ∈ eliminate r modules := by
  have hsilent : element.isSilent = false := by
    cases hrecords with
    | member => rfl
    | @entry span entries entry hentry =>
        have hne : entries ≠ [] := List.ne_nil_of_mem hentry
        simpa [Element.isSilent] using hne
  have hempty : (m.eliminate r).isEmpty = false := by
    rw [Module.isEmpty, List.all_eq_false]
    exact ⟨element, helement, by simp [hsilent]⟩
  exact List.mem_filter.2 ⟨List.mem_map.2 ⟨m, hm, rfl⟩, by simp [hempty]⟩

/-- A definition of a live key stands in a kept element. -/
theorem exists_records_of_declares {modules : List Module} {key : Key} {dependencies : List Key}
    (hdeclares : Declares modules key dependencies) (hlive : r.isLive key) :
    ∃ m ∈ modules, m.id = key.owner ∧
      ∃ element ∈ (m.eliminate r).elements, ∃ value, element.Records value dependencies := by
  cases hdeclares with
  | member hm helement =>
      exact ⟨_, hm, rfl, _, member_mem_eliminate_iff.2 ⟨helement, hlive⟩, _, .member⟩
  | @entry m span entries entry hm helement hentry =>
      obtain ⟨kept, hkept, hmem⟩ := exports_mem_eliminate_iff.2 ⟨entries, helement, hentry, hlive⟩
      exact ⟨m, hm, rfl, _, hkept, entry.value, .entry hmem⟩

/-! ## Definitions that are left -/

section Left

variable {modules : List Module} {key : Key} {dependencies : List Key}

/-- Filtering leaves the definitions of the live keys. -/
theorem declares_map_eliminate_iff :
    Declares (modules.map (Module.eliminate r)) key dependencies ↔
      Declares modules key dependencies ∧ r.isLive key := by
  constructor
  · intro hdeclares
    -- A member is kept or not as a whole, an export with its entry in the table.
    cases hdeclares with
    | member hleft helement =>
        obtain ⟨m, hm, rfl⟩ := List.mem_map.1 hleft
        obtain ⟨hmem, hlive⟩ := member_mem_eliminate_iff.1 helement
        exact ⟨.member (m := m) hm hmem, hlive⟩
    | entry hleft helement hentry =>
        obtain ⟨m, hm, rfl⟩ := List.mem_map.1 hleft
        obtain ⟨_, hmem, hentry, hlive⟩ := exports_mem_eliminate_iff.1 ⟨_, helement, hentry⟩
        exact ⟨.entry (m := m) hm hmem hentry, hlive⟩
  · rintro ⟨hdeclares, hlive⟩
    cases hdeclares with
    | @member m _ _ _ _ _ hm helement =>
        have hmem : m.eliminate r ∈ modules.map (Module.eliminate r) := List.mem_map_of_mem hm
        exact .member (m := m.eliminate r) hmem (member_mem_eliminate_iff.2 ⟨helement, hlive⟩)
    | @entry m _ _ _ hm helement hentry =>
        have hmem : m.eliminate r ∈ modules.map (Module.eliminate r) := List.mem_map_of_mem hm
        obtain ⟨_, hkept, hentry⟩ := exports_mem_eliminate_iff.2 ⟨_, helement, hentry, hlive⟩
        exact .entry (m := m.eliminate r) hmem hkept hentry

/-- An empty module defines nothing, so that dropping it loses no definition. -/
theorem not_isEmpty_of_declares (hdeclares : Declares modules key dependencies) :
    Declares (modules.filter fun m => !m.isEmpty) key dependencies := by
  cases hdeclares with
  | member hm helement =>
      refine .member (List.mem_filter.2 ⟨hm, ?_⟩) helement
      rw [Bool.not_eq_true', Module.isEmpty, List.all_eq_false]
      exact ⟨_, helement, by simp [Element.isSilent]⟩
  | entry hm helement hentry =>
      refine .entry (List.mem_filter.2 ⟨hm, ?_⟩) helement hentry
      rw [Bool.not_eq_true', Module.isEmpty, List.all_eq_false]
      have hne := List.ne_nil_of_mem hentry
      exact ⟨_, helement, by simpa [Element.isSilent] using hne⟩

theorem Declares.mono {others : List Module} (hdeclares : Declares modules key dependencies)
    (h : ∀ m ∈ modules, m ∈ others) : Declares others key dependencies := by
  cases hdeclares with
  | member hm helement => exact .member (h _ hm) helement
  | entry hm helement hentry => exact .entry (h _ hm) helement hentry

/-- Elimination leaves the definitions of the live keys. -/
theorem declares_eliminate_iff :
    Declares (eliminate r modules) key dependencies ↔
      Declares modules key dependencies ∧ r.isLive key := by
  rw [← declares_map_eliminate_iff]
  constructor
  · intro hdeclares
    exact hdeclares.mono fun m hm => (List.mem_filter.1 hm).1
  · exact not_isEmpty_of_declares

end Left

/-! ## What is left of a program -/

/-- What elimination makes of an element of the module `owner`. -/
inductive Element.Filters (r : Reachability) (owner : ModuleId) : Element → Element → Prop
  | kept {span : LineSpan} {visibility : Visibility} {name : String} {value : Script.Expr}
      {dependencies : List Key} :
      r.isLive ⟨owner, name, visibility⟩ →
      Filters r owner (.member span visibility name value dependencies)
        (.member span visibility name value dependencies)
  | dead {span : LineSpan} {visibility : Visibility} {name : String} {value : Script.Expr}
      {dependencies : List Key} :
      ¬ r.isLive ⟨owner, name, visibility⟩ →
      Filters r owner (.member span visibility name value dependencies) (.skipped span)
  | table {span : LineSpan} {entries : List ExportEntry} :
      Filters r owner (.exports span entries)
        (.exports span (entries.filter fun entry => r.isLive (entry.key owner)))
  | referenced {span : LineSpan} {binder : String} {id : ModuleId} :
      r.isReferenced owner id →
      Filters r owner (.require span binder (.resolved id)) (.require span binder (.resolved id))
  | unreferenced {span : LineSpan} {binder : String} {id : ModuleId} :
      ¬ r.isReferenced owner id →
      Filters r owner (.require span binder (.resolved id)) (.skipped span)
  | unresolved {span : LineSpan} {binder path : String} :
      Filters r owner (.require span binder (.unresolved path))
        (.require span binder (.unresolved path))
  | other {span : LineSpan} : Filters r owner (.other span) (.other span)
  | skipped {span : LineSpan} : Filters r owner (.skipped span) (.skipped span)

theorem Element.filters_eliminate (owner : ModuleId) (element : Element) :
    element.Filters r owner (element.eliminate r owner) := by
  cases element with
  | member span visibility name value dependencies =>
      by_cases hlive : r.isLive ⟨owner, name, visibility⟩
      · rw [Element.eliminate, if_pos hlive]
        exact .kept hlive
      · rw [Element.eliminate, if_neg hlive]
        exact .dead hlive
  | exports span entries => exact .table
  | require span binder target =>
      cases target with
      | unresolved path => exact .unresolved
      | resolved id =>
          by_cases hreferenced : r.isReferenced owner id
          · rw [Element.eliminate, if_pos hreferenced]
            exact .referenced hreferenced
          · rw [Element.eliminate, if_neg hreferenced]
            exact .unreferenced hreferenced
  | other span => exact .other
  | skipped span => exact .skipped

theorem Element.Filters.span_eq {owner : ModuleId} {element left : Element}
    (h : element.Filters r owner left) : left.span = element.span := by
  cases h <;> rfl

/-- Whether a member or an export in the element is live. -/
def Element.hasLive (r : Reachability) (owner : ModuleId) : Element → Bool
  | .member _ visibility name _ _ => r.isLive ⟨owner, name, visibility⟩
  | .exports _ entries => entries.any fun entry => r.isLive (entry.key owner)
  | _ => false

/-- Whether the module has a live member or a live export. -/
def Module.hasLive (r : Reachability) (m : Module) : Bool := m.elements.any (Element.hasLive r m.id)

theorem Element.Filters.isSilent_eq {owner : ModuleId} {element left : Element}
    (h : element.Filters r owner left) : left.isSilent = !element.hasLive r owner := by
  cases h with
  | kept hlive => simp [Element.isSilent, Element.hasLive, hlive]
  | dead hdead => simpa [Element.isSilent, Element.hasLive] using hdead
  | @table span entries =>
      rw [Bool.eq_iff_iff]
      simp [Element.isSilent, Element.hasLive, List.filter_eq_nil_iff]
  | _ => rfl

/-- A module is left empty where nothing in it is live. -/
theorem isEmpty_eliminate : (m.eliminate r).isEmpty = !m.hasLive r := by
  have hsilent : ∀ element : Element,
      (element.eliminate r m.id).isSilent = !element.hasLive r m.id :=
    fun element => (element.filters_eliminate m.id).isSilent_eq
  rw [Module.isEmpty, Module.eliminate, List.all_map, Module.hasLive, List.not_any_eq_all_not]
  congr 1
  exact funext hsilent

/-- The members and exports that are left have the live keys, all of them. The modules that are left
are those with a live member or export, in their order and with the identifier, the path and the
text that they had; and position by position an element is left as it was, is skipped where it was
dead, or keeps its live exports. -/
theorem elimination_exact (modules : List Module) (entryPoints : List ModuleId) :
    let r := Reachability.compute (definitions modules) entryPoints
    {key | IsDeclared (eliminate r modules) key} = {key | r.isLive key} ∧
      eliminate r modules = (modules.filter (Module.hasLive r)).map (Module.eliminate r) ∧
      ∀ m : Module, (m.eliminate r).id = m.id ∧ (m.eliminate r).filePath = m.filePath ∧
        (m.eliminate r).source = m.source ∧
        (m.eliminate r).elements.map Element.span = m.elements.map Element.span ∧
        List.Forall₂ (Element.Filters r m.id) m.elements (m.eliminate r).elements := by
  intro r
  refine ⟨?_, ?_, fun m => ⟨rfl, rfl, rfl, ?_, ?_⟩⟩
  · ext key
    constructor
    · rintro ⟨dependencies, hdeclares⟩
      exact (declares_eliminate_iff.1 hdeclares).2
    · intro hlive
      obtain ⟨dependencies, hdeclares⟩ := (isLive_iff.1 hlive).isDeclared
      exact ⟨dependencies, declares_eliminate_iff.2 ⟨hdeclares, hlive⟩⟩
  · rw [eliminate, List.filter_map]
    congr 2
    funext m
    simp [isEmpty_eliminate]
  · rw [Module.eliminate, List.map_map]
    exact List.map_congr_left fun element _ => (element.filters_eliminate m.id).span_eq
  · rw [Module.eliminate, List.forall₂_map_right_iff, List.forall₂_same]
    exact fun element _ => element.filters_eliminate m.id

end ModuleLinker
