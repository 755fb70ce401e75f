/-
# ModuleLinker.Proofs.Dependency -- which references are recorded

A value depends on an internal member of its module exactly when it refers to the member at a
position where no parameter hides the name (`mem_dependencies_internal`). It depends on an export
of a required module when it accesses that export through the alias at such a position
(`mem_dependencies_of_access`).

Hidden is a name inside the parameters and the body of a function with a parameter of that name,
and also in the computed key of a setter with such a parameter, although the key is evaluated
outside of the setter. A reference that occurs in such keys only is therefore missed
(`internal_reference_recorded`): `MentionsFree` speaks of the positions where a name means what it
means at the top of the module, `MentionsVisibly` of those among them that are found.
-/

import ModuleLinker.Module.Dependencies
import ModuleLinker.Proofs.Elimination
import ModuleLinker.Proofs.Position

namespace ModuleLinker

open Script

namespace Script.Expr

/-- The value mentions something at a position that lies in neither the parameters nor the body of
a function with the parameter `text`. -/
def MentionsFree (value : Expr) (mention : Mention) (text : String) : Prop :=
  ∃ above node, Reaches (.expr value) above node ∧ Mentions node mention ∧
    ∀ enclosure ∈ above, enclosure.Binds text → enclosure.toKey = true

/-- The value mentions something at a position past no parameter `text` at all. -/
def MentionsVisibly (value : Expr) (mention : Mention) (text : String) : Prop :=
  ∃ above node, Reaches (.expr value) above node ∧ Mentions node mention ∧
    ∀ enclosure ∈ above, ¬ enclosure.Binds text

/-- The value mentions something in the key of a setter with the parameter `text` and at no other
position where it is free. -/
def MentionsInKeysOnly (value : Expr) (mention : Mention) (text : String) : Prop :=
  value.MentionsFree mention text ∧
    ∀ above node, Reaches (.expr value) above node → Mentions node mention →
      (∀ enclosure ∈ above, enclosure.Binds text → enclosure.toKey = true) →
      ∃ enclosure ∈ above, enclosure.Binds text ∧ enclosure.toKey = true

variable {value : Expr} {mention : Mention} {text : String}

theorem MentionsVisibly.free (h : value.MentionsVisibly mention text) :
    value.MentionsFree mention text := by
  obtain ⟨above, node, hreaches, hmentions, hvisible⟩ := h
  exact ⟨above, node, hreaches, hmentions, fun e he hbinds => absurd hbinds (hvisible e he)⟩

theorem mentionsInKeysOnly_iff :
    value.MentionsInKeysOnly mention text ↔
      value.MentionsFree mention text ∧ ¬ value.MentionsVisibly mention text := by
  constructor
  · rintro ⟨hfree, hkeys⟩
    refine ⟨hfree, ?_⟩
    rintro ⟨above, node, hreaches, hmentions, hvisible⟩
    obtain ⟨e, he, hbinds, -⟩ := hkeys above node hreaches hmentions
      fun e he hbinds => absurd hbinds (hvisible e he)
    exact hvisible e he hbinds
  · rintro ⟨hfree, hnot⟩
    refine ⟨hfree, fun above node hreaches hmentions hkeys => ?_⟩
    by_contra hnone
    refine hnot ⟨above, node, hreaches, hmentions, fun e he hbinds => ?_⟩
    exact hnone ⟨e, he, hbinds, hkeys e he hbinds⟩

/-- The positions that are found are those where not all is in keys. -/
theorem mentionsVisibly_iff :
    value.MentionsVisibly mention text ↔
      value.MentionsFree mention text ∧ ¬ value.MentionsInKeysOnly mention text := by
  rw [mentionsInKeysOnly_iff]
  constructor
  · intro hvisibly
    exact ⟨hvisibly.free, fun hkeys => hkeys.2 hvisibly⟩
  · rintro ⟨hfree, hkeys⟩
    by_contra hnot
    exact hkeys ⟨hfree, hnot⟩

end Script.Expr

/-! ## What the top level binds -/

namespace Module

/-- An element declares the internal member. -/
def DeclaresInternal (m : Module) (name : String) : Prop :=
  ∃ span value dependencies,
    Element.member span .internal name value dependencies ∈ m.elements

/-- An element requires a module of the program under the alias. -/
def Requires (m : Module) (binder : String) (id : ModuleId) : Prop :=
  ∃ span, Element.require span binder (.resolved id) ∈ m.elements

/-- The last element that requires a module of the program under the alias requires `id`. -/
def RequiresLast (m : Module) (binder : String) (span : LineSpan) (id : ModuleId) : Prop :=
  ∃ before after, m.elements = before ++ Element.require span binder (.resolved id) :: after ∧
    ∀ element ∈ after, ∀ span id, element ≠ Element.require span binder (.resolved id)

/-- An alias of a module of the program has a last require. -/
theorem Requires.exists_last {m : Module} {binder : String} {required : ModuleId}
    (h : m.Requires binder required) : ∃ span id, m.RequiresLast binder span id := by
  obtain ⟨span, hmem⟩ := h
  simp only [RequiresLast]
  generalize m.elements = elements at hmem
  -- By induction from the end of the module: the last element either is the require looked for or
  -- can be left out of the search.
  induction elements using List.reverseRecOn with
  | nil => cases hmem
  | append_singleton elements last ih =>
      by_cases hlast : ∃ span id, last = .require span binder (.resolved id)
      · obtain ⟨span, id, rfl⟩ := hlast
        exact ⟨span, id, elements, [], by simp, by simp⟩
      · have hother : ∀ span id, last ≠ .require span binder (.resolved id) :=
          fun span id heq => hlast ⟨span, id, heq⟩
        have hmem : Element.require span binder (.resolved required) ∈ elements := by
          rcases List.mem_append.1 hmem with hmem | hmem
          · exact hmem
          · exact absurd (List.mem_singleton.1 hmem).symm (hother _ _)
        obtain ⟨span, id, before, after, rfl, hafter⟩ := ih hmem
        refine ⟨span, id, before, after ++ [last], by simp, ?_⟩
        intro element helement
        rcases List.mem_append.1 helement with helement | helement
        · exact hafter element helement
        · obtain rfl := List.mem_singleton.1 helement
          exact hother

theorem RequiresLast.requires {m : Module} {binder : String} {span : LineSpan} {id : ModuleId}
    (h : m.RequiresLast binder span id) :
    Element.require span binder (.resolved id) ∈ m.elements := by
  obtain ⟨before, after, helements, -⟩ := h
  simp [helements]

end Module

variable {m : Module} {name : String}

theorem mem_members_iff : name ∈ (Scope.ofModule m).members ↔ m.DeclaresInternal name := by
  simp only [Scope.ofModule, List.mem_filterMap, Module.DeclaresInternal]
  constructor
  · rintro ⟨element, hmem, hmember⟩
    unfold Scope.memberOf? at hmember
    split at hmember
    · obtain rfl := Option.some.inj hmember
      exact ⟨_, _, _, hmem⟩
    · cases hmember
  · rintro ⟨span, value, dependencies, hmem⟩
    exact ⟨_, hmem, rfl⟩

theorem mem_imports_iff {id : ModuleId} :
    (name, id) ∈ (Scope.ofModule m).imports ↔ m.Requires name id := by
  simp only [Scope.ofModule, List.mem_reverse, List.mem_filterMap, Module.Requires]
  constructor
  · rintro ⟨element, hmem, himport⟩
    unfold Scope.importOf? at himport
    split at himport
    · obtain ⟨rfl, rfl⟩ := Prod.mk.inj (Option.some.inj himport)
      exact ⟨_, hmem⟩
    · cases himport
  · rintro ⟨span, hmem⟩
    exact ⟨_, hmem, rfl⟩

theorem lookup_imports_eq_none (h : ∀ id, ¬ m.Requires name id) :
    (Scope.ofModule m).imports.lookup name = none := by
  rw [List.lookup_eq_none_iff]
  rintro ⟨binder, id⟩ hmem
  simp only [bne_iff_ne, ne_eq]
  rintro rfl
  exact h id (mem_imports_iff.1 hmem)

theorem Module.RequiresLast.lookup_imports {span : LineSpan} {id : ModuleId}
    (h : m.RequiresLast name span id) : (Scope.ofModule m).imports.lookup name = some id := by
  obtain ⟨before, after, helements, hlast⟩ := h
  have hnone : (after.filterMap Scope.importOf?).reverse.lookup name = none := by
    rw [List.lookup_eq_none_iff]
    rintro ⟨binder, other⟩ hmem
    simp only [List.mem_reverse, List.mem_filterMap] at hmem
    obtain ⟨element, helement, himport⟩ := hmem
    unfold Scope.importOf? at himport
    split at himport
    · obtain ⟨rfl, rfl⟩ := Prod.mk.inj (Option.some.inj himport)
      simp only [bne_iff_ne, ne_eq]
      rintro rfl
      exact hlast _ helement _ _ rfl
    · cases himport
  simp [Scope.ofModule, helements, List.lookup_append, hnone, Scope.importOf?]

/-! ## Recorded dependencies -/

variable {value : Expr}

theorem mem_dependencies {scope : Scope} {key : Key} :
    key ∈ scope.dependencies value ↔
      ∃ occurrence ∈ value.occurrences [], scope.refer? occurrence = some key := by
  rw [Scope.dependencies, mem_distinct, List.mem_filterMap]

theorem mem_hiddenNames_nil {above : List Enclosure} {text : String} :
    text ∉ hiddenNames above ++ [] ↔ ∀ enclosure ∈ above, ¬ enclosure.Binds text := by
  simp only [List.append_nil, mem_hiddenNames, not_exists, not_and]

/-- Only an occurrence of its name refers to an internal member. -/
theorem refer?_eq_internal {scope : Scope} {occurrence : Occurrence}
    (h : scope.refer? occurrence = some ⟨scope.self, name, .internal⟩) :
    name ∉ occurrence.hidden ∧
      (occurrence.mention = .reference name ∨
        ∃ right, occurrence.mention = .access name right) := by
  have hmember : ∀ {text : String},
      scope.member? occurrence.hidden text = some ⟨scope.self, name, .internal⟩ →
        text = name ∧ name ∉ occurrence.hidden := by
    intro text hsome
    unfold Scope.member? at hsome
    split at hsome
    · next hvisible =>
      obtain rfl : text = name := by simpa using hsome
      exact ⟨rfl, hvisible.2⟩
    · cases hsome
  unfold Scope.refer? at h
  split at h
  · cases h
  · next text hmention =>
    obtain ⟨rfl, hhidden⟩ := hmember h
    exact ⟨hhidden, .inl hmention⟩
  · next left right hmention =>
    split at h
    · cases h
    · split at h
      · cases h
      · obtain ⟨rfl, hhidden⟩ := hmember h
        exact ⟨hhidden, .inr ⟨right, hmention⟩⟩

/-- A value depends on an internal member exactly when it refers to it past no parameter of that
name. -/
theorem mem_dependencies_internal (hmember : m.DeclaresInternal name)
    (himport : ∀ id, ¬ m.Requires name id) (hexports : name ≠ "exports") :
    ⟨m.id, name, .internal⟩ ∈ (Scope.ofModule m).dependencies value ↔
      value.MentionsVisibly (.reference name) name := by
  rw [mem_dependencies]
  constructor
  · rintro ⟨occurrence, hmem, hrefer⟩
    obtain ⟨hhidden, hmention⟩ := refer?_eq_internal hrefer
    have hmem : occurrence ∈ (Node.expr value).occurrences [] := hmem
    obtain ⟨above, node, hreaches, hmentions, heq⟩ := exists_position hmem
    rw [heq] at hhidden
    rcases hmention with hmention | ⟨right, hmention⟩
    · rw [hmention] at hmentions
      exact ⟨above, node, hreaches, hmentions, mem_hiddenNames_nil.1 hhidden⟩
    · rw [hmention] at hmentions
      obtain ⟨object, hobject, hreference⟩ := hreaches.object hmentions
      exact ⟨above, object, hobject, hreference, mem_hiddenNames_nil.1 hhidden⟩
  · rintro ⟨above, node, hreaches, hmentions, hvisible⟩
    have hhidden : name ∉ hiddenNames above ++ [] := mem_hiddenNames_nil.2 hvisible
    have hself : (Scope.ofModule m).member? (hiddenNames above ++ []) name =
        some ⟨m.id, name, .internal⟩ := by
      rw [Scope.member?, if_pos ⟨mem_members_iff.2 hmember, hhidden⟩]
      rfl
    rcases hreaches.exists_subject hmentions with hmem | ⟨right, hmem⟩
    · exact ⟨_, hmem, hself⟩
    · refine ⟨_, hmem, ?_⟩
      -- neither an alias nor `exports`, so the access counts as a use of its object
      have hnone : (Scope.ofModule m).import? (hiddenNames above ++ []) name = none := by
        rw [Scope.import?, if_neg hhidden, lookup_imports_eq_none himport]
      simp only [Scope.refer?, hnone, if_neg hexports, hself]

/-- An access through an alias, past no parameter of that name, depends on the export of the
module that was last required under it. -/
theorem mem_dependencies_of_access {span : LineSpan} {id : ModuleId} {property : String}
    (hrequires : m.RequiresLast name span id)
    (haccess : value.MentionsVisibly (.access name property) name) :
    ⟨id, property, .exported⟩ ∈ (Scope.ofModule m).dependencies value := by
  obtain ⟨above, node, hreaches, hmentions, hvisible⟩ := haccess
  refine mem_dependencies.2 ⟨_, hreaches.mem_of_access hmentions, ?_⟩
  have hsome : (Scope.ofModule m).import? (hiddenNames above ++ []) name = some id := by
    rw [Scope.import?, if_neg (mem_hiddenNames_nil.2 hvisible), hrequires.lookup_imports]
  simp only [Scope.refer?, hsome]

/-! ## Analysis and elimination -/

/-- Analysis gives every value the dependencies that its scope finds. -/
theorem exists_records_of_analyze {element : Element} {dependencies : List Key}
    (helement : element ∈ m.analyze.elements) (hrecords : element.Records value dependencies) :
    dependencies = (Scope.ofModule m).dependencies value := by
  obtain ⟨original, -, rfl⟩ := List.mem_map.1 helement
  cases original with
  | member => cases hrecords; rfl
  | exports span entries =>
      cases hrecords with
      | entry hentry =>
          obtain ⟨entry, -, rfl⟩ := List.mem_map.1 hentry
          rfl
  | _ => cases hrecords

/-- The values of a module stay what they were, each with the dependencies of its scope. -/
theorem records_analyze_iff {dependencies : List Key} :
    (∃ element ∈ m.analyze.elements, element.Records value dependencies) ↔
      dependencies = (Scope.ofModule m).dependencies value ∧
        ∃ element ∈ m.elements, ∃ earlier, element.Records value earlier := by
  constructor
  · rintro ⟨element, helement, hrecords⟩
    refine ⟨exists_records_of_analyze helement hrecords, ?_⟩
    -- Analysis keeps the value of an element and replaces what was recorded for it.
    obtain ⟨original, hmem, rfl⟩ := List.mem_map.1 helement
    refine ⟨original, hmem, ?_⟩
    cases original with
    | member => cases hrecords; exact ⟨_, .member⟩
    | exports span entries =>
        cases hrecords with
        | entry hentry =>
            obtain ⟨entry, horiginal, rfl⟩ := List.mem_map.1 hentry
            have hvalue : (Element.exports span entries).Records entry.value entry.dependencies :=
              .entry horiginal
            exact ⟨_, hvalue⟩
    | _ => cases hrecords
  · rintro ⟨rfl, element, helement, earlier, hrecords⟩
    refine ⟨_, List.mem_map_of_mem helement, ?_⟩
    cases hrecords with
    | member => exact .member
    | @entry span entries entry hentry =>
        have hanalyzed : (Scope.ofModule m).analyzeEntry entry ∈
            entries.map (Scope.ofModule m).analyzeEntry := List.mem_map_of_mem hentry
        exact Element.Records.entry hanalyzed

/-- Analysis leaves requires as they are. -/
theorem require_mem_analyze_iff {span : LineSpan} {target : RequireTarget} :
    Element.require span name target ∈ m.analyze.elements ↔
      Element.require span name target ∈ m.elements := by
  constructor
  · intro h
    obtain ⟨original, hmem, heq⟩ := List.mem_map.1 h
    cases original with
    | require => exact heq ▸ hmem
    | _ => cases heq
  · intro hmem
    exact List.mem_map.2 ⟨_, hmem, rfl⟩

/-- Analysis leaves the names of members as they are. -/
theorem declaresInternal_analyze_iff :
    m.analyze.DeclaresInternal name ↔ m.DeclaresInternal name := by
  constructor
  · rintro ⟨span, value, dependencies, h⟩
    obtain ⟨original, hmem, heq⟩ := List.mem_map.1 h
    cases original with
    | member =>
        obtain ⟨rfl, rfl, rfl, rfl, rfl⟩ := Element.member.inj heq
        exact ⟨_, _, _, hmem⟩
    | _ => cases heq
  · rintro ⟨span, value, dependencies, hmem⟩
    exact ⟨_, _, _, List.mem_map.2 ⟨_, hmem, rfl⟩⟩

end ModuleLinker
