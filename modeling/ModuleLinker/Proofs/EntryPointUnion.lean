/-
# ModuleLinker.Proofs.EntryPointUnion -- more entry points keep more code

What is live under two sets of entry points taken together is what is live under the one and what is
live under the other: a path starts at a single entry point. The same goes for the modules that live
code refers to, and elimination asks for nothing else.

Elimination decides about members, about single exports, and about requires of modules of the
program; these are the `parts` of an element. A part that stays must not be lost with its module,
though. A require stays where its module refers to another one, and then something in a module of
that identifier is live; if identifiers differ, it is the module of the require that survives
(`keeps_iff`). `elimination_union` puts this together.
-/

import ModuleLinker.Proofs.Idempotence
import ModuleLinker.Proofs.Survival

namespace ModuleLinker

/-! ## Live keys -/

section Live

variable {modules : List Module} {first second both : List ModuleId}

/-- A path to a live key starts at an entry point of the first set or of the second. -/
theorem live_union_iff (hboth : ∀ id, id ∈ both ↔ id ∈ first ∨ id ∈ second) {key : Key} :
    Live modules both key ↔ Live modules first key ∨ Live modules second key := by
  constructor
  · intro h
    -- the entry point at the root decides, and every step stays on its side
    induction h with
    | root hdeclared hpublic howner =>
        rcases (hboth _).1 howner with hfirst | hsecond
        · exact .inl (.root hdeclared hpublic hfirst)
        · exact .inr (.root hdeclared hpublic hsecond)
    | step _ hdeclares hdependency hdeclared ih =>
        rcases ih with hfirst | hsecond
        · exact .inl (hfirst.step hdeclares hdependency hdeclared)
        · exact .inr (hsecond.step hdeclares hdependency hdeclared)
  · have hsame : ∀ key dependencies, Declares modules key dependencies →
        Declares modules key dependencies := fun _ _ h => h
    rintro (hfirst | hsecond)
    · exact hfirst.mono hsame fun id hid => (hboth id).2 (.inl hid)
    · exact hsecond.mono hsame fun id hid => (hboth id).2 (.inr hid)

end Live

namespace Reachability

/-- What is live for the one is live for one of the two, and likewise for the modules that are
referred to. -/
structure IsUnion (r first second : Reachability) : Prop where
  isLive_iff : ∀ key, r.isLive key ↔ first.isLive key ∨ second.isLive key
  isReferenced_iff : ∀ source target,
    r.isReferenced source target ↔ first.isReferenced source target ∨
      second.isReferenced source target

theorem isUnion_compute {modules : List Module} {first second both : List ModuleId}
    (hboth : ∀ id, id ∈ both ↔ id ∈ first ∨ id ∈ second) :
    (compute (definitions modules) both).IsUnion (compute (definitions modules) first)
      (compute (definitions modules) second) where
  isLive_iff key := by
    simp only [ModuleLinker.isLive_iff]
    exact live_union_iff hboth
  isReferenced_iff source target := by
    simp only [ModuleLinker.isReferenced_iff, live_union_iff hboth, or_and_right, exists_or,
      and_or_left]

end Reachability

/-! ## Parts of elements -/

/-- What elimination keeps or leaves out as a whole: a member, an export, or a require of a module
of the program, each as an element of its own. -/
def Element.parts : Element → List Element
  | .member span visibility name value dependencies =>
    [.member span visibility name value dependencies]
  | .exports span entries => entries.map fun entry => .exports span [entry]
  | .require span binder (.resolved id) => [.require span binder (.resolved id)]
  | _ => []

/-- Whether elimination keeps a part of an element of the module `owner`. -/
def Element.isWanted (r : Reachability) (owner : ModuleId) : Element → Bool
  | .member _ visibility name _ _ => r.isLive ⟨owner, name, visibility⟩
  | .exports _ entries => entries.all fun entry => r.isLive (entry.key owner)
  | .require _ _ (.resolved id) => r.isReferenced owner id
  | _ => true

section Parts

variable {r first second : Reachability} {owner : ModuleId} {element left part : Element}

/-- The parts that are left of an element are those that are wanted. -/
theorem Element.Filters.mem_parts_iff (h : element.Filters r owner left) :
    part ∈ left.parts ↔ part ∈ element.parts ∧ part.isWanted r owner := by
  cases h with
  | kept hlive =>
      simp only [Element.parts, List.mem_singleton, iff_self_and]
      rintro rfl
      exact hlive
  | dead hdead =>
      simp only [Element.parts, List.mem_singleton, List.not_mem_nil, false_iff, not_and]
      rintro rfl
      exact hdead
  | @table span entries =>
      simp only [Element.parts, List.mem_map, List.mem_filter]
      constructor
      · rintro ⟨entry, ⟨hentry, hlive⟩, rfl⟩
        exact ⟨⟨entry, hentry, rfl⟩, by simpa [Element.isWanted] using hlive⟩
      · rintro ⟨⟨entry, hentry, rfl⟩, hwanted⟩
        exact ⟨entry, ⟨hentry, by simpa [Element.isWanted] using hwanted⟩, rfl⟩
  | referenced hreferenced =>
      simp only [Element.parts, List.mem_singleton, iff_self_and]
      rintro rfl
      exact hreferenced
  | unreferenced hunreferenced =>
      simp only [Element.parts, List.mem_singleton, List.not_mem_nil, false_iff, not_and]
      rintro rfl
      exact hunreferenced
  | unresolved | other | skipped => simp [Element.parts]

/-- A part is wanted for the union where it is wanted for one of the two. -/
theorem Element.isWanted_iff_of_isUnion (h : r.IsUnion first second)
    (hpart : part ∈ element.parts) :
    part.isWanted r owner ↔ part.isWanted first owner ∨ part.isWanted second owner := by
  cases element with
  | member =>
      obtain rfl := List.mem_singleton.1 hpart
      exact h.isLive_iff _
  | exports span entries =>
      obtain ⟨entry, -, rfl⟩ := List.mem_map.1 hpart
      simpa [Element.isWanted] using h.isLive_iff (entry.key owner)
  | require span binder target =>
      cases target with
      | unresolved path => cases hpart
      | resolved id =>
          obtain rfl := List.mem_singleton.1 hpart
          exact h.isReferenced_iff owner id
  | other | skipped => cases hpart

end Parts

/-! ## What is kept of a program -/

/-- A module with the identifier survives. -/
def Survives (r : Reachability) (modules : List Module) (id : ModuleId) : Prop :=
  ∃ left ∈ eliminate r modules, left.id = id

/-- A module with the identifier survives and has the part in the element at that place. -/
def Keeps (r : Reachability) (modules : List Module) (id : ModuleId) (place : Nat)
    (part : Element) : Prop :=
  ∃ left ∈ eliminate r modules, left.id = id ∧
    ∃ element, left.elements[place]? = some element ∧ part ∈ element.parts

section Program

variable {modules : List Module} {entryPoints : List ModuleId}

/-- A module with a wanted part has a live key, if identifiers differ. -/
theorem exists_live_of_isWanted (hdistinct : (modules.map (·.id)).Nodup) {m : Module}
    (hm : m ∈ modules) {element part : Element} (helement : element ∈ m.elements)
    (hpart : part ∈ element.parts)
    (hwanted : part.isWanted (.compute (definitions modules) entryPoints) m.id) :
    ∃ key, Live modules entryPoints key ∧ key.owner = m.id ∧ IsDeclared [m] key := by
  have hdeclared : ∀ key, Live modules entryPoints key → key.owner = m.id →
      ∃ key, Live modules entryPoints key ∧ key.owner = m.id ∧ IsDeclared [m] key :=
    fun key hlive howner => ⟨key, hlive, howner, hlive.isDeclared.of_owner hdistinct hm howner⟩
  -- A member and an entry are wanted for their own key, a require for a key that leads to it.
  cases element with
  | member =>
      obtain rfl := List.mem_singleton.1 hpart
      exact hdeclared _ (isLive_iff.1 hwanted) rfl
  | exports span entries =>
      obtain ⟨entry, -, rfl⟩ := List.mem_map.1 hpart
      have hlive : Live modules entryPoints (entry.key m.id) :=
        isLive_iff.1 (by simpa [Element.isWanted] using hwanted)
      exact hdeclared _ hlive rfl
  | require span binder target =>
      cases target with
      | unresolved path => cases hpart
      | resolved id =>
          obtain rfl := List.mem_singleton.1 hpart
          obtain ⟨-, key, hlive, howner, -⟩ := isReferenced_iff.1 hwanted
          exact hdeclared key hlive howner
  | other | skipped => cases hpart

/-- If identifiers differ, a part of the program stays where it is wanted. -/
theorem keeps_iff (hdistinct : (modules.map (·.id)).Nodup) {id : ModuleId} {place : Nat}
    {part : Element} :
    let r := Reachability.compute (definitions modules) entryPoints
    Keeps r modules id place part ↔
      ∃ m ∈ modules, m.id = id ∧ ∃ element, m.elements[place]? = some element ∧
        part ∈ element.parts ∧ part.isWanted r id := by
  intro r
  have hplace : ∀ m : Module, (m.eliminate r).elements[place]? =
      m.elements[place]?.map (Element.eliminate r m.id) := fun m => List.getElem?_map
  constructor
  · rintro ⟨left, hleft, rfl, element, helement, hpart⟩
    obtain ⟨m, hm, rfl⟩ := List.mem_map.1 (List.mem_filter.1 hleft).1
    rw [hplace] at helement
    obtain ⟨original, horiginal, rfl⟩ := Option.map_eq_some_iff.1 helement
    obtain ⟨hpart, hwanted⟩ := (original.filters_eliminate m.id).mem_parts_iff.1 hpart
    exact ⟨m, hm, rfl, original, horiginal, hpart, hwanted⟩
  · rintro ⟨m, hm, rfl, element, helement, hpart, hwanted⟩
    obtain ⟨key, hlive, howner, hdeclared⟩ :=
      exists_live_of_isWanted hdistinct hm (List.mem_of_getElem? helement) hpart hwanted
    -- the live key keeps the module, and the module its part
    refine ⟨m.eliminate r, (eliminate_mem_iff hm).2 ⟨key, isLive_iff.2 hlive, howner, hdeclared⟩,
      rfl, element.eliminate r m.id, ?_, ?_⟩
    · rw [hplace, helement, Option.map_some]
    · exact (element.filters_eliminate m.id).mem_parts_iff.2 ⟨hpart, hwanted⟩

/-- A module survives where a key of a module with its identifier is live. -/
theorem survives_iff {id : ModuleId} :
    let r := Reachability.compute (definitions modules) entryPoints
    Survives r modules id ↔ ∃ name visibility, r.isLive ⟨id, name, visibility⟩ := by
  intro r
  constructor
  · rintro ⟨left, hleft, rfl⟩
    obtain ⟨m, hm, rfl⟩ := List.mem_map.1 (List.mem_filter.1 hleft).1
    obtain ⟨⟨owner, name, visibility⟩, hlive, rfl, -⟩ := (eliminate_mem_iff hm).1 hleft
    exact ⟨name, visibility, hlive⟩
  · rintro ⟨name, visibility, hlive⟩
    obtain ⟨dependencies, hdeclares⟩ := (isLive_iff.1 hlive).isDeclared
    obtain ⟨m, hm, hid, element, helement, value, hrecords⟩ :=
      exists_records_of_declares hdeclares hlive
    exact ⟨m.eliminate r, eliminate_mem_of_records hm helement hrecords, hid⟩

end Program

/-- Two sets of entry points taken together make live what one of them makes live, and let a module
refer to what it refers to under one of them. The modules that survive are those that survive under
one of the two, and a member, an export or a require of a module of the program stays at its place
where it stays under one of them. -/
theorem elimination_union (modules : List Module) (first second both : List ModuleId)
    (hdistinct : (modules.map (·.id)).Nodup)
    (hboth : ∀ id, id ∈ both ↔ id ∈ first ∨ id ∈ second) :
    let under := Reachability.compute (definitions modules)
    (under both).IsUnion (under first) (under second) ∧
      (∀ id, Survives (under both) modules id ↔
        Survives (under first) modules id ∨ Survives (under second) modules id) ∧
      ∀ id place part, Keeps (under both) modules id place part ↔
        Keeps (under first) modules id place part ∨ Keeps (under second) modules id place part := by
  intro under
  have hunion : (under both).IsUnion (under first) (under second) :=
    Reachability.isUnion_compute hboth
  refine ⟨hunion, fun id => ?_, fun id place part => ?_⟩
  · simp only [under, survives_iff, hunion.isLive_iff, exists_or]
  · -- A part is kept where it stands in the module, so one entry set or the other keeps it there.
    simp only [under, keeps_iff hdistinct]
    constructor
    · rintro ⟨m, hm, hid, element, helement, hpart, hwanted⟩
      rcases (Element.isWanted_iff_of_isUnion hunion hpart).1 hwanted with hfirst | hsecond
      · exact .inl ⟨m, hm, hid, element, helement, hpart, hfirst⟩
      · exact .inr ⟨m, hm, hid, element, helement, hpart, hsecond⟩
    · rintro (⟨m, hm, hid, element, helement, hpart, hwanted⟩ |
        ⟨m, hm, hid, element, helement, hpart, hwanted⟩)
      · exact ⟨m, hm, hid, element, helement, hpart,
          (Element.isWanted_iff_of_isUnion hunion hpart).2 (.inl hwanted)⟩
      · exact ⟨m, hm, hid, element, helement, hpart,
          (Element.isWanted_iff_of_isUnion hunion hpart).2 (.inr hwanted)⟩

/-- Each of the entry points `A` and `B` drops the module of the other. Both together keep the two
modules, and in `B` the require of its foreign module. -/
theorem both_modules_kept :
    let modules := [setterKeyModule.analyze, selfRequireModule.analyze]
    let under := Reachability.compute (definitions modules)
    let entryPoints : List ModuleId := [.regular "B", .regular "A", .regular "B"]
    (modules.map (·.id)).Nodup ∧
      (∀ id, id ∈ entryPoints ↔ id ∈ [ModuleId.regular "A"] ∨ id ∈ [ModuleId.regular "B"]) ∧
      ¬ Survives (under [.regular "A"]) modules (.regular "B") ∧
      ¬ Survives (under [.regular "B"]) modules (.regular "A") ∧
      Survives (under entryPoints) modules (.regular "A") ∧
      Survives (under entryPoints) modules (.regular "B") ∧
      Keeps (under entryPoints) modules (.regular "B") 0
        (.require ⟨⟨0, 39⟩, 0, 0⟩ "$foreign" (.resolved (.foreign "B"))) := by
  intro modules under entryPoints
  have hdistinct : (modules.map (·.id)).Nodup := by decide
  have hboth : ∀ id, id ∈ entryPoints ↔
      id ∈ [ModuleId.regular "A"] ∨ id ∈ [ModuleId.regular "B"] := by
    intro id
    simp only [entryPoints, List.mem_cons, List.not_mem_nil, or_false]
    tauto
  obtain ⟨-, hsurvives, hkeeps⟩ := elimination_union modules _ _ _ hdistinct hboth
  have hA : (under [.regular "A"]).live =
      [⟨.regular "A", "f", .exported⟩, ⟨.regular "A", "y", .internal⟩] := by
    decide
  have hB : (under [.regular "B"]).live =
      [⟨.regular "B", "f", .exported⟩, ⟨.regular "B", "h", .exported⟩] := by
    decide
  have hfirst : Survives (under [.regular "A"]) modules (.regular "A") :=
    survives_iff.2 ⟨"f", .exported, by rw [Reachability.isLive, hA]; decide⟩
  have hsecond : Survives (under [.regular "B"]) modules (.regular "B") :=
    survives_iff.2 ⟨"f", .exported, by rw [Reachability.isLive, hB]; decide⟩
  refine ⟨hdistinct, hboth, ?_, ?_, (hsurvives _).2 (.inl hfirst), (hsurvives _).2 (.inr hsecond),
    (hkeeps _ _ _).2 (.inr ?_)⟩
  · rintro h
    obtain ⟨name, visibility, hlive⟩ := survives_iff.1 h
    rw [Reachability.isLive, hA] at hlive
    simp [ModuleId.regular] at hlive
  · rintro h
    obtain ⟨name, visibility, hlive⟩ := survives_iff.1 h
    rw [Reachability.isLive, hB] at hlive
    simp [ModuleId.regular] at hlive
  · exact (keeps_iff hdistinct).2 ⟨_, .tail _ (.head _), rfl, _, rfl, .head _, by decide⟩

end ModuleLinker
