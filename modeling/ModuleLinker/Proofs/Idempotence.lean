/-
# ModuleLinker.Proofs.Idempotence -- what is left needs no second pass

Elimination asks of a reachability only which keys are live and which modules are referred to, so
two that agree on these leave the same modules (`Reachability.Agrees.eliminate_eq`). Two programs
agree where the same keys have to be live in both and have the same definitions in both
(`agrees_compute`).

A program and what elimination leaves of it are of this kind: the live set is closed, so that every
key on the way from an entry point keeps its definitions (`live_eliminate_iff`). Searching what is
left therefore finds the same again, and eliminating it changes nothing (`elimination_idempotent`).
-/

import ModuleLinker.Proofs.Elimination

namespace ModuleLinker

/-! ## Agreement -/

/-- The two find the same keys live and the same modules referred to. -/
structure Reachability.Agrees (r r' : Reachability) : Prop where
  isLive_iff : ∀ key, r.isLive key ↔ r'.isLive key
  isReferenced_iff : ∀ source target, r.isReferenced source target ↔ r'.isReferenced source target

section Agreement

variable {modules others : List Module} {entryPoints entryPoints' : List ModuleId}
  {r r' : Reachability}

theorem Reachability.Agrees.element_eliminate_eq (h : r.Agrees r') (owner : ModuleId)
    (element : Element) : element.eliminate r owner = element.eliminate r' owner := by
  have hlive : ∀ key, r.isLive key = r'.isLive key :=
    fun key => Bool.eq_iff_iff.2 (h.isLive_iff key)
  have hreferenced : ∀ source target,
      r.isReferenced source target = r'.isReferenced source target :=
    fun source target => Bool.eq_iff_iff.2 (h.isReferenced_iff source target)
  unfold Element.eliminate
  simp only [hlive, hreferenced]

/-- Those who agree leave the same of every program. -/
theorem Reachability.Agrees.eliminate_eq (h : r.Agrees r') (modules : List Module) :
    eliminate r modules = eliminate r' modules := by
  have hmodule : Module.eliminate r = Module.eliminate r' := by
    funext m
    unfold Module.eliminate
    rw [funext (h.element_eliminate_eq m.id)]
  unfold ModuleLinker.eliminate
  rw [hmodule]

/-- More definitions and more entry points leave no key dead that was live. -/
theorem Live.mono
    (hdeclares : ∀ key dependencies, Declares modules key dependencies →
      Declares others key dependencies)
    (hentry : ∀ id ∈ entryPoints, id ∈ entryPoints') {key : Key}
    (h : Live modules entryPoints key) : Live others entryPoints' key := by
  have hdeclared : ∀ key, IsDeclared modules key → IsDeclared others key :=
    fun key ⟨dependencies, h⟩ => ⟨dependencies, hdeclares key dependencies h⟩
  induction h with
  | root hkey hpublic howner => exact .root (hdeclared _ hkey) hpublic (hentry _ howner)
  | step _ hkey hdependency hdeclaredDependency ih =>
      exact .step ih (hdeclares _ _ hkey) hdependency (hdeclared _ hdeclaredDependency)

/-- Two programs agree where the same keys have to be live and have the same definitions. -/
theorem agrees_compute
    (hlive : ∀ key, Live modules entryPoints key ↔ Live others entryPoints' key)
    (hdeclares : ∀ key dependencies, Live modules entryPoints key →
      (Declares modules key dependencies ↔ Declares others key dependencies)) :
    (Reachability.compute (definitions modules) entryPoints).Agrees
      (Reachability.compute (definitions others) entryPoints') where
  isLive_iff key := by rw [isLive_iff, isLive_iff, hlive]
  isReferenced_iff source target := by
    rw [isReferenced_iff, isReferenced_iff]
    refine and_congr_right fun _ => exists_congr fun key => ?_
    rw [← hlive]
    refine and_congr_right fun hkey => and_congr_right fun _ => exists_congr fun dependencies => ?_
    rw [hdeclares key dependencies hkey]

end Agreement

/-! ## A second pass -/

section Again

variable {modules : List Module} {entryPoints : List ModuleId}

/-- The same keys have to be live in what is left of a program. -/
theorem live_eliminate_iff {key : Key} :
    Live (eliminate (.compute (definitions modules) entryPoints) modules) entryPoints key ↔
      Live modules entryPoints key := by
  -- What is live keeps its declaration, so that the second run finds all that the first one found.
  have hdeclared : ∀ key, Live modules entryPoints key →
      IsDeclared (eliminate (.compute (definitions modules) entryPoints) modules) key := by
    intro key hlive
    obtain ⟨dependencies, hdeclares⟩ := hlive.isDeclared
    exact ⟨dependencies, declares_eliminate_iff.2 ⟨hdeclares, isLive_iff.2 hlive⟩⟩
  constructor
  · intro hlive
    induction hlive with
    | root hleft hpublic howner =>
        obtain ⟨dependencies, hdeclares⟩ := hleft
        exact .root ⟨dependencies, (declares_eliminate_iff.1 hdeclares).1⟩ hpublic howner
    | step _ hdeclares hdependency hleft ih =>
        obtain ⟨dependencies, hleft⟩ := hleft
        exact .step ih (declares_eliminate_iff.1 hdeclares).1 hdependency
          ⟨dependencies, (declares_eliminate_iff.1 hleft).1⟩
  · intro hlive
    induction hlive with
    | root hkey hpublic howner =>
        exact .root (hdeclared _ (.root hkey hpublic howner)) hpublic howner
    | step hkey hdeclares hdependency hdeclaredDependency ih =>
        exact .step ih (declares_eliminate_iff.2 ⟨hdeclares, isLive_iff.2 hkey⟩) hdependency
          (hdeclared _ (.step hkey hdeclares hdependency hdeclaredDependency))

theorem Element.eliminate_eliminate (r : Reachability) (owner : ModuleId) (element : Element) :
    (element.eliminate r owner).eliminate r owner = element.eliminate r owner := by
  generalize hleft : element.eliminate r owner = left
  have hfilters : element.Filters r owner left := hleft ▸ element.filters_eliminate owner
  cases hfilters with
  | kept hlive => rw [Element.eliminate, if_pos hlive]
  | table => simp [Element.eliminate]
  | referenced hreferenced => rw [Element.eliminate, if_pos hreferenced]
  | _ => rfl

theorem Module.eliminate_eliminate (r : Reachability) (m : Module) :
    (m.eliminate r).eliminate r = m.eliminate r := by
  simp only [Module.eliminate, List.map_map, Function.comp_def, Element.eliminate_eliminate]

/-- The same pass a second time changes nothing. -/
theorem eliminate_eliminate (r : Reachability) (modules : List Module) :
    eliminate r (eliminate r modules) = eliminate r modules := by
  have hkept : ∀ m ∈ eliminate r modules, m.eliminate r = m ∧ m.isEmpty = false := by
    intro m hm
    obtain ⟨hm, hempty⟩ := List.mem_filter.1 hm
    obtain ⟨original, -, rfl⟩ := List.mem_map.1 hm
    exact ⟨original.eliminate_eliminate r, by simpa using hempty⟩
  have hmap : (eliminate r modules).map (Module.eliminate r) = eliminate r modules :=
    (List.map_congr_left fun m hm => (hkept m hm).1).trans (List.map_id _)
  rw [ModuleLinker.eliminate.eq_def r (eliminate r modules), hmap, List.filter_eq_self]
  exact fun m hm => by simp [(hkept m hm).2]

/-- What is reachable in the modules that elimination leaves is what was reachable before, and
eliminating these modules with it leaves them as they are. -/
theorem elimination_idempotent (modules : List Module) (entryPoints : List ModuleId) :
    let r := Reachability.compute (definitions modules) entryPoints
    let left := eliminate r modules
    let again := Reachability.compute (definitions left) entryPoints
    again.Agrees r ∧ eliminate again left = left := by
  intro r left again
  have hagrees : again.Agrees r := by
    refine agrees_compute (fun key => live_eliminate_iff) fun key dependencies hkey => ?_
    have hlive : r.isLive key := isLive_iff.2 (live_eliminate_iff.1 hkey)
    exact declares_eliminate_iff.trans (and_iff_left hlive)
  exact ⟨hagrees, (hagrees.eliminate_eq left).trans (eliminate_eliminate r modules)⟩

end Again

end ModuleLinker
