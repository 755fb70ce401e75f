/-
# ModuleLinker.Proofs.LiveKeys -- reachability is exact

What is live in a program has a definition that knows nothing of rounds or frontiers: it is the
least set of keys that holds the public keys of the entry points and, with a key, every declared
key that one of its definitions depends on. `Live` builds that set from below. `reachability_exact`
says that `Reachability.compute` finds it, counts it, and relates two different modules exactly
where a live key of the one depends on some key of the other, declared or not.

The search keeps the invariant `Explored`: the live keys are declared and distinct, and only those
of the frontier may depend on a key that is still missing. A round either adds a key or is the
last, so there are never more rounds than definitions.
-/

import Mathlib.Data.Set.Card
import ModuleLinker.Link.Reachability

namespace ModuleLinker

/-! ## What the modules of a program declare -/

/-- Some element of some module gives the key a definition with these dependencies. -/
inductive Declares (modules : List Module) : Key → List Key → Prop
  | member {m : Module} {span : LineSpan} {visibility : Visibility} {name : String}
      {value : Script.Expr} {dependencies : List Key} :
      m ∈ modules → Element.member span visibility name value dependencies ∈ m.elements →
      Declares modules ⟨m.id, name, visibility⟩ dependencies
  | entry {m : Module} {span : LineSpan} {entries : List ExportEntry} {entry : ExportEntry} :
      m ∈ modules → Element.exports span entries ∈ m.elements → entry ∈ entries →
      Declares modules ⟨m.id, entry.name, .exported⟩ entry.dependencies

/-- Some element has the key. -/
def IsDeclared (modules : List Module) (key : Key) : Prop :=
  ∃ dependencies, Declares modules key dependencies

theorem mem_definitions {modules : List Module} {key : Key} {dependencies : List Key} :
    ⟨key, dependencies⟩ ∈ definitions modules ↔ Declares modules key dependencies := by
  simp only [definitions, Module.definitions, List.mem_flatMap]
  constructor
  · rintro ⟨m, hm, element, helement, hdefinition⟩
    cases element with
    | member span visibility name value deps =>
        simp only [Element.definitions, List.mem_singleton, Definition.mk.injEq] at hdefinition
        obtain ⟨rfl, rfl⟩ := hdefinition
        exact .member hm helement
    | exports span entries =>
        simp only [Element.definitions, List.mem_map] at hdefinition
        obtain ⟨entry, hentry, heq⟩ := hdefinition
        obtain ⟨rfl, rfl⟩ := Definition.mk.inj heq
        exact .entry hm helement hentry
    | require span binder target => cases hdefinition
    | other span => cases hdefinition
    | skipped span => cases hdefinition
  · intro h
    cases h with
    | member hm helement => exact ⟨_, hm, _, helement, by simp [Element.definitions]⟩
    | entry hm helement hentry =>
        exact ⟨_, hm, _, helement, List.mem_map.2 ⟨_, hentry, rfl⟩⟩

theorem isDefined_iff {modules : List Module} {key : Key} :
    isDefined (definitions modules) key ↔ IsDeclared modules key := by
  simp only [isDefined, List.any_eq_true, decide_eq_true_eq, IsDeclared, ← mem_definitions]
  constructor
  · rintro ⟨⟨_, dependencies⟩, hmem, rfl⟩
    exact ⟨dependencies, hmem⟩
  · rintro ⟨dependencies, hmem⟩
    exact ⟨_, hmem, rfl⟩

theorem mem_dependenciesOf {modules : List Module} {key dependency : Key} :
    dependency ∈ dependenciesOf (definitions modules) key ↔
      ∃ dependencies, Declares modules key dependencies ∧ dependency ∈ dependencies := by
  simp only [dependenciesOf, List.mem_flatMap, ← mem_definitions]
  constructor
  · rintro ⟨⟨owner, dependencies⟩, hmem, hdependency⟩
    split at hdependency
    · next heq =>
      obtain rfl : owner = key := heq
      exact ⟨dependencies, hmem, hdependency⟩
    · cases hdependency
  · rintro ⟨dependencies, hmem, hdependency⟩
    exact ⟨_, hmem, by simpa using hdependency⟩

theorem mem_keys_iff {modules : List Module} {key : Key} :
    key ∈ (definitions modules).map (·.key) ↔ IsDeclared modules key := by
  rw [← isDefined_iff, isDefined, List.any_eq_true, List.mem_map]
  simp only [decide_eq_true_eq]

theorem mem_roots {modules : List Module} {entryPoints : List ModuleId} {key : Key} :
    key ∈ roots (definitions modules) entryPoints ↔
      IsDeclared modules key ∧ key.visibility = .exported ∧ key.owner ∈ entryPoints := by
  rw [roots, mem_distinct, List.mem_filter, mem_keys_iff]
  simp

/-! ## The least live set -/

/-- The keys that have to be live: the public keys of the entry points, and the declared keys
that a live key depends on. -/
inductive Live (modules : List Module) (entryPoints : List ModuleId) : Key → Prop
  | root {key : Key} :
      IsDeclared modules key → key.visibility = .exported → key.owner ∈ entryPoints →
      Live modules entryPoints key
  | step {key dependency : Key} {dependencies : List Key} :
      Live modules entryPoints key → Declares modules key dependencies →
      dependency ∈ dependencies → IsDeclared modules dependency →
      Live modules entryPoints dependency

/-- A set of keys that misses nothing that has to be live. -/
structure HoldsLive (modules : List Module) (entryPoints : List ModuleId) (keys : Set Key) :
    Prop where
  roots : ∀ key, IsDeclared modules key → key.visibility = .exported →
    key.owner ∈ entryPoints → key ∈ keys
  closed : ∀ key ∈ keys, ∀ dependencies, Declares modules key dependencies →
    ∀ dependency ∈ dependencies, IsDeclared modules dependency → dependency ∈ keys

variable {modules : List Module} {entryPoints : List ModuleId}

theorem Live.isDeclared {key : Key} (h : Live modules entryPoints key) :
    IsDeclared modules key := by
  cases h with
  | root hdeclared => exact hdeclared
  | step _ _ _ hdeclared => exact hdeclared

theorem isLeast_live :
    IsLeast {keys | HoldsLive modules entryPoints keys} {key | Live modules entryPoints key} := by
  constructor
  · exact ⟨fun _ => Live.root, fun _ hkey _ hdeps _ hdep => Live.step hkey hdeps hdep⟩
  · intro keys hkeys key hlive
    induction hlive with
    | root hdeclared hpublic howner => exact hkeys.roots _ hdeclared hpublic howner
    | step _ hdeps hdep hdeclared ih => exact hkeys.closed _ ih _ hdeps _ hdep hdeclared

/-! ## Rounds of the search -/

/-- The keys that one round adds. -/
def freshKeys (defs : List Definition) (frontier live : List Key) : List Key :=
  distinct ((frontier.flatMap (dependenciesOf defs)).filter fun key =>
    isDefined defs key && !live.contains key)

theorem spread_succ (defs : List Definition) (rounds : Nat) (frontier live : List Key) :
    spread defs (rounds + 1) frontier live =
      if (freshKeys defs frontier live).isEmpty then live
      else spread defs rounds (freshKeys defs frontier live)
        (live ++ freshKeys defs frontier live) := rfl

theorem mem_freshKeys {frontier live : List Key} {dependency : Key} :
    dependency ∈ freshKeys (definitions modules) frontier live ↔
      (∃ key ∈ frontier, ∃ dependencies, Declares modules key dependencies ∧
        dependency ∈ dependencies) ∧ IsDeclared modules dependency ∧ dependency ∉ live := by
  simp only [freshKeys, mem_distinct, List.mem_filter, List.mem_flatMap, mem_dependenciesOf,
    Bool.and_eq_true, isDefined_iff, Bool.not_eq_true', List.contains_eq_mem,
    decide_eq_false_iff_not]

/-- What the search knows between two rounds: only keys of the frontier may depend on a declared
key that is not live yet. -/
structure Explored (modules : List Module) (entryPoints : List ModuleId)
    (frontier live : List Key) : Prop where
  nodup : live.Nodup
  sound : ∀ key ∈ live, Live modules entryPoints key
  roots : ∀ key, IsDeclared modules key → key.visibility = .exported →
    key.owner ∈ entryPoints → key ∈ live
  reached : ∀ key ∈ frontier, key ∈ live
  closed : ∀ key ∈ live, key ∉ frontier → ∀ dependencies, Declares modules key dependencies →
    ∀ dependency ∈ dependencies, IsDeclared modules dependency → dependency ∈ live

theorem explored_roots :
    Explored modules entryPoints (roots (definitions modules) entryPoints)
      (roots (definitions modules) entryPoints) where
  nodup := distinct_nodup _
  sound key hkey := by
    obtain ⟨hdeclared, hpublic, howner⟩ := mem_roots.1 hkey
    exact .root hdeclared hpublic howner
  roots _ hdeclared hpublic howner := mem_roots.2 ⟨hdeclared, hpublic, howner⟩
  reached _ hkey := hkey
  closed _ hkey hfrontier := absurd hkey hfrontier

/-- A round keeps the invariant: what it adds is the new frontier, and the old one is closed. -/
theorem Explored.round {frontier live : List Key}
    (h : Explored modules entryPoints frontier live) :
    Explored modules entryPoints (freshKeys (definitions modules) frontier live)
      (live ++ freshKeys (definitions modules) frontier live) where
  nodup := by
    refine List.nodup_append.2 ⟨h.nodup, distinct_nodup _, ?_⟩
    rintro key hlive _ hfresh rfl
    exact (mem_freshKeys.1 hfresh).2.2 hlive
  sound key hkey := by
    rcases List.mem_append.1 hkey with hlive | hfresh
    · exact h.sound key hlive
    · obtain ⟨⟨source, hsource, deps, hdeps, hdep⟩, hdeclared, -⟩ := mem_freshKeys.1 hfresh
      exact .step (h.sound source (h.reached source hsource)) hdeps hdep hdeclared
  roots key hdeclared hpublic howner :=
    List.mem_append_left _ (h.roots key hdeclared hpublic howner)
  reached _ hkey := List.mem_append_right _ hkey
  closed key hkey hfresh deps hdeps dep hdep hdeclared := by
    have hlive : key ∈ live := (List.mem_append.1 hkey).resolve_right hfresh
    by_cases hknown : dep ∈ live
    · exact List.mem_append_left _ hknown
    · -- A dependency of the frontier is fresh unless it was known; any other key was closed before.
      by_cases hfrontier : key ∈ frontier
      · exact List.mem_append_right _
          (mem_freshKeys.2 ⟨⟨key, hfrontier, deps, hdeps, hdep⟩, hdeclared, hknown⟩)
      · exact absurd (h.closed key hlive hfrontier deps hdeps dep hdep hdeclared) hknown

/-- Where a round adds nothing the live keys are closed. -/
theorem Explored.holdsLive {frontier live : List Key}
    (h : Explored modules entryPoints frontier live)
    (hfresh : freshKeys (definitions modules) frontier live = []) :
    HoldsLive modules entryPoints {key | key ∈ live} where
  roots := h.roots
  closed key hkey deps hdeps dep hdep hdeclared := by
    have hround := h.round.closed key (List.mem_append_left _ hkey) (by simp [hfresh])
    simpa [hfresh] using hround deps hdeps dep hdep hdeclared

/-- Where there are as many live keys as definitions, every declared key is live. -/
theorem Explored.holdsLive_of_length {frontier live : List Key}
    (h : Explored modules entryPoints frontier live)
    (hlength : (definitions modules).length ≤ live.length) :
    HoldsLive modules entryPoints {key | key ∈ live} := by
  have hsubset : live ⊆ (definitions modules).map (·.key) := fun key hkey =>
    mem_keys_iff.2 (h.sound key hkey).isDeclared
  have hperm : live.Perm ((definitions modules).map (·.key)) :=
    (List.Nodup.subperm h.nodup hsubset).perm_of_length_le (by simpa using hlength)
  have hall : ∀ key, IsDeclared modules key → key ∈ live := fun key hkey =>
    hperm.mem_iff.2 (mem_keys_iff.2 hkey)
  exact ⟨fun key hkey _ _ => hall key hkey, fun _ _ _ _ dep _ hdeclared => hall dep hdeclared⟩

/-- The search runs until the live keys are closed, and it never adds a key that need not be
live or one that it has already. -/
theorem Explored.spread {rounds : Nat} {frontier live : List Key}
    (h : Explored modules entryPoints frontier live)
    (hrounds : (definitions modules).length ≤ rounds + live.length) :
    let result := spread (definitions modules) rounds frontier live
    result.Nodup ∧ (∀ key ∈ result, Live modules entryPoints key) ∧
      HoldsLive modules entryPoints {key | key ∈ result} := by
  induction rounds generalizing frontier live with
  | zero => exact ⟨h.nodup, h.sound, h.holdsLive_of_length (by omega)⟩
  | succ rounds ih =>
      rw [spread_succ]
      by_cases hfresh : freshKeys (definitions modules) frontier live = []
      · rw [if_pos (by simp [hfresh])]
        exact ⟨h.nodup, h.sound, h.holdsLive hfresh⟩
      · rw [if_neg (by simpa using hfresh)]
        have hgrows : 0 < (freshKeys (definitions modules) frontier live).length :=
          List.length_pos_iff.2 hfresh
        exact ih h.round (by rw [List.length_append]; omega)

/-! ## The computed reachability -/

theorem nodup_live : (Reachability.compute (definitions modules) entryPoints).live.Nodup :=
  (explored_roots.spread (Nat.le_add_right _ _)).1

/-- The search finds exactly what has to be live. -/
theorem isLive_iff {key : Key} :
    (Reachability.compute (definitions modules) entryPoints).isLive key ↔
      Live modules entryPoints key := by
  have hstart : Explored modules entryPoints _ _ := explored_roots
  obtain ⟨-, hsound, hholds⟩ := hstart.spread (Nat.le_add_right _ _)
  rw [Reachability.isLive, List.contains_eq_mem, decide_eq_true_eq]
  exact ⟨hsound key, fun hlive => isLeast_live.2 hholds hlive⟩

theorem mem_live_iff {key : Key} :
    key ∈ (Reachability.compute (definitions modules) entryPoints).live ↔
      Live modules entryPoints key := by
  rw [← isLive_iff, Reachability.isLive, List.contains_eq_mem, decide_eq_true_eq]

/-- One module refers to another where a live key of the first depends on a key of the second. -/
theorem isReferenced_iff {source target : ModuleId} :
    (Reachability.compute (definitions modules) entryPoints).isReferenced source target ↔
      source ≠ target ∧ ∃ key, Live modules entryPoints key ∧ key.owner = source ∧
        ∃ dependencies, Declares modules key dependencies ∧
          ∃ dependency ∈ dependencies, dependency.owner = target := by
  rw [Reachability.isReferenced, List.contains_eq_mem, decide_eq_true_eq]
  show (source, target) ∈ distinct _ ↔ _
  rw [mem_distinct, List.mem_flatMap]
  constructor
  · rintro ⟨key, hlive, hpair⟩
    simp only [Reachability.referencesOf, List.mem_map, List.mem_filter, mem_dependenciesOf,
      decide_eq_true_eq, Prod.mk.injEq] at hpair
    obtain ⟨dep, ⟨⟨deps, hdeps, hdep⟩, hother⟩, rfl, rfl⟩ := hpair
    exact ⟨fun h => hother h.symm, key, mem_live_iff.1 hlive, rfl, deps, hdeps, dep, hdep, rfl⟩
  · rintro ⟨hother, key, hlive, rfl, deps, hdeps, dep, hdep, rfl⟩
    refine ⟨key, mem_live_iff.2 hlive, ?_⟩
    simp only [Reachability.referencesOf, List.mem_map, List.mem_filter, mem_dependenciesOf,
      decide_eq_true_eq]
    exact ⟨dep, ⟨⟨deps, hdeps, hdep⟩, fun h => hother h.symm⟩, rfl⟩

/-- The live keys are declared keys and form the least set that holds the public keys of the entry
points and every declared dependency of its members; they are counted once each; and a module
refers to another one exactly where a definition of a live key of the first depends on a key of
the second, whether or not that key is declared. -/
theorem reachability_exact (modules : List Module) (entryPoints : List ModuleId) :
    let r := Reachability.compute (definitions modules) entryPoints
    (∀ key, r.isLive key → IsDeclared modules key) ∧
      IsLeast {keys | HoldsLive modules entryPoints keys} {key | r.isLive key} ∧
      {key | r.isLive key}.encard = r.liveCount ∧
      ∀ source target, r.isReferenced source target ↔
        source ≠ target ∧ ∃ key, r.isLive key ∧ key.owner = source ∧
          ∃ dependencies, Declares modules key dependencies ∧
            ∃ dependency ∈ dependencies, dependency.owner = target := by
  intro r
  have hset : {key | r.isLive key} = {key | Live modules entryPoints key} :=
    Set.ext fun _ => isLive_iff
  refine ⟨fun key hkey => (isLive_iff.1 hkey).isDeclared, hset ▸ isLeast_live, ?_, ?_⟩
  · have hfinset : {key | r.isLive key} = (r.live.toFinset : Set Key) := by
      ext key
      simp [Reachability.isLive]
    rw [hfinset, Set.encard_coe_eq_coe_finsetCard, List.toFinset_card_of_nodup nodup_live]
    rfl
  · intro source target
    simp only [r, isReferenced_iff, isLive_iff]

end ModuleLinker
