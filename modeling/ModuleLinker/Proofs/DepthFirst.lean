/-
# ModuleLinker.Proofs.DepthFirst -- the load order is the depth-first postorder

`DepthFirst` is the search as one would write it down by recursion: a vertex that was visited is
passed over, any other one is visited, searched from, and then listed. It has at most one outcome
(`DepthFirst.unique`), and looking twice at a successor changes nothing (`DepthFirst.of_distinct`).

A traversal with its stack finds the same. What it still has to do is to search from the pending
successors of every vertex on the stack and to list that vertex behind them (`Unwinds`); a step back
keeps this (`Step.exists_unwinds`), and a traversal that has come to its end has nothing left to do.
The postorder of a graph is therefore the outcome of the search from all vertices
(`depthFirst_postorder`), and that of modules the one along their requires (`loadOrder_canonical`).
-/

import ModuleLinker.Proofs.InputOrder
import ModuleLinker.Proofs.NumberedOrder

namespace ModuleLinker

variable {α : Type} {successors : α → List α}

/-! ## The search by recursion -/

/-- From a list of vertices, one after the other, and from the successors of each in their order.
The lists are what was visited before, the vertices to search from, those that are found in the
order in which all their successors were searched from, and what was visited in the end. -/
inductive DepthFirst (successors : α → List α) :
    (visited roots order visited' : List α) → Prop
  | done {visited : List α} : DepthFirst successors visited [] [] visited
  | seen {visited roots order visited' : List α} {v : α} : v ∈ visited →
      DepthFirst successors visited roots order visited' →
      DepthFirst successors visited (v :: roots) order visited'
  | fresh {visited roots inner order between visited' : List α} {v : α} : v ∉ visited →
      DepthFirst successors (v :: visited) (successors v) inner between →
      DepthFirst successors between roots order visited' →
      DepthFirst successors visited (v :: roots) (inner ++ v :: order) visited'

namespace DepthFirst

variable {visited roots order visited' : List α}

/-- The search has one outcome. -/
theorem unique (h : DepthFirst successors visited roots order visited') {order₂ visited₂ : List α}
    (h₂ : DepthFirst successors visited roots order₂ visited₂) :
    order = order₂ ∧ visited' = visited₂ := by
  induction h generalizing order₂ visited₂ with
  | done =>
      cases h₂
      exact ⟨rfl, rfl⟩
  | seen hseen _ ih =>
      cases h₂ with
      | seen _ hroots => exact ih hroots
      | fresh hfresh => exact absurd hseen hfresh
  | fresh hfresh _ _ ihinner ihroots =>
      cases h₂ with
      | seen hseen => exact absurd hseen hfresh
      | fresh _ hinner hroots =>
          obtain ⟨rfl, rfl⟩ := ihinner hinner
          obtain ⟨rfl, rfl⟩ := ihroots hroots
          exact ⟨rfl, rfl⟩

theorem visited_subset (h : DepthFirst successors visited roots order visited') :
    visited ⊆ visited' := by
  induction h with
  | done => exact List.Subset.refl _
  | seen _ _ ih => exact ih
  | fresh _ _ _ ihinner ihroots =>
      exact fun w hw => ihroots (ihinner (List.mem_cons_of_mem _ hw))

theorem append (h : DepthFirst successors visited roots order visited')
    {roots₂ order₂ visited₂ : List α}
    (h₂ : DepthFirst successors visited' roots₂ order₂ visited₂) :
    DepthFirst successors visited (roots ++ roots₂) (order ++ order₂) visited₂ := by
  induction h with
  | done => exact h₂
  | seen hseen _ ih => exact .seen hseen (ih h₂)
  | @fresh _ _ inner order _ _ v hfresh hinner _ _ ih =>
      rw [List.append_assoc]
      exact .fresh hfresh hinner (ih h₂)

variable [DecidableEq α]

/-- What was visited may stand among the vertices to search from, or not. -/
theorem of_filter_ne {v : α} (hv : v ∈ visited)
    (h : DepthFirst successors visited (roots.filter (· ≠ v)) order visited') :
    DepthFirst successors visited roots order visited' := by
  induction roots generalizing visited order with
  | nil => exact h
  | cons w roots ih =>
      by_cases hsame : w = v
      · rw [List.filter_cons_of_neg (by simpa using hsame)] at h
        exact .seen (hsame ▸ hv) (ih hv h)
      · rw [List.filter_cons_of_pos (by simpa using hsame)] at h
        cases h with
        | seen hseen hroots => exact .seen hseen (ih hv hroots)
        | fresh hfresh hinner hroots =>
            exact .fresh hfresh hinner
              (ih (hinner.visited_subset (List.mem_cons_of_mem _ hv)) hroots)

/-- A vertex is visited when it is first searched from, so that it may be repeated. -/
theorem of_distinct_roots (h : DepthFirst successors visited (distinct roots) order visited') :
    DepthFirst successors visited roots order visited' := by
  induction roots generalizing visited order with
  | nil => exact h
  | cons v roots ih =>
      have hrest : ∀ {visited order}, v ∈ visited →
          DepthFirst successors visited ((distinct roots).filter (· ≠ v)) order visited' →
          DepthFirst successors visited roots order visited' :=
        fun hv hroots => ih (of_filter_ne hv hroots)
      cases h with
      | seen hseen hroots => exact .seen hseen (hrest hseen hroots)
      | fresh hfresh hinner hroots =>
          exact .fresh hfresh hinner (hrest (hinner.visited_subset List.mem_cons_self) hroots)

/-- It is enough to look once at each successor. -/
theorem of_distinct
    (h : DepthFirst (fun v => distinct (successors v)) visited roots order visited') :
    DepthFirst successors visited roots order visited' := by
  induction h with
  | done => exact .done
  | seen hseen _ ih => exact .seen hseen ih
  | fresh hfresh _ _ ihinner ihroots => exact .fresh hfresh (of_distinct_roots ihinner) ihroots

end DepthFirst

/-! ## The search with a stack -/

namespace Traversal

/-- What is still found from a stack: from the pending successors of the vertex on top, then that
vertex, and so on down the stack. -/
inductive Unwinds (successors : α → List α) :
    (visited : List α) → (stack : List (Frame α)) → (order visited' : List α) → Prop
  | done {visited : List α} : Unwinds successors visited [] [] visited
  | frame {visited pending inner between order visited' : List α} {v : α}
      {below : List (Frame α)} : DepthFirst successors visited pending inner between →
      Unwinds successors between below order visited' →
      Unwinds successors visited (⟨v, pending⟩ :: below) (inner ++ v :: order) visited'

variable {t u : Traversal α}

/-- What is finished after a step and what is found then was found before it, or finished. -/
theorem Step.exists_unwinds (hstep : Step successors t u) {order visited' : List α}
    (h : Unwinds successors u.visited u.stack order visited') :
    ∃ found, Unwinds successors t.visited t.stack found visited' ∧
      u.finished.reverse ++ order = t.finished.reverse ++ found := by
  cases hstep with
  | stopped => exact ⟨order, h, rfl⟩
  | @finish v below hstack =>
      refine ⟨v :: order, ?_, by simp⟩
      rw [hstack]
      exact .frame .done h
  | look hstack hvisited =>
      refine ⟨order, ?_, rfl⟩
      rw [hstack]
      cases h with
      | frame hpending hbelow => exact .frame (.seen hvisited hpending) hbelow
  | @visit v next pending below hstack hnew =>
      refine ⟨order, ?_, rfl⟩
      rw [hstack]
      -- the new vertex is on top, and the one that led to it is below
      cases h with
      | frame hinner hrest =>
          cases hrest with
          | @frame _ _ others _ _ _ _ _ hpending hbelow =>
              have hfound := Unwinds.frame (v := v) (.fresh hnew hinner hpending) hbelow
              simpa using hfound

variable [DecidableEq α]

/-- A run that empties the stack has found everything that was to be found from it. -/
theorem exists_unwinds_run {steps : Nat} (hstack : (t.run successors steps).stack = []) :
    ∃ found, Unwinds successors t.visited t.stack found (t.run successors steps).visited ∧
      (t.run successors steps).finished.reverse = t.finished.reverse ++ found := by
  induction steps generalizing t with
  | zero =>
      have hempty : t.stack = [] := hstack
      refine ⟨[], ?_, (List.append_nil _).symm⟩
      rw [hempty]
      exact .done
  | succ steps ih =>
      unfold run at hstack ⊢
      by_cases hempty : t.stack.isEmpty
      · refine ⟨[], ?_, ?_⟩
        · rw [if_pos hempty, List.isEmpty_iff.1 hempty]
          exact .done
        · rw [if_pos hempty, List.append_nil]
      · rw [if_neg hempty] at hstack ⊢
        obtain ⟨later, hunwinds, hfinished⟩ := ih hstack
        obtain ⟨found, hfound, heq⟩ := (step_cases successors t).exists_unwinds hunwinds
        exact ⟨found, hfound, hfinished.trans heq⟩

/-- The traversal from one vertex finds what the search from it finds. -/
theorem exists_depthFirst_explore {steps : Nat} {root : α} (hstack : t.stack = [])
    (hstop : (t.explore successors steps root).stack = []) :
    ∃ found, DepthFirst successors t.visited [root] found
        (t.explore successors steps root).visited ∧
      (t.explore successors steps root).finished.reverse = t.finished.reverse ++ found := by
  unfold explore at hstop ⊢
  by_cases hvisited : root ∈ t.visited
  · rw [if_pos hvisited]
    exact ⟨[], .seen hvisited .done, (List.append_nil _).symm⟩
  · rw [if_neg hvisited] at hstop ⊢
    obtain ⟨found, hfound, hfinished⟩ := exists_unwinds_run hstop
    have hroot : (t.visit successors root).stack = [⟨root, successors root⟩] := by
      rw [visit, hstack]
    rw [hroot] at hfound
    cases hfound with
    | frame hinner hnone =>
        cases hnone
        exact ⟨_, .fresh hvisited hinner .done, hfinished⟩

variable {vertices : List α}

theorem exists_depthFirst_foldl (hedges : ∀ v ∈ vertices, ∀ w ∈ successors v, w ∈ vertices)
    {roots : List α} (hroots : roots ⊆ vertices) (h : Sound vertices successors t)
    (hstack : t.stack = []) :
    let u := roots.foldl (explore successors (traversalSteps vertices successors)) t
    ∃ found, DepthFirst successors t.visited roots found u.visited ∧
      u.finished.reverse = t.finished.reverse ++ found := by
  induction roots generalizing t with
  | nil => exact ⟨[], .done, (List.append_nil _).symm⟩
  | cons root roots ih =>
      obtain ⟨hroot, hroots⟩ := List.cons_subset.1 hroots
      obtain ⟨hsound, hempty, -⟩ := h.explore hedges hroot hstack
      obtain ⟨first, hfirst, hfinished⟩ := exists_depthFirst_explore hstack hempty
      obtain ⟨others, hothers, hall⟩ := ih hroots hsound hempty
      refine ⟨first ++ others, hfirst.append hothers, ?_⟩
      rw [List.foldl_cons, hall, hfinished, List.append_assoc]

end Traversal

/-- The postorder of a graph lists what the search from its vertices finds. -/
theorem depthFirst_postorder [DecidableEq α] {vertices : List α}
    (hedges : ∀ v ∈ vertices, ∀ w ∈ successors v, w ∈ vertices) :
    ∃ visited, DepthFirst successors [] vertices (postorder vertices successors) visited := by
  obtain ⟨found, hfound, hfinished⟩ := Traversal.exists_depthFirst_foldl hedges
    (List.Subset.refl vertices) Traversal.Sound.start rfl
  have horder : postorder vertices successors = found := hfinished
  rw [horder]
  exact ⟨_, hfound⟩

/-! ## Modules -/

section Modules

variable {modules others : List Module} {m : Module}

/-- No module behind it has the same identifier. -/
def IsLast (modules : List Module) (m : Module) : Prop :=
  ∃ before after, modules = before ++ m :: after ∧ ∀ other ∈ after, other.id ≠ m.id

theorem lastWithId?_eq_some_iff_isLast {id : ModuleId} :
    lastWithId? modules id = some m ↔ IsLast modules m ∧ m.id = id := by
  rw [lastWithId?, List.find?_eq_some_iff_append, decide_eq_true_eq, and_comm]
  apply and_congr_left
  rintro rfl
  constructor
  · rintro ⟨after, before, heq, hafter⟩
    refine ⟨before.reverse, after.reverse, ?_, fun other hother => ?_⟩
    · rw [← List.reverse_inj, heq]
      simp
    · simpa using hafter other (List.mem_reverse.1 hother)
  · rintro ⟨before, after, rfl, hafter⟩
    refine ⟨after.reverse, before.reverse, by simp, fun other hother => ?_⟩
    simpa using hafter other (List.mem_reverse.1 hother)

/-- The modules of the list that the last module with an identifier requires, in the order of its
statements. -/
def requirements (modules : List Module) (id : ModuleId) : List ModuleId :=
  match lastWithId? modules id with
  | none => []
  | some m => m.required.filter (· ∈ modules.map (·.id))

theorem mem_identifiers_iff (modules : List Module) (id : ModuleId) :
    id ∈ identifiers modules ↔ id ∈ modules.map (·.id) := by
  rw [identifiers, (sorted_perm _ _).mem_iff, mem_distinct]

theorem requiredAmong_eq (modules : List Module) :
    requiredAmong (identifiers modules) modules = fun id => distinct (requirements modules id) := by
  funext id
  unfold requiredAmong requirements
  cases lastWithId? modules id with
  | none => rfl
  | some m =>
      apply congrArg distinct
      apply List.filter_congr
      intro target _
      rw [List.contains_eq_mem, decide_eq_decide]
      exact mem_identifiers_iff modules target

theorem identifiers_pairwise (modules : List Module) :
    (identifiers modules).Pairwise fun a b => a.precedes b := by
  have hapart : ((distinct (modules.map (·.id))).map ModuleId.rank).Nodup :=
    (distinct_nodup _).map ModuleId.rank_injective
  have hsorted := sorted_pairwise_lt ModuleId.precedes_iff_rank_lt hapart
  exact hsorted.imp fun {a b} hlt => (ModuleId.precedes_iff_rank_lt a b).2 hlt

theorem mem_identifiers_of_requiredAmong (modules : List Module) :
    ∀ v ∈ identifiers modules, ∀ w ∈ requiredAmong (identifiers modules) modules v,
      w ∈ identifiers modules :=
  fun v _ => requiredAmong_subset_ids (identifiers modules) v

/-- The modules in load order stand under the identifiers in the postorder. -/
theorem forall₂_loadOrder (modules : List Module) :
    List.Forall₂ (fun id m => lastWithId? modules id = some m)
        (postorder (identifiers modules) (requiredAmong (identifiers modules) modules))
        (loadOrder modules) ∧
      (postorder (identifiers modules) (requiredAmong (identifiers modules) modules)).Perm
        (identifiers modules) := by
  have hperm := postorder_perm (nodup_identifiers modules)
    (mem_identifiers_of_requiredAmong modules)
  exact ⟨forall₂_filterMap_lastWithId? hperm.subset, hperm⟩

/-- Each identifier of the list is put in order once, with the last module that has it. The order is
that of the search along the requires which begins with the identifiers in their own order, and it
depends on no other modules than the last ones. -/
theorem loadOrder_canonical (modules : List Module) :
    ((loadOrder modules).map (·.id)).Perm (identifiers modules) ∧
      (identifiers modules).Pairwise (fun a b => a.precedes b) ∧
      (∀ id, id ∈ identifiers modules ↔ id ∈ modules.map (·.id)) ∧
      (∀ m ∈ loadOrder modules, IsLast modules m) ∧
      (∀ order, (∃ visited,
          DepthFirst (requirements modules) [] (identifiers modules) order visited) ↔
        order = (loadOrder modules).map (·.id)) ∧
      ∀ others, (∀ m, IsLast modules m ↔ IsLast others m) →
        loadOrder modules = loadOrder others := by
  obtain ⟨hloaded, hperm⟩ := forall₂_loadOrder modules
  -- The modules are loaded in the postorder of their identifiers, and that is what a depth-first
  -- search finishes with.
  have hids : (loadOrder modules).map (·.id) =
      postorder (identifiers modules) (requiredAmong (identifiers modules) modules) :=
    forall₂_eq_map_iff.1 (hloaded.flip.imp fun _ _ h => id_of_lastWithId? h)
  have hsearch : ∃ visited, DepthFirst (requirements modules) [] (identifiers modules)
      ((loadOrder modules).map (·.id)) visited := by
    obtain ⟨visited, hvisited⟩ := depthFirst_postorder
      (mem_identifiers_of_requiredAmong modules)
    rw [← hids, requiredAmong_eq] at hvisited
    exact ⟨visited, hvisited.of_distinct⟩
  refine ⟨hids ▸ hperm, identifiers_pairwise modules, mem_identifiers_iff modules, ?_, ?_, ?_⟩
  · intro m hm
    obtain ⟨id, -, hlast⟩ := List.mem_filterMap.1 hm
    exact (lastWithId?_eq_some_iff_isLast.1 hlast).1
  · intro order
    obtain ⟨visited, hvisited⟩ := hsearch
    constructor
    · rintro ⟨_, horder⟩
      exact (horder.unique hvisited).1
    · rintro rfl
      exact ⟨visited, hvisited⟩
  · intro others hsame
    -- The order reads the modules through the last one with an identifier only.
    apply loadOrder_congr
    intro id
    apply Option.ext
    intro m
    rw [lastWithId?_eq_some_iff_isLast, lastWithId?_eq_some_iff_isLast, hsame]

end Modules

end ModuleLinker
