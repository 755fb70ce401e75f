/-
# ModuleLinker.Proofs.Postorder -- what a depth-first traversal finishes, and when

`Sound` is what every step of a traversal keeps (`Sound.step`): the vertices on the stack form a
path whose latest vertex is on top, they are the visited vertices that are not finished, and a
successor that a vertex on the stack has already looked at was visited. When a vertex is finished,
each of its successors is therefore finished too, or still on the stack; and what is on the stack
reaches the vertex on top. This is `Ordered`: only a way back excuses a vertex that comes before one
of its successors.

Every step uses up one of the `remaining` steps, so that the bound on their number never stops a
traversal, and `postorder` has all vertices in it (`postorder_perm`, `postorder_ordered`).
-/

import Mathlib.Algebra.GroupWithZero.Nat
import Mathlib.Data.List.Chain
import Mathlib.Logic.Relation
import ModuleLinker.Link.LoadOrder

namespace ModuleLinker

open Relation

variable {α : Type} {successors : α → List α} {vertices : List α}

/-- One can go from the first vertex to the second along the edges. -/
abbrev Leads (successors : α → List α) : α → α → Prop := ReflTransGen fun v w => w ∈ successors v

/-- A list of vertices, the latest first, in which each vertex has its successors behind it, those
excepted that lead back to it. -/
def Ordered (successors : α → List α) : List α → Prop
  | [] => True
  | v :: earlier => (∀ w ∈ successors v, w ∈ earlier ∨ Leads successors w v) ∧
      Ordered successors earlier

theorem Ordered.of_append {later earlier : List α} {v : α}
    (h : Ordered successors (later ++ v :: earlier)) :
    ∀ w ∈ successors v, w ∈ earlier ∨ Leads successors w v := by
  induction later with
  | nil => exact h.1
  | cons _ _ ih => exact ih h.2

/-- On a path whose latest vertex is in front, every vertex leads to that one. -/
theorem leads_of_isChain {v : α} {below : List α}
    (h : (v :: below).IsChain fun v w => v ∈ successors w) :
    ∀ w ∈ v :: below, Leads successors w v := by
  induction below generalizing v with
  | nil =>
      intro w hw
      obtain rfl := List.mem_singleton.1 hw
      exact .refl
  | cons u below ih =>
      obtain ⟨hedge, hbelow⟩ := List.isChain_cons_cons.1 h
      intro w hw
      rcases List.mem_cons.1 hw with rfl | hw
      · exact .refl
      · exact (ih hbelow w hw).tail hedge

namespace Traversal

variable {t : Traversal α}

/-- The vertices on the stack, the latest first. -/
def path (t : Traversal α) : List α := t.stack.map (·.vertex)

/-- What holds of a traversal at every step. -/
structure Sound (vertices : List α) (successors : α → List α) (t : Traversal α) : Prop where
  nodup : (t.path ++ t.finished).Nodup
  visited_iff : ∀ v, v ∈ t.visited ↔ v ∈ t.path ∨ v ∈ t.finished
  within : ∀ v ∈ t.visited, v ∈ vertices
  isChain : t.path.IsChain fun v w => v ∈ successors w
  looked : ∀ frame ∈ t.stack, ∃ before, successors frame.vertex = before ++ frame.pending ∧
    ∀ w ∈ before, w ∈ t.visited
  ordered : Ordered successors t.finished

/-- A traversal that has not begun. -/
theorem Sound.start : Sound vertices successors ⟨[], [], []⟩ where
  nodup := List.nodup_nil
  visited_iff _ := by simp [path]
  within _ h := absurd h List.not_mem_nil
  isChain := .nil
  looked _ h := absurd h List.not_mem_nil
  ordered := trivial

/-- Visiting a vertex that comes next on the path. -/
theorem Sound.visit (h : Sound vertices successors t) {v : α} (hv : v ∈ vertices)
    (hnew : v ∉ t.visited) (hnext : ∀ w ∈ t.path.head?, v ∈ successors w) :
    Sound vertices successors (t.visit successors v) where
  nodup := by
    have hfresh : v ∉ t.path ++ t.finished := by rwa [List.mem_append, ← h.visited_iff]
    exact List.nodup_cons.2 ⟨hfresh, h.nodup⟩
  visited_iff w := by
    simp only [Traversal.visit, path, List.map_cons, List.mem_cons, h.visited_iff w, or_assoc]
  within w hw := by
    rcases List.mem_cons.1 hw with rfl | hw
    · exact hv
    · exact h.within w hw
  isChain := List.isChain_cons.2 ⟨hnext, h.isChain⟩
  looked frame hframe := by
    rcases List.mem_cons.1 hframe with rfl | hframe
    · exact ⟨[], rfl, fun _ hw => absurd hw List.not_mem_nil⟩
    · obtain ⟨before, heq, hbefore⟩ := h.looked frame hframe
      exact ⟨before, heq, fun w hw => List.mem_cons_of_mem v (hbefore w hw)⟩
  ordered := h.ordered

/-- Finishing the vertex on top, all of whose successors were looked at. -/
theorem Sound.finish (h : Sound vertices successors t) {v : α} {below : List (Frame α)}
    (hstack : t.stack = ⟨v, []⟩ :: below) :
    Sound vertices successors { t with stack := below, finished := v :: t.finished } := by
  have hpath : t.path = v :: below.map (·.vertex) := by rw [path, hstack, List.map_cons]
  have hchain := h.isChain
  rw [hpath] at hchain
  have hnodup := h.nodup
  rw [hpath] at hnodup
  refine ⟨List.perm_middle.nodup_iff.2 hnodup, fun w => ?_, h.within, hchain.tail, ?_, ?_,
    h.ordered⟩
  · rw [h.visited_iff, hpath, List.mem_cons, path, List.mem_cons]
    tauto
  · intro frame hframe
    exact h.looked frame (by rw [hstack]; exact List.mem_cons_of_mem _ hframe)
  · intro w hw
    obtain ⟨before, heq, hbefore⟩ := h.looked ⟨v, []⟩ (by rw [hstack]; exact List.mem_cons_self)
    have hlooked : w ∈ before := by simpa [heq] using hw
    rcases (h.visited_iff w).1 (hbefore w hlooked) with hw | hw
    · rw [hpath] at hw
      exact .inr (leads_of_isChain hchain w hw)
    · exact .inl hw

/-- Passing over the next successor of a vertex on the stack, which was visited. -/
theorem Sound.look (h : Sound vertices successors t) {v next : α} {pending : List α}
    (above : List (Frame α)) {below : List (Frame α)}
    (hstack : t.stack = above ++ ⟨v, next :: pending⟩ :: below)
    (hvisited : next ∈ t.visited) :
    Sound vertices successors { t with stack := above ++ ⟨v, pending⟩ :: below } := by
  have hpath : path { t with stack := above ++ ⟨v, pending⟩ :: below } = t.path := by
    simp [path, hstack]
  refine ⟨hpath ▸ h.nodup, hpath ▸ h.visited_iff, h.within, hpath ▸ h.isChain, ?_, h.ordered⟩
  intro frame hframe
  by_cases hsame : frame = ⟨v, pending⟩
  · obtain ⟨before, heq, hbefore⟩ := h.looked ⟨v, next :: pending⟩ (by simp [hstack])
    refine ⟨before ++ [next], by simpa [hsame] using heq, fun w hw => ?_⟩
    rcases List.mem_append.1 hw with hw | hw
    · exact hbefore w hw
    · exact List.mem_singleton.1 hw ▸ hvisited
  · refine h.looked frame ?_
    have hother : frame ∈ above ∨ frame ∈ below := by simpa [hsame] using hframe
    rw [hstack]
    rcases hother with hframe | hframe
    · exact List.mem_append_left _ hframe
    · exact List.mem_append_right _ (List.mem_cons_of_mem _ hframe)

/-! ## Steps -/

/-- What a step does. -/
inductive Step (successors : α → List α) (t : Traversal α) : Traversal α → Prop
  | stopped : t.stack = [] → Step successors t t
  | finish {v : α} {below : List (Frame α)} : t.stack = ⟨v, []⟩ :: below →
      Step successors t { t with stack := below, finished := v :: t.finished }
  | look {v next : α} {pending : List α} {below : List (Frame α)} :
      t.stack = ⟨v, next :: pending⟩ :: below → next ∈ t.visited →
      Step successors t { t with stack := ⟨v, pending⟩ :: below }
  | visit {v next : α} {pending : List α} {below : List (Frame α)} :
      t.stack = ⟨v, next :: pending⟩ :: below → next ∉ t.visited →
      Step successors t (visit successors { t with stack := ⟨v, pending⟩ :: below } next)

variable [DecidableEq α] in
theorem step_cases (successors : α → List α) (t : Traversal α) :
    Step successors t (t.step successors) := by
  unfold step
  split
  · next hstack => exact .stopped hstack
  · next hstack => exact .finish hstack
  · next hstack =>
    dsimp only
    split
    · next hvisited => exact .look hstack hvisited
    · next hnew => exact .visit hstack hnew

/-- Every step keeps a traversal sound. -/
theorem Sound.step (h : Sound vertices successors t)
    (hedges : ∀ v ∈ vertices, ∀ w ∈ successors v, w ∈ vertices) {u : Traversal α}
    (hstep : Step successors t u) : Sound vertices successors u := by
  cases hstep with
  | stopped => exact h
  | finish hstack => exact h.finish hstack
  | look hstack hvisited => exact h.look [] hstack hvisited
  | @visit v next pending below hstack hnew =>
      -- The new vertex goes on top before the one below passes over it.
      have hpath : t.path = v :: below.map (·.vertex) := by rw [path, hstack, List.map_cons]
      have hv : v ∈ vertices :=
        h.within v ((h.visited_iff v).2 (.inl (hpath ▸ List.mem_cons_self)))
      have hedge : next ∈ successors v := by
        obtain ⟨before, heq, -⟩ := h.looked ⟨v, next :: pending⟩ (hstack ▸ List.mem_cons_self)
        rw [heq]
        exact List.mem_append_right _ List.mem_cons_self
      have hvisit : Sound vertices successors (t.visit successors next) :=
        h.visit (hedges v hv next hedge) hnew (by simpa [hpath] using hedge)
      refine hvisit.look [⟨next, successors next⟩] ?_ List.mem_cons_self
      rw [Traversal.visit, hstack, List.singleton_append]

theorem Step.visited_subset {u : Traversal α} (hstep : Step successors t u) :
    t.visited ⊆ u.visited := by
  cases hstep with
  | visit => exact List.subset_cons_self _ _
  | _ => exact List.Subset.refl _

/-! ## The number of steps -/

theorem traversalSteps_append (vs ws : List α) :
    traversalSteps (vs ++ ws) successors =
      traversalSteps vs successors + traversalSteps ws successors := by
  induction vs with
  | nil => simp [traversalSteps]
  | cons v vs ih =>
      simp only [traversalSteps, List.cons_append, List.foldr_cons] at ih ⊢
      omega

theorem traversalSteps_le_of_sublist {vs ws : List α} (h : vs.Sublist ws) :
    traversalSteps vs successors ≤ traversalSteps ws successors := by
  induction h with
  | slnil => exact Nat.le_refl _
  | cons w _ ih => exact Nat.le_trans ih (Nat.le_add_left _ _)
  | cons_cons w _ ih => exact Nat.add_le_add_left ih _

variable [DecidableEq α]

theorem filter_notMem_cons (vertices visited : List α) (v : α) :
    vertices.filter (· ∉ v :: visited) = (vertices.filter (· ∉ visited)).filter (· ≠ v) := by
  rw [List.filter_filter]
  exact List.filter_congr fun w _ => by simp

/-- A visited vertex is no longer good for any step. -/
theorem traversalSteps_filter_visited (successors : α → List α) {v : α} {visited : List α}
    (hv : v ∈ vertices) (hnew : v ∉ visited) :
    traversalSteps (vertices.filter (· ∉ v :: visited)) successors + (successors v).length + 2 ≤
      traversalSteps (vertices.filter (· ∉ visited)) successors := by
  have hmem : v ∈ vertices.filter (· ∉ visited) := by simpa using ⟨hv, hnew⟩
  obtain ⟨front, back, heq⟩ := List.append_of_mem hmem
  have hfilter : vertices.filter (· ∉ v :: visited) =
      front.filter (· ≠ v) ++ back.filter (· ≠ v) := by
    rw [filter_notMem_cons, heq, List.filter_append, List.filter_cons_of_neg (by simp)]
  have hfront : traversalSteps (front.filter (· ≠ v)) successors ≤
    traversalSteps front successors := traversalSteps_le_of_sublist List.filter_sublist
  have hback : traversalSteps (back.filter (· ≠ v)) successors ≤
    traversalSteps back successors := traversalSteps_le_of_sublist List.filter_sublist
  have hv : traversalSteps (v :: back) successors =
    (successors v).length + 2 + traversalSteps back successors := rfl
  rw [hfilter, heq, traversalSteps_append, traversalSteps_append, hv]
  omega

/-- The steps that a traversal can still take: those that the vertices not visited are good for, and
for every vertex on the stack the successors to be looked at and its end. -/
def remaining (vertices : List α) (successors : α → List α) (t : Traversal α) : Nat :=
  traversalSteps (vertices.filter (· ∉ t.visited)) successors +
    (t.stack.map fun frame => frame.pending.length + 1).sum

/-- Every step uses up one of the remaining ones. -/
theorem Sound.remaining_lt (h : Sound vertices successors t)
    (hedges : ∀ v ∈ vertices, ∀ w ∈ successors v, w ∈ vertices) (hstack : t.stack ≠ [])
    {u : Traversal α} (hstep : Step successors t u) :
    u.remaining vertices successors < t.remaining vertices successors := by
  have hu := h.step hedges hstep
  cases hstep with
  | stopped hempty => exact absurd hempty hstack
  | finish hstack =>
      simp only [remaining, hstack, List.map_cons, List.sum_cons]
      omega
  | look hstack =>
      simp only [remaining, hstack, List.map_cons, List.sum_cons, List.length_cons]
      omega
  | @visit v next pending below hstack hnew =>
      have hnext : next ∈ vertices := hu.within next List.mem_cons_self
      have hfewer := traversalSteps_filter_visited successors hnext hnew
      change traversalSteps (vertices.filter (· ∉ next :: t.visited)) successors + _ < _
      simp only [remaining, Traversal.visit, hstack, List.map_cons, List.sum_cons,
        List.length_cons]
      omega

/-! ## Runs -/

/-- The bound on the number of steps stops no traversal. -/
theorem Sound.run (hedges : ∀ v ∈ vertices, ∀ w ∈ successors v, w ∈ vertices) {steps : Nat}
    (h : Sound vertices successors t) (hsteps : t.remaining vertices successors ≤ steps) :
    Sound vertices successors (t.run successors steps) ∧ (t.run successors steps).stack = [] ∧
      t.visited ⊆ (t.run successors steps).visited := by
  induction steps generalizing t with
  | zero =>
      have hstack : t.stack = [] := by
        by_contra hstack
        have := h.remaining_lt hedges hstack (step_cases successors t)
        omega
      exact ⟨h, hstack, List.Subset.refl _⟩
  | succ steps ih =>
      unfold Traversal.run
      by_cases hstack : t.stack = []
      · rw [if_pos (by simp [hstack])]
        exact ⟨h, hstack, List.Subset.refl _⟩
      · rw [if_neg (by simpa using hstack)]
        have hstep := step_cases successors t
        have hlt := h.remaining_lt hedges hstack hstep
        obtain ⟨hsound, hempty, hsubset⟩ := ih (h.step hedges hstep) (by omega)
        exact ⟨hsound, hempty, List.Subset.trans hstep.visited_subset hsubset⟩

/-- From a vertex, everything that it leads to is finished. -/
theorem Sound.explore (hedges : ∀ v ∈ vertices, ∀ w ∈ successors v, w ∈ vertices) {root : α}
    (hroot : root ∈ vertices) (h : Sound vertices successors t) (hstack : t.stack = []) :
    let u := t.explore successors (traversalSteps vertices successors) root
    Sound vertices successors u ∧ u.stack = [] ∧ root :: t.visited ⊆ u.visited := by
  intro u
  by_cases hvisited : root ∈ t.visited
  · have hu : u = t := if_pos hvisited
    rw [hu]
    exact ⟨h, hstack, List.cons_subset.2 ⟨hvisited, List.Subset.refl _⟩⟩
  · have hu : u = (t.visit successors root).run successors (traversalSteps vertices successors) :=
      if_neg hvisited
    have hsound : Sound vertices successors (t.visit successors root) :=
      h.visit hroot hvisited (by simp [path, hstack])
    -- The fuel is counted for all vertices, and those not yet visited need no more.
    have hsteps : (t.visit successors root).remaining vertices successors ≤
        traversalSteps vertices successors := by
      have hfewer := traversalSteps_filter_visited successors hroot hvisited
      have hall : traversalSteps (vertices.filter (· ∉ t.visited)) successors ≤
        traversalSteps vertices successors := traversalSteps_le_of_sublist List.filter_sublist
      change traversalSteps (vertices.filter (· ∉ root :: t.visited)) successors + _ ≤ _
      simp only [Traversal.visit, hstack, List.map_cons, List.sum_cons, List.map_nil, List.sum_nil]
      omega
    rw [hu]
    exact hsound.run hedges hsteps

/-- The traversal from one vertex after the other. -/
theorem Sound.foldl_explore (hedges : ∀ v ∈ vertices, ∀ w ∈ successors v, w ∈ vertices)
    {roots : List α} (hroots : roots ⊆ vertices) (h : Sound vertices successors t)
    (hstack : t.stack = []) :
    let u := roots.foldl (Traversal.explore successors (traversalSteps vertices successors)) t
    Sound vertices successors u ∧ u.stack = [] ∧ t.visited ⊆ u.visited ∧ roots ⊆ u.visited := by
  induction roots generalizing t with
  | nil => exact ⟨h, hstack, List.Subset.refl _, List.nil_subset _⟩
  | cons root roots ih =>
      obtain ⟨hroot, hroots⟩ := List.cons_subset.1 hroots
      obtain ⟨hsound, hempty, hvisited⟩ := h.explore hedges hroot hstack
      obtain ⟨hsound, hempty, hlater, hall⟩ := ih hroots hsound hempty
      obtain ⟨hroot, hvisited⟩ := List.cons_subset.1 hvisited
      exact ⟨hsound, hempty, List.Subset.trans hvisited hlater,
        List.cons_subset.2 ⟨hlater hroot, hall⟩⟩

end Traversal

/-! ## The postorder -/

section Postorder

variable [DecidableEq α]

/-- How the traversal of all vertices ends. -/
theorem exists_sound_postorder (hedges : ∀ v ∈ vertices, ∀ w ∈ successors v, w ∈ vertices) :
    ∃ t : Traversal α, t.Sound vertices successors ∧ t.stack = [] ∧ vertices ⊆ t.visited ∧
      postorder vertices successors = t.finished.reverse := by
  obtain ⟨hsound, hempty, -, hall⟩ :=
    Traversal.Sound.start.foldl_explore hedges (List.Subset.refl vertices) rfl
  exact ⟨_, hsound, hempty, hall, rfl⟩

/-- Every vertex stands in the postorder once. -/
theorem postorder_perm (hvertices : vertices.Nodup)
    (hedges : ∀ v ∈ vertices, ∀ w ∈ successors v, w ∈ vertices) :
    (postorder vertices successors).Perm vertices := by
  obtain ⟨t, hsound, hempty, hall, heq⟩ := exists_sound_postorder hedges
  have hpath : t.path = [] := by rw [Traversal.path, hempty, List.map_nil]
  have hnodup : t.finished.Nodup := by simpa [hpath] using hsound.nodup
  have hmem : ∀ v, v ∈ t.finished ↔ v ∈ vertices := by
    intro v
    have hvisited : v ∈ t.visited ↔ v ∈ t.finished := by simpa [hpath] using hsound.visited_iff v
    exact ⟨fun hv => hsound.within v (hvisited.2 hv), fun hv => hvisited.1 (hall hv)⟩
  rw [heq]
  exact t.finished.reverse_perm.trans ((List.perm_ext_iff_of_nodup hnodup hvertices).2 hmem)

/-- A successor stands behind a vertex in the postorder only if it leads back to that vertex. -/
theorem postorder_ordered (hedges : ∀ v ∈ vertices, ∀ w ∈ successors v, w ∈ vertices) {v : α}
    {before after : List α} (h : postorder vertices successors = before ++ v :: after) :
    ∀ w ∈ successors v, w ∈ before ∨ Leads successors w v := by
  obtain ⟨t, hsound, -, -, heq⟩ := exists_sound_postorder hedges
  have hfinished : t.finished = after.reverse ++ v :: before.reverse := by
    rw [← List.reverse_inj, ← heq, h]
    simp
  have hordered := hsound.ordered
  rw [hfinished] at hordered
  simpa using hordered.of_append

end Postorder

end ModuleLinker
