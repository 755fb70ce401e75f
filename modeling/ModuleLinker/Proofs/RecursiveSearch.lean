/-
# ModuleLinker.Proofs.RecursiveSearch -- the postorder of an adjacency list

On a graph whose vertices are numbers the postorder is searched for in a second way, by a function
that calls itself on the successors of a vertex and hands on the vertices visited so far
(`AdjacencyList.search`). A visited vertex stays visited, so that every call from a new vertex has
fewer vertices left; this is what the recursion ends by, and the outcome carries the proof of it.
The traversal with its stack lists the same vertices in the same order (`postorder_exact`).

While the traversal explores from one root, the vertices on its stack are a path from that root:
the root stays at the bottom until it is finished (`Traversal.BottomIs`), and above it each vertex
was reached by an edge from the one below.
-/

import ModuleLinker.Proofs.DepthFirst

namespace ModuleLinker

/-! ## Graphs of numbers -/

/-- A graph on the numbers below the number of its rows. Each row lists where the edges of its
vertex lead. -/
structure AdjacencyList where
  rows : List (List Nat)
  inRange : ∀ row ∈ rows, ∀ target ∈ row, target < rows.length

namespace AdjacencyList

variable (g : AdjacencyList)

def vertices : List Nat := List.range g.rows.length

def successors (v : Nat) : List Nat := (g.rows[v]?).getD []

theorem mem_vertices {v : Nat} : v ∈ g.vertices ↔ v < g.rows.length := List.mem_range

theorem nodup_vertices : g.vertices.Nodup := List.nodup_range

theorem successors_eq {v : Nat} (h : v < g.rows.length) : g.successors v = g.rows[v] := by
  rw [successors, List.getElem?_eq_getElem h, Option.getD_some]

theorem successors_subset (v : Nat) : g.successors v ⊆ g.vertices := by
  intro w hw
  rw [mem_vertices]
  by_cases hv : v < g.rows.length
  · rw [successors_eq g hv] at hw
    exact g.inRange _ (List.getElem_mem hv) w hw
  · rw [successors, List.getElem?_eq_none (Nat.le_of_not_lt hv)] at hw
    cases hw

/-! ## The search by recursion -/

/-- How many vertices were not visited. -/
def unvisited (visited : List Nat) : Nat := (g.vertices.filter (· ∉ visited)).length

variable {g}

theorem unvisited_le {visited later : List Nat} (h : visited ⊆ later) :
    g.unvisited later ≤ g.unvisited visited := by
  apply List.Sublist.length_le
  apply List.monotone_filter_right
  intro v hv
  simp only [decide_eq_true_eq] at hv ⊢
  exact fun hmem => hv (h hmem)

theorem unvisited_cons_lt {visited : List Nat} {v : Nat} (hv : v ∈ g.vertices)
    (hnew : v ∉ visited) : g.unvisited (v :: visited) < g.unvisited visited := by
  rw [unvisited, Traversal.filter_notMem_cons]
  apply List.length_filter_lt_length_iff_exists.2
  exact ⟨v, List.mem_filter.2 ⟨hv, by simpa using hnew⟩, by simp⟩

variable (g)

/-- What a search finds, and what is visited when it ends. -/
structure Found (visited : List Nat) where
  order : List Nat
  reached : List Nat
  subset : visited ⊆ reached

/-- The search from some vertices, one after the other: from a new one first along its edges, and
then the vertex is listed. -/
def search (visited : List Nat) : (roots : List Nat) → roots ⊆ g.vertices → Found visited
  | [], _ => ⟨[], visited, List.Subset.refl _⟩
  | v :: roots, h =>
    if v ∈ visited then search visited roots (List.cons_subset.1 h).2
    else
      let inner := search (v :: visited) (g.successors v) (g.successors_subset v)
      let rest := search inner.reached roots (List.cons_subset.1 h).2
      ⟨inner.order ++ v :: rest.order, rest.reached,
        fun _ hw => rest.subset (inner.subset (List.mem_cons_of_mem v hw))⟩
-- A root that was visited shortens the list, a new one leaves fewer vertices. What the inner search
-- has visited is no less than what it was given, which is why it hands on a proof of that.
termination_by roots => (g.unvisited visited, roots.length)
decreasing_by
  · exact Prod.Lex.right _ (Nat.lt_succ_self _)
  · exact Prod.Lex.left _ _ (unvisited_cons_lt (List.cons_subset.1 h).1 ‹v ∉ visited›)
  · exact Prod.Lex.left _ _ (Nat.lt_of_le_of_lt (unvisited_le inner.subset)
      (unvisited_cons_lt (List.cons_subset.1 h).1 ‹v ∉ visited›))

variable {g}

/-- The search is the one that the relation describes. -/
theorem depthFirst_search (visited roots : List Nat) (h : roots ⊆ g.vertices) :
    DepthFirst g.successors visited roots (g.search visited roots h).order
      (g.search visited roots h).reached := by
  fun_induction search with
  | case1 => exact .done
  | case2 visited v roots _ hv _ ih => exact .seen hv ih
  | case3 visited v roots _ hv _ inner rest ihinner ihrest => exact .fresh hv ihinner ihrest

theorem postorder_eq_search :
    postorder g.vertices g.successors = (g.search [] g.vertices (List.Subset.refl _)).order := by
  obtain ⟨visited, hfound⟩ :=
    depthFirst_postorder (fun v (_ : v ∈ g.vertices) => g.successors_subset v)
  exact (hfound.unique (depthFirst_search [] g.vertices (List.Subset.refl _))).1

/-! ## Numbers as places -/

theorem holdsAt_vertices {place v : Nat} :
    HoldsAt g.vertices place v ↔ place = v ∧ v < g.rows.length := by
  unfold HoldsAt vertices
  constructor
  · intro h
    obtain ⟨hplace, rfl⟩ := List.getElem?_eq_some_iff.1 h
    rw [List.getElem_range]
    exact ⟨rfl, by simpa using hplace⟩
  · rintro ⟨rfl, hplace⟩
    exact List.getElem?_range hplace

theorem mirrors_rows : Mirrors g.vertices g.successors g.rows where
  nodup := g.nodup_vertices
  targets := by
    refine List.forall₂_iff_get.2 ⟨List.length_range.symm, fun place hplace hvertex => ?_⟩
    have hsame : g.vertices.get ⟨place, hvertex⟩ = place := List.getElem_range _
    rw [hsame, successors_eq g hplace]
    apply List.forall₂_same.2
    intro target htarget
    exact holdsAt_vertices.2 ⟨rfl, g.inRange _ (List.getElem_mem hplace) target htarget⟩

/-- The walk on the rows never leaves them, and it goes along with the traversal. -/
theorem numberedPostorder_rows :
    numberedPostorder g.rows = some (postorder g.vertices g.successors) := by
  obtain ⟨order, horder, hplaces⟩ := (mirrors_rows (g := g)).exists_postorder
  have hsame : List.Forall₂ (· = ·) order (postorder g.vertices g.successors) :=
    hplaces.imp fun _ _ h => (holdsAt_vertices.1 h).1
  rw [List.forall₂_eq_eq_eq] at hsame
  rw [horder, hsame]

end AdjacencyList

/-! ## The stack as a path -/

namespace Traversal

variable {α : Type} {successors : α → List α} {vertices : List α} {root : α} {t u : Traversal α}

/-- If there is a vertex on the stack, the root is at its bottom. -/
def BottomIs (root : α) (t : Traversal α) : Prop := ∀ v ∈ t.path.getLast?, v = root

/-- The root stays where it is until it is finished as the last one. -/
theorem BottomIs.step (h : BottomIs root t) (hstep : Step successors t u) : BottomIs root u := by
  cases hstep with
  | stopped => exact h
  | @finish v below hstack =>
      have hpath : t.path = v :: below.map (·.vertex) := by rw [path, hstack, List.map_cons]
      intro w hw
      cases hbelow : below.map (·.vertex) with
      | nil =>
          have hnone : (below.map (·.vertex)).getLast? = some w := hw
          rw [hbelow] at hnone
          cases hnone
      | cons first others =>
          apply h
          rw [hpath, hbelow, List.getLast?_cons_cons, ← hbelow]
          exact hw
  | @look v next pending below hstack =>
      have hpath : path { t with stack := ⟨v, pending⟩ :: below } = t.path := by
        simp [path, hstack]
      intro w hw
      exact h w (hpath ▸ hw)
  | @visit v next pending below hstack =>
      -- The new vertex lies on top of `v`, and the bottom is the same.
      have hpath : t.path = v :: below.map (·.vertex) := by rw [path, hstack, List.map_cons]
      intro w hw
      apply h
      rw [hpath, ← List.getLast?_cons_cons (a := next)]
      exact hw

/-- The vertices on the stack, seen from the bottom, are a path from the root that meets no vertex
twice, and they are the visited vertices that are not finished. -/
structure IsPathFrom (successors : α → List α) (root : α) (t : Traversal α) : Prop where
  starts : ∀ v ∈ t.path.reverse.head?, v = root
  isChain : t.path.reverse.IsChain fun v w => w ∈ successors v
  nodup : t.path.Nodup
  mem_iff : ∀ v, v ∈ t.path ↔ v ∈ t.visited ∧ v ∉ t.finished

theorem Sound.isPathFrom (h : Sound vertices successors t) (hbottom : BottomIs root t) :
    IsPathFrom successors root t where
  starts := by
    rw [List.head?_reverse]
    exact hbottom
  isChain := List.isChain_reverse.2 h.isChain
  nodup := (List.nodup_append.1 h.nodup).1
  mem_iff v := by
    have hapart : v ∈ t.path → v ∉ t.finished := by
      intro hpath hfinished
      exact (List.nodup_append.1 h.nodup).2.2 v hpath v hfinished rfl
    rw [h.visited_iff]
    tauto

variable [DecidableEq α]

/-- What every step keeps holds after any number of steps. -/
theorem run_induction {P : Traversal α → Prop} (hstep : ∀ {t u}, Step successors t u → P t → P u)
    (h : P t) (steps : Nat) : P (t.run successors steps) := by
  induction steps generalizing t with
  | zero => exact h
  | succ steps ih =>
      unfold run
      split
      · exact h
      · exact ih (hstep (step_cases successors t) h)

/-- While a root is explored, the stack is a path from it after any number of steps, and in the end
it is empty. -/
theorem Sound.isPathFrom_run (hedges : ∀ v ∈ vertices, ∀ w ∈ successors v, w ∈ vertices)
    (hroot : root ∈ vertices) (h : Sound vertices successors t) (hstack : t.stack = [])
    (hnew : root ∉ t.visited) (steps : Nat) :
    IsPathFrom successors root ((t.visit successors root).run successors steps) := by
  have hsound : Sound vertices successors (t.visit successors root) :=
    h.visit hroot hnew (by simp [path, hstack])
  have hbottom : BottomIs root (t.visit successors root) := by
    have hpath : (t.visit successors root).path = [root] := by
      rw [path, Traversal.visit, hstack]
      rfl
    rw [BottomIs, hpath]
    simp
  exact (run_induction (fun hstep hsound => hsound.step hedges hstep) hsound steps).isPathFrom
    (run_induction (fun hstep hbottom => hbottom.step hstep) hbottom steps)

end Traversal

/-! ## The whole postorder -/

namespace AdjacencyList

variable (g : AdjacencyList)

/-- The number of steps that bounds the exploration from each root. -/
def steps : Nat := traversalSteps g.vertices g.successors

/-- The traversal when everything below a root was explored. -/
def upTo (root : Nat) : Traversal Nat :=
  (List.range root).foldl (Traversal.explore g.successors g.steps) ⟨[], [], []⟩

theorem postorder_eq_upTo :
    postorder g.vertices g.successors = (g.upTo g.rows.length).finished.reverse := rfl

/-- Nothing is left on the stack between two roots. -/
theorem sound_upTo {root : Nat} (h : root ≤ g.rows.length) :
    (g.upTo root).Sound g.vertices g.successors ∧ (g.upTo root).stack = [] := by
  have hroots : List.range root ⊆ g.vertices := by
    intro v hv
    rw [mem_vertices]
    exact Nat.lt_of_lt_of_le (List.mem_range.1 hv) h
  obtain ⟨hsound, hempty, -⟩ := Traversal.Sound.start.foldl_explore
    (fun v (_ : v ∈ g.vertices) => g.successors_subset v) hroots rfl
  exact ⟨hsound, hempty⟩

/-- The postorder of an adjacency list, found by marks and a stack of numbers, is what the search by
recursion lists, and every vertex stands in it once. From each root that is new, the bounded number
of steps empties the stack, and up to there the stack is a path from the root that has on it what
was visited and is not finished. -/
theorem postorder_exact :
    numberedPostorder g.rows = some (postorder g.vertices g.successors) ∧
    postorder g.vertices g.successors = (g.search [] g.vertices (List.Subset.refl _)).order ∧
    (postorder g.vertices g.successors).Perm (List.range g.rows.length) ∧
    postorder g.vertices g.successors = (g.upTo g.rows.length).finished.reverse ∧
    ∀ root < g.rows.length, (g.upTo root).stack = [] ∧
      (root ∉ (g.upTo root).visited →
        (((g.upTo root).visit g.successors root).run g.successors g.steps).stack = [] ∧
        ∀ steps, Traversal.IsPathFrom g.successors root
          (((g.upTo root).visit g.successors root).run g.successors steps)) := by
  have hedges : ∀ v ∈ g.vertices, ∀ w ∈ g.successors v, w ∈ g.vertices :=
    fun v _ => g.successors_subset v
  refine ⟨numberedPostorder_rows, postorder_eq_search, postorder_perm g.nodup_vertices hedges,
    g.postorder_eq_upTo, ?_⟩
  intro root hroot
  obtain ⟨hsound, hempty⟩ := g.sound_upTo (Nat.le_of_lt hroot)
  have hmem : root ∈ g.vertices := g.mem_vertices.2 hroot
  refine ⟨hempty, fun hnew => ⟨?_, hsound.isPathFrom_run hedges hmem hempty hnew⟩⟩
  have hstop := (hsound.explore hedges hmem hempty).2.1
  rwa [Traversal.explore, if_neg hnew] at hstop

/-- The first vertex leads to itself, twice. The others lead to each other and back. -/
def loops : AdjacencyList where
  rows := [[0, 0], [2, 0], [1, 2]]
  inRange := by decide

/-- The second vertex is not reached from the first one. One step later the path goes on to the
third. -/
theorem loops_explored :
    1 < loops.rows.length ∧ 1 ∉ (loops.upTo 1).visited ∧
      (((loops.upTo 1).visit loops.successors 1).run loops.successors loops.steps).stack = [] ∧
      (((loops.upTo 1).visit loops.successors 1).run loops.successors 1).path = [2, 1] ∧
      Traversal.IsPathFrom loops.successors 1
        (((loops.upTo 1).visit loops.successors 1).run loops.successors 1) := by
  have hroot : 1 < loops.rows.length := by decide
  have hnew : 1 ∉ (loops.upTo 1).visited := by decide
  obtain ⟨-, hexplored⟩ := loops.postorder_exact.2.2.2.2 1 hroot
  obtain ⟨hstop, hpath⟩ := hexplored hnew
  exact ⟨hroot, hnew, hstop, by decide, hpath 1⟩

end AdjacencyList

end ModuleLinker
