/-
# ModuleLinker.Proofs.NumberedOrder -- the load order by numbers

The modules of a program are put into load order on numbers: a list of slots holds each of them
once, in the order of their identifiers, a require is an edge between two slots, and the traversal
keeps a list of marks and, for each vertex on its stack, how many of its edges it has followed.
Every look at one of the lists asks whether there is such a place. A walk on numbers goes along with
a `Traversal` on identifiers, so that the answer is always yes and the modules come out of their
slots in load order (`numberedOrder_eq`). With the search for live keys by numbers and the pieces of
the texts, all inputs can be linked or are refused with an error (`link_stays_inside`).
-/

import ModuleLinker.Proofs.NumberedGraph
import ModuleLinker.Proofs.Postorder
import ModuleLinker.Proofs.TextPieces

namespace ModuleLinker

/-! ## Walks -/

/-- The state of a traversal of numbered vertices. -/
structure Walk where
  /-- The vertices whose edges are being followed, the latest first, and how many of them were. -/
  stack : List (Nat × Nat)
  visited : List Bool
  /-- The finished vertices, the latest first. -/
  finished : List Nat

namespace Walk

/-- Puts a vertex on the stack. -/
def visit (w : Walk) (vertex : Nat) : Option Walk := do
  let visited ← replaceAt? w.visited vertex true
  return { w with stack := (vertex, 0) :: w.stack, visited }

/-- Follows the next edge of the vertex on top, or finishes that vertex. -/
def step (edges : List (List Nat)) (w : Walk) : Option Walk :=
  match w.stack with
  | [] => some w
  | (vertex, followed) :: below => do
    let targets ← edges[vertex]?
    match targets[followed]? with
    | none => return { w with stack := below, finished := vertex :: w.finished }
    | some next =>
      let w := { w with stack := (vertex, followed + 1) :: below }
      if ← w.visited[next]? then return w else w.visit next

/-- Steps until the stack is empty; `steps` bounds their number. -/
def run (edges : List (List Nat)) : (steps : Nat) → Walk → Option Walk
  | 0, w => some w
  | steps + 1, w => if w.stack.isEmpty then some w else do run edges steps (← w.step edges)

/-- Visits everything that can be reached from a vertex, unless it was visited before. -/
def explore (edges : List (List Nat)) (steps : Nat) (w : Walk) (root : Nat) : Option Walk := do
  if ← w.visited[root]? then return w else run edges steps (← w.visit root)

end Walk

/-- The depth-first postorder of the vertices of a graph. -/
def numberedPostorder (edges : List (List Nat)) : Option (List Nat) := do
  let steps := edges.foldr (fun targets steps => targets.length + 2 + steps) 0
  let w ← (List.range edges.length).foldlM (Walk.explore edges steps)
    ⟨[], List.replicate edges.length false, []⟩
  return w.finished.reverse

/-! ## Walks and traversals -/

/-- The vertex is the one at the place. -/
def HoldsAt {α : Type} (vertices : List α) (place : Nat) (vertex : α) : Prop :=
  vertices[place]? = some vertex

section Simulation

variable {α : Type} {vertices : List α} {successors : α → List α} {edges : List (List Nat)}
  {w : Walk} {t : Traversal α}

theorem HoldsAt.eq_iff (hnodup : vertices.Nodup) {place other : Nat} {vertex otherVertex : α}
    (h : HoldsAt vertices place vertex) (h' : HoldsAt vertices other otherVertex) :
    place = other ↔ vertex = otherVertex := by
  constructor
  · rintro rfl
    exact Option.some.inj (h.symm.trans h')
  · rintro rfl
    exact (List.getElem?_inj (lt_length_of_getElem? h) hnodup).1 (h.trans h'.symm)

/-- The edges lead from place to place as the successors do from vertex to vertex. -/
structure Mirrors (vertices : List α) (successors : α → List α) (edges : List (List Nat)) :
    Prop where
  nodup : vertices.Nodup
  targets : List.Forall₂ (fun targets vertex =>
    List.Forall₂ (HoldsAt vertices) targets (successors vertex)) edges vertices

/-- The walk is where the traversal is. -/
structure Agrees (vertices : List α) (successors : α → List α) (w : Walk) (t : Traversal α) :
    Prop where
  length_eq : w.visited.length = vertices.length
  stack : List.Forall₂ (fun entry frame => HoldsAt vertices entry.1 frame.vertex ∧
    frame.pending = (successors frame.vertex).drop entry.2) w.stack t.stack
  visited_iff : ∀ place vertex, HoldsAt vertices place vertex →
    (w.visited[place]? = some true ↔ vertex ∈ t.visited)
  finished : List.Forall₂ (HoldsAt vertices) w.finished t.finished

theorem forall₂_trans {β γ δ : Type} {R : β → γ → Prop} {S : γ → δ → Prop} {T : β → δ → Prop}
    {xs : List β} {ys : List γ} {zs : List δ} (h : List.Forall₂ R xs ys)
    (h' : List.Forall₂ S ys zs) (htrans : ∀ x y z, R x y → S y z → T x z) :
    List.Forall₂ T xs zs := by
  induction h generalizing zs with
  | nil =>
      cases h'
      exact .nil
  | cons hfirst _ ih =>
      cases h' with
      | cons hsecond hrest => exact .cons (htrans _ _ _ hfirst hsecond) (ih hrest)

theorem Mirrors.exists_targets (h : Mirrors vertices successors edges) {place : Nat} {vertex : α}
    (hplace : HoldsAt vertices place vertex) :
    ∃ targets, edges[place]? = some targets ∧
      List.Forall₂ (HoldsAt vertices) targets (successors vertex) := by
  rcases forall₂_getElem? h.targets place with ⟨-, hnone⟩ | ⟨targets, other, htargets, hother, hall⟩
  · cases hnone.symm.trans hplace
  · obtain rfl := Option.some.inj (hother.symm.trans hplace)
    exact ⟨targets, htargets, hall⟩

theorem Agrees.exists_mark (h : Agrees vertices successors w t) {place : Nat} {vertex : α}
    (hplace : HoldsAt vertices place vertex) :
    ∃ seen, w.visited[place]? = some seen ∧ (seen = true ↔ vertex ∈ t.visited) := by
  have hlt : place < w.visited.length := h.length_eq ▸ lt_length_of_getElem? hplace
  have hseen := List.getElem?_eq_getElem hlt
  refine ⟨_, hseen, ?_⟩
  rw [← h.visited_iff place vertex hplace, hseen, Option.some.injEq]

theorem forall₂_holdsAt_range (vertices : List α) :
    List.Forall₂ (HoldsAt vertices) (List.range vertices.length) vertices := by
  refine List.forall₂_iff_get.2 ⟨List.length_range, fun place _ hplace => ?_⟩
  simp [HoldsAt]

/-- There are as many edges as successors. -/
theorem Mirrors.steps_eq (hedges : Mirrors vertices successors edges) :
    edges.foldr (fun targets steps => targets.length + 2 + steps) 0 =
      traversalSteps vertices successors := by
  have hlengths : List.Forall₂ (fun targets vertex => targets.length = (successors vertex).length)
      edges vertices := hedges.targets.imp fun _ _ hall => hall.length_eq
  clear hedges
  unfold traversalSteps
  induction hlengths with
  | nil => rfl
  | cons hfirst _ ih => rw [List.foldr_cons, List.foldr_cons, hfirst, ih]

theorem Agrees.exists_visit (hnodup : vertices.Nodup) (h : Agrees vertices successors w t)
    {place : Nat} {vertex : α} (hplace : HoldsAt vertices place vertex) :
    ∃ w', w.visit place = some w' ∧ Agrees vertices successors w' (t.visit successors vertex) := by
  have hlt : place < w.visited.length := h.length_eq ▸ lt_length_of_getElem? hplace
  refine ⟨⟨(place, 0) :: w.stack, w.visited.set place true, w.finished⟩, ?_, ?_, ?_, ?_, h.finished⟩
  · unfold Walk.visit
    rw [replaceAt?_of_lt hlt]
    rfl
  · exact (List.length_set ..).trans h.length_eq
  · exact .cons ⟨hplace, rfl⟩ h.stack
  · intro other otherVertex hother
    have hsame := hplace.eq_iff hnodup hother
    rw [List.getElem?_set, if_pos hlt]
    split
    · next heq => exact iff_of_true rfl (hsame.1 heq ▸ List.mem_cons_self)
    · next hne =>
      rw [h.visited_iff other otherVertex hother]
      have hvertex : otherVertex ≠ vertex := fun heq => hne (hsame.2 heq.symm)
      simp [Traversal.visit, hvertex]

variable [DecidableEq α]

/-- A walk can always take the step that the traversal takes. -/
theorem Agrees.exists_step (hedges : Mirrors vertices successors edges)
    (h : Agrees vertices successors w t) :
    ∃ w', w.step edges = some w' ∧ Agrees vertices successors w' (t.step successors) := by
  obtain ⟨stack, visited, finished⟩ := w
  obtain ⟨frames, seen, done⟩ := t
  have hstack := h.stack
  dsimp only at hstack
  cases hstack with
  | nil => exact ⟨_, rfl, h⟩
  | @cons entry frame below frames htop hbelow =>
      obtain ⟨place, followed⟩ := entry
      obtain ⟨vertex, pending⟩ := frame
      dsimp only at htop
      obtain ⟨hplace, rfl⟩ := htop
      obtain ⟨targets, htargets, hall⟩ := hedges.exists_targets hplace
      unfold Walk.step Traversal.step
      simp only [htargets, Option.bind_eq_bind, Option.bind_some]
      -- The number of followed edges says which successors are still pending.
      rcases forall₂_getElem? hall followed with
        ⟨hnone, hend⟩ | ⟨next, nextVertex, hnext, hvertex, hholds⟩
      · have hpending : (successors vertex).drop followed = [] :=
          List.drop_eq_nil_iff.2 (List.getElem?_eq_none_iff.1 hend)
        rw [hnone, hpending]
        exact ⟨_, rfl, h.length_eq, hbelow, h.visited_iff, .cons hplace h.finished⟩
      · have hpending : (successors vertex).drop followed =
            nextVertex :: (successors vertex).drop (followed + 1) := by
          obtain ⟨hlt, rfl⟩ := List.getElem?_eq_some_iff.1 hvertex
          exact List.drop_eq_getElem_cons hlt
        have hlooked : Agrees vertices successors
            ⟨(place, followed + 1) :: below, visited, finished⟩
            ⟨⟨vertex, (successors vertex).drop (followed + 1)⟩ :: frames, seen, done⟩ :=
          ⟨h.length_eq, .cons ⟨hplace, rfl⟩ hbelow, h.visited_iff, h.finished⟩
        obtain ⟨marked, hmark, hiff⟩ := hlooked.exists_mark hholds
        dsimp only at hmark hiff
        rw [hnext, hpending]
        simp only [hmark, Option.bind_some]
        cases marked with
        | true =>
            rw [if_pos (hiff.1 rfl)]
            exact ⟨_, rfl, hlooked⟩
        | false =>
            have hunseen : nextVertex ∉ seen := fun hmem => nomatch hiff.2 hmem
            rw [if_neg hunseen]
            exact hlooked.exists_visit hedges.nodup hholds

theorem Agrees.exists_run (hedges : Mirrors vertices successors edges)
    (h : Agrees vertices successors w t) (steps : Nat) :
    ∃ w', w.run edges steps = some w' ∧ Agrees vertices successors w' (t.run successors steps) := by
  induction steps generalizing w t with
  | zero => exact ⟨w, rfl, h⟩
  | succ steps ih =>
      have hempty : w.stack.isEmpty = t.stack.isEmpty := by
        rw [Bool.eq_iff_iff, List.isEmpty_iff_length_eq_zero, List.isEmpty_iff_length_eq_zero,
          h.stack.length_eq]
      unfold Walk.run Traversal.run
      rw [hempty]
      split
      · exact ⟨w, rfl, h⟩
      · obtain ⟨w₁, hstep, h₁⟩ := h.exists_step hedges
        rw [hstep]
        exact ih h₁

theorem Agrees.exists_explore (hedges : Mirrors vertices successors edges)
    (h : Agrees vertices successors w t) (steps : Nat) {place : Nat} {vertex : α}
    (hplace : HoldsAt vertices place vertex) :
    ∃ w', w.explore edges steps place = some w' ∧
      Agrees vertices successors w' (t.explore successors steps vertex) := by
  obtain ⟨seen, hseen, hiff⟩ := h.exists_mark hplace
  unfold Walk.explore Traversal.explore
  simp only [hseen, Option.bind_eq_bind, Option.bind_some]
  cases seen with
  | true =>
      rw [if_pos (hiff.1 rfl)]
      exact ⟨w, rfl, h⟩
  | false =>
      have hunseen : vertex ∉ t.visited := fun hmem => nomatch hiff.2 hmem
      obtain ⟨w₁, hvisit, h₁⟩ := h.exists_visit hedges.nodup hplace
      rw [if_neg hunseen, hvisit]
      exact h₁.exists_run hedges steps

theorem Agrees.exists_foldlM (hedges : Mirrors vertices successors edges)
    (h : Agrees vertices successors w t) (steps : Nat) {places : List Nat} {roots : List α}
    (hroots : List.Forall₂ (HoldsAt vertices) places roots) :
    ∃ w', places.foldlM (Walk.explore edges steps) w = some w' ∧
      Agrees vertices successors w' (roots.foldl (Traversal.explore successors steps) t) := by
  induction hroots generalizing w t with
  | nil => exact ⟨w, rfl, h⟩
  | cons hplace _ ih =>
      obtain ⟨w₁, hexplore, h₁⟩ := h.exists_explore hedges steps hplace
      rw [List.foldlM_cons, hexplore]
      exact ih h₁

/-- The postorder of the places is that of the vertices. -/
theorem Mirrors.exists_postorder (hedges : Mirrors vertices successors edges) :
    ∃ order, numberedPostorder edges = some order ∧
      List.Forall₂ (HoldsAt vertices) order (postorder vertices successors) := by
  have hlength : edges.length = vertices.length := hedges.targets.length_eq
  have hstart : Agrees vertices successors ⟨[], List.replicate edges.length false, []⟩
      ⟨[], [], []⟩ := by
    refine ⟨by simp [hlength], .nil, fun place vertex _ => iff_of_false ?_ List.not_mem_nil, .nil⟩
    intro hseen
    exact absurd (List.eq_of_mem_replicate (List.mem_of_getElem? hseen)) (by decide)
  obtain ⟨w, hrun, hw⟩ := hstart.exists_foldlM hedges (traversalSteps vertices successors)
    (forall₂_holdsAt_range vertices)
  refine ⟨w.finished.reverse, ?_, List.forall₂_reverse_iff.2 hw.finished⟩
  unfold numberedPostorder
  dsimp only
  rw [hlength] at hrun ⊢
  rw [hedges.steps_eq, hrun]
  rfl

end Simulation

/-! ## Slots -/

section Slots

variable {modules : List Module}

/-- The modules in the order of their identifiers. Of several modules with one identifier the last
counts. -/
def slots (modules : List Module) : List Module :=
  (identifiers modules).filterMap (lastWithId? modules)

/-- The places of the modules that a module requires, each once. -/
def slotEdges (modules : List Module) : List (List Nat) :=
  let ids := (slots modules).map (·.id)
  (slots modules).map fun m => distinct (m.required.filterMap ids.idxOf?)

/-- Takes the modules out of their slots; a slot is empty afterwards. -/
def takeSlots : List (Option Module) → List Nat → Option (List Module)
  | _, [] => some []
  | slots, place :: places => do
    let slot ← slots[place]?
    let rest ← takeSlots (slots.set place none) places
    return slot.toList ++ rest

/-- The modules in load order. -/
def numberedOrder (modules : List Module) : Option (List Module) := do
  let order ← numberedPostorder (slotEdges modules)
  takeSlots ((slots modules).map some) order

theorem exists_lastWithId? {id : ModuleId} (h : id ∈ identifiers modules) :
    ∃ m, lastWithId? modules id = some m := by
  rw [identifiers, (sorted_perm _ _).mem_iff, mem_distinct] at h
  obtain ⟨m, hm, rfl⟩ := List.mem_map.1 h
  rw [← Option.isSome_iff_exists, lastWithId?, List.find?_isSome]
  exact ⟨m, List.mem_reverse.2 hm, decide_eq_true rfl⟩

theorem id_of_lastWithId? {id : ModuleId} {m : Module} (h : lastWithId? modules id = some m) :
    m.id = id := by
  simpa using List.find?_some h

theorem forall₂_filterMap_lastWithId? {ids : List ModuleId} (h : ids ⊆ identifiers modules) :
    List.Forall₂ (fun id m => lastWithId? modules id = some m) ids
      (ids.filterMap (lastWithId? modules)) := by
  induction ids with
  | nil => exact .nil
  | cons id ids ih =>
      obtain ⟨hid, hids⟩ := List.cons_subset.1 h
      obtain ⟨m, hm⟩ := exists_lastWithId? hid
      rw [List.filterMap_cons_some hm]
      exact .cons hm (ih hids)

theorem nodup_identifiers (modules : List Module) : (identifiers modules).Nodup :=
  (sorted_perm _ _).nodup_iff.2 (distinct_nodup _)

theorem forall₂_slots :
    List.Forall₂ (fun id m => lastWithId? modules id = some m) (identifiers modules)
      (slots modules) :=
  forall₂_filterMap_lastWithId? (List.Subset.refl _)

theorem map_id_slots : (slots modules).map (·.id) = identifiers modules :=
  forall₂_eq_map_iff.1 (forall₂_slots.flip.imp fun _ _ h => id_of_lastWithId? h)

/-- Leaving out a vertex and its place keeps what stands where. -/
theorem forall₂_filter_ne {vertices : List ModuleId} (hnodup : vertices.Nodup) {place : Nat}
    {vertex : ModuleId} (hplace : HoldsAt vertices place vertex) {places : List Nat}
    {found : List ModuleId} (h : List.Forall₂ (HoldsAt vertices) places found) :
    List.Forall₂ (HoldsAt vertices) (places.filter (· ≠ place)) (found.filter (· ≠ vertex)) := by
  induction h with
  | nil => exact .nil
  | @cons other otherVertex _ _ hother _ ih =>
      have hsame := hother.eq_iff hnodup hplace
      by_cases heq : other = place
      · rw [List.filter_cons_of_neg (by simpa using heq),
          List.filter_cons_of_neg (by simpa using hsame.1 heq)]
        exact ih
      · have hne : otherVertex ≠ vertex := fun hvertex => heq (hsame.2 hvertex)
        rw [List.filter_cons_of_pos (by simpa using heq),
          List.filter_cons_of_pos (by simpa using hne)]
        exact .cons hother ih

/-- Places and what stands there occur for the first time together. -/
theorem forall₂_distinct {vertices : List ModuleId} (hnodup : vertices.Nodup) {places : List Nat}
    {found : List ModuleId} (h : List.Forall₂ (HoldsAt vertices) places found) :
    List.Forall₂ (HoldsAt vertices) (distinct places) (distinct found) := by
  induction h with
  | nil => exact .nil
  | cons hplace _ ih => exact .cons hplace (forall₂_filter_ne hnodup hplace ih)

/-- Each identifier of the list is found at the place where it stands. -/
theorem forall₂_filterMap_idxOf? {vertices : List ModuleId} (hnodup : vertices.Nodup)
    (ids : List ModuleId) :
    List.Forall₂ (HoldsAt vertices) (ids.filterMap vertices.idxOf?)
      (ids.filter (vertices.contains ·)) := by
  induction ids with
  | nil => exact .nil
  | cons id ids ih =>
      by_cases hid : id ∈ vertices
      · obtain ⟨place, hplace⟩ := List.mem_iff_getElem?.1 hid
        have hfound : vertices.idxOf? id = some place :=
          (idxOf?_eq_some_iff_of_nodup hnodup).2 hplace
        rw [List.filterMap_cons_some (f := (vertices.idxOf? ·)) hfound,
          List.filter_cons_of_pos (List.contains_iff_mem.2 hid)]
        exact .cons hplace ih
      · have hout : ¬ vertices.contains id = true := fun hmem => hid (List.contains_iff_mem.1 hmem)
        have hnone : vertices.idxOf? id = none := List.idxOf?_eq_none_iff.2 hid
        rw [List.filterMap_cons_none (f := (vertices.idxOf? ·)) hnone, List.filter_cons_of_neg hout]
        exact ih

/-- The edges between the slots are the requires of the modules. -/
theorem mirrors_slotEdges (modules : List Module) :
    Mirrors (identifiers modules) (requiredAmong (identifiers modules) modules)
      (slotEdges modules) := by
  have hnodup := nodup_identifiers modules
  refine ⟨hnodup, ?_⟩
  rw [slotEdges, map_id_slots, List.forall₂_map_left_iff]
  refine forall₂_slots.flip.imp fun m id hm => ?_
  have hrequired : requiredAmong (identifiers modules) modules id =
      distinct (m.required.filter ((identifiers modules).contains ·)) := by
    rw [requiredAmong, hm]
  rw [hrequired]
  exact forall₂_distinct hnodup (forall₂_filterMap_idxOf? hnodup _)

theorem requiredAmong_subset_ids (ids : List ModuleId) (id : ModuleId) :
    ∀ target ∈ requiredAmong ids modules id, target ∈ ids := by
  intro target htarget
  unfold requiredAmong at htarget
  split at htarget
  · exact absurd htarget List.not_mem_nil
  · rw [mem_distinct, List.mem_filter] at htarget
    exact List.contains_iff_mem.1 htarget.2

/-- Modules that stand in different slots can be taken out of them. -/
theorem takeSlots_eq {order : List Nat} {found : List Module} (hnodup : order.Nodup)
    {slots : List (Option Module)}
    (h : List.Forall₂ (fun place m => slots[place]? = some (some m)) order found) :
    takeSlots slots order = some found := by
  induction order generalizing slots found with
  | nil =>
      cases h
      rfl
  | cons place order ih =>
      obtain ⟨m, others, hplace, hothers, rfl⟩ := List.forall₂_cons_left_iff.1 h
      obtain ⟨hfresh, hnodup⟩ := List.nodup_cons.1 hnodup
      -- taking the first module leaves the other slots as they are
      have hrest : List.Forall₂ (fun other m => (slots.set place none)[other]? = some (some m))
          order others := by
        refine (forall₂_with_mem hothers).imp ?_
        rintro other m ⟨hother, -, hslot⟩
        have hne : place ≠ other := fun heq => hfresh (heq ▸ hother)
        rw [List.getElem?_set_ne hne]
        exact hslot
      unfold takeSlots
      simp only [hplace, ih hnodup hrest, Option.bind_eq_bind, Option.bind_some]
      rfl

/-- Going by numbers leads to the load order, and no look at a list fails. -/
theorem numberedOrder_eq (modules : List Module) :
    numberedOrder modules = some (loadOrder modules) := by
  have hnodup := nodup_identifiers modules
  obtain ⟨order, horder, hall⟩ := (mirrors_slotEdges modules).exists_postorder
  have hsubset : ∀ v ∈ identifiers modules, ∀ w ∈ requiredAmong (identifiers modules) modules v,
      w ∈ identifiers modules := fun v _ => requiredAmong_subset_ids _ v
  have hperm := postorder_perm hnodup hsubset
  -- no place is taken twice, because no identifier is
  have hplaces : order.Nodup := by
    have hmap : order.map (fun place => (identifiers modules)[place]?) =
        (postorder (identifiers modules)
          (requiredAmong (identifiers modules) modules)).map some := map_eq_map_of_forall₂ hall
    have hsome := (hperm.nodup_iff.2 hnodup).map (Option.some_injective _)
    exact (hmap ▸ hsome).of_map
  have hloaded : List.Forall₂ (fun id m => lastWithId? modules id = some m) _
      (loadOrder modules) := forall₂_filterMap_lastWithId? hperm.subset
  have hslots : List.Forall₂ (fun place m => ((slots modules).map some)[place]? = some (some m))
      order (loadOrder modules) := by
    refine forall₂_trans hall hloaded fun place id m hplace hm => ?_
    rcases forall₂_getElem? forall₂_slots place with ⟨hnone, -⟩ | ⟨other, found, hid, hfound, hlast⟩
    · cases hnone.symm.trans hplace
    · obtain rfl := Option.some.inj (hid.symm.trans hplace)
      obtain rfl := Option.some.inj (hlast.symm.trans hm)
      rw [List.getElem?_map, hfound, Option.map_some]
  unfold numberedOrder
  rw [horder]
  exact takeSlots_eq hplaces hslots

end Slots

/-! ## Linking -/

/-- Linking with everything found by number, `none` where a list has no such place. -/
def linkByNumber [Script.ParserWording] (inputs : List ModuleInput) (options : Options) :
    Option (Except Failure Bundle) :=
  match (entryPoints (inputs.map (·.id)) options).mapError Failure.error, loadModules inputs with
  | .error failure, _ => some (.error failure)
  | _, .error failure => some (.error failure)
  | .ok entries, .ok modules => do
    let graph ← NumberedGraph.build (definitions modules)
    let r ← graph.reachable entries
    let order ← numberedOrder (eliminate r modules)
    return emit order options

/-- Elimination depends only on what is live and which modules live code refers to. -/
theorem eliminate_congr {r r' : Reachability} (hlive : r.isLive = r'.isLive)
    (hreferenced : r.isReferenced = r'.isReferenced) (modules : List Module) :
    eliminate r modules = eliminate r' modules := by
  have helement : Element.eliminate r = Element.eliminate r' := by
    funext owner element
    unfold Element.eliminate
    rw [hlive, hreferenced]
  have hmodule : Module.eliminate r = Module.eliminate r' := by
    funext m
    rw [Module.eliminate, Module.eliminate, helement]
  rw [eliminate, eliminate, hmodule]

theorem linkByNumber_eq [Script.ParserWording] (inputs : List ModuleInput) (options : Options) :
    linkByNumber inputs options = some (link inputs options) := by
  unfold linkByNumber link
  cases (entryPoints (inputs.map (·.id)) options).mapError Failure.error with
  | error failure => rfl
  | ok entries =>
      cases loadModules inputs with
      | error failure => rfl
      | ok modules =>
          obtain ⟨graph, r, hbuild, hreachable, hlive, -, hreferenced⟩ :=
            NumberedGraph.exists_reachable modules entries
          simp only [hbuild, hreachable, eliminate_congr hlive hreferenced, numberedOrder_eq,
            Option.bind_eq_bind, Option.bind_some]
          rfl

theorem mem_of_mem_loadOrder {modules : List Module} {m : Module} (h : m ∈ loadOrder modules) :
    m ∈ modules := by
  obtain ⟨id, -, hm⟩ := List.mem_filterMap.1 h
  exact List.mem_reverse.1 (List.mem_of_find?_eq_some hm)

/-- What elimination leaves of loaded modules can be written in load order. -/
theorem exists_emit_loadOrder [Script.ParserWording] {inputs : List ModuleInput}
    {loaded : List Module} (h : loadModules inputs = .ok loaded) (r : Reachability)
    (options : Options) :
    ∃ bundle, emit (loadOrder (eliminate r loaded)) options = .ok bundle := by
  apply Emission.exists_emit
  intro m hm
  exact (classified_of_mem_eliminate h r m (mem_of_mem_loadOrder hm)).heldByText

/-- Linking ends with a program or with an error. -/
theorem delivers_link [Script.ParserWording] (inputs : List ModuleInput) (options : Options) :
    Delivers (fun _ => True) (link inputs options) := by
  have hentries : Delivers (fun _ => True)
      ((entryPoints (inputs.map (·.id)) options).mapError Failure.error) := by
    cases entryPoints (inputs.map (·.id)) options with
    | error error => trivial
    | ok entries => trivial
  unfold link
  refine hentries.bind fun entries _ _ => ?_
  refine (delivers_loadModules inputs).bind fun loaded hloaded _ => ?_
  obtain ⟨bundle, hbundle⟩ :=
    exists_emit_loadOrder hloaded (.compute (definitions loaded) entries) options
  show Delivers _ (emit _ options)
  rw [hbundle]
  trivial

/-- Linking by number never looks at a place that a list does not have, and never asks for a piece
of a text that does not exist: every list of inputs is linked to a program, the one that `link`
describes, or refused with an error. -/
theorem link_stays_inside [Script.ParserWording] (inputs : List ModuleInput) (options : Options) :
    linkByNumber inputs options = some (link inputs options) ∧
      ((∃ bundle, link inputs options = .ok bundle) ∨
        ∃ error, link inputs options = .error (.error error)) := by
  refine ⟨linkByNumber_eq inputs options, ?_⟩
  obtain ⟨bundle, hbundle, -⟩ | hfailed := (delivers_link inputs options).exists_ok_or_error
  · exact .inl ⟨bundle, hbundle⟩
  · exact .inr hfailed

end ModuleLinker
