/-
# ModuleLinker.Proofs.NumberedGraph -- the search for live keys by numbers

What is live can be found on numbers instead of keys: the keys of a program are numbered as they
first occur, lists beside that of the keys hold the dependencies and the edges of each, and a list
of marks holds what the search has seen. Every look at one of the lists asks whether there is such
a place. The lists grow together and an edge leads to a key of the list, so that the answer is
always yes, and the search ends with the reachability that `Reachability.compute` describes
(`NumberedGraph.exists_reachable`).
-/

import ModuleLinker.Proofs.LiveKeys

namespace ModuleLinker

/-! ## Lists with places -/

/-- The list with another element at a place, if there is such a place. -/
def replaceAt? {α : Type} (xs : List α) (place : Nat) (a : α) : Option (List α) :=
  if place < xs.length then some (xs.set place a) else none

section Places

variable {α : Type} {xs : List α} {place : Nat} {a : α}

theorem replaceAt?_of_lt (h : place < xs.length) : replaceAt? xs place a = some (xs.set place a) :=
  if_pos h

theorem lt_length_of_getElem? (h : xs[place]? = some a) : place < xs.length :=
  (List.getElem?_eq_some_iff.1 h).1

/-- In a list without repetitions an element is found where it stands. -/
theorem idxOf?_eq_some_iff_of_nodup [DecidableEq α] (h : xs.Nodup) :
    xs.idxOf? a = some place ↔ xs[place]? = some a := by
  rw [List.idxOf?_eq_some_iff, List.getElem?_eq_some_iff]
  constructor
  · rintro ⟨hplace, heq, -⟩
    exact ⟨hplace, heq⟩
  · rintro ⟨hplace, rfl⟩
    refine ⟨hplace, rfl, fun other hother heq => ?_⟩
    have hsame : other = place := (h.getElem_inj_iff).1 heq
    omega

end Places

/-! ## Graphs -/

/-- The keys of a program, numbered, with what each depends on. -/
structure NumberedGraph where
  vertices : List Key := []
  /-- The numbers of the keys that a key depends on. -/
  edges : List (List Nat) := []
  /-- All that a key depends on, also what is not among the keys. -/
  dependencies : List (List Key) := []

namespace NumberedGraph

/-- Adds a key, or what else a key depends on that was added before. -/
def add (g : NumberedGraph) (d : Definition) : Option NumberedGraph :=
  match g.vertices.idxOf? d.key with
  | none => some ⟨g.vertices ++ [d.key], g.edges ++ [[]], g.dependencies ++ [d.dependencies]⟩
  | some place => do
    let known ← g.dependencies[place]?
    let dependencies ← replaceAt? g.dependencies place (known ++ d.dependencies)
    return { g with dependencies }

/-- Draws the edges of the vertex at a place. -/
def connect (g : NumberedGraph) (place : Nat) : Option NumberedGraph := do
  let dependencies ← g.dependencies[place]?
  let edges ← replaceAt? g.edges place (dependencies.filterMap g.vertices.idxOf?)
  return { g with edges }

/-- The graph of some definitions. -/
def build (defs : List Definition) : Option NumberedGraph := do
  let g ← defs.foldlM add {}
  (List.range g.vertices.length).foldlM connect g

/-- The vertices are the keys of the definitions, and all three lists go along with them. -/
structure Numbers (g : NumberedGraph) (defs : List Definition) : Prop where
  nodup : g.vertices.Nodup
  mem_iff : ∀ key, key ∈ g.vertices ↔ key ∈ defs.map (·.key)
  dependencies_eq : g.dependencies = g.vertices.map (dependenciesOf defs)
  length_edges : g.edges.length = g.vertices.length

variable {g : NumberedGraph} {defs : List Definition}

theorem dependenciesOf_append (defs : List Definition) (d : Definition) (key : Key) :
    dependenciesOf (defs ++ [d]) key =
      dependenciesOf defs key ++ if d.key = key then d.dependencies else [] := by
  simp [dependenciesOf]

theorem dependenciesOf_eq_nil {key : Key} (h : key ∉ defs.map (·.key)) :
    dependenciesOf defs key = [] := by
  rw [dependenciesOf, List.flatMap_eq_nil_iff]
  intro d hd
  have hne : d.key ≠ key := fun heq => h (List.mem_map.2 ⟨d, hd, heq⟩)
  exact if_neg hne

theorem Numbers.empty : Numbers {} [] where
  nodup := List.nodup_nil
  mem_iff _ := Iff.rfl
  dependencies_eq := rfl
  length_edges := rfl

/-- A key that is not there yet becomes the last vertex. -/
theorem Numbers.add_fresh (h : g.Numbers defs) {d : Definition} (hfresh : d.key ∉ g.vertices) :
    Numbers ⟨g.vertices ++ [d.key], g.edges ++ [[]], g.dependencies ++ [d.dependencies]⟩
      (defs ++ [d]) where
  nodup := by
    refine List.nodup_append.2 ⟨h.nodup, List.nodup_singleton _, ?_⟩
    rintro key hkey _ hd rfl
    exact hfresh (List.mem_singleton.1 hd ▸ hkey)
  mem_iff key := by simp [h.mem_iff]
  dependencies_eq := by
    have hold : ∀ key ∈ g.vertices, dependenciesOf (defs ++ [d]) key = dependenciesOf defs key := by
      intro key hkey
      have hne : d.key ≠ key := fun heq => hfresh (heq ▸ hkey)
      rw [dependenciesOf_append, if_neg hne, List.append_nil]
    have hnew : dependenciesOf (defs ++ [d]) d.key = d.dependencies := by
      have hnone : dependenciesOf defs d.key = [] :=
        dependenciesOf_eq_nil fun hmem => hfresh ((h.mem_iff _).2 hmem)
      rw [dependenciesOf_append, if_pos rfl, hnone, List.nil_append]
    simp only [List.map_append, List.map_cons, List.map_nil, hnew, h.dependencies_eq]
    rw [List.map_congr_left hold]
  length_edges := by simp [h.length_edges]

/-- A key that is there depends on more. -/
theorem Numbers.add_known (h : g.Numbers defs) {d : Definition} {place : Nat}
    (hplace : g.vertices[place]? = some d.key) :
    Numbers { g with
      dependencies := g.dependencies.set place (dependenciesOf defs d.key ++ d.dependencies) }
      (defs ++ [d]) where
  nodup := h.nodup
  mem_iff key := by
    have hknown : d.key ∈ defs.map (·.key) := (h.mem_iff _).1 (List.mem_of_getElem? hplace)
    rw [h.mem_iff, List.map_append, List.mem_append, List.map_singleton, List.mem_singleton]
    constructor
    · exact Or.inl
    · rintro (hkey | rfl)
      · exact hkey
      · exact hknown
  -- Only the place of the key changes: no other vertex has that key.
  dependencies_eq := by
    apply List.ext_getElem?
    intro other
    rw [List.getElem?_set, List.getElem?_map, h.dependencies_eq]
    split
    · next heq =>
      subst heq
      have hlt : place < g.vertices.length := lt_length_of_getElem? hplace
      rw [List.length_map, if_pos hlt, hplace, Option.map_some, dependenciesOf_append, if_pos rfl]
    · next hne =>
      rw [List.getElem?_map]
      cases hother : g.vertices[other]? with
      | none => rfl
      | some key =>
          have hkey : d.key ≠ key := by
            rintro rfl
            have hlt : place < g.vertices.length := lt_length_of_getElem? hplace
            exact hne ((List.getElem?_inj hlt h.nodup).1 (hplace.trans hother.symm))
          rw [Option.map_some, Option.map_some, dependenciesOf_append, if_neg hkey, List.append_nil]
  length_edges := h.length_edges

/-- A definition can always be added. -/
theorem Numbers.add (h : g.Numbers defs) (d : Definition) :
    ∃ g', g.add d = some g' ∧ g'.Numbers (defs ++ [d]) := by
  unfold NumberedGraph.add
  split
  · next hfresh =>
    rw [List.idxOf?_eq_none_iff] at hfresh
    exact ⟨_, rfl, h.add_fresh hfresh⟩
  · next place hfound =>
    have hplace : g.vertices[place]? = some d.key := (idxOf?_eq_some_iff_of_nodup h.nodup).1 hfound
    have hknown : g.dependencies[place]? = some (dependenciesOf defs d.key) := by
      rw [h.dependencies_eq, List.getElem?_map, hplace, Option.map_some]
    have hreplace := replaceAt?_of_lt (a := dependenciesOf defs d.key ++ d.dependencies)
      (lt_length_of_getElem? hknown)
    refine ⟨_, ?_, h.add_known hplace⟩
    simp only [hknown, hreplace, Option.bind_eq_bind, Option.bind_some]
    rfl

theorem Numbers.foldlM_add (h : g.Numbers defs) (more : List Definition) :
    ∃ g', more.foldlM NumberedGraph.add g = some g' ∧ g'.Numbers (defs ++ more) := by
  induction more generalizing g defs with
  | nil => exact ⟨g, rfl, by rwa [List.append_nil]⟩
  | cons d more ih =>
      obtain ⟨g₁, hadd, h₁⟩ := h.add d
      obtain ⟨g₂, hmore, h₂⟩ := ih h₁
      refine ⟨g₂, ?_, ?_⟩
      · rw [List.foldlM_cons, hadd]
        exact hmore
      · rwa [List.append_assoc, List.singleton_append] at h₂

/-- The numbers of the keys that a key depends on. -/
def targetsOf (vertices : List Key) (defs : List Definition) (key : Key) : List Nat :=
  (dependenciesOf defs key).filterMap vertices.idxOf?

/-- The graph is that of the definitions, with all edges drawn. -/
structure Represents (g : NumberedGraph) (defs : List Definition) : Prop extends
    Numbers g defs where
  edges_eq : g.edges = g.vertices.map (targetsOf g.vertices defs)

/-- The edges of the first vertices can be drawn one vertex after the other. -/
theorem Numbers.foldlM_connect (h : g.Numbers defs) {count : Nat}
    (hcount : count ≤ g.vertices.length) :
    ∃ edges, (List.range count).foldlM connect g = some { g with edges } ∧
      edges.length = g.vertices.length ∧
      edges.take count = (g.vertices.map (targetsOf g.vertices defs)).take count := by
  -- The invariant: the vertices below `count` have their edges.
  induction count with
  | zero => exact ⟨g.edges, rfl, h.length_edges, rfl⟩
  | succ count ih =>
      obtain ⟨edges, hrun, hlength, htake⟩ := ih (Nat.le_of_succ_le hcount)
      have hlt : count < g.vertices.length := hcount
      have hknown : g.dependencies[count]? = some (dependenciesOf defs g.vertices[count]) := by
        rw [h.dependencies_eq, List.getElem?_map, List.getElem?_eq_getElem hlt, Option.map_some]
      have hreplace := replaceAt?_of_lt (a := targetsOf g.vertices defs g.vertices[count])
        (hlength ▸ hlt)
      refine ⟨edges.set count (targetsOf g.vertices defs g.vertices[count]), ?_,
        (List.length_set ..).trans hlength, ?_⟩
      · rw [List.range_succ, List.foldlM_append, hrun]
        simp only [Option.bind_eq_bind, Option.bind_some, List.foldlM_cons, connect, hknown]
        rw [targetsOf] at hreplace
        rw [hreplace]
        rfl
      · rw [List.take_add_one, List.take_add_one, List.take_set_of_le (Nat.le_refl _), htake]
        simp [hlength, hlt]

/-- A graph of the definitions can be built. -/
theorem exists_build (defs : List Definition) : ∃ g, build defs = some g ∧ g.Represents defs := by
  obtain ⟨g, hadd, hg⟩ := Numbers.empty.foldlM_add defs
  obtain ⟨edges, hconnect, hlength, htake⟩ := hg.foldlM_connect (Nat.le_refl _)
  refine ⟨{ g with edges }, ?_, ⟨hg.nodup, hg.mem_iff, hg.dependencies_eq, hlength⟩, ?_⟩
  · unfold build
    rw [hadd]
    exact hconnect
  · rw [List.take_of_length_le (Nat.le_of_eq hlength),
      List.take_of_length_le (Nat.le_of_eq (List.length_map ..))] at htake
    exact htake

/-! ## Searches -/

/-- The vertices that are still to be looked at, and which vertices were seen. -/
structure Search where
  queue : List Nat := []
  visited : List Bool

namespace Search

/-- Marks a vertex and puts it into the queue. -/
def mark (s : Search) (place : Nat) : Option Search := do
  let visited ← replaceAt? s.visited place true
  return ⟨s.queue ++ [place], visited⟩

/-- Marks a vertex unless it is marked. -/
def look (s : Search) (place : Nat) : Option Search := do
  if ← s.visited[place]? then return s else s.mark place

/-- The vertex was seen. -/
def Sees (s : Search) (place : Nat) : Prop := s.visited[place]? = some true

/-- How many steps the search can still take: each takes a vertex off the queue, and a vertex comes
into the queue when it is marked. -/
def remaining (s : Search) : Nat := s.queue.length + s.visited.count false

/-- The second search is the first one after some vertices were looked at. -/
structure Marks (places : List Nat) (s t : Search) : Prop where
  length_eq : t.visited.length = s.visited.length
  sees_iff : ∀ place, t.Sees place ↔ s.Sees place ∨ place ∈ places
  queue_iff : ∀ place, place ∈ t.queue ↔ place ∈ s.queue ∨ (place ∈ places ∧ ¬ s.Sees place)
  remaining_eq : t.remaining = s.remaining

variable {s t u : Search} {place : Nat} {places : List Nat}

theorem Marks.refl (s : Search) : Marks [] s s where
  length_eq := rfl
  sees_iff := by simp
  queue_iff := by simp
  remaining_eq := rfl

theorem Marks.trans {first second : List Nat} (h : Marks first s t) (h' : Marks second t u) :
    Marks (first ++ second) s u where
  length_eq := h'.length_eq.trans h.length_eq
  sees_iff place := by
    rw [h'.sees_iff, h.sees_iff, List.mem_append]
    tauto
  queue_iff place := by
    rw [h'.queue_iff, h.queue_iff, h.sees_iff, List.mem_append]
    tauto
  remaining_eq := h'.remaining_eq.trans h.remaining_eq

/-- A vertex that was seen need not be marked again. -/
theorem Marks.seen (h : s.Sees place) : Marks [place] s s where
  length_eq := rfl
  sees_iff other := by
    rw [List.mem_singleton, or_iff_left_of_imp]
    exact fun heq => heq ▸ h
  queue_iff other := by
    rw [List.mem_singleton, or_iff_left_of_imp]
    exact fun hother => absurd (hother.1 ▸ h) hother.2
  remaining_eq := rfl

/-- A vertex that was not seen is marked. -/
theorem exists_mark (hplace : place < s.visited.length) (hunseen : ¬ s.Sees place) :
    ∃ t, s.mark place = some t ∧ Marks [place] s t := by
  have hfalse : s.visited[place] = false := by
    rw [Sees, List.getElem?_eq_getElem hplace] at hunseen
    simpa using hunseen
  refine ⟨⟨s.queue ++ [place], s.visited.set place true⟩, ?_, ?_, fun other => ?_,
    fun other => ?_, ?_⟩
  · unfold mark
    rw [replaceAt?_of_lt hplace]
    rfl
  · exact List.length_set ..
  · unfold Sees
    rw [List.getElem?_set, List.mem_singleton, if_pos hplace]
    split
    · next heq => exact iff_of_true rfl (.inr heq.symm)
    · next hne => exact (or_iff_left (Ne.symm hne)).symm
  · rw [List.mem_append, List.mem_singleton]
    have himp : other = place → ¬ s.Sees other := fun heq => heq ▸ hunseen
    tauto
  · have hcount : (s.visited.set place true).count false + 1 = s.visited.count false := by
      have hpos : 0 < s.visited.count false :=
        List.count_pos_iff.2 (hfalse ▸ List.getElem_mem hplace)
      rw [List.count_set hplace, hfalse]
      simpa using Nat.sub_add_cancel hpos
    simp only [remaining, List.length_append, List.length_singleton]
    omega

/-- A vertex can be looked at if there is a mark for it. -/
theorem exists_look (h : place < s.visited.length) :
    ∃ t, s.look place = some t ∧ Marks [place] s t := by
  unfold look
  cases hplace : s.visited[place]? with
  | none => exact absurd (List.getElem?_eq_none_iff.1 hplace) (Nat.not_le.2 h)
  | some seen =>
      cases seen with
      | true => exact ⟨s, rfl, .seen hplace⟩
      | false =>
          have hunseen : ¬ s.Sees place := by
            rw [Sees, hplace]
            decide
          exact exists_mark h hunseen

theorem exists_foldlM_look (h : ∀ place ∈ places, place < s.visited.length) :
    ∃ t, places.foldlM look s = some t ∧ Marks places s t := by
  induction places generalizing s with
  | nil => exact ⟨s, rfl, .refl s⟩
  | cons place places ih =>
      obtain ⟨hplace, hplaces⟩ := List.forall_mem_cons.1 h
      obtain ⟨t, hlook, ht⟩ := exists_look hplace
      obtain ⟨u, hrest, hu⟩ := ih (s := t) (fun other hother => ht.length_eq ▸ hplaces other hother)
      refine ⟨u, ?_, ht.trans hu⟩
      rw [List.foldlM_cons, hlook]
      exact hrest

end Search

/-! ## Reachability -/

/-- The search with the public keys of the entry points in its queue. -/
def start (g : NumberedGraph) (entryPoints : List ModuleId) : Option Search :=
  g.vertices.zipIdx.foldlM (fun s (key, place) =>
    if key.visibility = .exported && entryPoints.contains key.owner then s.mark place else some s)
    ⟨[], List.replicate g.vertices.length false⟩

/-- Looks at the vertices that the first vertex of the queue depends on. -/
def step (g : NumberedGraph) (s : Search) : Option Search :=
  match s.queue with
  | [] => some s
  | place :: queue => do
    let targets ← g.edges[place]?
    targets.foldlM Search.look { s with queue }

def run (g : NumberedGraph) : (steps : Nat) → Search → Option Search
  | 0, s => some s
  | steps + 1, s => do g.run steps (← g.step s)

/-- Adds a key that was seen, and the modules that it refers to. -/
def collectVertex (g : NumberedGraph) (visited : List Bool) (r : Reachability) :
    Key × Nat → Option Reachability
  | (key, place) => do
    if ← visited[place]? then
      let dependencies ← g.dependencies[place]?
      return { live := r.live ++ [key]
               references := r.references ++
                (dependencies.filter (·.owner ≠ key.owner)).map fun d => (key.owner, d.owner) }
    else return r

/-! ## What a search finds -/

variable {modules : List Module} {entryPoints : List ModuleId} {s t : Search}

/-- What holds of a search at every step. -/
structure Sound (g : NumberedGraph) (modules : List Module) (entryPoints : List ModuleId)
    (s : Search) : Prop where
  length_eq : s.visited.length = g.vertices.length
  queued : ∀ place ∈ s.queue, s.Sees place
  live : ∀ place key, g.vertices[place]? = some key → s.Sees place → Live modules entryPoints key
  roots : ∀ place key, g.vertices[place]? = some key → key.visibility = .exported →
    key.owner ∈ entryPoints → s.Sees place
  closed : ∀ place, s.Sees place → place ∉ s.queue →
    ∀ targets, g.edges[place]? = some targets → ∀ target ∈ targets, s.Sees target

theorem Represents.edges_getElem? (h : g.Represents defs) {place : Nat} {key : Key}
    (hplace : g.vertices[place]? = some key) :
    g.edges[place]? = some (targetsOf g.vertices defs key) := by
  rw [h.edges_eq, List.getElem?_map, hplace, Option.map_some]

/-- The targets of a vertex are the declared keys that it depends on. -/
theorem Represents.mem_targetsOf_iff (h : g.Represents defs) {key : Key} {target : Nat} :
    target ∈ targetsOf g.vertices defs key ↔
      ∃ dependency ∈ dependenciesOf defs key, g.vertices[target]? = some dependency := by
  simp only [targetsOf, List.mem_filterMap, idxOf?_eq_some_iff_of_nodup h.nodup]

/-- The places of the public keys of the entry points. -/
def rootPlaces (entryPoints : List ModuleId) (numbered : List (Key × Nat)) : List Nat :=
  (numbered.filter fun (key, _) =>
    key.visibility = .exported && entryPoints.contains key.owner).map (·.2)

/-- The keys behind an offset can be looked through if none of them was seen. -/
theorem exists_foldlM_mark (entryPoints : List ModuleId) {keys : List Key} {offset : Nat}
    (hlength : offset + keys.length ≤ s.visited.length)
    (hunseen : ∀ place, offset ≤ place → ¬ s.Sees place) :
    ∃ t, (keys.zipIdx offset).foldlM (fun s (key, place) =>
        if key.visibility = .exported && entryPoints.contains key.owner then s.mark place
        else some s) s = some t ∧
      Search.Marks (rootPlaces entryPoints (keys.zipIdx offset)) s t := by
  induction keys generalizing offset s with
  | nil => exact ⟨s, rfl, .refl s⟩
  | cons key keys ih =>
      rw [List.length_cons] at hlength
      rw [List.zipIdx_cons, List.foldlM_cons, rootPlaces, List.filter_cons]
      dsimp only
      split
      · obtain ⟨t, hmark, ht⟩ := Search.exists_mark (by omega) (hunseen offset (Nat.le_refl _))
        -- The places are met in increasing order, so none of them is marked twice.
        have hbehind : ∀ place, offset + 1 ≤ place → ¬ t.Sees place := by
          intro place hplace
          rw [ht.sees_iff, List.mem_singleton, not_or]
          exact ⟨hunseen place (by omega), by omega⟩
        obtain ⟨u, hrest, hu⟩ := ih (by rw [ht.length_eq]; omega) hbehind
        refine ⟨u, ?_, ht.trans hu⟩
        rw [hmark]
        exact hrest
      · exact ih (by omega) fun place hplace => hunseen place (by omega)

/-- The search can start, and then only the keys of the entry points were seen. -/
theorem Represents.exists_start (h : g.Represents (definitions modules))
    (entryPoints : List ModuleId) :
    ∃ s, g.start entryPoints = some s ∧ g.Sound modules entryPoints s ∧
      s.remaining = g.vertices.length := by
  have hnone : ∀ place, ¬ (Search.mk [] (List.replicate g.vertices.length false)).Sees place := by
    intro place hsees
    have hmem := List.mem_of_getElem? hsees
    exact absurd (List.eq_of_mem_replicate hmem) (by decide)
  have hlength : 0 + g.vertices.length ≤ (List.replicate g.vertices.length false).length := by simp
  obtain ⟨s, hrun, hs⟩ := exists_foldlM_mark entryPoints
    (s := ⟨[], List.replicate g.vertices.length false⟩) hlength fun place _ => hnone place
  have hroot : ∀ place, place ∈ rootPlaces entryPoints g.vertices.zipIdx ↔
      ∃ key, g.vertices[place]? = some key ∧ key.visibility = .exported ∧
        key.owner ∈ entryPoints := by
    intro place
    simp [rootPlaces, List.mem_zipIdx_iff_getElem?]
  -- At the start, what is seen is what is in the queue: the public members of the entry points.
  have hsees : ∀ place, s.Sees place ↔ place ∈ rootPlaces entryPoints g.vertices.zipIdx := by
    intro place
    rw [hs.sees_iff, or_iff_right (hnone place)]
  have hqueue : ∀ place, place ∈ s.queue ↔ s.Sees place := by
    intro place
    rw [hs.queue_iff, hsees]
    exact ⟨fun hplace => (hplace.resolve_left List.not_mem_nil).1,
      fun hplace => .inr ⟨hplace, hnone place⟩⟩
  refine ⟨s, hrun, ⟨?_, fun place => (hqueue place).1, fun place key hkey hplace => ?_,
    fun place key hkey hexported howner => ?_, fun place hplace hout => ?_⟩, ?_⟩
  · simpa using hs.length_eq
  · obtain ⟨root, hvertex, hexported, howner⟩ := (hroot place).1 ((hsees place).1 hplace)
    obtain rfl := Option.some.inj (hkey.symm.trans hvertex)
    exact .root (mem_keys_iff.1 ((h.mem_iff _).1 (List.mem_of_getElem? hkey))) hexported howner
  · exact (hsees place).2 ((hroot place).2 ⟨key, hkey, hexported, howner⟩)
  · exact absurd ((hqueue place).2 hplace) hout
  · rw [hs.remaining_eq]
    simp [Search.remaining]

/-- The search stays sound when a vertex is taken off the queue and its targets are marked. -/
theorem Sound.of_marks (h : g.Represents (definitions modules)) (hs : g.Sound modules entryPoints s)
    {place : Nat} {key : Key} {queue : List Nat} (hqueue : s.queue = place :: queue)
    (hkey : g.vertices[place]? = some key)
    (hmarks : Search.Marks (targetsOf g.vertices (definitions modules) key) { s with queue } t) :
    g.Sound modules entryPoints t where
  length_eq := hmarks.length_eq.trans hs.length_eq
  queued other hother := by
    rw [hmarks.sees_iff]
    rcases (hmarks.queue_iff other).1 hother with hold | ⟨hnew, -⟩
    · exact .inl (hs.queued other (hqueue ▸ List.mem_cons_of_mem _ hold))
    · exact .inr hnew
  -- A vertex seen just now is the target of an edge from the live key taken off the queue.
  live other otherKey hvertex hother := by
    rcases (hmarks.sees_iff other).1 hother with hold | hnew
    · exact hs.live other otherKey hvertex hold
    · have hplace : s.Sees place := hs.queued place (hqueue ▸ List.mem_cons_self)
      obtain ⟨dependency, hdependency, htarget⟩ := h.mem_targetsOf_iff.1 hnew
      obtain rfl := Option.some.inj (hvertex.symm.trans htarget)
      obtain ⟨dependencies, hdeclares, hmem⟩ := mem_dependenciesOf.1 hdependency
      exact .step (hs.live place key hkey hplace) hdeclares hmem
        (mem_keys_iff.1 ((h.mem_iff _).1 (List.mem_of_getElem? hvertex)))
  roots other otherKey hvertex hexported howner :=
    (hmarks.sees_iff other).2 (.inl (hs.roots other otherKey hvertex hexported howner))
  closed other hother hout targets htargets target htarget := by
    rw [hmarks.sees_iff]
    rw [hmarks.queue_iff, not_or] at hout
    obtain ⟨hold, hnew⟩ := hout
    by_cases hsees : s.Sees other
    · by_cases hsame : other = place
      · subst hsame
        obtain rfl := Option.some.inj (htargets.symm.trans (h.edges_getElem? hkey))
        exact .inr htarget
      · have hbelow : other ∉ s.queue := by
          rw [hqueue, List.mem_cons, not_or]
          exact ⟨hsame, hold⟩
        exact .inl (hs.closed other hsees hbelow targets htargets target htarget)
    · -- a vertex that was seen just now is still in the queue
      have hmarked := ((hmarks.sees_iff other).1 hother).resolve_left hsees
      exact absurd ⟨hmarked, hsees⟩ hnew

/-- A step can always be taken, and takes one vertex off the queue. -/
theorem Sound.exists_step (h : g.Represents (definitions modules))
    (hs : g.Sound modules entryPoints s) (hne : s.queue ≠ []) :
    ∃ t, g.step s = some t ∧ g.Sound modules entryPoints t ∧
      t.remaining + 1 = s.remaining := by
  unfold step
  cases hqueue : s.queue with
  | nil => exact absurd hqueue hne
  | cons place queue =>
      have hsees : s.Sees place := hs.queued place (hqueue ▸ List.mem_cons_self)
      have hlt : place < g.vertices.length := hs.length_eq ▸ lt_length_of_getElem? hsees
      have hkey : g.vertices[place]? = some g.vertices[place] := List.getElem?_eq_getElem hlt
      have hedges := h.edges_getElem? hkey
      -- Edges lead to vertices, so that no lookup of the step fails.
      have hrange : ∀ target ∈ targetsOf g.vertices (definitions modules) g.vertices[place],
          target < s.visited.length := by
        intro target htarget
        obtain ⟨dependency, -, hvertex⟩ := h.mem_targetsOf_iff.1 htarget
        exact hs.length_eq ▸ lt_length_of_getElem? hvertex
      obtain ⟨t, hlook, hmarks⟩ :=
        Search.exists_foldlM_look (s := { s with queue }) hrange
      refine ⟨t, ?_, ?_, ?_⟩
      · dsimp only
        rw [hedges]
        exact hlook
      · exact hs.of_marks h hqueue hkey hmarks
      · rw [hmarks.remaining_eq]
        simp only [Search.remaining, hqueue, List.length_cons]
        omega

theorem run_of_queue_eq_nil (hqueue : s.queue = []) (steps : Nat) : g.run steps s = some s := by
  induction steps with
  | zero => rfl
  | succ steps ih =>
      have hstep : g.step s = some s := by
        unfold step
        rw [hqueue]
      unfold run
      rw [hstep]
      exact ih

/-- As many steps as there can be empty the queue. -/
theorem Sound.exists_run (h : g.Represents (definitions modules))
    (hs : g.Sound modules entryPoints s) {steps : Nat} (hsteps : s.remaining ≤ steps) :
    ∃ t, g.run steps s = some t ∧ g.Sound modules entryPoints t ∧ t.queue = [] := by
  induction steps generalizing s with
  | zero =>
      have hempty : s.queue.length = 0 := by
        rw [Search.remaining] at hsteps
        omega
      exact ⟨s, rfl, hs, List.length_eq_zero_iff.1 hempty⟩
  | succ steps ih =>
      by_cases hqueue : s.queue = []
      · exact ⟨s, run_of_queue_eq_nil hqueue _, hs, hqueue⟩
      · obtain ⟨t, hstep, ht, hless⟩ := hs.exists_step h hqueue
        obtain ⟨u, hrun, hu⟩ := ih ht (by omega)
        refine ⟨u, ?_, hu⟩
        unfold run
        rw [hstep]
        exact hrun

/-- Where nothing is left to look at, exactly the live keys were seen. -/
theorem Sound.sees_iff (h : g.Represents (definitions modules)) (hs : g.Sound modules entryPoints s)
    (hqueue : s.queue = []) {place : Nat} {key : Key} (hkey : g.vertices[place]? = some key) :
    s.Sees place ↔ Live modules entryPoints key := by
  refine ⟨hs.live place key hkey, fun hlive => ?_⟩
  have hvertex : ∀ key, IsDeclared modules key → ∃ place, g.vertices[place]? = some key :=
    fun key hdeclared => List.mem_iff_getElem?.1 ((h.mem_iff key).2 (mem_keys_iff.2 hdeclared))
  -- With an empty queue the seen keys are closed under dependencies, and the live keys are the
  -- least such set.
  have hholds : HoldsLive modules entryPoints
      {key | ∃ place, g.vertices[place]? = some key ∧ s.Sees place} := by
    refine ⟨fun root hdeclared hexported howner => ?_, ?_⟩
    · obtain ⟨place, hplace⟩ := hvertex root hdeclared
      exact ⟨place, hplace, hs.roots place root hplace hexported howner⟩
    · rintro source ⟨place, hplace, hsees⟩ dependencies hdeclares dependency hmem hdeclared
      obtain ⟨target, htarget⟩ := hvertex dependency hdeclared
      have hedge : target ∈ targetsOf g.vertices (definitions modules) source :=
        h.mem_targetsOf_iff.2
          ⟨dependency, mem_dependenciesOf.2 ⟨dependencies, hdeclares, hmem⟩, htarget⟩
      have hout : place ∉ s.queue := hqueue ▸ List.not_mem_nil
      exact ⟨target, htarget,
        hs.closed place hsees hout _ (h.edges_getElem? hplace) target hedge⟩
  obtain ⟨other, hother, hsees⟩ := isLeast_live.2 hholds hlive
  have hlt : other < g.vertices.length := lt_length_of_getElem? hother
  have hsame : other = place := (List.getElem?_inj hlt h.nodup).1 (hother.trans hkey.symm)
  exact hsame ▸ hsees

/-- The keys that were seen. -/
def seenKeys (visited : List Bool) (numbered : List (Key × Nat)) : List Key :=
  (numbered.filter fun entry => visited[entry.2]? = some true).map (·.1)

/-- A key has one number, so it is seen once. -/
theorem Numbers.nodup_seenKeys (h : g.Numbers defs) (visited : List Bool) :
    (seenKeys visited g.vertices.zipIdx).Nodup := by
  have hkeys : (g.vertices.zipIdx.map (·.1)).Nodup := by
    rw [List.zipIdx_map_fst]
    exact h.nodup
  exact hkeys.sublist (List.filter_sublist.map _)

/-- The keys that were seen and their references can be collected. -/
theorem Represents.foldlM_collectVertex (h : g.Represents defs) {visited : List Bool}
    (hlength : visited.length = g.vertices.length) {numbered : List (Key × Nat)}
    (hnumbered : ∀ key place, (key, place) ∈ numbered → g.vertices[place]? = some key)
    (r : Reachability) :
    numbered.foldlM (g.collectVertex visited) r =
      some ⟨r.live ++ seenKeys visited numbered, r.references ++
        (seenKeys visited numbered).flatMap (Reachability.referencesOf defs)⟩ := by
  induction numbered generalizing r with
  | nil => simp [seenKeys]
  | cons first numbered ih =>
      obtain ⟨key, place⟩ := first
      have hkey : g.vertices[place]? = some key := hnumbered key place List.mem_cons_self
      have hrest := ih fun key place hmem => hnumbered key place (.tail _ hmem)
      have hlt : place < visited.length := hlength ▸ lt_length_of_getElem? hkey
      have hdependencies : g.dependencies[place]? = some (dependenciesOf defs key) := by
        rw [h.dependencies_eq, List.getElem?_map, hkey, Option.map_some]
      rw [List.foldlM_cons, collectVertex]
      cases hseen : visited[place]? with
      | none => exact absurd (List.getElem?_eq_none_iff.1 hseen) (Nat.not_le.2 hlt)
      | some seen =>
          cases seen with
          | true =>
              have hkeys : seenKeys visited ((key, place) :: numbered) =
                  key :: seenKeys visited numbered := by simp [seenKeys, hseen]
              simp only [Option.bind_eq_bind, Option.bind_some, if_true, hdependencies,
                Option.pure_def, hrest, hkeys]
              simp [Reachability.referencesOf]
          | false =>
              have hkeys : seenKeys visited ((key, place) :: numbered) =
                  seenKeys visited numbered := by simp [seenKeys, hseen]
              rw [hkeys]
              exact hrest r

/-- What is reachable from the public keys of the entry points. -/
def reachable (g : NumberedGraph) (entryPoints : List ModuleId) : Option Reachability := do
  let s ← g.start entryPoints
  let s ← g.run g.vertices.length s
  g.vertices.zipIdx.foldlM (g.collectVertex s.visited) {}

/-- Searching by numbers finds what is live, each key once, and no look at a list fails. -/
theorem exists_reachable (modules : List Module) (entryPoints : List ModuleId) :
    ∃ g r, build (definitions modules) = some g ∧ g.reachable entryPoints = some r ∧
      r.isLive = (Reachability.compute (definitions modules) entryPoints).isLive ∧
      r.liveCount = (Reachability.compute (definitions modules) entryPoints).liveCount ∧
      r.isReferenced = (Reachability.compute (definitions modules) entryPoints).isReferenced := by
  obtain ⟨g, hbuild, hg⟩ := exists_build (definitions modules)
  obtain ⟨s, hstart, hs, hremaining⟩ := hg.exists_start entryPoints
  obtain ⟨t, hrun, ht, hqueue⟩ := hs.exists_run hg (Nat.le_of_eq hremaining)
  have hnumbered : ∀ key place, (key, place) ∈ g.vertices.zipIdx → g.vertices[place]? = some key :=
    fun key place hmem => List.mk_mem_zipIdx_iff_getElem?.1 hmem
  have hcollect := hg.foldlM_collectVertex ht.length_eq hnumbered {}
  -- The two searches find their keys in different orders: both results are compared as sets.
  have hlive : ∀ key, key ∈ seenKeys t.visited g.vertices.zipIdx ↔
      key ∈ (Reachability.compute (definitions modules) entryPoints).live := by
    intro key
    rw [mem_live_iff]
    simp only [seenKeys, List.mem_map, List.mem_filter, decide_eq_true_eq]
    constructor
    · rintro ⟨⟨_, place⟩, ⟨hmem, hsees⟩, rfl⟩
      exact (ht.sees_iff hg hqueue (List.mk_mem_zipIdx_iff_getElem?.1 hmem)).1 hsees
    · intro hlive
      have hvertex : key ∈ g.vertices := (hg.mem_iff key).2 (mem_keys_iff.2 hlive.isDeclared)
      obtain ⟨place, hplace⟩ := List.mem_iff_getElem?.1 hvertex
      exact ⟨(key, place), ⟨List.mk_mem_zipIdx_iff_getElem?.2 hplace,
        (ht.sees_iff hg hqueue hplace).2 hlive⟩, rfl⟩
  have hreachable : g.reachable entryPoints =
      g.vertices.zipIdx.foldlM (g.collectVertex t.visited) {} := by
    unfold reachable
    simp only [hstart, Option.bind_eq_bind, Option.bind_some, hrun]
  refine ⟨g, _, hbuild, hreachable.trans hcollect, funext fun key => ?_, ?_,
    funext fun source => funext fun target => ?_⟩
  · rw [Bool.eq_iff_iff]
    simp only [Reachability.isLive, List.nil_append, List.contains_iff_mem, hlive]
  · have hnodup := hg.nodup_seenKeys t.visited
    exact ((List.perm_ext_iff_of_nodup hnodup nodup_live).2 hlive).length_eq
  · rw [Bool.eq_iff_iff]
    simp only [Reachability.isReferenced, Reachability.compute, List.nil_append,
      List.contains_iff_mem, mem_distinct, List.mem_flatMap, hlive]

end NumberedGraph

end ModuleLinker
