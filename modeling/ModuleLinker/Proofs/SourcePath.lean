/-
# ModuleLinker.Proofs.SourcePath -- a source path leads back to the module

A source path is read from the directory of the program: a name goes one step down, two points go
one step up, and a single point stays (`follow`). The text of a path can be read back step by step
(`named_components_text`), and the steps of `relativeTo` climb from the directory to the part that
it shares with the file and go down to the file from there (`exists_relativeTo`).

Paths may be written with a point in front. Where only that of the program is, the first step of the
file is taken before the steps that climb, and it is lost again when they climb over it: the path
`Strays`, unless there is nothing to climb or the lost step is the one that should have been kept.
`follow_sourcePath_iff` says that these are all the paths that do not lead back.
-/

import Mathlib.Data.List.Basic
import Mathlib.Data.List.Induction
import ModuleLinker.Path.Component

namespace ModuleLinker.Path

/-! ## Following steps -/

/-- The steps without the points among them. -/
def named (steps : List Component) : List Component := steps.filter (· ≠ .current)

/-- The place one step further. A step up takes off the step before it, and nothing is above the
root. -/
def walk (place : List Component) : Component → List Component
  | .root => [.root]
  | .current => place
  | .parent =>
    match place.getLast? with
    | some (.normal _) => place.dropLast
    | some .root => place
    | _ => place ++ [.parent]
  | .normal name => place ++ [.normal name]

/-- The place that some steps lead to. -/
def follow (place steps : List Component) : List Component := steps.foldl walk place

/-- The steps go down only. -/
def Descends (steps : List Component) : Prop := ∀ step ∈ steps, ∃ name, step = .normal name

theorem follow_append (place steps others : List Component) :
    follow place (steps ++ others) = follow (follow place steps) others :=
  List.foldl_append

/-- The points among the steps lead nowhere. -/
theorem follow_named (place steps : List Component) :
    follow place (named steps) = follow place steps := by
  induction steps generalizing place with
  | nil => rfl
  | cons step steps ih =>
      by_cases hpoint : step = .current
      · subst hpoint
        exact ih place
      · have hkept : named (step :: steps) = step :: named steps :=
          List.filter_cons_of_pos (by simpa using hpoint)
        rw [hkept]
        exact ih (walk place step)

theorem named_of_descends {steps : List Component} (h : Descends steps) : named steps = steps := by
  apply List.filter_eq_self.2
  intro step hstep
  obtain ⟨name, rfl⟩ := h step hstep
  simp

theorem isAbsolute_of_descends {steps : List Component} (h : Descends steps) :
    isAbsolute steps = false := by
  apply decide_eq_false
  intro hroot
  obtain ⟨name, hname⟩ := h .root (List.mem_of_head? hroot)
  cases hname

theorem follow_of_descends {steps : List Component} (h : Descends steps) (place : List Component) :
    follow place steps = place ++ steps := by
  induction steps generalizing place with
  | nil => simp [follow]
  | cons step steps ih =>
      obtain ⟨⟨name, rfl⟩, hsteps⟩ := List.forall_mem_cons.1 h
      show follow (place ++ [.normal name]) steps = _
      rw [ih hsteps, List.append_assoc, List.singleton_append]

/-- One step up for every step down leads back. -/
theorem follow_replicate_parent {steps : List Component} (h : Descends steps)
    (place : List Component) :
    follow (place ++ steps) (List.replicate steps.length .parent) = place := by
  induction steps using List.reverseRecOn with
  | nil => simp [follow]
  | append_singleton steps last ih =>
      obtain ⟨hsteps, hlast⟩ := List.forall_mem_append.1 h
      obtain ⟨name, rfl⟩ := hlast last List.mem_cons_self
      have hup : walk (place ++ (steps ++ [.normal name])) .parent = place ++ steps := by
        rw [← List.append_assoc]
        simp [walk]
      rw [List.length_append, List.length_singleton, List.replicate_succ]
      show follow (walk (place ++ (steps ++ [.normal name])) .parent) _ = place
      rw [hup]
      exact ih hsteps

/-! ## From a directory to a file -/

theorem climb_eq {base : List Component} (h : Descends base) (path : List Component) :
    climb path base = some (List.replicate base.length .parent ++ path) := by
  have hhead : base.head? ≠ some .parent := by
    intro hparent
    obtain ⟨name, hname⟩ := h .parent (List.mem_of_head? hparent)
    cases hname
  rw [climb, if_neg fun hup => hhead hup.1, List.map_const']

/-- Out of a directory below a place, and down to the file below the same place. -/
theorem exists_relativeTo {base path : List Component} (hbase : Descends base)
    (hpath : Descends (named path)) (place : List Component) :
    ∃ steps, relativeTo path base = some steps ∧
      follow (place ++ base) steps = place ++ named path := by
  -- what both begin with becomes part of the place
  induction base generalizing place path with
  | nil =>
      refine ⟨path, ?_, ?_⟩
      · rw [relativeTo, climb_eq hbase]
        · rfl
        · intro _ _ _ _ _ hnil
          cases hnil
      · rw [List.append_nil, ← follow_named, follow_of_descends hpath]
  | cons b base ih =>
      obtain ⟨⟨name, rfl⟩, hbelow⟩ := List.forall_mem_cons.1 hbase
      have hclimb : ∀ path, Descends (named path) →
          follow (place ++ .normal name :: base)
            (List.replicate (Component.normal name :: base).length .parent ++ path) =
              place ++ named path := by
        intro path hpath
        rw [follow_append, follow_replicate_parent hbase, ← follow_named, follow_of_descends hpath]
      cases path with
      | nil => exact ⟨_, climb_eq hbase [], hclimb [] hpath⟩
      | cons a path =>
          by_cases hsame : a = .normal name
          · subst hsame
            have hrest : Descends (named path) := (List.forall_mem_cons.1 hpath).2
            obtain ⟨steps, hsteps, hleads⟩ := ih hbelow hrest (place ++ [.normal name])
            refine ⟨steps, ?_, ?_⟩
            · rw [relativeTo, if_pos rfl]
              exact hsteps
            · simpa [named] using hleads
          · refine ⟨_, ?_, hclimb (a :: path) hpath⟩
            rw [relativeTo, if_neg hsame, if_neg (by simp)]
            exact climb_eq hbase (a :: path)

theorem mem_of_climb {path base steps : List Component} (h : climb path base = some steps) :
    ∀ step ∈ steps, step = .parent ∨ step ∈ path := by
  unfold climb at h
  split at h
  · cases h
  · obtain rfl := Option.some.inj h
    intro step hstep
    rcases List.mem_append.1 hstep with hup | hdown
    · obtain ⟨_, -, rfl⟩ := List.mem_map.1 hup
      exact .inl rfl
    · exact .inr hdown

/-- The steps from a directory to a file go up, or they are steps of the file. -/
theorem mem_of_relativeTo {path base steps : List Component}
    (h : relativeTo path base = some steps) : ∀ step ∈ steps, step = .parent ∨ step ∈ path := by
  fun_induction relativeTo path base generalizing steps with
  | case1 path b base ih =>
      intro step hstep
      exact (ih h step hstep).imp_right (List.mem_cons_of_mem b)
  | case2 a path base hne =>
      obtain ⟨others, hothers, rfl⟩ := Option.map_eq_some_iff.1 h
      intro step hstep
      rcases List.mem_cons.1 hstep with rfl | hstep
      · exact .inr List.mem_cons_self
      · exact (mem_of_climb hothers step hstep).imp_right (List.mem_cons_of_mem a)
  | case3 => exact mem_of_climb h
  | case4 => exact mem_of_climb h

/-- A path that leads down from the root, from a point, or from where it is read. -/
inductive LeadsDown : List Component → Prop
  | here {steps : List Component} : Descends steps → LeadsDown steps
  | root {steps : List Component} : Descends steps → LeadsDown (.root :: steps)
  | point {steps : List Component} : Descends steps → LeadsDown (.current :: steps)

/-- Only the directory is written with a point in front, so that the first step of the file comes
before those that climb out of the directory: the topmost step of the directory is left where the
first step of the file should be. -/
def Strays (path base : List Component) : Prop :=
  ∃ below, base = .current :: below ∧ path.head? ≠ some .current ∧
    (path = [] ∨ below ≠ [] ∧ below.head? ≠ path.head?)

theorem strays_point_iff {path below : List Component} :
    Strays path (.current :: below) ↔ path.head? ≠ some .current ∧
      (path = [] ∨ below ≠ [] ∧ below.head? ≠ path.head?) := by
  simp [Strays]

theorem follow_relativeTo_point {path below : List Component} (hpath : Descends path)
    (hbelow : Descends below) :
    ∃ steps, relativeTo path (.current :: below) = some steps ∧
      (follow below steps = path ↔ path ≠ [] ∧ (below = [] ∨ below.head? = path.head?)) := by
  cases path with
  | nil =>
      -- one step more goes up than the directory has below the point
      refine ⟨List.replicate (below.length + 1) .parent, ?_, ?_⟩
      · simp [relativeTo, climb, List.replicate_succ, List.map_const']
      · have hback : follow below (List.replicate below.length .parent) = [] :=
          follow_replicate_parent hbelow []
        have hout : follow below (List.replicate (below.length + 1) .parent) = [.parent] := by
          rw [List.replicate_succ', follow_append, hback]
          rfl
        simp [hout]
  | cons a path =>
      obtain ⟨⟨name, rfl⟩, hrest⟩ := List.forall_mem_cons.1 hpath
      refine ⟨.normal name :: (List.replicate below.length .parent ++ path), ?_, ?_⟩
      · simp [relativeTo, climb_eq hbelow]
      · show follow (below ++ [.normal name]) _ = _ ↔ _
        rw [follow_append]
        cases below with
        | nil =>
            have hdown : follow [.normal name] path = .normal name :: path :=
              follow_of_descends hrest [.normal name]
            have hstay : follow [.normal name] [] = [.normal name] := rfl
            simp [hstay, hdown]
        | cons b below =>
            -- as many steps go up as there are behind the first one
            have hbehind : Descends (below ++ [.normal name]) :=
              List.forall_mem_append.2
                ⟨(List.forall_mem_cons.1 hbelow).2, by simp⟩
            have hback := follow_replicate_parent hbehind [b]
            rw [List.length_append] at hback
            have hfirst : follow (b :: below ++ [.normal name])
                (List.replicate (b :: below).length .parent) = [b] := hback
            rw [hfirst, follow_of_descends hrest]
            simp

theorem root_notMem_of_relativeTo {path base steps : List Component}
    (hpath : Descends (named path)) (h : relativeTo path base = some steps) : .root ∉ steps := by
  intro hroot
  rcases mem_of_relativeTo h .root hroot with hup | hdown
  · cases hup
  · obtain ⟨name, hname⟩ := hpath .root (List.mem_filter.2 ⟨hdown, by simp⟩)
    cases hname

/-- The steps to a file lead there from the directory, unless they stray. -/
theorem follow_relativeTo_iff {path base : List Component} (hpath : LeadsDown path)
    (hbase : LeadsDown base) (hroot : isAbsolute path = isAbsolute base) :
    ∃ steps, relativeTo path base = some steps ∧ .root ∉ steps ∧
      (follow (named base) steps = named path ↔ ¬ Strays path base) := by
  cases hbase with
  -- A base without a root or a point in front: no path strays from it.
  | @here base hbase =>
      have hkept : ¬ Strays path base := by
        rintro ⟨below, rfl, -⟩
        obtain ⟨name, hname⟩ := hbase .current List.mem_cons_self
        cases hname
      have hdown : Descends (named path) := by
        cases hpath with
        | here hpath => rwa [named_of_descends hpath]
        | point hpath => exact (named_of_descends hpath).symm ▸ hpath
        | root hpath =>
          exact absurd (hroot.trans (isAbsolute_of_descends hbase)) (by simp [isAbsolute])
      obtain ⟨steps, hsteps, hleads⟩ := exists_relativeTo hbase hdown []
      refine ⟨steps, hsteps, root_notMem_of_relativeTo hdown hsteps, iff_of_true ?_ hkept⟩
      rw [named_of_descends hbase]
      exact hleads
  -- A base at the root: the path begins there, too, and the common root is passed first.
  | @root below hbelow =>
      have hkept : ¬ Strays path (.root :: below) := by
        rintro ⟨_, hpoint, -⟩
        cases hpoint
      cases hpath with
      | here hpath =>
        exact absurd (hroot.symm.trans (isAbsolute_of_descends hpath)) (by simp [isAbsolute])
      | point hpath => exact absurd hroot (by simp [isAbsolute])
      | @root path hpath =>
          have hdown : Descends (named path) := by rwa [named_of_descends hpath]
          obtain ⟨steps, hsteps, hleads⟩ := exists_relativeTo hbelow hdown [.root]
          refine ⟨steps, ?_, root_notMem_of_relativeTo hdown hsteps, iff_of_true ?_ hkept⟩
          · rw [relativeTo, if_pos rfl]
            exact hsteps
          · show follow (.root :: named below) steps = .root :: named path
            rw [named_of_descends hbelow]
            exact hleads
  -- A base that begins with a point: the point is compared as a step, though it leads nowhere.
  | @point below hbelow =>
      have hbase : named (.current :: below) = below := named_of_descends hbelow
      cases hpath with
      | root hpath => exact absurd hroot (by simp [isAbsolute])
      | @point path hpath =>
          have hdown : Descends (named path) := by rwa [named_of_descends hpath]
          obtain ⟨steps, hsteps, hleads⟩ := exists_relativeTo hbelow hdown []
          refine ⟨steps, ?_, root_notMem_of_relativeTo hdown hsteps, iff_of_true ?_ ?_⟩
          · rw [relativeTo, if_pos rfl]
            exact hsteps
          · rw [hbase]
            exact hleads
          · rw [strays_point_iff]
            intro hstrays
            exact hstrays.1 rfl
      | here hpath =>
          have hdown : Descends (named path) := by rwa [named_of_descends hpath]
          have hplain : path.head? ≠ some .current := by
            intro hpoint
            obtain ⟨name, hname⟩ := hpath .current (List.mem_of_head? hpoint)
            cases hname
          obtain ⟨steps, hsteps, hleads⟩ := follow_relativeTo_point hpath hbelow
          refine ⟨steps, hsteps, root_notMem_of_relativeTo hdown hsteps, ?_⟩
          rw [hbase, named_of_descends hpath, hleads, strays_point_iff]
          tauto

/-! ## Reading a path -/

theorem segments_eq_singleton {segment : List Char} (h : '/' ∉ segment) :
    segments segment = [segment] := by
  induction segment with
  | nil => rfl
  | cons c segment ih =>
      obtain ⟨hc, hrest⟩ := not_or.1 (mt List.mem_cons.2 h)
      rw [segments, if_neg (Ne.symm hc), ih hrest]

theorem segments_append {segment : List Char} (h : '/' ∉ segment) (below : List Char) :
    segments (segment ++ '/' :: below) = segment :: segments below := by
  induction segment with
  | nil => simp [segments]
  | cons c segment ih =>
      obtain ⟨hc, hrest⟩ := not_or.1 (mt List.mem_cons.2 h)
      rw [List.cons_append, segments, if_neg (Ne.symm hc), ih hrest]

theorem exists_segments_eq_cons (path : List Char) :
    ∃ first rest, segments path = first :: rest := by
  cases path with
  | nil => exact ⟨_, _, rfl⟩
  | cons c path =>
      unfold segments
      split
      · exact ⟨_, _, rfl⟩
      · split <;> exact ⟨_, _, rfl⟩

/-- The characters of a segment are characters of the path, and none of them is a slash. -/
theorem mem_of_mem_segments {path segment : List Char} (h : segment ∈ segments path) :
    '/' ∉ segment ∧ segment ⊆ path := by
  induction path generalizing segment with
  | nil => simp_all [segments]
  | cons c path ih =>
      obtain ⟨first, rest, hsegments⟩ := exists_segments_eq_cons path
      rw [segments, hsegments] at h
      rw [hsegments] at ih
      split at h
      · rcases List.mem_cons.1 h with rfl | h
        · simp
        · exact (ih h).imp_right (List.subset_cons_of_subset c)
      · next hc =>
        rcases List.mem_cons.1 h with rfl | h
        · obtain ⟨hslash, hsubset⟩ := ih List.mem_cons_self
          refine ⟨?_, List.cons_subset_cons c hsubset⟩
          rw [List.mem_cons, not_or]
          exact ⟨Ne.symm hc, hslash⟩
        · exact (ih (List.mem_cons_of_mem first h)).imp_right (List.subset_cons_of_subset c)

/-- The steps of a path, apart from the root or the point in front. -/
def innerSteps (path : String) : List Component := (segments path.toList).filterMap step?

theorem components_eq (path : String) :
    components path = innerSteps path ∨
      ((segments path.toList).head? = some [] ∧ components path = .root :: innerSteps path) ∨
      components path = .current :: innerSteps path := by
  obtain ⟨first, rest, hsegments⟩ := exists_segments_eq_cons path.toList
  unfold components innerSteps
  rw [hsegments]
  dsimp only
  split
  · next hfirst =>
    subst hfirst
    split
    · next hrest =>
      subst hrest
      exact .inl rfl
    · exact .inr (.inl ⟨rfl, rfl⟩)
  · split
    · next hfirst =>
      subst hfirst
      exact .inr (.inr rfl)
    · refine .inl ?_
      cases hstep : step? first <;> simp [hstep]

/-- Every step of a path is read off a segment of its text. -/
theorem step?_of_mem_innerSteps {path : String} {step : Component} (h : step ∈ innerSteps path) :
    ∃ segment, '/' ∉ segment ∧ segment ⊆ path.toList ∧ step? segment = some step := by
  obtain ⟨segment, hsegment, hstep⟩ := List.mem_filterMap.1 h
  obtain ⟨hslash, hsubset⟩ := mem_of_mem_segments hsegment
  exact ⟨segment, hslash, hsubset, hstep⟩

theorem step?_cases {segment : List Char} {step : Component} (h : step? segment = some step) :
    segment ≠ [] ∧ (step = .parent ∨ step = .normal (String.ofList segment)) := by
  unfold step? at h
  split at h
  · cases h
  · next hnamed =>
    refine ⟨fun hempty => hnamed (.inl hempty), ?_⟩
    split at h
    · exact .inl (Option.some.inj h).symm
    · exact .inr (Option.some.inj h).symm

/-- A path without steps up leads down. -/
theorem leadsDown_components {path : String} (h : .parent ∉ components path) :
    LeadsDown (components path) := by
  have hdescends : (∀ step ∈ innerSteps path, step ∈ components path) →
      Descends (innerSteps path) := by
    intro hsteps step hstep
    obtain ⟨segment, -, -, hread⟩ := step?_of_mem_innerSteps hstep
    rcases (step?_cases hread).2 with rfl | rfl
    · exact absurd (hsteps .parent hstep) h
    · exact ⟨_, rfl⟩
  rcases components_eq path with heq | ⟨-, heq⟩ | heq
  · rw [heq] at hdescends ⊢
    exact .here (hdescends fun _ hstep => hstep)
  · rw [heq] at hdescends ⊢
    exact .root (hdescends fun _ hstep => List.mem_cons_of_mem _ hstep)
  · rw [heq] at hdescends ⊢
    exact .point (hdescends fun _ hstep => List.mem_cons_of_mem _ hstep)

/-- The directory of a path that leads down leads down. -/
theorem LeadsDown.directory {path : List Component} (h : LeadsDown path) :
    LeadsDown (directory path) := by
  have hshorter : ∀ {steps : List Component}, Descends steps → Descends steps.dropLast :=
    fun hsteps step hstep => hsteps step ((List.dropLast_sublist _).subset hstep)
  have hnone : LeadsDown [] := .here (by simp [Descends])
  unfold Path.directory
  split
  · exact hnone
  · cases h with
    | here hsteps => exact .here (hshorter hsteps)
    | @root steps hsteps =>
        cases steps with
        | nil => exact hnone
        | cons => exact .root (hshorter hsteps)
    | @point steps hsteps =>
        cases steps with
        | nil => exact hnone
        | cons => exact .point (hshorter hsteps)

/-! ## Reading back what was written -/

/-- The text of the step stands for the step alone, and a point for none. -/
def Component.ReadsBack (step : Component) : Prop :=
  '/' ∉ step.text.toList ∧
    step? step.text.toList = if step = .current then none else some step

theorem segments_text {steps : List Component} (hne : steps ≠ [])
    (h : ∀ step ∈ steps, step.ReadsBack) :
    segments (text steps).toList = steps.map (·.text.toList) := by
  induction steps with
  | nil => exact absurd rfl hne
  | cons step steps ih =>
      obtain ⟨⟨hslash, -⟩, hsteps⟩ := List.forall_mem_cons.1 h
      cases steps with
      | nil => exact segments_eq_singleton hslash
      | cons next steps =>
          -- The root does not read back as a segment: every step has a slash of its own behind it.
          have hroot : step ≠ .root := by
            rintro rfl
            exact hslash (by decide)
          have htext : text (step :: next :: steps) = step.text ++ "/" ++ text (next :: steps) := by
            cases step with
            | root => exact absurd rfl hroot
            | _ => rfl
          have hchars : (text (step :: next :: steps)).toList =
              step.text.toList ++ '/' :: (text (next :: steps)).toList := by
            simp [htext]
          rw [hchars, segments_append hslash, ih (List.cons_ne_nil _ _) hsteps]
          rfl

/-- The steps of a written path are those that were written, points apart. -/
theorem named_components_text {steps : List Component} (h : ∀ step ∈ steps, step.ReadsBack) :
    named (components (text steps)) = named steps := by
  -- The steps of the text are those of the path but for the points, which are read as nothing.
  have hread : Path.innerSteps (text steps) = named steps := by
    cases steps with
    | nil => rfl
    | cons step rest =>
        rw [Path.innerSteps, segments_text (List.cons_ne_nil _ _) h, List.filterMap_map, named,
          ← List.filterMap_eq_filter]
        apply List.filterMap_congr
        intro other hother
        have hback := (h other hother).2
        by_cases hpoint : other = .current
        · simpa [hpoint, Option.guard] using hback
        · simpa [hpoint, Option.guard] using hback
  have hpoints : named (Path.innerSteps (text steps)) = Path.innerSteps (text steps) := by
    rw [hread]
    simp [named]
  rcases components_eq (text steps) with heq | ⟨hfirst, -⟩ | heq
  · rw [heq, hpoints, hread]
  · -- no step is written as nothing
    cases steps with
    | nil => rfl
    | cons step rest =>
        have hempty : step.text.toList = [] := by
          rw [segments_text (List.cons_ne_nil _ _) h] at hfirst
          simpa using hfirst
        have hback := (h step List.mem_cons_self).2
        rw [hempty] at hback
        have hpoint : step = .current := by
          by_contra hpoint
          rw [if_neg hpoint] at hback
          cases hback
        rw [hpoint] at hempty
        exact absurd hempty (by decide)
  · rw [heq]
    exact hpoints.trans hread

theorem mem_toList_text {steps : List Component} {c : Char} (h : c ∈ (text steps).toList) :
    c = '/' ∨ ∃ step ∈ steps, c ∈ step.text.toList := by
  fun_induction text steps with
  | case1 => simp at h
  | case2 step => exact .inr ⟨step, List.mem_cons_self, h⟩
  | case3 steps _ ih =>
      rw [String.toList_append, List.mem_append] at h
      rcases h with h | h
      · exact .inl (by simpa using h)
      · exact (ih h).imp_right fun ⟨other, hother, hc⟩ => ⟨other, List.mem_cons_of_mem _ hother, hc⟩
  | case4 step steps _ _ ih =>
      rw [String.toList_append, String.toList_append, List.mem_append, List.mem_append] at h
      rcases h with (h | h) | h
      · exact .inr ⟨step, List.mem_cons_self, h⟩
      · exact .inl (by simpa using h)
      · exact (ih h).imp_right fun ⟨other, hother, hc⟩ => ⟨other, List.mem_cons_of_mem _ hother, hc⟩

theorem readsBack_current : Component.current.ReadsBack := by
  unfold Component.ReadsBack
  decide

theorem readsBack_parent : Component.parent.ReadsBack := by
  unfold Component.ReadsBack
  decide

/-- A step of a path can be read back, and its text stands in the path. -/
theorem readsBack_of_mem_components {path : String} {step : Component}
    (h : step ∈ components path) (hroot : step ≠ .root) :
    step.ReadsBack ∧ ∀ c ∈ step.text.toList, c = '.' ∨ c ∈ path.toList := by
  have hsteps : ∀ step ∈ innerSteps path, step.ReadsBack ∧
      ∀ c ∈ step.text.toList, c = '.' ∨ c ∈ path.toList := by
    intro step hstep
    obtain ⟨segment, hslash, hsubset, hread⟩ := step?_of_mem_innerSteps hstep
    rcases (step?_cases hread).2 with rfl | rfl
    · refine ⟨readsBack_parent, fun c hc => .inl ?_⟩
      simpa [Component.text] using hc
    · simp only [Component.ReadsBack, Component.text, String.toList_ofList]
      exact ⟨⟨hslash, by simpa using hread⟩, fun c hc => .inr (hsubset hc)⟩
  have hpoint : Component.current.ReadsBack ∧
      ∀ c ∈ Component.current.text.toList, c = '.' ∨ c ∈ path.toList := by
    refine ⟨readsBack_current, fun c hc => .inl ?_⟩
    simpa [Component.text] using hc
  rcases components_eq path with heq | ⟨-, heq⟩ | heq
  · exact hsteps step (heq ▸ h)
  · rw [heq] at h
    exact hsteps step ((List.mem_cons.1 h).resolve_left hroot)
  · rw [heq] at h
    rcases List.mem_cons.1 h with rfl | h
    · exact hpoint
    · exact hsteps step h

/-! ## Source paths -/

/-- A directory begins where its path begins, unless it has no steps. -/
theorem directory_eq_nil {path : List Component}
    (h : isAbsolute (directory path) ≠ isAbsolute path) : directory path = [] := by
  cases path with
  | nil => rfl
  | cons a path =>
      cases path with
      | nil => cases a <;> rfl
      | cons b path =>
          by_cases hlast : (a :: b :: path).getLast? = some .root
          · simp [directory, hlast]
          · have hdropped : directory (a :: b :: path) = a :: (b :: path).dropLast := by
              unfold directory
              split
              · next heq => exact absurd heq hlast
              · rfl
            rw [hdropped] at h
            exact absurd rfl h

theorem map_slash_eq_self {path : String} (h : '\\' ∉ path.toList) :
    path.map (fun c => if c = '\\' then '/' else c) = path := by
  rw [← String.toList_inj, String.toList_map]
  calc path.toList.map (fun c => if c = '\\' then '/' else c)
      = path.toList.map id := by
        apply List.map_congr_left
        intro c hc
        exact if_neg fun heq : c = '\\' => h (heq ▸ hc)
    _ = path.toList := List.map_id _

/-- From the directory of the program, the source path of a file leads to the file, unless the file
and the directory are written so that it strays. -/
theorem follow_sourcePath_iff {file output : String}
    (hroot : isAbsolute (components file) = isAbsolute (components output))
    (hfile : .parent ∉ components file) (houtput : .parent ∉ components output)
    (hslash : '\\' ∉ file.toList) :
    follow (named (directory (components output))) (components (sourcePath file output)) =
        named (components file) ↔
      ¬ Strays (components file) (directory (components output)) := by
  have hpath : LeadsDown (components file) := leadsDown_components hfile
  have hbase : LeadsDown (directory (components output)) := (leadsDown_components houtput).directory
  unfold sourcePath
  dsimp only
  by_cases hsame : isAbsolute (components file) = isAbsolute (directory (components output))
  · obtain ⟨steps, hsteps, hnoroot, hleads⟩ := follow_relativeTo_iff hpath hbase hsame
    have hread : ∀ step ∈ steps, step.ReadsBack ∧
        ∀ c ∈ step.text.toList, c = '.' ∨ c ∈ file.toList := by
      intro step hstep
      rcases mem_of_relativeTo hsteps step hstep with rfl | hmem
      · refine ⟨readsBack_parent, fun c hc => .inl ?_⟩
        simpa [Component.text] using hc
      · exact readsBack_of_mem_components hmem fun heq => hnoroot (heq ▸ hstep)
    have hplain : '\\' ∉ (text steps).toList := by
      intro hmem
      rcases mem_toList_text hmem with heq | ⟨step, hstep, hc⟩
      · exact absurd heq (by decide)
      · rcases (hread step hstep).2 _ hc with heq | hmem
        · exact absurd heq (by decide)
        · exact hslash hmem
    rw [if_pos hsame, hsteps, Option.map_some, Option.getD_some, map_slash_eq_self hplain,
      ← follow_named, named_components_text fun step hstep => (hread step hstep).1, follow_named]
    exact hleads
  · -- only the root itself has a directory that does not begin at the root
    have hempty : directory (components output) = [] :=
      directory_eq_nil (fun heq => hsame (hroot.trans heq.symm))
    rw [if_neg hsame, Option.getD_none, map_slash_eq_self hslash]
    rw [hempty] at hsame ⊢
    have hkept : ¬ Strays (components file) [] := by
      rintro ⟨_, hpoint, -⟩
      cases hpoint
    refine iff_of_true ?_ hkept
    generalize components file = path at hpath hsame
    cases hpath with
    | @root steps hsteps =>
        have hleads : follow [.root] steps = .root :: steps := follow_of_descends hsteps [.root]
        have hnamed : named (.root :: steps) = .root :: named steps := rfl
        rw [hnamed, named_of_descends hsteps]
        exact hleads
    | here hsteps => exact absurd (isAbsolute_of_descends hsteps) hsame
    | point => exact absurd rfl hsame

/-- A program below a point and a file beside its directory: the path climbs out of the directory
only behind the first step of the file, and leads to `dist/Main/index.js`. -/
theorem point_in_front_strays :
    isAbsolute (components "output/Main/index.js") = isAbsolute (components "./dist/app.js") ∧
      .parent ∉ components "output/Main/index.js" ∧ .parent ∉ components "./dist/app.js" ∧
      '\\' ∉ "output/Main/index.js".toList ∧
      sourcePath "output/Main/index.js" "./dist/app.js" = "output/../Main/index.js" ∧
      follow (named (directory (components "./dist/app.js")))
          (components (sourcePath "output/Main/index.js" "./dist/app.js")) ≠
        named (components "output/Main/index.js") := by
  have hroot : isAbsolute (components "output/Main/index.js") =
      isAbsolute (components "./dist/app.js") := by decide
  have hfile : .parent ∉ components "output/Main/index.js" := by decide
  have houtput : .parent ∉ components "./dist/app.js" := by decide
  have hslash : '\\' ∉ "output/Main/index.js".toList := by decide
  have hstrays : Strays (components "output/Main/index.js")
      (directory (components "./dist/app.js")) :=
    ⟨[.normal "dist"], by decide, by decide, .inr ⟨by decide, by decide⟩⟩
  refine ⟨hroot, hfile, houtput, hslash, by decide +kernel, fun hleads => ?_⟩
  exact (follow_sourcePath_iff hroot hfile houtput hslash).1 hleads hstrays

end ModuleLinker.Path
