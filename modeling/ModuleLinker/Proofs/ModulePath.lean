/-
# ModuleLinker.Proofs.ModulePath -- one naming convention, read twice

The directory of a module has the module's name, and the file in it tells the kind. This convention
is read in two places: off the path of a file, step by step (`ModuleId.ofPath`), and off a path that
a module requires, character by character (`RequireTarget.resolve`). `module_paths_agree` says what
the first reading accepts, in terms of the steps of a path and in terms of its text, and that the
second reading finds every module again that the first one has named.

The text of an accepted path may hold empty pieces and points between the name and the file and
behind the file. Nothing else is skipped: where a point, or two of them, stand in the place of the
name, there is no name.
-/

import ModuleLinker.Module.Location
import ModuleLinker.Proofs.SourcePath

namespace ModuleLinker

/-- The file of a module of this kind. -/
def ModuleKind.fileName : ModuleKind → String
  | .regular => "index.js"
  | .foreign => "foreign.js"

namespace Path

/-! ## Pieces of a path -/

/-- The piece stands for no step, unless it is the first one of the path. -/
def Idle (piece : List Char) : Prop := piece = [] ∨ piece = ['.']

/-- A directory or a file can have the name. -/
def IsName (text : String) : Prop :=
  '/' ∉ text.toList ∧ text ≠ "" ∧ text ≠ "." ∧ text ≠ ".."

/-- The text of the path, cut at its slashes, has the name of the directory as a piece and behind it
that of the file, with nothing but idle pieces between the two and behind the second. -/
def Spells (path directory file : String) : Prop :=
  ∃ front gap back : List (List Char),
    path.toList =
      ['/'].intercalate (front ++ directory.toList :: (gap ++ file.toList :: back)) ∧
    (∀ piece ∈ front, '/' ∉ piece) ∧ (∀ piece ∈ gap ++ back, Idle piece) ∧
    IsName directory ∧ IsName file

theorem Idle.slash_notMem {piece : List Char} (h : Idle piece) : '/' ∉ piece := by
  rcases h with rfl | rfl
  · simp
  · decide

theorem step?_eq_none_iff {piece : List Char} : step? piece = none ↔ Idle piece := by
  unfold step? Idle
  split
  · next h => simp [h]
  · next h => simp only [h, iff_false]; split <;> simp

/-- A piece stands for a name when it is that name. -/
theorem step?_eq_normal_iff {piece : List Char} {name : String} :
    step? piece = some (.normal name) ↔
      piece = name.toList ∧ name ≠ "" ∧ name ≠ "." ∧ name ≠ ".." := by
  have htext : ∀ text : String, piece = text.toList ↔ String.ofList piece = text := by
    intro text
    rw [← String.toList_inj, String.toList_ofList]
  have hnil : piece = [] ↔ String.ofList piece = "" := htext ""
  have hpoint : piece = ['.'] ↔ String.ofList piece = "." := htext "."
  have hpoints : piece = ['.', '.'] ↔ String.ofList piece = ".." := htext ".."
  simp only [step?, hnil, hpoint, hpoints, htext]
  generalize String.ofList piece = text
  by_cases hname : text = name
  · subst hname
    grind
  · grind

theorem segments_eq_splitOn (path : List Char) : segments path = path.splitOn '/' := by
  induction path with
  | nil => rfl
  | cons c path ih =>
      rw [segments, List.splitOn_cons_eq_if_modifyHead, ih]
      by_cases hc : c = '/'
      · simp [hc]
      · obtain ⟨first, rest, hsplit⟩ := exists_segments_eq_cons path
        rw [ih] at hsplit
        simp [hc, hsplit]

/-- What comes first in a path is no matter for the names at its end. -/
theorem ends_components_iff {path directory file : String} :
    (∃ front, components path = front ++ [.normal directory, .normal file]) ↔
      ∃ front, innerSteps path = front ++ [.normal directory, .normal file] := by
  -- the root or the point in front is itself no name
  have hopened : ∀ first : Component, (∀ name, first ≠ .normal name) →
      ((∃ front, first :: innerSteps path = front ++ [.normal directory, .normal file]) ↔
        ∃ front, innerSteps path = front ++ [.normal directory, .normal file]) := by
    intro first hfirst
    constructor
    · intro ⟨front, h⟩
      cases front with
      | nil => exact absurd (List.cons.inj h).1 (hfirst directory)
      | cons other front => exact ⟨front, (List.cons.inj h).2⟩
    · intro ⟨front, h⟩
      exact ⟨first :: front, by rw [h, List.cons_append]⟩
  rcases components_eq path with h | ⟨-, h⟩ | h
  · rw [h]
  · rw [h]
    exact hopened .root (by simp)
  · rw [h]
    exact hopened .current (by simp)

/-- Pieces without a slash are the pieces of the text that they make up between slashes. -/
theorem segments_of_pieces {path directory file : String} {front gap back : List (List Char)}
    (htext : path.toList =
      ['/'].intercalate (front ++ directory.toList :: (gap ++ file.toList :: back)))
    (hfront : ∀ piece ∈ front, '/' ∉ piece) (hidle : ∀ piece ∈ gap ++ back, Idle piece)
    (hdirectory : '/' ∉ directory.toList) (hfile : '/' ∉ file.toList) :
    segments path.toList = front ++ directory.toList :: (gap ++ file.toList :: back) := by
  rw [htext, segments_eq_splitOn]
  apply List.splitOn_intercalate
  · intro piece hpiece
    simp only [List.mem_append, List.mem_cons] at hpiece hidle
    rcases hpiece with hmem | rfl | hmem | rfl | hmem
    · exact hfront piece hmem
    · exact hdirectory
    · exact (hidle piece (.inl hmem)).slash_notMem
    · exact hfile
    · exact (hidle piece (.inr hmem)).slash_notMem
  · simp

theorem filterMap_step?_of_idle {pieces : List (List Char)} (h : ∀ piece ∈ pieces, Idle piece) :
    pieces.filterMap step? = [] :=
  List.filterMap_eq_nil_iff.2 fun piece hpiece => step?_eq_none_iff.2 (h piece hpiece)

/-- The steps of a path end with a directory and a file where its text does, up to idle pieces. -/
theorem ends_iff_spells {path directory file : String} :
    (∃ front, components path = front ++ [.normal directory, .normal file]) ↔
      Spells path directory file := by
  rw [ends_components_iff]
  unfold innerSteps Spells IsName
  constructor
  · intro ⟨steps, h⟩
    -- The two names come from two segments of the text; between them and behind them stand segments
    -- that are no steps.
    obtain ⟨front, rest, hcut, -, hrest⟩ := List.filterMap_eq_append_iff.1 h
    obtain ⟨idle, piece, rest, rfl, -, hdirectory, hrest⟩ := List.filterMap_eq_cons_iff.1 hrest
    obtain ⟨gap, piece', back, rfl, hgap, hfile, hback⟩ := List.filterMap_eq_cons_iff.1 hrest
    obtain ⟨rfl, hnamed⟩ := step?_eq_normal_iff.1 hdirectory
    obtain ⟨rfl, hnamed'⟩ := step?_eq_normal_iff.1 hfile
    have hslash : ∀ segment ∈ segments path.toList, '/' ∉ segment :=
      fun segment hsegment => (mem_of_mem_segments hsegment).1
    rw [hcut] at hslash
    refine ⟨front ++ idle, gap, back, ?_, ?_, ?_, ⟨?_, hnamed⟩, ?_, hnamed'⟩
    · rw [List.append_assoc, ← hcut, segments_eq_splitOn, List.intercalate_splitOn]
    · intro segment hsegment
      apply hslash
      rcases List.mem_append.1 hsegment with hmem | hmem
      · simp [hmem]
      · simp [hmem]
    · intro segment hsegment
      rw [← step?_eq_none_iff]
      rcases List.mem_append.1 hsegment with hmem | hmem
      · exact hgap segment hmem
      · exact List.filterMap_eq_nil_iff.1 hback segment hmem
    · exact hslash _ (by simp)
    · exact hslash _ (by simp)
  · intro ⟨front, gap, back, htext, hfront, hidle, ⟨hslash, hnamed⟩, hslash', hnamed'⟩
    have hgap := filterMap_step?_of_idle fun piece hpiece =>
      hidle piece (List.mem_append_left back hpiece)
    have hback := filterMap_step?_of_idle fun piece hpiece =>
      hidle piece (List.mem_append_right gap hpiece)
    have hdirectory : step? directory.toList = some (.normal directory) :=
      step?_eq_normal_iff.2 ⟨rfl, hnamed⟩
    have hfile : step? file.toList = some (.normal file) := step?_eq_normal_iff.2 ⟨rfl, hnamed'⟩
    refine ⟨front.filterMap step?, ?_⟩
    rw [segments_of_pieces htext hfront hidle hslash hslash']
    simp [hdirectory, hfile, hgap, hback]

theorem fileName?_eq_some_iff {steps : List Component} {name : String} :
    fileName? steps = some name ↔ ∃ front, steps = front ++ [.normal name] := by
  unfold fileName?
  rw [← List.getLast?_eq_some_iff]
  split
  · next other h => simp [h]
  · next h =>
    constructor
    · intro heq
      cases heq
    · intro heq
      exact absurd heq (h name)

end Path

/-! ## Paths of files -/

open ModuleLinker.Path

/-- A path is that of a module where its steps end with the name of the module and its file. -/
theorem ofPath_eq_ok_iff {path : String} {id : ModuleId} :
    ModuleId.ofPath path = .ok id ↔
      ∃ front, components path = front ++ [.normal id.name, .normal id.kind.fileName] := by
  have hends : ∀ name file, (∃ front, components path = front ++ [.normal name, .normal file]) ↔
      fileName? (components path) = some file ∧
        fileName? (components path).dropLast = some name := by
    intro name file
    simp only [fileName?_eq_some_iff]
    constructor
    · intro ⟨front, h⟩
      have hcut : components path = (front ++ [.normal name]) ++ [.normal file] := by
        rw [h, List.append_assoc, List.singleton_append]
      exact ⟨⟨_, hcut⟩, front, by rw [hcut, List.dropLast_concat]⟩
    · intro ⟨⟨front, h⟩, shorter, hshorter⟩
      rw [h, List.dropLast_concat] at hshorter
      exact ⟨shorter, by rw [h, hshorter, List.append_assoc, List.singleton_append]⟩
  rw [hends]
  unfold ModuleId.ofPath
  obtain ⟨name, kind⟩ := id
  dsimp only
  generalize fileName? (components path).dropLast = directory
  generalize fileName? (components path) = file
  -- the two known files are told apart by their names
  split
  · next kind' name' hkind =>
    split at hkind
    · obtain rfl := Option.some.inj hkind
      cases kind <;> simp [ModuleKind.fileName]
    · obtain rfl := Option.some.inj hkind
      cases kind <;> simp [ModuleKind.fileName]
    · cases hkind
  · next hnone =>
    refine iff_of_false (by simp) ?_
    intro ⟨hfile, hdirectory⟩
    subst hfile hdirectory
    cases kind with
    | regular => exact hnone .regular name rfl rfl
    | foreign => exact hnone .foreign name rfl rfl

/-- Any other path is refused as it was given. -/
theorem ofPath_eq_error_iff {path : String} {e : LinkError} :
    ModuleId.ofPath path = .error e ↔
      e = .unsupportedModulePath path ∧ ∀ id, ModuleId.ofPath path ≠ .ok id := by
  unfold ModuleId.ofPath
  dsimp only
  split
  · simp
  · simp [eq_comm]

/-! ## Required paths -/

namespace RequireTarget

theorem after?_append (beginning rest : List Char) :
    after? beginning (beginning ++ rest) = some rest := by
  induction beginning with
  | nil => rfl
  | cons c beginning ih => simpa [after?] using ih

theorem before?_append (ending front : List Char) :
    before? ending (front ++ ending) = some front := by
  simp [before?, after?_append]

/-- The name of a neighbour is what stands between the way up and the file, whatever it is. -/
theorem neighbour?_index (name : List Char) :
    neighbour? ("../".toList ++ (name ++ "/index.js".toList)) = some name := by
  rw [neighbour?, after?_append, Option.map_some, before?_append, Option.getD_some]

theorem resolve_index {name : String} {names : List String} (self : ModuleId) (h : name ∈ names) :
    resolve self names ("../" ++ name ++ "/index.js") = .resolved (.regular name) := by
  have hchars : ("../" ++ name ++ "/index.js").toList =
      "../".toList ++ (name.toList ++ "/index.js".toList) := by
    simp
  have hother : "../" ++ name ++ "/index.js" ≠ foreignPath := by
    intro heq
    have hfirst := congrArg String.toList heq
    rw [hchars] at hfirst
    -- the second characters of the two paths differ
    simp [foreignPath] at hfirst
  rw [resolve, if_neg hother, hchars, neighbour?_index]
  simp [h]

end RequireTarget

/-! ## Both readings -/

/-- A path is accepted where its steps end with a name and the file of a kind, and it is then the
path of the module of that name and kind; any other path is refused as it was given. That is so
exactly where the text of the path spells the name and the file. If it names a regular module, the
way to its file from a neighbour directory leads to that module wherever the name is known, and the
way to the foreign code beside it to the module that the path of this code names. -/
theorem module_paths_agree (path : String) :
    (∀ id, ModuleId.ofPath path = .ok id ↔
      ∃ front, components path = front ++ [.normal id.name, .normal id.kind.fileName]) ∧
    (∀ e, ModuleId.ofPath path = .error e ↔ e = .unsupportedModulePath path ∧
      ∀ (id : ModuleId) front,
        components path ≠ front ++ [.normal id.name, .normal id.kind.fileName]) ∧
    (∀ directory file,
      (∃ front, components path = front ++ [.normal directory, .normal file]) ↔
        Spells path directory file) ∧
    ∀ name, ModuleId.ofPath path = .ok (.regular name) →
      (∀ self names, name ∈ names →
        RequireTarget.resolve self names ("../" ++ name ++ "/index.js") =
          .resolved (.regular name)) ∧
      ∀ kind names, ∃ id, ModuleId.ofPath (name ++ "/foreign.js") = .ok id ∧
        RequireTarget.resolve ⟨name, kind⟩ names "./foreign.js" = .resolved id := by
  refine ⟨fun id => ofPath_eq_ok_iff, ?_, fun directory file => ends_iff_spells, ?_⟩
  · intro e
    rw [ofPath_eq_error_iff]
    simp only [ne_eq, ofPath_eq_ok_iff, not_exists]
  · intro name hname
    refine ⟨fun self names hknown => RequireTarget.resolve_index self hknown, ?_⟩
    intro kind names
    refine ⟨.foreign name, ?_, rfl⟩
    obtain ⟨_, _, _, _, _, _, hdirectory, -⟩ := ends_iff_spells.1 (ofPath_eq_ok_iff.1 hname)
    rw [ofPath_eq_ok_iff]
    apply ends_iff_spells.2
    refine ⟨[], [], [], ?_, by simp, by simp, hdirectory, ?_⟩
    · simp [ModuleId.foreign, ModuleKind.fileName]
    · show IsName "foreign.js"
      refine ⟨by decide, by decide, by decide, by decide⟩

/-- Idle pieces are skipped in front of the file and behind it. A neighbour finds the module with
such a path, which has the way to its own foreign code. -/
theorem scattered_path_resolves :
    ModuleId.ofPath "/out//./Data.Maybe/.//index.js/." = .ok (.regular "Data.Maybe") ∧
    RequireTarget.resolve (.regular "Main") ["Main", "Data.Maybe"] "../Data.Maybe/index.js" =
      .resolved (.regular "Data.Maybe") ∧
    ∃ id, ModuleId.ofPath "Data.Maybe/foreign.js" = .ok id ∧
      RequireTarget.resolve (.regular "Data.Maybe") [] "./foreign.js" = .resolved id := by
  have hpath : ModuleId.ofPath "/out//./Data.Maybe/.//index.js/." =
      .ok (.regular "Data.Maybe") := by
    decide +kernel
  have hways := (module_paths_agree "/out//./Data.Maybe/.//index.js/.").2.2.2 "Data.Maybe" hpath
  refine ⟨hpath, ?_, hways.2 .regular []⟩
  exact hways.1 (.regular "Main") ["Main", "Data.Maybe"] (by decide)

end ModuleLinker
