/-
# ModuleLinker.Proofs.Wrapper -- what a program is put together from

A program is its first line, the wrappers of its modules one behind the other, and the lines that
call the main module and name the source mapping. `emit_eq_ok_iff` says so; a `Wrapper` is what a
module becomes, its body between a first and a last line that do not come from any file.
-/

import Mathlib.Data.List.Forall2
import ModuleLinker.Link.Emission

namespace ModuleLinker

theorem bind_except_eq_ok_iff {ε α β : Type} {x : Except ε α} {f : α → Except ε β} {b : β} :
    x >>= f = .ok b ↔ ∃ a, x = .ok a ∧ f a = .ok b := by
  cases x with
  | error failure => exact ⟨nofun, nofun⟩
  | ok a => exact ⟨fun h => ⟨a, rfl, h⟩, fun ⟨_, ha, h⟩ => Except.ok.inj ha ▸ h⟩

theorem mapError_eq_ok_iff {ε ε' α : Type} {f : ε → ε'} {x : Except ε α} {a : α} :
    x.mapError f = .ok a ↔ x = .ok a := by
  cases x with
  | error failure => exact ⟨nofun, nofun⟩
  | ok b =>
      exact ⟨fun h => congrArg Except.ok (Except.ok.inj h),
        fun h => congrArg Except.ok (Except.ok.inj h)⟩

/-- What a list of computations yields where all of them succeed. -/
theorem mapM_except_eq_ok_iff {ε α β : Type} {f : α → Except ε β} {xs : List α} {ys : List β} :
    xs.mapM f = .ok ys ↔ List.Forall₂ (fun x y => f x = .ok y) xs ys := by
  induction xs generalizing ys with
  | nil =>
      rw [List.mapM_nil, List.forall₂_nil_left_iff]
      exact ⟨fun h => (Except.ok.inj h).symm, fun h => congrArg Except.ok h.symm⟩
  | cons x xs ih =>
      rw [List.mapM_cons, bind_except_eq_ok_iff, List.forall₂_cons_left_iff]
      constructor
      · rintro ⟨y, hy, h⟩
        obtain ⟨rest, hrest, h⟩ := bind_except_eq_ok_iff.1 h
        exact ⟨y, rest, hy, ih.1 hrest, (Except.ok.inj h).symm⟩
      · rintro ⟨y, rest, hy, hrest, rfl⟩
        exact ⟨y, hy, bind_except_eq_ok_iff.2 ⟨rest, ih.2 hrest, rfl⟩⟩

theorem exists_mem_of_forall₂ {α β : Type} {R : α → β → Prop} {xs : List α} {ys : List β}
    (h : List.Forall₂ R xs ys) :
    (∀ x ∈ xs, ∃ y ∈ ys, R x y) ∧ ∀ y ∈ ys, ∃ x ∈ xs, R x y := by
  induction h with
  | nil => simp
  | @cons x y _ _ hxy _ ih =>
      refine ⟨List.forall_mem_cons.2 ⟨⟨y, .head _, hxy⟩, fun x hx => ?_⟩,
        List.forall_mem_cons.2 ⟨⟨x, .head _, hxy⟩, fun y hy => ?_⟩⟩
      · obtain ⟨y, hy, hrel⟩ := ih.1 x hx
        exact ⟨y, .tail _ hy, hrel⟩
      · obtain ⟨x, hx, hrel⟩ := ih.2 y hy
        exact ⟨x, .tail _ hx, hrel⟩

theorem forall₂_with_mem {α β : Type} {R : α → β → Prop} {xs : List α} {ys : List β}
    (h : List.Forall₂ R xs ys) :
    List.Forall₂ (fun x y => x ∈ xs ∧ y ∈ ys ∧ R x y) xs ys := by
  refine List.forall₂_iff_zip.2 ⟨h.length_eq, fun hmem => ?_⟩
  obtain ⟨hx, hy⟩ := List.of_mem_zip hmem
  exact ⟨hx, hy, List.forall₂_zip h hmem⟩

/-- Related lists have the same places, with related elements there. -/
theorem forall₂_getElem? {α β : Type} {R : α → β → Prop} {xs : List α} {ys : List β}
    (h : List.Forall₂ R xs ys) (place : Nat) :
    (xs[place]? = none ∧ ys[place]? = none) ∨
      ∃ x y, xs[place]? = some x ∧ ys[place]? = some y ∧ R x y := by
  induction h generalizing place with
  | nil => exact .inl ⟨rfl, rfl⟩
  | @cons x y _ _ hxy _ ih =>
      cases place with
      | zero => exact .inr ⟨x, y, rfl, rfl, hxy⟩
      | succ place => exact ih place

theorem map_eq_map_of_forall₂ {α β γ : Type} {f : α → γ} {g : β → γ} {xs : List α} {ys : List β}
    (h : List.Forall₂ (fun x y => f x = g y) xs ys) : xs.map f = ys.map g := by
  rw [← List.forall₂_eq_eq_eq, List.forall₂_map_left_iff, List.forall₂_map_right_iff]
  exact h

theorem forall₂_eq_map_iff {α β : Type} {f : α → β} {xs : List α} {ys : List β} :
    List.Forall₂ (fun x y => f x = y) xs ys ↔ xs.map f = ys := by
  rw [← List.forall₂_map_left_iff, List.forall₂_eq_eq_eq]

/-- Values that exist for all members of a list make a list. -/
theorem exists_forall₂ {α β : Type} {R : α → β → Prop} {xs : List α} (h : ∀ x ∈ xs, ∃ y, R x y) :
    ∃ ys, List.Forall₂ R xs ys := by
  induction xs with
  | nil => exact ⟨[], .nil⟩
  | cons x xs ih =>
      obtain ⟨⟨y, hy⟩, hxs⟩ := List.forall_mem_cons.1 h
      obtain ⟨ys, hys⟩ := ih hxs
      exact ⟨y :: ys, .cons hy hys⟩

theorem eq_ok_of_toOption {ε α : Type} {x : Except ε α} {a : α} (h : x.toOption = some a) :
    x = .ok a := by
  cases x with
  | error failure => cases h
  | ok b => exact congrArg Except.ok (Option.some.inj h)

/-- The element is written as its statement stands in the text: it is neither left out nor
rewritten. -/
def Element.IsVerbatim (setting : Emission.Setting) (owner : ModuleId) : Element → Prop
  | .skipped _ | .exports _ _ => False
  | .require _ _ (.resolved id) => owner.isForeign ∨ id ∉ setting.present
  | .require _ _ _ | .member .. | .other _ => True

theorem Element.isVerbatim_resolved_iff {setting : Emission.Setting} {owner : ModuleId}
    {span : LineSpan} {binder : String} {id : ModuleId} :
    (Element.require span binder (.resolved id)).IsVerbatim setting owner ↔
      ¬ (!owner.isForeign && setting.present.contains id) = true := by
  simp [IsVerbatim, or_iff_not_imp_left]

namespace Emission

/-! ## Lines -/

theorem joined_append (a b : List Line) : joined (a ++ b) = joined a ++ joined b := by
  induction a with
  | nil => simp [joined]
  | cons line a ih => simp [joined, ih, String.append_assoc]

/-- The first line of a program. -/
def startLine (options : Options) : Line :=
  { text := "var " ++ options.globalObject ++ " = \x7b\x7d;" }

/-- The lines behind the modules of a program. -/
def endLines (options : Options) : List Line :=
  (options.mainModule.toList.map fun name =>
    { text := slot options.globalObject name ++ ".main();" }) ++
  (outputName options).toList.map fun name => { text := "//# sourceMappingURL=" ++ name ++ ".map" }

/-- The first line of a module. -/
def openingLine : Line := { text := "(function(exports) \x7b" }

/-- The last line of a module. -/
def closingLine (setting : Setting) (id : ModuleId) : Line :=
  { text := "\x7d)(" ++ slot setting.globalObject id.name ++ " = " ++
      slot setting.globalObject id.name ++ " || \x7b\x7d);" }

/-! ## Bodies -/

section Body

variable {setting : Setting} {m : Module} {file : Option String} {previous : Nat}
  {element : Element} {elements : List Element} {body : List Line}

/-- The comments in front of an element. -/
def gapLines (m : Module) (file : Option String) (previous : Nat) (element : Element) : List Line :=
  if element.isSkipped then [] else comments file m.source ⟨previous, element.span.start⟩

theorem elementLines_of_isVerbatim (h : element.IsVerbatim setting m.id) :
    elementLines setting m file element = verbatim file m.source element.span := by
  cases element with
  | skipped | exports => exact h.elim
  | require span binder target =>
      cases target with
      | resolved id => exact if_neg (Element.isVerbatim_resolved_iff.1 h)
      | unresolved path => rfl
  | member | other => rfl

/-- The lines of an element, by what becomes of it: an element may be left out, a table of exports
has a line for each entry, a require of a module of the program is rewritten, and all others are
copied. -/
inductive Writes (setting : Setting) (m : Module) (file : Option String) :
    Element → List Line → Prop
  | skipped (span : LineSpan) : Writes setting m file (.skipped span) []
  | exports (span : LineSpan) {entries : List ExportEntry} {lines : List Line}
    (h : List.Forall₂ (fun entry line => exportLine file m.source entry = .ok line)
      entries lines) : Writes setting m file (.exports span entries) lines
  | rewritten (span : LineSpan) (binder : String) {id : ModuleId}
    (hregular : m.id.isForeign = false) (hpresent : id ∈ setting.present) :
    Writes setting m file (.require span binder (.resolved id))
      [copied file ("  var " ++ binder ++ " = " ++ slot setting.globalObject id.name ++ ";")
        span.firstLine]
  | kept {element : Element} {lines : List Line} (hkept : element.IsVerbatim setting m.id)
    (h : verbatim file m.source element.span = .ok lines) : Writes setting m file element lines

theorem elementLines_eq_ok_iff {lines : List Line} :
    elementLines setting m file element = .ok lines ↔ Writes setting m file element lines := by
  constructor
  · intro h
    -- What is copied is set apart first; of the rest, every kind is written in its own way.
    by_cases hkept : element.IsVerbatim setting m.id
    · rw [elementLines_of_isVerbatim hkept] at h
      exact .kept hkept h
    · cases element with
      | skipped span =>
          obtain rfl := Except.ok.inj h
          exact .skipped span
      | exports span entries => exact .exports span (mapM_except_eq_ok_iff.1 h)
      | require span binder target =>
          cases target with
          | unresolved path => exact absurd trivial hkept
          | resolved id =>
              have hrewritten := not_not.1 (mt Element.isVerbatim_resolved_iff.2 hkept)
              obtain ⟨hregular, hpresent⟩ : m.id.isForeign = false ∧ id ∈ setting.present := by
                simpa using hrewritten
              obtain rfl := Except.ok.inj ((if_pos hrewritten).symm.trans h)
              exact .rewritten span binder hregular hpresent
      | member | other => exact absurd trivial hkept
  · intro h
    cases h with
    | skipped => rfl
    | exports _ h => exact mapM_except_eq_ok_iff.2 h
    | rewritten _ _ hregular hpresent => exact if_pos (by simp [hregular, hpresent])
    | kept hkept h => exact (elementLines_of_isVerbatim hkept).trans h

theorem bodyLines_cons_eq_ok_iff :
    bodyLines setting m file previous (element :: elements) = .ok body ↔
      ∃ lines rest, elementLines setting m file element = .ok lines ∧
        bodyLines setting m file element.span.stop elements = .ok rest ∧
        body = gapLines m file previous element ++ lines ++ rest := by
  rw [bodyLines, bind_except_eq_ok_iff]
  constructor
  · rintro ⟨lines, hlines, h⟩
    obtain ⟨rest, hrest, h⟩ := bind_except_eq_ok_iff.1 h
    exact ⟨lines, rest, hlines, hrest, (Except.ok.inj h).symm⟩
  · rintro ⟨lines, rest, hlines, hrest, rfl⟩
    exact ⟨lines, hlines, bind_except_eq_ok_iff.2 ⟨rest, hrest, rfl⟩⟩

/-- The lines of every element stand in the body of its module. -/
theorem exists_elementLines_of_mem (h : bodyLines setting m file previous elements = .ok body)
    (helement : element ∈ elements) :
    ∃ front lines back, elementLines setting m file element = .ok lines ∧
      body = front ++ (lines ++ back) := by
  induction elements generalizing previous body with
  | nil => exact absurd helement List.not_mem_nil
  | cons first elements ih =>
      obtain ⟨own, rest, hown, hrest, rfl⟩ := bodyLines_cons_eq_ok_iff.1 h
      rcases List.mem_cons.1 helement with rfl | helement
      · exact ⟨gapLines m file previous element, own, rest, hown, List.append_assoc _ _ _⟩
      · obtain ⟨front, lines, back, hlines, rfl⟩ := ih hrest helement
        exact ⟨gapLines m file previous first ++ own ++ front, lines, back, hlines,
          (List.append_assoc _ _ _).symm⟩

end Body

/-! ## Wrappers -/

/-- The file that the lines of a module come from. -/
def sourceFile (outputFile : Option String) (m : Module) : Option String :=
  outputFile.bind fun output => m.filePath.map fun path => Path.sourcePath path output

/-- A module with the lines that are written for its elements. -/
structure Wrapper (setting : Setting) (outputFile : Option String) where
  content : Module
  body : List Line
  isBody : bodyLines setting content (sourceFile outputFile content) 0 content.elements = .ok body

/-- The lines of a module. -/
def Wrapper.lines {setting : Setting} {outputFile : Option String}
    (w : Wrapper setting outputFile) : List Line :=
  openingLine :: w.body ++ [closingLine setting w.content.id]

/-- A module that can be written has a wrapper. -/
theorem moduleLines_eq_ok_iff {setting : Setting} {outputFile : Option String} {m : Module}
    {lines : List Line} :
    moduleLines setting outputFile m = .ok lines ↔
      ∃ w : Wrapper setting outputFile, w.content = m ∧ w.lines = lines := by
  unfold moduleLines
  rw [bind_except_eq_ok_iff]
  constructor
  · rintro ⟨body, hbody, h⟩
    exact ⟨⟨m, body, hbody⟩, rfl, Except.ok.inj h⟩
  · rintro ⟨w, rfl, rfl⟩
    exact ⟨w.body, w.isBody, rfl⟩

/-- Modules that can be written have wrappers, in their order. -/
theorem mapM_moduleLines_eq_ok_iff {setting : Setting} {outputFile : Option String}
    {modules : List Module} {bodies : List (List Line)} :
    modules.mapM (moduleLines setting outputFile) = .ok bodies ↔
      ∃ wrappers : List (Wrapper setting outputFile),
        wrappers.map (·.content) = modules ∧ wrappers.map (·.lines) = bodies := by
  rw [mapM_except_eq_ok_iff]
  constructor
  · intro h
    induction h with
    | nil => exact ⟨[], rfl, rfl⟩
    | cons hfirst _ ih =>
        obtain ⟨w, rfl, rfl⟩ := moduleLines_eq_ok_iff.1 hfirst
        obtain ⟨wrappers, rfl, rfl⟩ := ih
        exact ⟨w :: wrappers, rfl, rfl⟩
  · rintro ⟨wrappers, rfl, rfl⟩
    rw [List.forall₂_map_left_iff, List.forall₂_map_right_iff, List.forall₂_same]
    exact fun w _ => moduleLines_eq_ok_iff.2 ⟨w, rfl, rfl⟩

/-! ## Programs -/

/-- What the modules of a program share. -/
def settingOf (modules : List Module) (options : Options) : Setting :=
  ⟨options.globalObject, modules.map (·.id)⟩

/-- The lines of a program with these wrappers. -/
def assembled {setting : Setting} (options : Options)
    (wrappers : List (Wrapper setting options.outputFile)) : List Line :=
  startLine options :: (wrappers.map (·.lines)).flatten ++ endLines options

theorem programLines_eq_ok_iff {modules : List Module} {options : Options} {lines : List Line} :
    programLines modules options = .ok lines ↔
      ∃ wrappers : List (Wrapper (settingOf modules options) options.outputFile),
        wrappers.map (·.content) = modules ∧ assembled options wrappers = lines := by
  have hlines : ∀ bodies : List (List Line), [startLine options] ++ bodies.flatten ++
      (options.mainModule.toList.map fun name =>
        ({ text := slot options.globalObject name ++ ".main();" } : Line)) ++
      ((outputName options).toList.map fun name =>
        { text := "//# sourceMappingURL=" ++ name ++ ".map" }) =
      startLine options :: bodies.flatten ++ endLines options := by
    intro bodies
    rw [List.append_assoc _ (List.map _ _), endLines, List.singleton_append]
  unfold programLines
  rw [bind_except_eq_ok_iff]
  constructor
  · rintro ⟨bodies, hbodies, h⟩
    obtain ⟨wrappers, hmodules, rfl⟩ := mapM_moduleLines_eq_ok_iff.1 hbodies
    exact ⟨wrappers, hmodules, (hlines _).symm.trans (Except.ok.inj h)⟩
  · rintro ⟨wrappers, hmodules, rfl⟩
    exact ⟨_, mapM_moduleLines_eq_ok_iff.2 ⟨wrappers, hmodules, rfl⟩, congrArg Except.ok (hlines _)⟩

/-- A program is put together from the wrappers of its modules. -/
theorem emit_eq_ok_iff {modules : List Module} {options : Options} {bundle : Bundle} :
    emit modules options = .ok bundle ↔
      ∃ wrappers : List (Wrapper (settingOf modules options) options.outputFile),
        wrappers.map (·.content) = modules ∧ bundle.code = joined (assembled options wrappers) ∧
        bundle.sourceMap = options.outputFile.map fun _ =>
          ⟨(outputName options).getD "", mappings 0 (assembled options wrappers)⟩ := by
  unfold emit
  rw [bind_except_eq_ok_iff]
  constructor
  · rintro ⟨lines, h, hbundle⟩
    obtain ⟨wrappers, hmodules, rfl⟩ := programLines_eq_ok_iff.1 h
    obtain rfl := Except.ok.inj hbundle
    exact ⟨wrappers, hmodules, rfl, rfl⟩
  · rintro ⟨wrappers, hmodules, hcode, hmap⟩
    refine ⟨_, programLines_eq_ok_iff.2 ⟨wrappers, hmodules, rfl⟩, congrArg Except.ok ?_⟩
    rw [← hcode, ← hmap]

end Emission

end ModuleLinker
