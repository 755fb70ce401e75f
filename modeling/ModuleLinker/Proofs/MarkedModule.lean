/-
# ModuleLinker.Proofs.MarkedModule -- a module behind a byte order mark

A byte order mark in front of the text of a module is read with it, but belongs to no statement.
The module behind the mark is therefore the module itself with all spans moved along
(`Module.marked`), and a text that is refused is refused with the same error (`classify_marked`).

Nothing that is found out about a module afterwards depends on where its elements stand: it has
the same dependencies and definitions, and the same elements of it are dead.
-/

import ModuleLinker.Proofs.MarkedText
import ModuleLinker.Proofs.TextPieces
import ModuleLinker.Proofs.TokenWidth

namespace ModuleLinker

open Text Script

/-! ## Computations -/

/-- Two computations end alike: with results that are related, with the same error, or both because
a piece of text does not exist. -/
inductive EndsLike {α β : Type} (R : α → β → Prop) : Except Failure α → Except Failure β → Prop
  | ok {a : α} {b : β} : R a b → EndsLike R (.ok a) (.ok b)
  | error (e : LinkError) : EndsLike R (.error (.error e)) (.error (.error e))
  | outOfText (span span' : Span) :
      EndsLike R (.error (.outOfText span)) (.error (.outOfText span'))

namespace EndsLike

variable {α β γ δ : Type} {R : α → β → Prop} {S : γ → δ → Prop}

theorem refl (x : Except Failure α) : EndsLike Eq x x := by
  cases x with
  | ok a => exact .ok rfl
  | error failure =>
      cases failure with
      | error e => exact .error e
      | outOfText span => exact .outOfText span span

theorem bind {x : Except Failure α} {y : Except Failure β} {f : α → Except Failure γ}
    {g : β → Except Failure δ} (h : EndsLike R x y)
    (hcontinue : ∀ a b, R a b → EndsLike S (f a) (g b)) : EndsLike S (x >>= f) (y >>= g) := by
  cases h with
  | ok hab => exact hcontinue _ _ hab
  | error e => exact .error e
  | outOfText span span' => exact .outOfText span span'

theorem mono {T : α → β → Prop} {x : Except Failure α} {y : Except Failure β} (h : EndsLike R x y)
    (himp : ∀ a b, x = .ok a → R a b → T a b) : EndsLike T x y := by
  cases h with
  | ok hab => exact .ok (himp _ _ rfl hab)
  | error e => exact .error e
  | outOfText span span' => exact .outOfText span span'

theorem mapM {P : γ → δ → Prop} {f : γ → Except Failure α} {g : δ → Except Failure β} {xs : List γ}
    {ys : List δ} (h : List.Forall₂ P xs ys) (hstep : ∀ x y, P x y → EndsLike R (f x) (g y)) :
    EndsLike (List.Forall₂ R) (xs.mapM f) (ys.mapM g) := by
  induction h with
  | nil => exact .ok .nil
  | cons hxy _ ih =>
      rw [List.mapM_cons, List.mapM_cons]
      apply (hstep _ _ hxy).bind
      intro a b hab
      apply ih.bind
      intro as bs hrest
      exact .ok (.cons hab hrest)

/-- A computation that delivers ends in the same way as every one that ends like it. -/
theorem eq_of_delivers {P : α → Prop} {x y : Except Failure α} (h : EndsLike Eq x y)
    (hx : Delivers P x) : y = x := by
  cases h with
  | ok hab => rw [hab]
  | error e => rfl
  | outOfText span span' => exact hx.elim

end EndsLike

/-! ## Modules -/

/-- The export in the text behind the mark. -/
def ExportEntry.behindMark (entry : ExportEntry) : ExportEntry :=
  { entry with span := entry.span.behindMark }

/-- The element in the text behind the mark. -/
def Element.behindMark : Element → Element
  | .require span binder target => .require span.behindMark binder target
  | .member span visibility name value dependencies =>
    .member span.behindMark visibility name value dependencies
  | .exports span entries => .exports span.behindMark (entries.map ExportEntry.behindMark)
  | .other span => .other span.behindMark
  | .skipped span => .skipped span.behindMark

/-- The module of the text behind the mark. -/
def Module.marked (m : Module) : Module :=
  { m with source := m.source.marked, elements := m.elements.map Element.behindMark }

/-- The input with the text behind the mark. -/
def ModuleInput.marked (input : ModuleInput) : ModuleInput :=
  { input with text := String.ofList (Text.marked input.text.toList) }

namespace Element

variable (element : Element)

@[simp] theorem span_behindMark : element.behindMark.span = element.span.behindMark := by
  cases element <;> rfl

@[simp] theorem isSkipped_behindMark : element.behindMark.isSkipped = element.isSkipped := by
  cases element <;> rfl

@[simp] theorem isSilent_behindMark : element.behindMark.isSilent = element.isSilent := by
  cases element with
  | exports span entries => cases entries <;> rfl
  | _ => rfl

@[simp] theorem required?_behindMark : element.behindMark.required? = element.required? := by
  cases element with
  | require span binder target => cases target <;> rfl
  | _ => rfl

@[simp] theorem memberOf?_behindMark :
    Scope.memberOf? element.behindMark = Scope.memberOf? element := by
  cases element with
  | member span visibility => cases visibility <;> rfl
  | _ => rfl

@[simp] theorem importOf?_behindMark :
    Scope.importOf? element.behindMark = Scope.importOf? element := by
  cases element with
  | require span binder target => cases target <;> rfl
  | _ => rfl

@[simp] theorem definitions_behindMark (owner : ModuleId) :
    element.behindMark.definitions owner = element.definitions owner := by
  cases element with
  | exports span entries => exact List.map_map
  | _ => rfl

theorem analyze_behindMark (scope : Scope) :
    scope.analyzeElement element.behindMark = (scope.analyzeElement element).behindMark := by
  cases element with
  | exports span entries =>
      simp only [behindMark, Scope.analyzeElement, List.map_map]
      rfl
  | _ => rfl

theorem eliminate_behindMark (r : Reachability) (owner : ModuleId) :
    element.behindMark.eliminate r owner = (element.eliminate r owner).behindMark := by
  cases element with
  | member span visibility name value dependencies =>
      simp only [behindMark, Element.eliminate]
      split <;> rfl
  | exports span entries =>
      simp only [behindMark, Element.eliminate, List.filter_map]
      rfl
  | require span binder target =>
      cases target with
      | unresolved path => rfl
      | resolved id =>
          simp only [behindMark, Element.eliminate]
          split <;> rfl
  | _ => rfl

end Element

/-! ## Reading a module -/

namespace Module

/-- What the statements are classified against behind the mark. -/
def Site.marked (site : Site) : Site :=
  { site with source := site.source.marked, origin := site.origin + markSize }

variable (site : Site) {imports : Imports}

theorem Site.locate_marked (span : Span) :
    site.marked.locate span = (site.locate span).behindMark := by
  have hshift : span.shift (site.origin + markSize) = (span.shift site.origin).behindMark := by
    simp only [Span.behindMark, Span.shift, Nat.add_assoc]
  unfold Site.locate Site.marked
  rw [hshift, Source.locate_marked]

theorem Site.textOf_marked (span : Span) :
    EndsLike Eq (site.textOf span) (site.marked.textOf span) := by
  have hshift : span.shift (site.origin + markSize) = (span.shift site.origin).behindMark := by
    simp only [Span.behindMark, Span.shift, Nat.add_assoc]
  unfold Site.textOf Site.marked
  dsimp only
  rw [hshift, Source.slice?_marked]
  cases site.source.slice? (span.shift site.origin) with
  | none => exact .outOfText _ _
  | some piece => exact .ok rfl

theorem unsupported_marked {α β : Type} {R : α → β → Prop} (span : Span) :
    EndsLike R (unsupported site span) (unsupported site.marked span) := by
  apply (site.textOf_marked span).bind
  rintro text _ rfl
  exact .error _

theorem bindingOf?_marked (value : Expr) :
    EndsLike Eq (bindingOf? site imports value) (bindingOf? site.marked imports value) := by
  unfold bindingOf?
  split
  · exact .ok rfl
  · dsimp only
    split
    · exact .ok rfl
    · apply (site.textOf_marked _).bind
      rintro text _ rfl
      exact .ok rfl
  · exact .ok rfl

/-- The export of a property is the same behind the mark, moved along. -/
theorem exportOf_marked (property : Property) :
    EndsLike (fun entry entry' => entry.behindMark = entry')
      (exportOf site imports property) (exportOf site.marked imports property) := by
  cases property with
  | shorthand span binder => exact .ok (by rw [site.locate_marked]; rfl)
  | keyed span key value =>
      unfold exportOf
      dsimp only
      cases key.declared? with
      | none => exact unsupported_marked site span
      | some binder =>
          apply (bindingOf?_marked site value).bind
          rintro binding _ rfl
          cases binding with
          | none => exact unsupported_marked site span
          | some binding => exact .ok (by rw [site.locate_marked]; rfl)
  | _ => exact unsupported_marked site _

theorem exportsOf_marked (properties : List Property) :
    EndsLike (fun entries entries' => entries.map ExportEntry.behindMark = entries')
      (properties.mapM (exportOf site imports))
      (properties.mapM (exportOf site.marked imports)) := by
  have hsame : List.Forall₂ Eq properties properties := List.forall₂_same.2 fun _ _ => rfl
  have hentries : EndsLike (List.Forall₂ fun entry entry' => ExportEntry.behindMark entry = entry')
      (properties.mapM (exportOf site imports))
      (properties.mapM (exportOf site.marked imports)) := by
    apply EndsLike.mapM hsame
    rintro property _ rfl
    exact exportOf_marked site property
  exact hentries.mono fun entries entries' _ h => forall₂_eq_map_iff.1 h

/-- The element of a statement is the same behind the mark, moved along. -/
theorem elementOf_marked (stmt : Stmt) :
    EndsLike (fun element element' => element.behindMark = element')
      (elementOf site imports stmt) (elementOf site.marked imports stmt) := by
  unfold elementOf
  rw [site.locate_marked]
  dsimp only
  cases stmt.require? with
  | some required => exact .ok rfl
  | none =>
      cases stmt.member? with
      | some member => exact .ok rfl
      | none =>
          cases stmt.exportTable? with
          | some properties =>
              apply (exportsOf_marked site properties).bind
              rintro entries _ rfl
              exact .ok rfl
          | none =>
              cases stmt.export? with
              | some member => exact .ok rfl
              | none => exact .ok rfl

theorem importsAfter_behindMark (element : Element) :
    importsAfter imports element.behindMark = importsAfter imports element := by
  cases element with
  | require span binder target => cases target <;> rfl
  | _ => rfl

theorem elementsOf_marked (stmts : List Stmt) :
    EndsLike (fun elements elements' => elements.map Element.behindMark = elements')
      (elementsOf site imports stmts) (elementsOf site.marked imports stmts) := by
  induction stmts generalizing imports with
  | nil => exact .ok rfl
  | cons stmt stmts ih =>
      unfold elementsOf
      apply (elementOf_marked site stmt).bind
      rintro element _ rfl
      rw [importsAfter_behindMark]
      apply ih.bind
      rintro elements _ rfl
      exact .ok rfl

theorem siteOf_marked (names : List String) (input : ModuleInput) (program : Program) :
    siteOf names input.marked program.marked = (siteOf names input program).marked := by
  have htext : input.marked.text.toList = Text.marked input.text.toList := String.toList_ofList
  simp only [siteOf, htext, multilineLiterals_marked]
  rfl

theorem classifyText_of_read [ParserWording] {names : List String} {input : ModuleInput}
    {program : Program} (h : Program.read input.text.toList = .ok program) :
    classifyText names input = elementsOf (siteOf names input program) [] program.statements >>=
      fun elements => .ok
        (Module.mk input.id input.filePath (siteOf names input program).source elements) := by
  unfold classifyText
  dsimp only
  rw [h]
  rfl

theorem classifyText_marked [ParserWording] (names : List String) {input : ModuleInput}
    (h : input.text.toList.head? ≠ some byteOrderMark) :
    EndsLike (fun m m' => m.marked = m')
      (classifyText names input) (classifyText names input.marked) := by
  have htext : input.marked.text.toList = Text.marked input.text.toList := String.toList_ofList
  have hmarked := Program.read_marked h
  rw [← htext] at hmarked
  cases hread : Program.read input.text.toList with
  | ok program =>
      rw [hread] at hmarked
      have hbehind : Program.read input.marked.text.toList = .ok program.marked := hmarked
      rw [classifyText_of_read hread, classifyText_of_read hbehind, siteOf_marked]
      apply (elementsOf_marked _ program.statements).bind
      rintro elements _ rfl
      exact .ok rfl
  -- The line of a syntax error is found in the text, whose lines begin where they began, and what
  -- the parser says about the error is said of the script alone.
  | error failure =>
      unfold classifyText
      dsimp only
      rw [hmarked, hread]
      cases failure with
      | syntaxError offset =>
          have hline := LineIndex.lineOf_marked input.text.toList offset
          have hcomplaint := Program.complaint_marked h
          rw [← htext] at hline hcomplaint
          dsimp only [Except.map, Except.mapError, NotAScript.behindMark]
          rw [hline, hcomplaint]
          exact .error _
      | declarations => exact .error _

/-- A text that does not begin with a mark is read with the same result behind one: the same module,
moved along, or the same error. -/
theorem classify_marked [ParserWording] (names : List String) {input : ModuleInput}
    (h : input.text.toList.head? ≠ some byteOrderMark) :
    EndsLike (fun m m' => m.marked = m') (classify names input) (classify names input.marked) := by
  have hclassify := classifyText_marked names h
  unfold classify
  generalize classifyText names input = x at hclassify ⊢
  generalize classifyText names input.marked = y at hclassify ⊢
  cases hclassify with
  | ok hm => exact .ok hm
  | error e => exact .error _
  | outOfText span span' => exact .outOfText span span'

/-! ## Later stages -/

variable (m : Module)

theorem analyze_marked : m.marked.analyze = m.analyze.marked := by
  have hscope : Scope.ofModule m.marked = Scope.ofModule m := by
    simp only [Scope.ofModule, marked, List.filterMap_map, Function.comp_def,
      Element.memberOf?_behindMark, Element.importOf?_behindMark]
  unfold analyze
  rw [hscope]
  simp only [marked, List.map_map, Function.comp_def, Element.analyze_behindMark]

theorem definitions_marked : m.marked.definitions = m.definitions := by
  simp only [definitions, marked, List.flatMap_map, Element.definitions_behindMark]

theorem eliminate_marked (r : Reachability) : m.marked.eliminate r = (m.eliminate r).marked := by
  simp only [Module.eliminate, marked, List.map_map, Function.comp_def,
    Element.eliminate_behindMark]

theorem isEmpty_marked : m.marked.isEmpty = m.isEmpty := by
  simp only [isEmpty, marked, List.all_map, Function.comp_def, Element.isSilent_behindMark]

theorem required_marked : m.marked.required = m.required := by
  simp only [required, marked, List.filterMap_map, Function.comp_def, Element.required?_behindMark]

/-! ## Modules that may be marked -/

/-- Every statement of the module ends behind the beginning of the text. -/
def IsWide (m : Module) : Prop := ∀ element ∈ m.elements, 0 < element.span.stop

theorem isWide_of_classify [ParserWording] {names : List String} {input : ModuleInput} {m : Module}
    (h : classify names input = .ok m) : m.IsWide := by
  obtain ⟨program, elements, hread, helements, rfl⟩ := classify_eq_ok_iff.1 h
  intro element helement
  obtain ⟨stmt, hstmt, imports, hof⟩ :=
    (exists_mem_of_forall₂ (forall₂_elementOf helements)).2 element helement
  have hwidth := Program.start_lt_stop_of_read hread stmt hstmt
  rw [span_of_elementOf hof]
  show 0 < stmt.span.stop + program.origin
  omega

theorem IsWide.analyze {m : Module} (h : m.IsWide) : m.analyze.IsWide := by
  intro element helement
  obtain ⟨before, hbefore, rfl⟩ := List.mem_map.1 helement
  rw [Scope.span_analyzeElement]
  exact h before hbefore

theorem IsWide.eliminate {m : Module} (h : m.IsWide) (r : Reachability) :
    (m.eliminate r).IsWide := by
  intro element helement
  obtain ⟨before, hbefore, rfl⟩ := List.mem_map.1 helement
  rw [Element.span_eliminate]
  exact h before hbefore

/-- The second module is the first, or the first behind a mark. -/
inductive MayBeMarked : Module → Module → Prop
  | same (m : Module) : MayBeMarked m m
  | marked {m : Module} : m.IsWide → MayBeMarked m m.marked

namespace MayBeMarked

variable {m m' : Module} (h : m.MayBeMarked m')

include h

theorem id_eq : m'.id = m.id := by cases h <;> rfl

theorem analyze : m.analyze.MayBeMarked m'.analyze := by
  cases h with
  | same => exact .same _
  | marked hwide =>
      rw [analyze_marked]
      exact .marked hwide.analyze

theorem eliminate (r : Reachability) : (m.eliminate r).MayBeMarked (m'.eliminate r) := by
  cases h with
  | same => exact .same _
  | marked hwide =>
      rw [eliminate_marked]
      exact .marked (hwide.eliminate r)

theorem definitions_eq : m'.definitions = m.definitions := by
  cases h with
  | same => rfl
  | marked => exact definitions_marked m

theorem isEmpty_eq : m'.isEmpty = m.isEmpty := by
  cases h with
  | same => rfl
  | marked => exact isEmpty_marked m

theorem required_eq : m'.required = m.required := by
  cases h with
  | same => rfl
  | marked => exact required_marked m

end MayBeMarked

end Module

/-! ## Inputs that may be marked -/

/-- The second input is the first, or the first with a byte order mark in front of a text that does
not begin with one. -/
inductive ModuleInput.MayBeMarked : ModuleInput → ModuleInput → Prop
  | same (input : ModuleInput) : MayBeMarked input input
  | marked {input : ModuleInput} :
      input.text.toList.head? ≠ some byteOrderMark → MayBeMarked input input.marked

namespace ModuleInput.MayBeMarked

variable {input input' : ModuleInput} (h : input.MayBeMarked input')

include h

theorem id_eq : input'.id = input.id := by cases h <;> rfl

/-- An input that may be marked is read as a module that may be marked, or refused alike. -/
theorem classify [ParserWording] (names : List String) :
    EndsLike Module.MayBeMarked (Module.classify names input) (Module.classify names input') := by
  cases h with
  | same =>
      apply (EndsLike.refl _).mono
      rintro m _ - rfl
      exact .same m
  | marked hplain =>
      apply (Module.classify_marked names hplain).mono
      rintro m _ hread rfl
      exact .marked (Module.isWide_of_classify hread)

end ModuleInput.MayBeMarked

end ModuleLinker
