/-
# ModuleLinker.Proofs.TextPieces -- linking never leaves the texts

A module keeps the spans of its statements and of the values that it exports, and the lines of a
program are cut out of its text along them. Every such span was read off the text, so that there
is a piece of the text under it (`Element.HeldBy`), and neither skipping elements nor leaving out
exports brings in a span that was not there. Reading a module therefore ends with a module or with
an error, and what is left of classified modules can always be written (`exists_emit`).
-/

import ModuleLinker.Proofs.LineBreaks
import ModuleLinker.Proofs.StatementPlaces
import ModuleLinker.Proofs.VerbatimLiterals

namespace ModuleLinker

open Script

/-! ## Spans of a text -/

namespace Source

/-- The offset at which the script begins in the text. -/
def origin (source : Source) : Nat := (Program.scriptOf source.text).1

/-- There is a piece of the text under the span, and the lines of the span are those of the text. -/
structure Holds (source : Source) (span : LineSpan) : Prop where
  located : span = source.locate span.toSpan
  cut : ∃ piece, source.slice? span.toSpan = some piece

theorem holds_locate {source : Source} {span : Span}
    (h : ∃ piece, source.slice? span = some piece) : source.Holds (source.locate span) := ⟨rfl, h⟩

end Source

/-- The span of an export is that of its value, and there is a piece of the text under it. -/
structure ExportEntry.HeldBy (source : Source) (entry : ExportEntry) : Prop where
  holds : source.Holds entry.span
  value_eq : entry.span.toSpan = entry.value.span.shift source.origin

/-- There are pieces of the text under an element and under the values that it exports. -/
structure Element.HeldBy (source : Source) (element : Element) : Prop where
  own : source.Holds element.span
  entries : ∀ span entries, element = .exports span entries →
    ∀ entry ∈ entries, entry.HeldBy source

/-- There are pieces of the text under an element and under the values that are copied for it. -/
structure Element.CutFrom (source : Source) (element : Element) : Prop where
  own : ∃ piece, source.slice? element.span.toSpan = some piece
  foreign : ∀ span entries, element = .exports span entries → ∀ entry ∈ entries,
    entry.binding = .foreign → ∃ piece, source.slice? entry.span.toSpan = some piece

namespace Element.HeldBy

variable {source : Source} {element left : Element}

theorem cutFrom (h : element.HeldBy source) : element.CutFrom source where
  own := h.own.cut
  foreign span entries htable entry hentry _ :=
    (h.entries span entries htable entry hentry).holds.cut

/-- An element that exports no table is held where its statement is. -/
theorem of_holds (h : source.Holds element.span)
    (htable : ∀ span entries, element ≠ .exports span entries) : element.HeldBy source :=
  ⟨h, fun span entries heq => absurd heq (htable span entries)⟩

/-- What is left of an element is held where the element was. -/
theorem leftOf (h : element.HeldBy source) (hleft : left.LeftOf element) : left.HeldBy source := by
  cases hleft with
  | same => exact h
  | skipped => exact of_holds h.own (by rintro _ _ ⟨⟩)
  | member => exact of_holds h.own (by rintro _ _ ⟨⟩)
  | @exports span left entries hsublist =>
      refine ⟨h.own, ?_⟩
      rintro _ _ ⟨⟩ entry hentry
      -- the entry was in the table before, with other dependencies
      have hmem := hsublist.subset (List.mem_map_of_mem hentry)
      obtain ⟨before, hbefore, heq⟩ := List.mem_map.1 hmem
      obtain ⟨hholds, hvalue⟩ := h.entries span entries rfl before hbefore
      simp only [ExportEntry.mk.injEq, and_true] at heq
      obtain ⟨-, -, hval, hspan⟩ := heq
      exact ⟨hspan ▸ hholds, hspan ▸ hval ▸ hvalue⟩

end Element.HeldBy

/-! ## Results -/

/-- The computation ends with a result that has the property, or with an error, and never because a
piece of text does not exist. -/
def Delivers {α : Type} (P : α → Prop) : Except Failure α → Prop
  | .ok a => P a
  | .error (.error _) => True
  | .error (.outOfText _) => False

namespace Delivers

variable {α β : Type} {P : α → Prop} {Q : β → Prop}

theorem bind {x : Except Failure α} {f : α → Except Failure β} (hx : Delivers P x)
    (hf : ∀ a, x = .ok a → P a → Delivers Q (f a)) : Delivers Q (x >>= f) := by
  cases x with
  | ok a => exact hf a rfl hx
  | error failure =>
      cases failure with
      | error e => trivial
      | outOfText span => exact hx

theorem mapM {xs : List β} {f : β → Except Failure α} (h : ∀ x ∈ xs, Delivers P (f x)) :
    Delivers (fun ys => ∀ y ∈ ys, P y) (xs.mapM f) := by
  induction xs with
  | nil => exact fun y hy => absurd hy List.not_mem_nil
  | cons x xs ih =>
      obtain ⟨hx, hxs⟩ := List.forall_mem_cons.1 h
      rw [List.mapM_cons]
      refine hx.bind fun y _ hy => (ih hxs).bind fun ys _ hys => ?_
      exact List.forall_mem_cons.2 ⟨hy, hys⟩

theorem mono {Q : α → Prop} {x : Except Failure α} (h : Delivers P x) (himp : ∀ a, P a → Q a) :
    Delivers Q x := by
  have hbind : Delivers Q (x >>= pure) := h.bind fun a _ ha => himp a ha
  rwa [bind_pure] at hbind

/-- A computation that delivers ends with a result or with an error. -/
theorem exists_ok_or_error {x : Except Failure α} (h : Delivers P x) :
    (∃ a, x = .ok a ∧ P a) ∨ ∃ e, x = .error (.error e) := by
  cases x with
  | ok a => exact .inl ⟨a, rfl, h⟩
  | error failure =>
      cases failure with
      | error e => exact .inr ⟨e, rfl⟩
      | outOfText span => exact h.elim

end Delivers

/-! ## Reading a module -/

namespace Module

variable {site : Site} {imports : Imports}

/-- There is a piece of the text under a span of the script. -/
def Site.Cuts (site : Site) (span : Span) : Prop :=
  ∃ piece, site.source.slice? (span.shift site.origin) = some piece

theorem Site.Cuts.textOf_eq {span : Span} (h : site.Cuts span) :
    ∃ text, site.textOf span = .ok text := by
  obtain ⟨piece, hpiece⟩ := h
  refine ⟨String.ofList piece, ?_⟩
  unfold Site.textOf
  dsimp only
  rw [hpiece]

theorem Site.Cuts.holds {span : Span} (h : site.Cuts span) : site.source.Holds (site.locate span) :=
  Source.holds_locate h

/-- A refusal names the piece of text that is refused. -/
theorem delivers_unsupported {α : Type} {P : α → Prop} {span : Span} (h : site.Cuts span) :
    Delivers P (unsupported site span) := by
  obtain ⟨text, htext⟩ := h.textOf_eq
  show Delivers P (site.textOf span >>= fun piece => .error (.error (.unsupportedExport piece)))
  rw [htext]
  trivial

theorem delivers_bindingOf {value : Expr} (h : site.Cuts value.span) :
    Delivers (fun _ => True) (bindingOf? site imports value) := by
  obtain ⟨text, htext⟩ := h.textOf_eq
  unfold bindingOf?
  split
  · trivial
  · dsimp only
    split
    · trivial
    · rw [htext]
      trivial
  · trivial

/-- Pieces of the text are under a property and under its value. -/
structure Site.CutsProperty (site : Site) (property : Property) : Prop where
  own : site.Cuts property.span
  value : ∀ span key value, property = .keyed span key value → site.Cuts value.span

theorem delivers_exportOf (horigin : site.origin = site.source.origin) {property : Property}
    (h : site.CutsProperty property) :
    Delivers (fun entry => entry.HeldBy site.source) (exportOf site imports property) := by
  have hentry : ∀ value : Expr, site.Cuts value.span → ∀ name binding,
      ExportEntry.HeldBy site.source ⟨name, binding, value, site.locate value.span, []⟩ := by
    intro value hvalue name binding
    exact ⟨hvalue.holds, congrArg value.span.shift horigin⟩
  cases property with
  | shorthand span binder => exact hentry (.name span binder) h.own _ _
  | keyed span key value =>
      have hvalue : site.Cuts value.span := h.value _ _ _ rfl
      unfold exportOf
      dsimp only
      split
      · exact delivers_unsupported h.own
      · refine (delivers_bindingOf hvalue).bind fun binding _ _ => ?_
        cases binding with
        | none => exact delivers_unsupported h.own
        | some binding => exact hentry value hvalue _ _
  | _ => exact delivers_unsupported h.own

/-- Pieces of the text are under a statement and under the table that it exports. -/
structure Site.CutsStatement (site : Site) (stmt : Stmt) : Prop where
  own : site.Cuts stmt.span
  table : ∀ properties, stmt.exportTable? = some properties →
    ∀ property ∈ properties, site.CutsProperty property

theorem delivers_elementOf (horigin : site.origin = site.source.origin) {stmt : Stmt}
    (h : site.CutsStatement stmt) :
    Delivers (fun element => element.HeldBy site.source) (elementOf site imports stmt) := by
  have hown : site.source.Holds (site.locate stmt.span) := h.own.holds
  unfold elementOf
  dsimp only
  split
  · exact .of_holds hown (by rintro _ _ ⟨⟩)
  · split
    · exact .of_holds hown (by rintro _ _ ⟨⟩)
    · split
      · next properties htable =>
        have hentries : Delivers (fun entries => ∀ entry ∈ entries, entry.HeldBy site.source)
            (properties.mapM (exportOf site imports)) := by
          refine .mapM fun property hproperty => ?_
          exact delivers_exportOf horigin (h.table properties htable property hproperty)
        refine hentries.bind fun entries _ hheld => ?_
        refine ⟨hown, ?_⟩
        rintro _ _ ⟨⟩
        exact hheld
      · split
        · exact .of_holds hown (by rintro _ _ ⟨⟩)
        · exact .of_holds hown (by rintro _ _ ⟨⟩)

theorem delivers_elementsOf (horigin : site.origin = site.source.origin) {stmts : List Stmt}
    (h : ∀ stmt ∈ stmts, site.CutsStatement stmt) :
    Delivers (fun elements => ∀ element ∈ elements, element.HeldBy site.source)
      (elementsOf site imports stmts) := by
  induction stmts generalizing imports with
  | nil => exact fun element helement => absurd helement List.not_mem_nil
  | cons stmt stmts ih =>
      obtain ⟨hstmt, hstmts⟩ := List.forall_mem_cons.1 h
      unfold elementsOf
      refine (delivers_elementOf horigin hstmt).bind fun element _ helement => ?_
      refine (ih hstmts).bind fun elements _ helements => ?_
      exact List.forall_mem_cons.2 ⟨helement, helements⟩

/-- A script begins where its program says. -/
theorem origin_siteOf {names : List String} {input : ModuleInput} {program : Program}
    (h : Program.read input.text.toList = .ok program) :
    (siteOf names input program).origin = (siteOf names input program).source.origin := by
  show program.origin = (Program.scriptOf input.text.toList).1
  unfold Program.read at h
  dsimp only at h
  split at h
  · exact Except.ok.inj h ▸ rfl
  · cases h
  · cases h

/-- The statements of a text are pieces of it. -/
theorem cutsStatement_of_read {names : List String} {input : ModuleInput} {program : Program}
    (h : Program.read input.text.toList = .ok program) :
    ∀ stmt ∈ program.statements, (siteOf names input program).CutsStatement stmt := by
  intro stmt hstmt
  refine ⟨?_, fun properties htable property hproperty => ?_⟩
  · obtain ⟨piece, hpiece, -⟩ := Program.exists_piece_of_read h hstmt
    exact ⟨piece, hpiece⟩
  · obtain ⟨hown, hvalue⟩ := Program.exists_slice_of_table h hstmt htable property hproperty
    exact ⟨hown, hvalue⟩

/-- The elements of a module are pieces of its text. -/
structure HeldByText (m : Module) : Prop where
  elements : ∀ element ∈ m.elements, element.HeldBy m.source

theorem delivers_classify [ParserWording] (names : List String) (input : ModuleInput) :
    Delivers HeldByText (classify names input) := by
  have htext : Delivers HeldByText (classifyText names input) := by
    unfold classifyText
    dsimp only
    split
    · trivial
    · trivial
    · next program hread =>
      have helements : Delivers _ (elementsOf (siteOf names input program) [] program.statements) :=
        delivers_elementsOf (origin_siteOf hread) (cutsStatement_of_read hread)
      exact helements.bind fun elements _ hheld => ⟨hheld⟩
  unfold classify
  split
  · trivial
  · exact htext

/-- The elements of a classified module, and what is left of them, are pieces of its text. -/
theorem Classified.heldByText [ParserWording] {m : Module} (h : m.Classified) : m.HeldByText := by
  obtain ⟨names, input, original, hclassify, -, -, hsource, hleft⟩ := h
  have hdelivers := delivers_classify names input
  rw [hclassify] at hdelivers
  refine ⟨fun element helement => ?_⟩
  obtain ⟨before, hbefore, hrel⟩ := (exists_mem_of_forall₂ hleft).1 element helement
  rw [hsource]
  exact (hdelivers.elements before hbefore).leftOf hrel

/-- Eliminating leaves of each element what may be left of it. -/
theorem leftOf_eliminate (r : Reachability) (scope : Scope) (owner : ModuleId) (element : Element) :
    ((scope.analyzeElement element).eliminate r owner).LeftOf element := by
  cases element with
  | member span visibility name value dependencies =>
      unfold Scope.analyzeElement Element.eliminate
      dsimp only
      split
      · exact .member
      · exact .skipped (.member span visibility name value dependencies)
  | exports span entries =>
      apply Element.LeftOf.exports
      refine (List.filter_sublist.map _).trans ?_
      rw [List.map_map]
      exact List.Sublist.refl _
  | require span binder target =>
      cases target with
      | unresolved path => exact .same _
      | resolved id =>
          unfold Scope.analyzeElement Element.eliminate
          dsimp only
          split
          · exact .same _
          · exact .skipped (.require span binder (.resolved id))
  | _ => exact .same _

/-- What elimination leaves of a module that was read is a classified module. -/
theorem classified_eliminate [ParserWording] {names : List String} {input : ModuleInput}
    {m : Module} (h : classify names input = .ok m) (r : Reachability) :
    (m.analyze.eliminate r).Classified := by
  refine ⟨names, input, m, h, rfl, rfl, rfl, ?_⟩
  simp only [Module.eliminate, Module.analyze, List.forall₂_map_left_iff]
  exact List.forall₂_same.2 fun element _ => leftOf_eliminate r _ _ element

end Module

/-! ## Writing a program -/

namespace Emission

variable {setting : Setting} {m : Module} {file : Option String} {element : Element}

theorem exists_verbatim {source : Source} {span : LineSpan}
    (h : ∃ piece, source.slice? span.toSpan = some piece) :
    ∃ lines, verbatim file source span = .ok lines := by
  obtain ⟨piece, hpiece⟩ := h
  unfold verbatim
  rw [hpiece]
  exact ⟨_, rfl⟩

theorem exists_exportLine {source : Source} {entry : ExportEntry}
    (h : entry.binding = .foreign → ∃ piece, source.slice? entry.span.toSpan = some piece) :
    ∃ line, exportLine file source entry = .ok line := by
  have hvalue : ∃ value, boundText source entry = .ok value := by
    unfold boundText
    split
    · exact ⟨_, rfl⟩
    · next hforeign =>
      obtain ⟨piece, hpiece⟩ := h hforeign
      rw [hpiece]
      exact ⟨_, rfl⟩
  obtain ⟨value, hvalue⟩ := hvalue
  exact ⟨_, bind_except_eq_ok_iff.2 ⟨value, hvalue, rfl⟩⟩

theorem exists_elementLines (h : element.CutFrom m.source) :
    ∃ lines, elementLines setting m file element = .ok lines := by
  cases element with
  | skipped span => exact ⟨[], rfl⟩
  | exports span entries =>
      have hlines : ∀ entry ∈ entries, ∃ line, exportLine file m.source entry = .ok line :=
        fun entry hentry => exists_exportLine (h.foreign span entries rfl entry hentry)
      obtain ⟨lines, hlines⟩ := exists_forall₂ hlines
      exact ⟨lines, mapM_except_eq_ok_iff.2 hlines⟩
  | require span binder target =>
      cases target with
      | unresolved path => exact exists_verbatim h.own
      | resolved id =>
          unfold elementLines
          dsimp only
          split
          · exact ⟨_, rfl⟩
          · exact exists_verbatim h.own
  | _ => exact exists_verbatim h.own

theorem exists_bodyLines {previous : Nat} {elements : List Element}
    (h : ∀ element ∈ elements, element.CutFrom m.source) :
    ∃ body, bodyLines setting m file previous elements = .ok body := by
  induction elements generalizing previous with
  | nil => exact ⟨_, rfl⟩
  | cons element elements ih =>
      obtain ⟨hfirst, hothers⟩ := List.forall_mem_cons.1 h
      obtain ⟨lines, hlines⟩ := exists_elementLines hfirst
      obtain ⟨rest, hrest⟩ := ih hothers
      exact ⟨_, bodyLines_cons_eq_ok_iff.2 ⟨lines, rest, hlines, hrest, rfl⟩⟩

/-- Modules whose elements are pieces of their texts can be written. -/
theorem exists_emit {modules : List Module} (h : ∀ m ∈ modules, m.HeldByText) (options : Options) :
    ∃ bundle, emit modules options = .ok bundle := by
  have hwrappers : ∃ wrappers : List (Wrapper (settingOf modules options) options.outputFile),
      wrappers.map (·.content) = modules := by
    generalize settingOf modules options = setting
    induction modules with
    | nil => exact ⟨[], rfl⟩
    | cons m modules ih =>
        obtain ⟨hm, hothers⟩ := List.forall_mem_cons.1 h
        obtain ⟨body, hbody⟩ :=
          exists_bodyLines fun element helement => (hm.elements element helement).cutFrom
        obtain ⟨wrappers, hwrappers⟩ := ih hothers
        exact ⟨⟨m, body, hbody⟩ :: wrappers, congrArg (m :: ·) hwrappers⟩
  obtain ⟨wrappers, hcontents⟩ := hwrappers
  exact ⟨⟨_, _⟩, emit_eq_ok_iff.2 ⟨wrappers, hcontents, rfl, rfl⟩⟩

end Emission

/-! ## Linking -/

/-- What elimination leaves of loaded modules are classified modules. -/
theorem classified_of_mem_eliminate [ParserWording] {inputs : List ModuleInput}
    {loaded : List Module} (h : loadModules inputs = .ok loaded) (r : Reachability) :
    ∀ m ∈ eliminate r loaded, m.Classified := by
  intro m hm
  obtain ⟨original, horiginal, rfl⟩ := List.mem_map.1 (List.mem_filter.1 hm).1
  obtain ⟨input, -, read, hread, rfl⟩ :=
    (exists_mem_of_forall₂ (loadModules_eq_ok_iff.1 h)).2 original horiginal
  exact Module.classified_eliminate hread r

/-- Loading ends with modules or with an error. -/
theorem delivers_loadModules [ParserWording] (inputs : List ModuleInput) :
    Delivers (fun _ => True) (loadModules inputs) := by
  have hmodules : Delivers (fun modules => ∀ m ∈ modules, True) (loadModules inputs) := by
    refine Delivers.mapM fun input _ => ?_
    have hread := Module.delivers_classify (inputs.map (·.id.name)) input
    show Delivers _ (Module.classify _ input >>= fun m => .ok m.analyze)
    exact hread.bind fun m _ _ => trivial
  exact hmodules.mono fun modules _ => trivial

end ModuleLinker
