/-
# ModuleLinker.Proofs.Respelling -- modules that only differ in their spelling

Whether a statement is recognised, and as what, follows from its plain spelling: the names that it
declares, requires and exports are those of the plain statement, and a property of the table of
exports that is a name alone declares the same as one that is written in full. Only the pieces of
text that exports are bound to show how a module is spelled. Two texts of the same plain statements
are therefore both refused, or have the same elements with the same dependencies
(`classify_respelled`).
-/

import Mathlib
import ModuleLinker.Proofs.MarkedModule
import ModuleLinker.Proofs.Spelling

namespace ModuleLinker

open Script

/-! ## Computations -/

/-- Two computations end with results that are related, or both with an error. -/
inductive BothEnd {α β : Type} (R : α → β → Prop) : Except Failure α → Except Failure β → Prop
  | ok {a : α} {b : β} : R a b → BothEnd R (.ok a) (.ok b)
  | refused (e e' : LinkError) : BothEnd R (.error (.error e)) (.error (.error e'))

namespace BothEnd

variable {α β γ δ : Type} {R : α → β → Prop} {S : γ → δ → Prop}

theorem bind {x : Except Failure α} {y : Except Failure β} {f : α → Except Failure γ}
    {g : β → Except Failure δ} (h : BothEnd R x y)
    (hcontinue : ∀ a b, R a b → BothEnd S (f a) (g b)) : BothEnd S (x >>= f) (y >>= g) := by
  cases h with
  | ok hab => exact hcontinue _ _ hab
  | refused e e' => exact .refused e e'

theorem ok_or_refused {x : Except Failure α} {y : Except Failure β} (h : BothEnd R x y) :
    (∃ a b, x = .ok a ∧ y = .ok b ∧ R a b) ∨
      ∃ e e', x = .error (.error e) ∧ y = .error (.error e') := by
  cases h with
  | ok hab => exact .inl ⟨_, _, rfl, rfl, hab⟩
  | refused e e' => exact .inr ⟨e, e', rfl, rfl⟩

theorem mapM {P : γ → δ → Prop} {f : γ → Except Failure α} {g : δ → Except Failure β} {xs : List γ}
    {ys : List δ} (h : List.Forall₂ P xs ys) (hstep : ∀ x y, P x y → BothEnd R (f x) (g y)) :
    BothEnd (List.Forall₂ R) (xs.mapM f) (ys.mapM g) := by
  induction h with
  | nil => exact .ok .nil
  | cons hxy _ ih =>
      rw [List.mapM_cons, List.mapM_cons]
      apply (hstep _ _ hxy).bind
      intro a b hab
      apply ih.bind
      intro as bs hrest
      exact .ok (.cons hab hrest)

end BothEnd

/-! ## Elements -/

/-- Whether an export is bound to a member of the foreign module. -/
def ExportBinding.isForeign : ExportBinding → Bool
  | .foreign => true
  | .expression _ => false

/-- Entries of the same name and kind, whose values are plainly the same and depend on the same
keys. -/
structure ExportEntry.Alike (entry entry' : ExportEntry) : Prop where
  name : entry'.name = entry.name
  kind : entry'.binding.isForeign = entry.binding.isForeign
  value : entry'.value.plain = entry.value.plain
  dependencies : entry'.dependencies = entry.dependencies

/-- Elements of the same kind that declare, require and export the same, whose values are plainly
the same and depend on the same keys. -/
inductive Element.Alike : Element → Element → Prop
  | require (span span' : LineSpan) (binder : String) (target : RequireTarget) :
      Alike (.require span binder target) (.require span' binder target)
  | member (span span' : LineSpan) (visibility : Visibility) (name : String) {value value' : Expr}
      (hvalue : value'.plain = value.plain) (dependencies : List Key) :
      Alike (.member span visibility name value dependencies)
        (.member span' visibility name value' dependencies)
  | exports (span span' : LineSpan) {entries entries' : List ExportEntry}
      (hentries : List.Forall₂ ExportEntry.Alike entries entries') :
      Alike (.exports span entries) (.exports span' entries')
  | other (span span' : LineSpan) : Alike (.other span) (.other span')

/-! ## Classification -/

namespace Module

variable {site site' : Site} {imports : Imports}

theorem unsupported_respelled {α β : Type} {R : α → β → Prop} {span span' : Span}
    (h : site.Cuts span) (h' : site'.Cuts span') :
    BothEnd R (unsupported site span) (unsupported site' span') := by
  obtain ⟨text, htext⟩ := h.textOf_eq
  obtain ⟨text', htext'⟩ := h'.textOf_eq
  unfold unsupported
  rw [htext, htext']
  exact .refused _ _

theorem bindingOf?_of_access {value : Expr} {object property : String}
    (h : value.access? = some (object, property)) :
    bindingOf? site imports value =
      if (imports.lookup object).any ModuleId.isForeign then .ok (some .foreign)
      else site.textOf value.span >>= fun text => .ok (some (.expression text)) := by
  cases value with
  | member => simp only [bindingOf?, h]; rfl
  | _ => cases h

theorem bindingOf?_of_no_access {value : Expr} (h : value.access? = none) :
    bindingOf? site imports value = .ok (value.name?.map .expression) := by
  cases value with
  | member => simp only [bindingOf?, h]; rfl
  | _ => rfl

/-- Values that are plainly the same are bound alike, or not at all. -/
theorem bindingOf?_respelled {value value' : Expr} (h : site.Cuts value.span)
    (h' : site'.Cuts value'.span) (hplain : value'.plain = value.plain) :
    BothEnd (fun binding binding' => binding'.map ExportBinding.isForeign =
        binding.map ExportBinding.isForeign)
      (bindingOf? site imports value) (bindingOf? site' imports value') := by
  have haccess : value'.access? = value.access? := by
    rw [← value'.access?_plain, hplain, value.access?_plain]
  have hname : value'.name? = value.name? := by
    rw [← value'.name?_plain, hplain, value.name?_plain]
  cases hnames : value.access? with
  | some names =>
      obtain ⟨object, property⟩ := names
      obtain ⟨text, htext⟩ := h.textOf_eq
      obtain ⟨text', htext'⟩ := h'.textOf_eq
      rw [bindingOf?_of_access hnames, bindingOf?_of_access (haccess.trans hnames), htext, htext']
      split
      · exact .ok rfl
      · exact .ok rfl
  | none =>
      rw [bindingOf?_of_no_access hnames, bindingOf?_of_no_access (haccess.trans hnames), hname]
      exact .ok rfl

theorem exportOf_of_exported {property : Property} {key : PropertyKey} {value : Expr}
    (h : property.exported? = some (key, value)) :
    exportOf site imports property = exportOf site imports (.keyed property.span key value) := by
  cases property <;> cases h <;> rfl

theorem exportOf_of_not_exported {property : Property} (h : property.exported? = none) :
    exportOf site imports property = unsupported site property.span := by
  cases property with
  | shorthand | keyed => cases h
  | _ => rfl

theorem exportOf_keyed_respelled {span span' : Span} {key key' : PropertyKey} {value value' : Expr}
    (h : site.Cuts span) (h' : site'.Cuts span') (hvalue : site.Cuts value.span)
    (hvalue' : site'.Cuts value'.span) (hkey : key'.plain = key.plain)
    (hplain : value'.plain = value.plain) :
    BothEnd ExportEntry.Alike (exportOf site imports (.keyed span key value))
      (exportOf site' imports (.keyed span' key' value')) := by
  have hdeclared : key'.declared? = key.declared? := by
    rw [← key'.declared?_plain, hkey, key.declared?_plain]
  unfold exportOf
  dsimp only
  rw [hdeclared]
  cases key.declared? with
  | none => exact unsupported_respelled h h'
  | some binder =>
      apply (bindingOf?_respelled hvalue hvalue' hplain).bind
      intro binding binding' hkind
      cases binding with
      | none =>
          obtain rfl : binding' = none := Option.map_eq_none_iff.1 hkind
          exact unsupported_respelled h h'
      | some binding =>
          obtain ⟨binding', rfl, hkind⟩ := Option.map_eq_some_iff.1 hkind
          exact .ok ⟨rfl, Option.some.inj hkind, hplain, rfl⟩

theorem Site.CutsProperty.cuts_value {property : Property} (h : site.CutsProperty property)
    {key : PropertyKey} {value : Expr} (hexported : property.exported? = some (key, value)) :
    site.Cuts value.span := by
  cases property with
  | shorthand =>
      cases hexported
      exact h.own
  | keyed =>
      cases hexported
      exact h.value _ _ _ rfl
  | _ => cases hexported

/-- Properties that are plainly the same declare exports of the same name and kind, or are both
refused. -/
theorem exportOf_respelled {property property' : Property} (h : site.CutsProperty property)
    (h' : site'.CutsProperty property') (hplain : property'.plain = property.plain) :
    BothEnd ExportEntry.Alike (exportOf site imports property)
      (exportOf site' imports property') := by
  have hexported := property'.exported?_plain
  rw [hplain, property.exported?_plain] at hexported
  cases hown : property.exported? with
  | none =>
      rw [hown] at hexported
      have hown' : property'.exported? = none := Option.map_eq_none_iff.1 hexported.symm
      rw [exportOf_of_not_exported hown, exportOf_of_not_exported hown']
      exact unsupported_respelled h.own h'.own
  | some exported =>
      rw [hown] at hexported
      obtain ⟨exported', hown', hsame⟩ := Option.map_eq_some_iff.1 hexported.symm
      obtain ⟨hkey, hvalue⟩ := Prod.mk.inj hsame
      rw [exportOf_of_exported hown, exportOf_of_exported hown']
      exact exportOf_keyed_respelled h.own h'.own (h.cuts_value hown) (h'.cuts_value hown') hkey
        hvalue

/-! ### Statements -/

theorem forall₂_of_plainProperties {properties properties' : List Property}
    (h : plainProperties properties' = plainProperties properties) :
    List.Forall₂ (fun property property' => property'.plain = property.plain)
      properties properties' := by
  induction properties generalizing properties' with
  | nil =>
      cases properties' with
      | nil => exact .nil
      | cons => cases h
  | cons property properties ih =>
      cases properties' with
      | nil => cases h
      | cons property' properties' =>
          obtain ⟨hfirst, hrest⟩ := List.cons.inj h
          exact .cons hfirst (ih hrest)

/-- Tables that are plainly the same export the same, or are both refused. -/
theorem entries_respelled {properties properties' : List Property}
    (h : ∀ property ∈ properties, site.CutsProperty property)
    (h' : ∀ property ∈ properties', site'.CutsProperty property)
    (hplain : plainProperties properties' = plainProperties properties) :
    BothEnd (List.Forall₂ ExportEntry.Alike) (properties.mapM (exportOf site imports))
      (properties'.mapM (exportOf site' imports)) := by
  have hcuts := (List.forall₂_and_left _ _).2 ⟨h, forall₂_of_plainProperties hplain⟩
  have hcuts' := (List.forall₂_and_left _ _).2 ⟨h', hcuts.flip⟩
  apply BothEnd.mapM hcuts'.flip
  rintro property property' ⟨hown', hown, hsame⟩
  exact exportOf_respelled hown hown' hsame

theorem rel_of_map_eq_map {α β : Type} {f : α → β} {found found' : Option α}
    (h : found'.map f = found.map f) :
    Option.Rel (fun a a' => f a' = f a) found found' := by
  cases found with
  | none =>
      obtain rfl : found' = none := Option.map_eq_none_iff.1 h
      exact .none
  | some a =>
      obtain ⟨a', rfl, hsame⟩ := Option.map_eq_some_iff.1 h
      exact .some hsame

/-- Statements that are plainly the same have elements that are alike, or are both refused. -/
theorem elementOf_respelled (hid : site'.id = site.id) (hnames : site'.names = site.names)
    {stmt stmt' : Stmt} (h : site.CutsStatement stmt) (h' : site'.CutsStatement stmt')
    (hplain : stmt'.plain = stmt.plain) :
    BothEnd Element.Alike (elementOf site imports stmt) (elementOf site' imports stmt') := by
  have hrequire : stmt'.require? = stmt.require? := by
    rw [← stmt'.require?_plain, hplain, stmt.require?_plain]
  have hmember := rel_of_map_eq_map
    ((stmt'.member?_plain.symm.trans (congrArg _ hplain)).trans stmt.member?_plain)
  have htable := rel_of_map_eq_map
    ((stmt'.exportTable?_plain.symm.trans (congrArg _ hplain)).trans stmt.exportTable?_plain)
  have hexport := rel_of_map_eq_map
    ((stmt'.export?_plain.symm.trans (congrArg _ hplain)).trans stmt.export?_plain)
  have hcuts := h.table
  have hcuts' := h'.table
  unfold elementOf
  dsimp only
  rw [hrequire]
  generalize stmt.member? = member, stmt'.member? = member' at *
  generalize stmt.exportTable? = table, stmt'.exportTable? = table' at *
  generalize stmt.export? = exported, stmt'.export? = exported' at *
  -- The forms are tried in one order on both sides, and each is told from the plain statement.
  cases stmt.require? with
  | some required =>
      rw [hid, hnames]
      exact .ok (.require _ _ _ _)
  | none =>
      cases hmember with
      | @some member member' hsame =>
          obtain ⟨name, value⟩ := member
          obtain ⟨name', value'⟩ := member'
          obtain ⟨rfl, hvalue⟩ := Prod.mk.inj hsame
          exact .ok (.member _ _ _ _ hvalue _)
      | none =>
          cases htable with
          | @some properties properties' hsame =>
              apply (entries_respelled (hcuts _ rfl) (hcuts' _ rfl) hsame).bind
              intro entries entries' hentries
              exact .ok (.exports _ _ hentries)
          | none =>
              cases hexport with
              | @some member member' hsame =>
                  obtain ⟨name, value⟩ := member
                  obtain ⟨name', value'⟩ := member'
                  obtain ⟨rfl, hvalue⟩ := Prod.mk.inj hsame
                  exact .ok (.member _ _ _ _ hvalue _)
              | none => exact .ok (.other _ _)

theorem importsAfter_of_alike {element element' : Element} (h : element.Alike element') :
    importsAfter imports element' = importsAfter imports element := by
  cases h with
  | require _ _ _ target => cases target <;> rfl
  | member | exports | other => rfl

theorem elementsOf_respelled (hid : site'.id = site.id) (hnames : site'.names = site.names)
    {stmts stmts' : List Stmt} (h : ∀ stmt ∈ stmts, site.CutsStatement stmt)
    (h' : ∀ stmt ∈ stmts', site'.CutsStatement stmt)
    (hplain : plainStmts stmts' = plainStmts stmts) :
    BothEnd (List.Forall₂ Element.Alike) (elementsOf site imports stmts)
      (elementsOf site' imports stmts') := by
  induction stmts generalizing stmts' imports with
  | nil =>
      cases stmts' with
      | nil => exact .ok .nil
      | cons => cases hplain
  | cons stmt stmts ih =>
      cases stmts' with
      | nil => cases hplain
      | cons stmt' stmts' =>
          obtain ⟨hfirst, hrest⟩ := List.cons.inj hplain
          obtain ⟨hstmt, hstmts⟩ := List.forall_mem_cons.1 h
          obtain ⟨hstmt', hstmts'⟩ := List.forall_mem_cons.1 h'
          unfold elementsOf
          apply (elementOf_respelled hid hnames hstmt hstmt' hfirst).bind
          intro element element' helement
          rw [importsAfter_of_alike helement]
          apply (ih hstmts hstmts' hrest).bind
          intro elements elements' helements
          exact .ok (.cons helement helements)

theorem classify_of_refused [ParserWording] {names : List String} {input : ModuleInput}
    {program : Program} {e : LinkError} (hread : Program.read input.text.toList = .ok program)
    (h : elementsOf (siteOf names input program) [] program.statements = .error (.error e)) :
    classify names input = .error (.error (.inModule input.id e)) := by
  unfold classify
  rw [classifyText_of_read hread, h]
  rfl

end Module

/-! ## Dependencies -/

section Analysis

variable {elements elements' : List Element} (h : List.Forall₂ Element.Alike elements elements')

theorem Element.Alike.memberOf?_eq {element element' : Element} (h : element.Alike element') :
    Scope.memberOf? element' = Scope.memberOf? element := by
  cases h with
  | member _ _ visibility => cases visibility <;> rfl
  | require | exports | other => rfl

theorem Element.Alike.importOf?_eq {element element' : Element} (h : element.Alike element') :
    Scope.importOf? element' = Scope.importOf? element := by
  cases h with
  | require _ _ _ target => cases target <;> rfl
  | member | exports | other => rfl

theorem filterMap_of_alike {α : Type} {f : Element → Option α}
    (hf : ∀ element element', Element.Alike element element' → f element' = f element)
    (h : List.Forall₂ Element.Alike elements elements') :
    elements'.filterMap f = elements.filterMap f := by
  induction h with
  | nil => rfl
  | cons hfirst _ ih => rw [List.filterMap_cons, List.filterMap_cons, hf _ _ hfirst, ih]

/-- Alike elements bind the same at the top level. -/
theorem Scope.ofModule_of_alike {m m' : Module} (hid : m'.id = m.id)
    (h : List.Forall₂ Element.Alike m.elements m'.elements) :
    Scope.ofModule m' = Scope.ofModule m := by
  unfold Scope.ofModule
  rw [hid, filterMap_of_alike (fun _ _ helement => helement.memberOf?_eq) h,
    filterMap_of_alike (fun _ _ helement => helement.importOf?_eq) h]

/-- Values that are plainly the same depend on the same keys. -/
theorem Scope.dependencies_respelled (scope : Scope) {value value' : Expr}
    (h : value'.plain = value.plain) : scope.dependencies value' = scope.dependencies value := by
  rw [← scope.dependencies_plain value', h, scope.dependencies_plain]

theorem ExportEntry.Alike.analyze {entry entry' : ExportEntry} (h : entry.Alike entry')
    (scope : Scope) : (scope.analyzeEntry entry).Alike (scope.analyzeEntry entry') :=
  ⟨h.name, h.kind, h.value, scope.dependencies_respelled h.value⟩

theorem Element.Alike.analyze {element element' : Element} (h : element.Alike element')
    (scope : Scope) : (scope.analyzeElement element).Alike (scope.analyzeElement element') := by
  cases h with
  | require span span' binder target => exact .require _ _ _ _
  | member span span' visibility name hvalue =>
      show Element.Alike (.member _ _ _ _ _) (.member _ _ _ _ (scope.dependencies _))
      rw [scope.dependencies_respelled hvalue]
      exact .member _ _ _ _ hvalue _
  | exports span span' hentries =>
      refine .exports _ _ ?_
      rw [List.forall₂_map_left_iff, List.forall₂_map_right_iff]
      exact hentries.imp fun _ _ hentry => hentry.analyze scope
  | other span span' => exact .other _ _

theorem forall₂_alike_analyze {m m' : Module} (hid : m'.id = m.id)
    (h : List.Forall₂ Element.Alike m.elements m'.elements) :
    List.Forall₂ Element.Alike m.analyze.elements m'.analyze.elements := by
  show List.Forall₂ Element.Alike (m.elements.map _) (m'.elements.map _)
  rw [Scope.ofModule_of_alike hid h, List.forall₂_map_left_iff, List.forall₂_map_right_iff]
  exact h.imp fun _ _ helement => helement.analyze _

end Analysis

/-! ## Modules -/

/-- If two texts hold statements that are plainly the same, both are refused, or both are modules
whose elements are alike, also after their dependencies have been found. -/
theorem classify_respelled [ParserWording] {names : List String} {input input' : ModuleInput}
    {program program' : Program} (hid : input'.id = input.id)
    (hread : Program.read input.text.toList = .ok program)
    (hread' : Program.read input'.text.toList = .ok program')
    (hplain : plainStmts program'.statements = plainStmts program.statements) :
    (∃ m m', Module.classify names input = .ok m ∧ Module.classify names input' = .ok m' ∧
        List.Forall₂ Element.Alike m.elements m'.elements ∧
        List.Forall₂ Element.Alike m.analyze.elements m'.analyze.elements) ∨
      ∃ e e', Module.classify names input = .error (.error e) ∧
        Module.classify names input' = .error (.error e') := by
  have hnames : (Module.siteOf names input' program').names =
      (Module.siteOf names input program).names := rfl
  have helements : BothEnd (List.Forall₂ Element.Alike)
      (Module.elementsOf (Module.siteOf names input program) [] program.statements)
      (Module.elementsOf (Module.siteOf names input' program') [] program'.statements) :=
    Module.elementsOf_respelled hid hnames (Module.cutsStatement_of_read hread)
      (Module.cutsStatement_of_read hread') hplain
  rcases helements.ok_or_refused with
    ⟨elements, elements', hown, hown', hsame⟩ | ⟨e, e', hown, hown'⟩
  · have hm := Module.classify_eq_ok_iff.2 ⟨program, elements, hread, hown, rfl⟩
    have hm' := Module.classify_eq_ok_iff.2 ⟨program', elements', hread', hown', rfl⟩
    exact .inl ⟨_, _, hm, hm', hsame, forall₂_alike_analyze hid hsame⟩
  · have hm := Module.classify_of_refused hread hown
    have hm' := Module.classify_of_refused hread' hown'
    exact .inr ⟨_, _, hm, hm'⟩

/-- A member and a table of two exports, spelled with points and with a name alone. -/
def pointedInput : ModuleInput :=
  ⟨.regular "A", none, "var x=o.p;module.exports=\x7bx,y:exports.z\x7d"⟩

/-- The same with brackets and in full. -/
def bracketedInput : ModuleInput :=
  ⟨.regular "A", none, "var x=o[\"p\"];module[\"exports\"]=\x7bx:x,y:exports[\"z\"]\x7d"⟩

/-- The statements of the one. -/
def pointedProgram : Program where
  statements :=
    [.declaration ⟨0, 10⟩ [.mk (.name ⟨4, 5⟩ "x")
      (some (.member ⟨6, 9⟩ (.name ⟨6, 7⟩ "o") (.name "p")))],
    .expression ⟨10, 40⟩ (.assign ⟨10, 40⟩ true
      (.target (.member ⟨10, 24⟩ (.name ⟨10, 16⟩ "module") (.name "exports")))
      (.object ⟨25, 40⟩ [.shorthand ⟨26, 27⟩ "x",
        .keyed ⟨28, 39⟩ (.name "y") (.member ⟨30, 39⟩ (.name ⟨30, 37⟩ "exports") (.name "z"))]))]
  origin := 0

/-- The statements of the other. -/
def bracketedProgram : Program where
  statements :=
    [.declaration ⟨0, 13⟩ [.mk (.name ⟨4, 5⟩ "x")
      (some (.member ⟨6, 12⟩ (.name ⟨6, 7⟩ "o") (.computed (.string ⟨8, 11⟩ "p"))))],
    .expression ⟨13, 51⟩ (.assign ⟨13, 51⟩ true
      (.target (.member ⟨13, 30⟩ (.name ⟨13, 19⟩ "module")
        (.computed (.string ⟨20, 29⟩ "exports"))))
      (.object ⟨31, 51⟩ [.keyed ⟨32, 35⟩ (.name "x") (.name ⟨34, 35⟩ "x"),
        .keyed ⟨36, 50⟩ (.name "y")
          (.member ⟨38, 50⟩ (.name ⟨38, 45⟩ "exports") (.computed (.string ⟨46, 49⟩ "z")))]))]
  origin := 0

/-- The dependencies of the exports of an element. -/
def exportedKeys : Element → List (List Key)
  | .exports _ entries => entries.map (·.dependencies)
  | _ => []

set_option maxRecDepth 10000 in
/-- Both texts are modules, and their elements are alike: the first export depends on the member,
and the second on an export of the module itself. -/
theorem brackets_read_like_points :
    Program.read pointedInput.text.toList = .ok pointedProgram ∧
      Program.read bracketedInput.text.toList = .ok bracketedProgram ∧
      plainStmts bracketedProgram.statements = plainStmts pointedProgram.statements ∧
      ∃ m m', Module.classify ["A"] pointedInput = .ok m ∧
        Module.classify ["A"] bracketedInput = .ok m' ∧
        List.Forall₂ Element.Alike m.analyze.elements m'.analyze.elements ∧
        m.analyze.elements.map exportedKeys =
          [[], [[⟨.regular "A", "x", .internal⟩], [⟨.regular "A", "z", .exported⟩]]] := by
  have hread : Program.read pointedInput.text.toList = .ok pointedProgram := by cbv
  have hread' : Program.read bracketedInput.text.toList = .ok bracketedProgram := by cbv
  have hplain : plainStmts bracketedProgram.statements = plainStmts pointedProgram.statements := rfl
  have hkeys : (Module.classify ["A"] pointedInput).toOption.map (fun m =>
      m.analyze.elements.map exportedKeys) =
        some [[], [[⟨.regular "A", "x", .internal⟩], [⟨.regular "A", "z", .exported⟩]]] := by
    decide +kernel
  have hid : bracketedInput.id = pointedInput.id := rfl
  have hboth := @classify_respelled _ ["A"] pointedInput bracketedInput pointedProgram
    bracketedProgram hid hread hread' hplain
  rcases hboth with ⟨m, m', hm, hm', -, halike⟩ | ⟨e, e', hrefused, -⟩
  · rw [hm] at hkeys
    exact ⟨hread, hread', hplain, m, m', hm, hm', halike, Option.some.inj hkeys⟩
  · rw [hrefused] at hkeys
    cases hkeys

end ModuleLinker
