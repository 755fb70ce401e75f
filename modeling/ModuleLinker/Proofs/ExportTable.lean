/-
# ModuleLinker.Proofs.ExportTable -- which texts are refused for a table of exports

A text that is a script becomes a module unless it assigns a table to `module.exports` in which some
property is no entry. `Stmt.AssignsTable` and `Property.IsEntry` spell the two forms out, where the
functions that recognise them are put together from matches on the target, the key and the value.
`classify_table` says that these forms decide: there is an error when some table has such a
property, it has the text of the first one, and there is no other error.

Which property is the first one is said by cutting the statements, and the table, in front of it
(`FirstOffender`); the check that stops early walks along the same cut.
-/

import Mathlib
import ModuleLinker.Proofs.FirstError
import ModuleLinker.Proofs.VerbatimLiterals

namespace ModuleLinker

namespace Script

/-! ## Forms -/

/-- The key has the name of what it accesses, behind a point or as a string in brackets. -/
inductive PropertyKey.Accesses : PropertyKey → String → Prop
  | pointed (name : String) : Accesses (.name name) name
  | bracketed (span : Span) (name : String) : Accesses (.computed (.string span name)) name

/-- The key of an object literal is a name or a string. -/
inductive PropertyKey.IsWritten : PropertyKey → Prop
  | name (name : String) : IsWritten (.name name)
  | string (span : Span) (value : String) : IsWritten (.string span value)

/-- The value is a name, or a member of a name that is written out. -/
inductive Expr.IsReference : Expr → Prop
  | name (span : Span) (name : String) : IsReference (.name span name)
  | member {key : PropertyKey} {property : String} (span inner : Span) (object : String)
      (h : key.Accesses property) : IsReference (.member span (.name inner object) key)

/-- The property can stand in a table of exports. -/
inductive Property.IsEntry : Property → Prop
  | shorthand (span : Span) (name : String) : IsEntry (.shorthand span name)
  | keyed {key : PropertyKey} {value : Expr} (span : Span) (hkey : key.IsWritten)
      (hvalue : value.IsReference) : IsEntry (.keyed span key value)

/-- The statement assigns an object literal of these properties to `module.exports`. -/
inductive Stmt.AssignsTable : Stmt → List Property → Prop
  | intro {key : PropertyKey} (properties : List Property)
      (whole assignment target object literal : Span) (h : key.Accesses "exports") :
      AssignsTable (.expression whole (.assign assignment true
        (.target (.member target (.name object "module") key)) (.object literal properties)))
        properties

/-- All properties of the tables that the statement assigns are entries. -/
def Stmt.HasEntries (stmt : Stmt) : Prop :=
  ∀ properties, stmt.AssignsTable properties → ∀ property ∈ properties, property.IsEntry

/-- The property is the first one in a table of the statements that is no entry. -/
inductive FirstOffender : List Stmt → Property → Prop
  | intro {before after : List Stmt} {stmt : Stmt} {earlier later : List Property}
      {offender : Property} (hbefore : ∀ other ∈ before, other.HasEntries)
      (htable : stmt.AssignsTable (earlier ++ offender :: later))
      (hearlier : ∀ property ∈ earlier, property.IsEntry) (hoffender : ¬ offender.IsEntry) :
      FirstOffender (before ++ stmt :: after) offender

/-! ## Recognising them -/

theorem PropertyKey.accessed?_eq_some_iff {key : PropertyKey} {name : String} :
    key.accessed? = some name ↔ key.Accesses name := by
  constructor
  · intro h
    unfold PropertyKey.accessed? at h
    split at h
    · obtain rfl := Option.some.inj h
      exact .pointed _
    · obtain rfl := Option.some.inj h
      exact .bracketed _ _
    · cases h
  · intro h
    cases h <;> rfl

theorem PropertyKey.isSome_declared?_iff {key : PropertyKey} :
    key.declared?.isSome ↔ key.IsWritten := by
  constructor
  · intro h
    cases key with
    | name text => exact .name text
    | string span text => exact .string span text
    | _ => cases h
  · intro h
    cases h <;> rfl

theorem Expr.access?_eq_some_iff {value : Expr} {object property : String} :
    value.access? = some (object, property) ↔ ∃ span inner key,
      value = .member span (.name inner object) key ∧ key.Accesses property := by
  constructor
  · intro h
    unfold Expr.access? at h
    split at h
    · next span inner left key =>
      obtain ⟨right, hright, hpair⟩ := Option.map_eq_some_iff.1 h
      obtain ⟨rfl, rfl⟩ := Prod.mk.inj hpair
      exact ⟨span, inner, key, rfl, PropertyKey.accessed?_eq_some_iff.1 hright⟩
    · cases h
  · intro ⟨span, inner, key, hvalue, hkey⟩
    rw [hvalue, Expr.access?, PropertyKey.accessed?_eq_some_iff.2 hkey]
    rfl

theorem Expr.isBindable_iff {value : Expr} : value.isBindable ↔ value.IsReference := by
  by_cases hname : ∃ span name, value = .name span name
  · obtain ⟨span, name, rfl⟩ := hname
    exact iff_of_true rfl (.name span name)
  · rw [Expr.isBindable_eq fun span name h => hname ⟨span, name, h⟩, Option.isSome_iff_exists]
    constructor
    · intro ⟨⟨left, right⟩, h⟩
      obtain ⟨span, inner, key, rfl, hkey⟩ := Expr.access?_eq_some_iff.1 h
      exact .member span inner left hkey
    · intro h
      cases h with
      | name span name => exact absurd ⟨span, name, rfl⟩ hname
      | member span inner object hkey =>
          exact ⟨_, Expr.access?_eq_some_iff.2 ⟨span, inner, _, rfl, hkey⟩⟩

theorem Property.isExport_iff {property : Property} : property.isExport ↔ property.IsEntry := by
  cases property with
  | shorthand span name => exact iff_of_true rfl (.shorthand span name)
  | keyed span key value =>
      rw [Property.isExport, Bool.and_eq_true, PropertyKey.isSome_declared?_iff,
        Expr.isBindable_iff]
      constructor
      · intro h
        exact .keyed span h.1 h.2
      · intro h
        cases h with
        | keyed _ hkey hvalue => exact ⟨hkey, hvalue⟩
  | _ =>
      refine iff_of_false Bool.false_ne_true ?_
      intro h
      cases h

theorem Stmt.exportTable?_eq_some_iff {stmt : Stmt} {properties : List Property} :
    stmt.exportTable? = some properties ↔ stmt.AssignsTable properties := by
  constructor
  · intro h
    unfold Stmt.exportTable? at h
    split at h
    · split at h
      · next haccess =>
        obtain rfl := Option.some.inj h
        obtain ⟨span, inner, key, rfl, hkey⟩ := Expr.access?_eq_some_iff.1 haccess
        exact .intro _ _ _ _ _ _ hkey
      · cases h
    · cases h
  · intro h
    cases h with
    | intro _ whole assignment target object literal hkey =>
        exact if_pos (Expr.access?_eq_some_iff.2 ⟨target, object, _, rfl, hkey⟩)

end Script

open Script

/-! ## Refusals -/

namespace Module

variable {site : Site}

/-- The refusal is that of a piece of the text. -/
theorem refusal?_property_eq_some_iff {property : Property} {e : LinkError} :
    property.refusal? site.source.text site.origin = some e ↔ ¬ property.IsEntry ∧
      ∃ piece, Text.slice? site.source.text (property.span.shift site.origin) = some piece ∧
        e = .unsupportedExport (String.ofList piece) := by
  rw [← Property.isExport_iff, Property.refusal?]
  split
  · next hexport => simp [hexport]
  · next hexport => simp [hexport, eq_comm]

/-- Since its text is there, a property without a refusal is an entry. -/
theorem Site.CutsProperty.refusal?_eq_none_iff {property : Property}
    (h : site.CutsProperty property) :
    property.refusal? site.source.text site.origin = none ↔ property.IsEntry := by
  obtain ⟨piece, hpiece, -⟩ := h.own.exists_textOf
  rw [← Property.isExport_iff, Property.refusal?, hpiece]
  simp

theorem Site.CutsStatement.refusal?_eq_none_iff {stmt : Stmt} (h : site.CutsStatement stmt) :
    stmt.refusal? site.source.text site.origin = none ↔ stmt.HasEntries := by
  unfold Stmt.refusal? Stmt.HasEntries
  simp only [← Stmt.exportTable?_eq_some_iff]
  cases htable : stmt.exportTable? with
  | none => simp
  | some properties =>
      simp only [Option.getD_some, List.findSome?_eq_none_iff, Option.some.injEq, forall_eq']
      constructor
      · intro hnone property hproperty
        exact (h.table _ htable property hproperty).refusal?_eq_none_iff.1
          (hnone property hproperty)
      · intro hentries property hproperty
        exact (h.table _ htable property hproperty).refusal?_eq_none_iff.2
          (hentries property hproperty)

theorem Site.CutsStatement.refusal?_eq_some_iff {stmt : Stmt} (h : site.CutsStatement stmt)
    {e : LinkError} :
    stmt.refusal? site.source.text site.origin = some e ↔
      ∃ earlier offender later, stmt.AssignsTable (earlier ++ offender :: later) ∧
        (∀ property ∈ earlier, property.IsEntry) ∧ ¬ offender.IsEntry ∧
        ∃ piece, Text.slice? site.source.text (offender.span.shift site.origin) = some piece ∧
          e = .unsupportedExport (String.ofList piece) := by
  unfold Stmt.refusal?
  simp only [← Stmt.exportTable?_eq_some_iff]
  cases htable : stmt.exportTable? with
  | none => simp
  | some properties =>
      -- The search stops at the first property that is no entry: all in front of it are entries.
      have hcuts := h.table properties htable
      rw [Option.getD_some, List.findSome?_eq_some_iff]
      constructor
      · intro ⟨earlier, offender, later, hproperties, hoffender, hearlier⟩
        subst hproperties
        obtain ⟨hentry, hpiece⟩ := refusal?_property_eq_some_iff.1 hoffender
        refine ⟨earlier, offender, later, rfl, ?_, hentry, hpiece⟩
        intro property hproperty
        exact (hcuts property (by simp [hproperty])).refusal?_eq_none_iff.1
          (hearlier property hproperty)
      · intro ⟨earlier, offender, later, hproperties, hearlier, hentry, hpiece⟩
        obtain rfl := Option.some.inj hproperties
        refine ⟨earlier, offender, later, rfl, ?_, ?_⟩
        · exact refusal?_property_eq_some_iff.2 ⟨hentry, hpiece⟩
        · intro property hproperty
          exact (hcuts property (by simp [hproperty])).refusal?_eq_none_iff.2
            (hearlier property hproperty)

/-- The first refusal of a list of statements is that of the first offender. -/
theorem findSome?_refusal?_eq_some_iff {stmts : List Stmt}
    (h : ∀ stmt ∈ stmts, site.CutsStatement stmt) {e : LinkError} :
    stmts.findSome? (Stmt.refusal? site.source.text site.origin) = some e ↔
      ∃ offender piece, FirstOffender stmts offender ∧
        Text.slice? site.source.text (offender.span.shift site.origin) = some piece ∧
        e = .unsupportedExport (String.ofList piece) := by
  rw [List.findSome?_eq_some_iff]
  constructor
  · intro ⟨before, stmt, after, hstmts, hstmt, hbefore⟩
    subst hstmts
    obtain ⟨earlier, offender, later, htable, hearlier, hoffender, piece, hpiece, he⟩ :=
      (h stmt (by simp)).refusal?_eq_some_iff.1 hstmt
    refine ⟨offender, piece, .intro ?_ htable hearlier hoffender, hpiece, he⟩
    intro other hother
    exact (h other (by simp [hother])).refusal?_eq_none_iff.1 (hbefore other hother)
  · intro ⟨offender, piece, hfirst, hpiece, he⟩
    cases hfirst with
    | @intro before after stmt earlier later _ hbefore htable hearlier hoffender =>
        refine ⟨before, stmt, after, rfl, ?_, ?_⟩
        · exact (h stmt (by simp)).refusal?_eq_some_iff.2
            ⟨earlier, offender, later, htable, hearlier, hoffender, piece, hpiece, he⟩
        · intro other hother
          exact (h other (by simp [hother])).refusal?_eq_none_iff.2 (hbefore other hother)

end Module

/-! ## Texts -/

section Text

variable {names : List String} {input : ModuleInput} {program : Program}

theorem refusal?_of_read [ParserWording] (hread : Program.read input.text.toList = .ok program) :
    refusal? input.text.toList =
      program.statements.findSome? (Stmt.refusal? input.text.toList program.origin) := by
  rw [refusal?, hread]

/-- Whether a script is refused is a matter of its properties alone. -/
theorem refusal?_eq_none_iff [ParserWording]
    (hread : Program.read input.text.toList = .ok program) :
    refusal? input.text.toList = none ↔ ∀ stmt ∈ program.statements, stmt.HasEntries := by
  rw [refusal?_of_read hread, List.findSome?_eq_none_iff]
  refine forall₂_congr fun stmt hstmt => ?_
  have hcuts : (Module.siteOf [] input program).CutsStatement stmt :=
    Module.cutsStatement_of_read hread stmt hstmt
  exact hcuts.refusal?_eq_none_iff

/-- The first offender is refused, with its text. -/
theorem refusal?_eq_some_iff [ParserWording] (hread : Program.read input.text.toList = .ok program)
    {e : LinkError} :
    refusal? input.text.toList = some e ↔ ∃ offender piece,
      FirstOffender program.statements offender ∧
      Text.slice? input.text.toList (offender.span.shift program.origin) = some piece ∧
      e = .unsupportedExport (String.ofList piece) := by
  have hcuts : ∀ stmt ∈ program.statements, (Module.siteOf [] input program).CutsStatement stmt :=
    Module.cutsStatement_of_read hread
  rw [refusal?_of_read hread]
  exact Module.findSome?_refusal?_eq_some_iff hcuts

/-- The elements of a module stand where the statements of its text do. -/
theorem map_span_of_classify [ParserWording] {m : Module} (h : Module.classify names input = .ok m)
    (hread : Program.read input.text.toList = .ok program) :
    m.source.text = input.text.toList ∧ m.elements.map Element.span =
      program.statements.map fun stmt => m.source.locate (stmt.span.shift program.origin) := by
  obtain ⟨program', elements, hread', helements, rfl⟩ := Module.classify_eq_ok_iff.1 h
  obtain rfl := Except.ok.inj (hread.symm.trans hread')
  refine ⟨rfl, (map_eq_map_of_forall₂ ?_).symm⟩
  refine (Module.forall₂_elementOf helements).imp ?_
  intro stmt element ⟨imports, helement⟩
  exact (span_of_elementOf helement).symm

/-- A text that is a script is no module where some statement assigns a table with a property that
is no entry. The error then has the text of the first such property and is wrapped once, in the
module of the text. Any other script is a module with one element for each statement, in their order
and at their places. -/
theorem classify_table [ParserWording] (hread : Program.read input.text.toList = .ok program) :
    ((∃ failure, Module.classify names input = .error failure) ↔
      ∃ stmt ∈ program.statements, ∃ properties, stmt.AssignsTable properties ∧
        ∃ property ∈ properties, ¬ property.IsEntry) ∧
    (∀ failure, Module.classify names input = .error failure ↔
      ∃ offender piece, FirstOffender program.statements offender ∧
        Text.slice? input.text.toList (offender.span.shift program.origin) = some piece ∧
        failure = .error (.inModule input.id (.unsupportedExport (String.ofList piece)))) ∧
    ((∀ stmt ∈ program.statements, stmt.HasEntries) →
      ∃ m, Module.classify names input = .ok m ∧ m.source.text = input.text.toList ∧
        m.elements.map Element.span =
          program.statements.map fun stmt => m.source.locate (stmt.span.shift program.origin)) := by
  -- classification ends with the refusal of the text, if there is one
  have hreports : ∀ failure, Module.classify names input = .error failure ↔
      ∃ e, refusal? input.text.toList = some e ∧ failure = .error (.inModule input.id e) := by
    intro failure
    rw [(Module.reports_classify names input).eq_error_iff]
    simp only [Option.map_eq_some_iff, exists_exists_and_eq_and]
  refine ⟨?_, ?_, ?_⟩
  · have hfails : (∃ failure, Module.classify names input = .error failure) ↔
        refusal? input.text.toList ≠ none := by
      simp only [hreports, Option.ne_none_iff_exists']
      rw [exists_comm]
      simp
    rw [hfails, Ne, refusal?_eq_none_iff hread]
    simp [Stmt.HasEntries]
  · intro failure
    rw [hreports]
    simp only [refusal?_eq_some_iff hread]
    constructor
    · intro ⟨_, ⟨offender, piece, hfirst, hpiece, rfl⟩, hfailure⟩
      exact ⟨offender, piece, hfirst, hpiece, hfailure⟩
    · intro ⟨offender, piece, hfirst, hpiece, hfailure⟩
      exact ⟨_, ⟨offender, piece, hfirst, hpiece, rfl⟩, hfailure⟩
  · intro hall
    cases hclassify : Module.classify names input with
    | error failure =>
        obtain ⟨e, he, -⟩ := (hreports failure).1 hclassify
        rw [(refusal?_eq_none_iff hread).2 hall] at he
        cases he
    | ok m => exact ⟨m, rfl, map_span_of_classify hclassify hread⟩

end Text

/-- A table of four properties, of which the last two are no entries. -/
def refusedTable : ModuleInput :=
  ⟨.regular "A", none, "var x=1;module[\"exports\"]=\x7bx,a:x[\"p\"],[\"b\"]:x,...x\x7d"⟩

/-- Its statements. -/
def refusedTableProgram : Program where
  statements :=
    [.declaration ⟨0, 8⟩ [.mk (.name ⟨4, 5⟩ "x") (some (.leaf ⟨6, 7⟩ .literal))],
    .expression ⟨8, 51⟩ (.assign ⟨8, 51⟩ true
      (.target (.member ⟨8, 25⟩ (.name ⟨8, 14⟩ "module") (.computed (.string ⟨15, 24⟩ "exports"))))
      (.object ⟨26, 51⟩ [.shorthand ⟨27, 28⟩ "x",
        .keyed ⟨29, 37⟩ (.name "a") (.member ⟨31, 37⟩ (.name ⟨31, 32⟩ "x")
          (.computed (.string ⟨33, 36⟩ "p"))),
        .keyed ⟨38, 45⟩ (.computed (.string ⟨39, 42⟩ "b")) (.name ⟨44, 45⟩ "x"),
        .spread ⟨46, 50⟩ (.name ⟨49, 50⟩ "x")]))]
  origin := 0

set_option maxRecDepth 10000 in
/-- A key in brackets is refused, with the text of the property, in front of the spread. -/
theorem bracketed_key_refused :
    Program.read refusedTable.text.toList = .ok refusedTableProgram ∧
      Module.classify ["A"] refusedTable =
        .error (.error (.inModule (.regular "A") (.unsupportedExport "[\"b\"]:x"))) := by
  have hread : Program.read refusedTable.text.toList = .ok refusedTableProgram := by cbv
  refine ⟨hread, ((classify_table hread).2.1 _).2 ?_⟩
  refine ⟨.keyed ⟨38, 45⟩ (.computed (.string ⟨39, 42⟩ "b")) (.name ⟨44, 45⟩ "x"),
    "[\"b\"]:x".toList, ?_, by decide +kernel, rfl⟩
  refine @FirstOffender.intro [_] [] _ [_, _] [_] _ ?_
    (.intro _ _ _ _ _ _ (.bracketed _ _)) ?_ ?_
  · intro other hother properties htable
    obtain rfl := List.mem_singleton.1 hother
    cases htable
  · intro property hproperty
    rcases List.mem_cons.1 hproperty with rfl | hproperty
    · exact .shorthand _ _
    · obtain rfl := List.mem_singleton.1 hproperty
      exact .keyed _ (.name _) (.member _ _ _ (.bracketed _ _))
  · intro hentry
    cases hentry with
    | keyed _ hkey _ => cases hkey

end ModuleLinker
