/-
# ModuleLinker.Proofs.FirstError -- which error is reported

Linking checks the entry points, then the main module, then every text, and ends with the first
error that it meets. `linkError?` names that error without linking anything. A text is refused for
itself: because it is no script, with what the parser says about that, because it imports or
exports, or for the first property of a table of exports that is not bound to a name or to a member
of a name (`refusal?`). Neither the names of the other modules nor the requires in front of a table
have a say in it, since they decide only whether a member of a name is foreign.

`Reports` relates a computation to the error that it has to end with. It has a rule for bind, where
the first error counts, and one for lists.
-/

import ModuleLinker.Proofs.NumberedOrder

namespace ModuleLinker

open Script

/-! ## Errors of a text -/

/-- Whether an export can be bound to the value: to a name, or to a member of a name. -/
def Script.Expr.isBindable : Expr → Bool
  | .name _ _ => true
  | value => value.access?.isSome

theorem Script.Expr.isBindable_eq {value : Expr} (h : ∀ span binder, value ≠ .name span binder) :
    value.isBindable = value.access?.isSome := by
  cases value with
  | name => exact absurd rfl (h _ _)
  | _ => rfl

/-- Whether the property declares an export. -/
def Script.Property.isExport : Property → Bool
  | .shorthand _ _ => true
  | .keyed _ key value => key.declared?.isSome && value.isBindable
  | _ => false

/-- The refusal of a property that declares no export, with its text. -/
def Script.Property.refusal? (text : List Char) (origin : Nat) (property : Property) :
    Option LinkError :=
  if property.isExport then none
  else (Text.slice? text (property.span.shift origin)).map fun piece =>
    .unsupportedExport (String.ofList piece)

/-- The refusal of the first property that declares no export, if the statement is a table of
exports. -/
def Script.Stmt.refusal? (text : List Char) (origin : Nat) (stmt : Stmt) : Option LinkError :=
  (stmt.exportTable?.getD []).findSome? (Property.refusal? text origin)

/-- Why a text is not a module. -/
def refusal? [ParserWording] (text : List Char) : Option LinkError :=
  match Program.read text with
  | .error (.syntaxError offset) =>
    some (.unparsable ((LineIndex.ofText text).lineOf offset) (Program.complaint text))
  | .error .declarations => some .invalidTopLevel
  | .ok program => program.statements.findSome? (Stmt.refusal? text program.origin)

/-! ## Errors of a program -/

/-- The first entry point that is not among the modules. -/
def missingEntryPoint? (ids : List ModuleId) (options : Options) : Option LinkError :=
  (options.entryPoints.find? (· ∉ ids)).map fun id => .missingEntryPoint id.display

/-- The main module, if it is not among the modules. -/
def missingMainModule? (ids : List ModuleId) (options : Options) : Option LinkError :=
  (options.mainModule.filter fun name => ModuleId.regular name ∉ ids).map .missingMainModule

/-- The refusal of the first text that is not a module, with the module that it was given for. -/
def refusedInput? [ParserWording] (inputs : List ModuleInput) : Option LinkError :=
  inputs.findSome? fun input => (refusal? input.text.toList).map (.inModule input.id)

/-- The error that linking ends with. -/
def linkError? [ParserWording] (inputs : List ModuleInput) (options : Options) : Option LinkError :=
  ((missingEntryPoint? (inputs.map (·.id)) options).or
    (missingMainModule? (inputs.map (·.id)) options)).or (refusedInput? inputs)

/-! ## Reports -/

/-- The computation ends with this error, or with a result if there is none. -/
def Reports {α : Type} (expected : Option LinkError) : Except Failure α → Prop
  | .ok _ => expected = none
  | .error (.error e) => expected = some e
  | .error (.outOfText _) => False

theorem findSome?_cons_eq_or {α β : Type} (f : α → Option β) (x : α) (xs : List α) :
    (x :: xs).findSome? f = (f x).or (xs.findSome? f) := by
  rw [List.findSome?_cons]
  cases f x <;> rfl

namespace Reports

variable {α β : Type} {first second : Option LinkError}

/-- The error of the first computation counts. -/
theorem bind {x : Except Failure α} {f : α → Except Failure β} (hx : Reports first x)
    (hf : ∀ a, x = .ok a → Reports second (f a)) : Reports (first.or second) (x >>= f) := by
  cases x with
  | ok a =>
      obtain rfl : first = none := hx
      exact hf a rfl
  | error failure =>
      cases failure with
      | error e =>
          obtain rfl : first = some e := hx
          rfl
      | outOfText span => exact hx.elim

/-- What is made of a result cannot fail. -/
theorem bind_ok {x : Except Failure α} (hx : Reports first x) (f : α → β) :
    Reports first (x >>= fun a => .ok (f a)) := by
  have hbind : Reports (first.or none) (x >>= fun a => .ok (f a)) := hx.bind fun _ _ => rfl
  rwa [Option.or_none] at hbind

/-- A list of computations ends with the error of the first that fails. -/
theorem mapM {expected : β → Option LinkError} {xs : List β} {f : β → Except Failure α}
    (h : ∀ x ∈ xs, Reports (expected x) (f x)) :
    Reports (xs.findSome? expected) (xs.mapM f) := by
  induction xs with
  | nil => exact rfl
  | cons x xs ih =>
      obtain ⟨hx, hxs⟩ := List.forall_mem_cons.1 h
      rw [findSome?_cons_eq_or, List.mapM_cons]
      exact hx.bind fun y _ => (ih hxs).bind_ok (y :: ·)

/-- The computation fails with the expected error and with no other. -/
theorem eq_error_iff {x : Except Failure α} (hx : Reports first x) {failure : Failure} :
    x = .error failure ↔ ∃ e, first = some e ∧ failure = .error e := by
  cases x with
  | ok a =>
      obtain rfl : first = none := hx
      exact ⟨nofun, nofun⟩
  | error found =>
      cases found with
      | error e =>
          obtain rfl : first = some e := hx
          constructor
          · rintro ⟨⟩
            exact ⟨e, rfl, rfl⟩
          · rintro ⟨_, ⟨⟩, rfl⟩
            rfl
      | outOfText span => exact hx.elim

end Reports

/-! ## Reading a module -/

namespace Module

variable {site : Site} {imports : Imports}

/-- The text under a span that was read off it. -/
theorem Site.Cuts.exists_textOf {span : Span} (h : site.Cuts span) :
    ∃ piece, Text.slice? site.source.text (span.shift site.origin) = some piece ∧
      site.textOf span = .ok (String.ofList piece) := by
  obtain ⟨piece, hpiece⟩ := h
  refine ⟨piece, hpiece, ?_⟩
  unfold Site.textOf
  dsimp only
  rw [hpiece]

/-- A value is bound where it is bindable, whatever is imported. -/
theorem exists_bindingOf (imports : Imports) {value : Expr} (h : site.Cuts value.span) :
    ∃ binding, bindingOf? site imports value = .ok binding ∧
      binding.isSome = value.isBindable := by
  obtain ⟨text, htext⟩ := h.textOf_eq
  unfold bindingOf?
  split
  · exact ⟨_, rfl, rfl⟩
  · next object property hname haccess =>
    rw [Expr.isBindable_eq hname, haccess]
    dsimp only
    split
    · exact ⟨_, rfl, rfl⟩
    · rw [htext]
      exact ⟨_, rfl, rfl⟩
  · next hname haccess =>
    rw [Expr.isBindable_eq hname, haccess]
    exact ⟨_, rfl, rfl⟩

theorem reports_exportOf {property : Property} (h : site.CutsProperty property) :
    Reports (property.refusal? site.source.text site.origin) (exportOf site imports property) := by
  have hrefused : property.isExport = false →
      Reports (property.refusal? site.source.text site.origin)
        (unsupported site property.span : Except Failure ExportEntry) := by
    intro hexport
    obtain ⟨piece, hpiece, htext⟩ := h.own.exists_textOf
    show Reports _ (site.textOf property.span >>= fun text =>
      .error (.error (.unsupportedExport text)))
    rw [htext, Property.refusal?, hexport, hpiece]
    rfl
  have hdeclared : property.isExport = true → ∀ entry : ExportEntry,
      Reports (property.refusal? site.source.text site.origin) (.ok entry) :=
    fun hexport entry => if_pos hexport
  -- A property is refused for its form, or for a value that names nothing.
  cases property with
  | shorthand span binder => exact hdeclared rfl _
  | keyed span key value =>
      obtain ⟨binding, hbinding, hbindable⟩ := exists_bindingOf imports (h.value _ _ _ rfl)
      unfold exportOf
      dsimp only
      split
      · next hkey => exact hrefused (by simp [Property.isExport, hkey])
      · next binder hkey =>
        rw [hbinding]
        cases binding with
        | none => exact hrefused (by simp [Property.isExport, hkey, ← hbindable])
        | some binding => exact hdeclared (by simp [Property.isExport, hkey, ← hbindable]) _
  | _ => exact hrefused rfl

/-- Only tables of exports are refused; a table is neither a require nor a member. -/
theorem reports_elementOf {stmt : Stmt} (h : site.CutsStatement stmt) :
    Reports (stmt.refusal? site.source.text site.origin) (elementOf site imports stmt) := by
  have hkept : stmt.exportTable? = none → ∀ element : Element,
      Reports (stmt.refusal? site.source.text site.origin) (.ok element) := by
    intro htable element
    show stmt.refusal? site.source.text site.origin = none
    rw [Stmt.refusal?, htable]
    rfl
  unfold elementOf
  dsimp only
  split
  · next binder path hrequire =>
    obtain ⟨_, _, _, rfl⟩ := Stmt.eq_of_require? hrequire
    exact hkept rfl _
  · split
    · next binder value hmember =>
      refine hkept ?_ _
      cases stmt with
      | expression => cases hmember
      | _ => rfl
    · split
      · next properties htable =>
        have hentries :
            Reports (properties.findSome? _) (properties.mapM (exportOf site imports)) :=
          .mapM fun property hproperty =>
            reports_exportOf (h.table properties htable property hproperty)
        rw [Stmt.refusal?, htable]
        exact hentries.bind_ok _
      · next htable => split <;> exact hkept htable _

theorem reports_elementsOf {stmts : List Stmt} (h : ∀ stmt ∈ stmts, site.CutsStatement stmt) :
    Reports (stmts.findSome? (Stmt.refusal? site.source.text site.origin))
      (elementsOf site imports stmts) := by
  induction stmts generalizing imports with
  | nil => exact rfl
  | cons stmt stmts ih =>
      obtain ⟨hstmt, hstmts⟩ := List.forall_mem_cons.1 h
      rw [findSome?_cons_eq_or]
      unfold elementsOf
      exact (reports_elementOf hstmt).bind fun element _ => (ih hstmts).bind_ok (element :: ·)

theorem reports_classifyText [ParserWording] (names : List String) (input : ModuleInput) :
    Reports (refusal? input.text.toList) (classifyText names input) := by
  unfold classifyText refusal?
  dsimp only
  cases hread : Program.read input.text.toList with
  | error e => cases e <;> rfl
  | ok program =>
      have helements : Reports _ (elementsOf (siteOf names input program) [] program.statements) :=
        reports_elementsOf (cutsStatement_of_read hread)
      exact helements.bind_ok _

/-- A text is refused for itself, and the refusal names the module once. -/
theorem reports_classify [ParserWording] (names : List String) (input : ModuleInput) :
    Reports ((refusal? input.text.toList).map (.inModule input.id)) (classify names input) := by
  have htext := reports_classifyText names input
  unfold classify
  split
  · next e herror =>
    rw [herror] at htext
    have hrefusal : refusal? input.text.toList = some e := htext
    rw [hrefusal]
    rfl
  · next hother =>
    cases hresult : classifyText names input with
    | ok m =>
        rw [hresult] at htext
        have hrefusal : refusal? input.text.toList = none := htext
        rw [hrefusal]
        rfl
    | error failure =>
        cases failure with
        | error e => exact absurd hresult (hother e)
        | outOfText span =>
            rw [hresult] at htext
            exact htext.elim

end Module

/-! ## Linking -/

theorem reports_checkEntryPoints (ids wanted : List ModuleId) :
    Reports ((wanted.find? (· ∉ ids)).map fun id => .missingEntryPoint id.display)
      ((checkEntryPoints ids wanted).mapError .error) := by
  induction wanted with
  | nil => exact rfl
  | cons id rest ih =>
      unfold checkEntryPoints
      split
      · next hid =>
        rw [List.find?_cons_of_neg (by simpa using hid)]
        -- an identifier in front of the result does not change the error
        have hmap : ((checkEntryPoints ids rest).map (id :: ·)).mapError Failure.error =
            (checkEntryPoints ids rest).mapError .error >>= fun rest => .ok (id :: rest) := by
          cases checkEntryPoints ids rest <;> rfl
        rw [hmap]
        exact ih.bind_ok (id :: ·)
      · next hid =>
        rw [List.find?_cons_of_pos (by simpa using hid)]
        rfl

theorem mapError_bind {α β ε ε' : Type} (g : ε → ε') (x : Except ε α) (f : α → Except ε β) :
    (x >>= f).mapError g = x.mapError g >>= fun a => (f a).mapError g := by
  cases x <;> rfl

theorem reports_entryPoints (ids : List ModuleId) (options : Options) :
    Reports ((missingEntryPoint? ids options).or (missingMainModule? ids options))
      ((entryPoints ids options).mapError .error) := by
  unfold entryPoints
  rw [mapError_bind]
  refine (reports_checkEntryPoints ids options.entryPoints).bind fun entries _ => ?_
  unfold missingMainModule?
  cases options.mainModule with
  | none => exact rfl
  | some name =>
      show Reports _ ((if ModuleId.regular name ∈ ids then
        .ok (entries ++ [ModuleId.regular name]) else .error (.missingMainModule name) :
          Except LinkError (List ModuleId)).mapError Failure.error)
      by_cases hmain : ModuleId.regular name ∈ ids
      · rw [if_pos hmain, Option.filter_some, if_neg (by simpa using hmain)]
        rfl
      · rw [if_neg hmain, Option.filter_some, if_pos (by simpa using hmain)]
        rfl

theorem reports_loadModules [ParserWording] (inputs : List ModuleInput) :
    Reports (refusedInput? inputs) (loadModules inputs) := by
  refine Reports.mapM fun input _ => ?_
  show Reports _ (Module.classify _ input >>= fun m => .ok m.analyze)
  exact (Module.reports_classify _ input).bind_ok Module.analyze

theorem reports_link [ParserWording] (inputs : List ModuleInput) (options : Options) :
    Reports (linkError? inputs options) (link inputs options) := by
  -- once all modules are loaded, nothing fails anymore
  have hwritten : ∀ entries, Reports (refusedInput? inputs) (loadModules inputs >>= fun modules =>
      emit (loadOrder (eliminate (.compute (definitions modules) entries) modules)) options) := by
    intro entries
    rw [← Option.or_none (o := refusedInput? inputs)]
    refine (reports_loadModules inputs).bind fun modules hloaded => ?_
    obtain ⟨bundle, hbundle⟩ :=
      exists_emit_loadOrder hloaded (.compute (definitions modules) entries) options
    rw [hbundle]
    rfl
  exact (reports_entryPoints _ options).bind fun entries _ => hwritten entries

/-- The refusal of a text is not yet wrapped in a module. -/
theorem refusal?_ne_inModule [ParserWording] {text : List Char} {e : LinkError}
    (h : refusal? text = some e) (id : ModuleId) (cause : LinkError) : e ≠ .inModule id cause := by
  rintro rfl
  unfold refusal? at h
  split at h
  · cases h
  · cases h
  · obtain ⟨stmt, -, hstmt⟩ := List.exists_of_findSome?_eq_some h
    obtain ⟨property, -, hproperty⟩ := List.exists_of_findSome?_eq_some hstmt
    unfold Property.refusal? at hproperty
    split at hproperty
    · cases hproperty
    · obtain ⟨_, -, hrefusal⟩ := Option.map_eq_some_iff.1 hproperty
      cases hrefusal

/-- Linking fails with the first error: that of the first entry point which is no module of the
input, else that of the main module if it is none, else that of the first text which is refused. A
text is refused for itself, whatever the other modules are called, and the refusal is wrapped once,
in the module of the text. -/
theorem link_error_iff [ParserWording] (inputs : List ModuleInput) (options : Options) :
    (∀ failure, link inputs options = .error failure ↔
      ∃ e, linkError? inputs options = some e ∧ failure = .error e) ∧
    (∀ names input failure, Module.classify names input = .error failure ↔
      ∃ e, refusal? input.text.toList = some e ∧ failure = .error (.inModule input.id e)) ∧
    ∀ text e, refusal? text = some e → ∀ id cause, e ≠ .inModule id cause := by
  refine ⟨fun failure => (reports_link inputs options).eq_error_iff, ?_,
    fun text e => refusal?_ne_inModule⟩
  intro names input failure
  rw [(Module.reports_classify names input).eq_error_iff]
  simp only [Option.map_eq_some_iff]
  constructor
  · rintro ⟨_, ⟨e, he, rfl⟩, rfl⟩
    exact ⟨e, he, rfl⟩
  · rintro ⟨e, he, rfl⟩
    exact ⟨_, ⟨e, he, rfl⟩, rfl⟩

/-- The missing entry point is reported, and neither the main module nor the text. -/
example : linkError? [⟨.regular "A", none, "var = ;"⟩]
      { entryPoints := [.regular "A", .foreign "A"], mainModule := some "B" } =
    some (.missingEntryPoint "A (foreign)") := by
  decide

end ModuleLinker
