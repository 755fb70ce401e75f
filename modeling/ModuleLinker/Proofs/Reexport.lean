/-
# ModuleLinker.Proofs.Reexport -- three views of an export of foreign code

An export is a member of the foreign module for classification if the alias in front of the point
was required in front of the table; for analysis it depends on an export of the module that was last
required under the alias anywhere; and its text is copied either when it is classified or when it is
written. As long as no alias is declared twice the first two find the same module, and where it is a
foreign one it is the one beside the module itself, since no other can be required
(`RequireTarget.resolve_isForeign`). The text is the same in any case.

What has been classified in front of an element is found by going along the elements up to it
(`Module.exists_elementOf`): the requires that its statement was read against are those among them.
-/

import ModuleLinker.Proofs.Dependency
import ModuleLinker.Proofs.ExportTable
import ModuleLinker.Proofs.Respelling

namespace ModuleLinker

open Script

/-! ## Aliases and entries -/

/-- The alias that a require declares. -/
def Element.alias? : Element → Option String
  | .require _ binder _ => some binder
  | _ => none

namespace Module

variable {m : Module}

/-- No alias is declared by two requires. -/
def DeclaresAliasesOnce (m : Module) : Prop := (m.elements.filterMap Element.alias?).Nodup

/-- The entry stands in a table of exports of the module. -/
def HasEntry (m : Module) (entry : ExportEntry) : Prop :=
  ∃ span entries, Element.exports span entries ∈ m.elements ∧ entry ∈ entries

theorem DeclaresAliasesOnce.target_unique (h : m.DeclaresAliasesOnce) {binder : String}
    {id other : ModuleId} (hid : m.Requires binder id) (hother : m.Requires binder other) :
    id = other := by
  obtain ⟨span, hmem⟩ := hid
  obtain ⟨span', hmem'⟩ := hother
  by_contra hne
  -- the two requires would stand at different places and declare the same alias
  have hdiffer : Element.require span binder (.resolved id) ≠
      .require span' binder (.resolved other) := by
    intro heq
    exact hne (RequireTarget.resolved.inj (Element.require.inj heq).2.2)
  have hsymm : Std.Symm fun element element' : Element =>
      ∀ a, element.alias? = some a → ∀ b, element'.alias? = some b → a ≠ b :=
    ⟨fun _ _ hapart b hb a ha heq => hapart a ha b hb heq.symm⟩
  exact (List.pairwise_filterMap.1 h).forall hmem hmem' hdiffer binder rfl binder rfl rfl

/-- Then the module under an alias is the one that analysis looks up. -/
theorem DeclaresAliasesOnce.lookup_imports (h : m.DeclaresAliasesOnce) {binder : String}
    {id : ModuleId} (hrequires : m.Requires binder id) :
    (Scope.ofModule m).imports.lookup binder = some id := by
  obtain ⟨span, last, hlast⟩ := hrequires.exists_last
  rw [hlast.lookup_imports, h.target_unique hrequires ⟨span, hlast.requires⟩]

theorem hasEntry_analyze_iff {entry : ExportEntry} :
    m.analyze.HasEntry entry ↔
      ∃ original, m.HasEntry original ∧ (Scope.ofModule m).analyzeEntry original = entry := by
  constructor
  · intro ⟨span, entries, hmem, hentry⟩
    obtain ⟨element, helement, heq⟩ := List.mem_map.1 hmem
    cases element with
    | exports span' originals =>
        obtain ⟨rfl, rfl⟩ := Element.exports.inj heq
        obtain ⟨original, horiginal, heq⟩ := List.mem_map.1 hentry
        exact ⟨original, ⟨_, _, helement, horiginal⟩, heq⟩
    | _ => cases heq
  · intro ⟨original, ⟨span, entries, hmem, hentry⟩, heq⟩
    exact ⟨span, _, List.mem_map_of_mem hmem, List.mem_map.2 ⟨original, hentry, heq⟩⟩

theorem hasEntry_eliminate_iff {r : Reachability} {entry : ExportEntry} :
    (m.eliminate r).HasEntry entry ↔ m.HasEntry entry ∧ r.isLive (entry.key m.id) := by
  unfold HasEntry
  constructor
  · intro ⟨span, hkept⟩
    obtain ⟨entries, hmem, hentry, hlive⟩ := exports_mem_eliminate_iff.1 hkept
    exact ⟨⟨span, entries, hmem, hentry⟩, hlive⟩
  · intro ⟨⟨span, entries, hmem, hentry⟩, hlive⟩
    exact ⟨span, exports_mem_eliminate_iff.2 ⟨entries, hmem, hentry, hlive⟩⟩

end Module

/-! ## Reading an entry -/

/-- A foreign module is required by the module beside it only. -/
theorem RequireTarget.resolve_isForeign {self id : ModuleId} {names : List String} {path : String}
    (h : resolve self names path = .resolved id) (hforeign : id.isForeign) :
    id = .foreign self.name := by
  unfold resolve at h
  split at h
  · exact (RequireTarget.resolved.inj h).symm
  · split at h
    · split at h
      · obtain rfl := RequireTarget.resolved.inj h
        cases hforeign
      · cases h
    · cases h

namespace Module

variable {site : Site} {imports : Imports}

theorem importsAfter_eq (imports : Imports) (element : Element) :
    importsAfter imports element = (Scope.importOf? element).toList ++ imports := by
  cases element with
  | require _ _ target => cases target <;> rfl
  | _ => rfl

theorem elementsOf_eq_ok_cons {stmts : List Stmt} {element : Element} {elements : List Element}
    (h : elementsOf site imports stmts = .ok (element :: elements)) :
    ∃ stmt rest, elementOf site imports stmt = .ok element ∧
      elementsOf site (importsAfter imports element) rest = .ok elements := by
  cases stmts with
  | nil => cases h
  | cons stmt rest =>
      obtain ⟨first, hfirst, h⟩ := bind_except_eq_ok_iff.1 h
      obtain ⟨others, hothers, h⟩ := bind_except_eq_ok_iff.1 h
      obtain ⟨rfl, rfl⟩ := List.cons.inj (Except.ok.inj h)
      exact ⟨stmt, rest, hfirst, hothers⟩

/-- The statement of an element is read against the requires in front of it. -/
theorem exists_elementOf {stmts : List Stmt} {before after : List Element} {element : Element}
    (h : elementsOf site imports stmts = .ok (before ++ element :: after)) :
    ∃ stmt, elementOf site ((before.filterMap Scope.importOf?).reverse ++ imports) stmt =
      .ok element := by
  induction before generalizing imports stmts with
  | nil =>
      obtain ⟨stmt, -, hstmt, -⟩ := elementsOf_eq_ok_cons h
      exact ⟨stmt, hstmt⟩
  | cons first before ih =>
      obtain ⟨-, rest, -, hrest⟩ := elementsOf_eq_ok_cons h
      obtain ⟨stmt, hstmt⟩ := ih hrest
      refine ⟨stmt, ?_⟩
      -- a require of a module of the program comes in front of those before it
      rw [importsAfter_eq] at hstmt
      cases himport : Scope.importOf? first with
      | none => simpa [List.filterMap_cons, himport] using hstmt
      | some required => simpa [List.filterMap_cons, himport] using hstmt

/-- The entries of a table are read off its properties. -/
theorem exists_exportOf_of_elementOf {stmt : Stmt} {span : LineSpan} {entries : List ExportEntry}
    (h : elementOf site imports stmt = .ok (.exports span entries)) :
    ∀ entry ∈ entries, ∃ property, exportOf site imports property = .ok entry := by
  unfold elementOf at h
  dsimp only at h
  split at h
  · cases h
  · split at h
    · cases h
    · split at h
      · obtain ⟨found, hfound, h⟩ := bind_except_eq_ok_iff.1 h
        obtain ⟨-, rfl⟩ := Element.exports.inj (Except.ok.inj h)
        intro entry hentry
        obtain ⟨property, -, hproperty⟩ :=
          (exists_mem_of_forall₂ (mapM_except_eq_ok_iff.1 hfound)).2 entry hentry
        exact ⟨property, hproperty⟩
      · split at h
        · cases h
        · cases h

/-- An entry has the binding and the place of its value, whatever property it was read off. -/
theorem bindingOf?_of_exportOf {property : Property} {entry : ExportEntry}
    (h : exportOf site imports property = .ok entry) :
    bindingOf? site imports entry.value = .ok (some entry.binding) ∧
      entry.span = site.locate entry.value.span := by
  have hrefused : ∀ span, unsupported site span ≠ (.ok entry : Except Failure ExportEntry) := by
    intro span hok
    obtain ⟨text, -, hok⟩ := bind_except_eq_ok_iff.1 hok
    cases hok
  unfold exportOf at h
  split at h
  · obtain rfl := Except.ok.inj h
    exact ⟨rfl, rfl⟩
  · split at h
    · exact absurd h (hrefused _)
    · obtain ⟨binding?, hbinding, h⟩ := bind_except_eq_ok_iff.1 h
      cases binding? with
      | none => exact absurd h (hrefused _)
      | some binding =>
          obtain rfl := Except.ok.inj h
          exact ⟨hbinding, rfl⟩
  · exact absurd h (hrefused _)

/-- Only an access through the alias of a foreign module is bound to a member of it. -/
theorem access_of_bindingOf?_foreign {value : Expr}
    (h : bindingOf? site imports value = .ok (some .foreign)) :
    ∃ binder property id, value.access? = some (binder, property) ∧
      imports.lookup binder = some id ∧ id.isForeign := by
  cases haccess : value.access? with
  | none =>
      rw [bindingOf?_of_no_access haccess] at h
      cases hname : value.name? with
      | none => rw [hname] at h; cases h
      | some name => rw [hname] at h; cases h
  | some names =>
      obtain ⟨binder, property⟩ := names
      rw [bindingOf?_of_access haccess] at h
      split at h
      · next hforeign =>
        cases hlookup : imports.lookup binder with
        | none => rw [hlookup] at hforeign; cases hforeign
        | some id =>
            rw [hlookup] at hforeign
            exact ⟨binder, property, id, rfl, hlookup, hforeign⟩
      · obtain ⟨text, -, h⟩ := bind_except_eq_ok_iff.1 h
        cases h

/-- A value that is a member access is bound to its text, or to a member of the foreign module. -/
theorem binding_of_access {value : Expr} {binding : ExportBinding} (haccess : value.access?.isSome)
    (h : bindingOf? site imports value = .ok (some binding)) :
    binding = .foreign ∨
      ∃ text, site.textOf value.span = .ok text ∧ binding = .expression text := by
  obtain ⟨⟨binder, property⟩, haccess⟩ := Option.isSome_iff_exists.1 haccess
  rw [bindingOf?_of_access haccess] at h
  split at h
  · exact .inl (Option.some.inj (Except.ok.inj h)).symm
  · obtain ⟨text, htext, h⟩ := bind_except_eq_ok_iff.1 h
    exact .inr ⟨text, htext, (Option.some.inj (Except.ok.inj h)).symm⟩

end Module

/-! ## Entries of a module -/

section Classified

variable {names : List String} {input : ModuleInput} {m : Module} {entry : ExportEntry}

/-- Every entry was read off a property, against requires of the module. -/
theorem exists_exportOf_of_classify [ParserWording] (h : Module.classify names input = .ok m)
    (hentry : m.HasEntry entry) :
    ∃ program imports property, Program.read input.text.toList = .ok program ∧
      m.source = (Module.siteOf names input program).source ∧
      Module.exportOf (Module.siteOf names input program) imports property = .ok entry ∧
      ∀ binder id, imports.lookup binder = some id → m.Requires binder id := by
  obtain ⟨program, elements, hread, helements, rfl⟩ := Module.classify_eq_ok_iff.1 h
  obtain ⟨span, entries, hmem, hentry⟩ := hentry
  obtain ⟨before, after, hsplit⟩ := List.append_of_mem hmem
  dsimp only at hsplit
  rw [hsplit] at helements
  obtain ⟨stmt, hstmt⟩ := Module.exists_elementOf helements
  obtain ⟨property, hproperty⟩ := Module.exists_exportOf_of_elementOf hstmt entry hentry
  refine ⟨program, _, property, hread, rfl, hproperty, ?_⟩
  intro binder id hlookup
  -- what was required in front of the table is required by the module
  obtain ⟨front, back, hcut, -⟩ := List.lookup_eq_some_iff.1 hlookup
  have hfound : (binder, id) ∈ before.filterMap Scope.importOf? := by
    rw [List.append_nil] at hcut
    rw [← List.mem_reverse, hcut]
    simp
  obtain ⟨element, helement, himport⟩ := List.mem_filterMap.1 hfound
  rw [← mem_imports_iff]
  have hall : (binder, id) ∈ elements.filterMap Scope.importOf? :=
    List.mem_filterMap.2 ⟨element, by simp [hsplit, helement], himport⟩
  simpa [Scope.ofModule] using hall

/-- A required module that is foreign is the one beside the module. -/
theorem Module.Requires.eq_foreign [ParserWording] (h : Module.classify names input = .ok m)
    {binder : String} {id : ModuleId} (hrequires : m.Requires binder id) (hforeign : id.isForeign) :
    id = .foreign m.id.name := by
  obtain ⟨program, elements, -, helements, rfl⟩ := Module.classify_eq_ok_iff.1 h
  obtain ⟨span, hmem⟩ := hrequires
  obtain ⟨stmt, -, imports, hstmt⟩ :=
    (exists_mem_of_forall₂ (Module.forall₂_elementOf helements)).2 _ hmem
  obtain ⟨path, -, hpath⟩ := Module.exists_require_of_elementOf hstmt
  exact RequireTarget.resolve_isForeign hpath.symm hforeign

/-- An entry that is bound to a member of foreign code accesses it through an alias of the module
beside its own. -/
theorem exists_alias_of_foreign [ParserWording] (h : Module.classify names input = .ok m)
    (hentry : m.HasEntry entry) (hforeign : entry.binding = .foreign) :
    ∃ binder property, entry.value.access? = some (binder, property) ∧
      m.Requires binder (.foreign m.id.name) := by
  obtain ⟨program, imports, _, -, -, hproperty, himports⟩ := exists_exportOf_of_classify h hentry
  have hbinding := (Module.bindingOf?_of_exportOf hproperty).1
  rw [hforeign] at hbinding
  obtain ⟨binder, property, id, haccess, hlookup, hid⟩ :=
    Module.access_of_bindingOf?_foreign hbinding
  have hrequires := himports binder id hlookup
  exact ⟨binder, property, haccess, hrequires.eq_foreign h hid ▸ hrequires⟩

end Classified

/-! ## Dependencies -/

/-- An access through an alias depends on the export of its module, and on nothing else. -/
theorem dependencies_of_access {scope : Scope} {value : Expr} {binder property : String}
    {id : ModuleId} (haccess : value.access? = some (binder, property))
    (himport : scope.imports.lookup binder = some id) :
    scope.dependencies value = [⟨id, property, .exported⟩] := by
  have hrefer : scope.refer? ⟨.access binder property, []⟩ = some ⟨id, property, .exported⟩ := by
    simp [Scope.refer?, Scope.import?, himport]
  obtain ⟨span, inner, key, rfl, hkey⟩ := Expr.access?_eq_some_iff.1 haccess
  unfold Scope.dependencies Expr.occurrences
  rw [haccess]
  cases hkey with
  | pointed => simp [PropertyKey.occurrences, hrefer, distinct]
  | bracketed span' =>
      have hliteral : scope.refer? ⟨.literal span', []⟩ = none := rfl
      simp [PropertyKey.occurrences, Expr.occurrences, hrefer, hliteral, distinct]

/-! ## Texts -/

namespace Emission

/-- The line that assigns the text of a value to an exported property. -/
def assignmentText (name value : String) : String :=
  "  exports[" ++ Text.quoted name ++ "] = " ++ value ++ ";"

/-- The line of an export stands in the code of a program. -/
theorem exists_code_eq_of_exportLine {modules : List Module} {options : Options} {bundle : Bundle}
    {m : Module} {entry : ExportEntry} {text : String} {number : Nat}
    (hemit : emit modules options = .ok bundle) (hm : m ∈ modules) (hentry : m.HasEntry entry)
    (hline : ∀ file, exportLine file m.source entry = .ok (copied file text number)) :
    ∃ front back, bundle.code = front ++ text ++ "\n" ++ back := by
  obtain ⟨wrappers, hcontents, hcode, -⟩ := emit_eq_ok_iff.1 hemit
  obtain ⟨w, hw, rfl⟩ := List.mem_map.1 (hcontents ▸ hm)
  obtain ⟨span, entries, htable, hmem⟩ := hentry
  obtain ⟨front, lines, back, hlines, hbody⟩ := exists_elementLines_of_mem w.isBody htable
  obtain ⟨line, hwritten, hown⟩ :=
    (exists_mem_of_forall₂ (mapM_except_eq_ok_iff.1 hlines)).1 entry hmem
  obtain rfl := Except.ok.inj ((hline _).symm.trans hown)
  have hinside : copied (sourceFile options.outputFile w.content) text number ∈ w.lines := by
    simp [Wrapper.lines, hbody, hwritten]
  -- The line is one of the body, the body stands in its wrapper, and the wrapper in the program.
  have hall : copied (sourceFile options.outputFile w.content) text number ∈
      assembled options wrappers := by
    unfold assembled
    simp only [List.mem_append, List.mem_cons, List.mem_flatten, List.mem_map]
    exact .inl (.inr ⟨w.lines, ⟨w, hw, rfl⟩, hinside⟩)
  obtain ⟨above, below, hsplit⟩ := List.append_of_mem hall
  refine ⟨joined above, joined below, ?_⟩
  rw [hcode, hsplit, joined_append, joined]
  simp [copied, String.append_assoc]

/-- The text of a value that is a member access is written for its export, however it is bound. -/
theorem exportLine_of_access {site : Module.Site} {imports : Module.Imports} {entry : ExportEntry}
    (haccess : entry.value.access?.isSome)
    (hbinding : Module.bindingOf? site imports entry.value = .ok (some entry.binding))
    (hspan : entry.span = site.locate entry.value.span) {piece : List Char}
    (hpiece : site.source.slice? (entry.value.span.shift site.origin) = some piece)
    (file : Option String) :
    exportLine file site.source entry =
      .ok (copied file (assignmentText entry.name (String.ofList piece)) entry.span.firstLine) := by
  have hbound : boundText site.source entry = .ok (String.ofList piece) := by
    unfold boundText
    rcases Module.binding_of_access haccess hbinding with hforeign | ⟨text, htext, hexpression⟩
    · have hplace : entry.span.toSpan = entry.value.span.shift site.origin := by
        rw [hspan]
        rfl
      rw [hforeign]
      dsimp only
      rw [hplace, hpiece]
    · unfold Module.Site.textOf at htext
      dsimp only at htext
      rw [hpiece] at htext
      rw [hexpression]
      exact htext.symm
  exact bind_except_eq_ok_iff.2 ⟨_, hbound, rfl⟩

/-- An export of a classified module that is left is written with the text of its access. -/
theorem exists_text_of_access [ParserWording] {names : List String} {input : ModuleInput}
    {m : Module} {program : Program} {r : Reachability} {entry : ExportEntry}
    (h : Module.classify names input = .ok m) (hread : Program.read input.text.toList = .ok program)
    (hkept : (m.analyze.eliminate r).HasEntry entry) (haccess : entry.value.access?.isSome) :
    ∃ piece, Text.slice? input.text.toList (entry.value.span.shift program.origin) = some piece ∧
      ∀ file, exportLine file m.source entry = .ok (copied file
        (assignmentText entry.name (String.ofList piece)) entry.span.firstLine) := by
  obtain ⟨original, horiginal, rfl⟩ :=
    Module.hasEntry_analyze_iff.1 (Module.hasEntry_eliminate_iff.1 hkept).1
  obtain ⟨program', imports, property, hread', hsource, hproperty, -⟩ :=
    exists_exportOf_of_classify h horiginal
  obtain rfl := Except.ok.inj (hread.symm.trans hread')
  obtain ⟨hbinding, hspan⟩ := Module.bindingOf?_of_exportOf hproperty
  obtain ⟨span, entries, htable, hmem⟩ := hkept
  have hheld := (Module.classified_eliminate h r).heldByText.elements _ htable
  obtain ⟨piece, hcut⟩ := (hheld.entries span entries rfl _ hmem).holds.cut
  have hplace : original.span.toSpan = original.value.span.shift program.origin :=
    congrArg LineSpan.toSpan hspan
  have hpiece : m.source.slice? (original.value.span.shift program.origin) = some piece :=
    hplace ▸ hcut
  rw [hsource] at hpiece ⊢
  exact ⟨piece, hpiece, exportLine_of_access haccess hbinding hspan hpiece⟩

end Emission

/-! ## Agreement -/

open Emission

/-- The views of a table agree. In a regular module which declares no alias twice, an export of
foreign code is an access through the alias of the foreign module beside it and depends on the
accessed export and nothing else, so that while the export is live this dependency is, if there is
one, and the require of the alias is kept. And wherever an export is a member access, the text of
the access is written for it, whether it has been found to be foreign or not. -/
theorem table_views_agree [ParserWording] {names : List String} {input : ModuleInput} {m : Module}
    (h : Module.classify names input = .ok m) :
    (m.id.kind = .regular → m.DeclaresAliasesOnce →
      ∀ entry, m.analyze.HasEntry entry → entry.binding = .foreign →
        ∃ binder property, entry.value.access? = some (binder, property) ∧
          entry.dependencies = [⟨.foreign m.id.name, property, .exported⟩] ∧
          ∀ modules entryPoints, m.analyze ∈ modules →
            let r := Reachability.compute (definitions modules) entryPoints
            r.isLive (entry.key m.id) →
              (IsDeclared modules ⟨.foreign m.id.name, property, .exported⟩ →
                r.isLive ⟨.foreign m.id.name, property, .exported⟩) ∧
              m.analyze.eliminate r ∈ eliminate r modules ∧
              ∃ span, Element.require span binder (.resolved (.foreign m.id.name)) ∈
                (m.analyze.eliminate r).elements) ∧
    ∃ program, Program.read input.text.toList = .ok program ∧
      ∀ r entry, (m.analyze.eliminate r).HasEntry entry → entry.value.access?.isSome →
        ∃ piece,
          Text.slice? input.text.toList (entry.value.span.shift program.origin) = some piece ∧
          (∀ file, exportLine file m.source entry = .ok (copied file
            (assignmentText entry.name (String.ofList piece)) entry.span.firstLine)) ∧
          ∀ modules options bundle, m.analyze.eliminate r ∈ modules →
            emit modules options = .ok bundle →
            ∃ front back, bundle.code =
              front ++ assignmentText entry.name (String.ofList piece) ++ "\n" ++ back := by
  constructor
  · intro hregular honce entry hentry hforeign
    obtain ⟨original, horiginal, rfl⟩ := Module.hasEntry_analyze_iff.1 hentry
    obtain ⟨binder, property, haccess, hrequires⟩ := exists_alias_of_foreign h horiginal hforeign
    have hdependencies : ((Scope.ofModule m).analyzeEntry original).dependencies =
        [⟨.foreign m.id.name, property, .exported⟩] :=
      dependencies_of_access haccess (honce.lookup_imports hrequires)
    refine ⟨binder, property, haccess, hdependencies, ?_⟩
    intro modules entryPoints hm r hlive
    obtain ⟨span, entries, htable, hmem⟩ := hentry
    have hdeclares : Declares modules (((Scope.ofModule m).analyzeEntry original).key m.id)
        [⟨.foreign m.id.name, property, .exported⟩] := by
      rw [← hdependencies]
      exact .entry (m := m.analyze) hm htable hmem
    -- a reference keeps a require only where it leads out of the module
    have hother : m.id ≠ .foreign m.id.name := by
      intro heq
      have hkind := congrArg ModuleId.kind heq
      rw [hregular] at hkind
      cases hkind
    refine ⟨fun hdeclared => ?_, ?_, ?_⟩
    · exact isLive_iff.2
        (.step (isLive_iff.1 hlive) hdeclares (List.mem_singleton_self _) hdeclared)
    · obtain ⟨kept, hkept, hleft⟩ := exports_mem_eliminate_iff.2 ⟨entries, htable, hmem, hlive⟩
      exact eliminate_mem_of_records hm hkept (.entry hleft)
    · obtain ⟨span', hrequire⟩ := hrequires
      refine ⟨span', require_mem_eliminate_iff.2 ⟨require_mem_analyze_iff.2 hrequire, ?_⟩⟩
      exact isReferenced_iff.2 ⟨hother, _, isLive_iff.1 hlive, rfl, _, hdeclares, _,
        List.mem_singleton_self _, rfl⟩
  · obtain ⟨program, -, hread, -, -⟩ := Module.classify_eq_ok_iff.1 h
    refine ⟨program, hread, ?_⟩
    intro r entry hkept haccess
    obtain ⟨piece, hpiece, hline⟩ := exists_text_of_access h hread hkept haccess
    refine ⟨piece, hpiece, hline, ?_⟩
    intro modules options bundle hwritten hemit
    exact exists_code_eq_of_exportLine hemit hwritten hkept hline

/-- A module that exports a member of the foreign code beside it. -/
def reexportingInput : ModuleInput :=
  ⟨.regular "B", none, "var f=require(\"./foreign.js\");module.exports=\x7ba:f.p\x7d"⟩

/-- Its statements. -/
def reexportingProgram : Program where
  statements :=
    [.declaration ⟨0, 30⟩ [.mk (.name ⟨4, 5⟩ "f") (some (.group ⟨6, 29⟩ .call
      [.name ⟨6, 13⟩ "require", .string ⟨14, 28⟩ "./foreign.js"]))],
    .expression ⟨30, 52⟩ (.assign ⟨30, 52⟩ true
      (.target (.member ⟨30, 44⟩ (.name ⟨30, 36⟩ "module") (.name "exports")))
      (.object ⟨45, 52⟩ [.keyed ⟨46, 51⟩ (.name "a")
        (.member ⟨48, 51⟩ (.name ⟨48, 49⟩ "f") (.name "p"))]))]
  origin := 0

/-- The module that it is, classified against its own name. -/
def reexportingModule : Module where
  id := .regular "B"
  filePath := none
  source := (Module.siteOf ["B"] reexportingInput reexportingProgram).source
  elements :=
    let site := Module.siteOf ["B"] reexportingInput reexportingProgram
    [.require (site.locate ⟨0, 30⟩) "f" (.resolved (.foreign "B")),
    .exports (site.locate ⟨30, 52⟩) [{ name := "a", binding := .foreign
                                       value := .member ⟨48, 51⟩ (.name ⟨48, 49⟩ "f") (.name "p")
                                       span := site.locate ⟨48, 51⟩ }]]

/-- The foreign code. -/
def foreignCode : Module where
  id := .foreign "B"
  filePath := none
  source := Source.ofText [] []
  elements := [.member default .exported "p" (.leaf default .literal) []]

set_option maxRecDepth 10000 in
/-- Where the export is live, the foreign one is, and the require of the foreign module is kept. -/
theorem reexport_keeps_foreign :
    Module.classify ["B"] reexportingInput = .ok reexportingModule ∧
    ∃ entry, reexportingModule.analyze.HasEntry entry ∧ entry.binding = .foreign ∧
      entry.dependencies = [⟨.foreign "B", "p", .exported⟩] ∧
      let r := Reachability.compute (definitions [reexportingModule.analyze, foreignCode])
        [.regular "B"]
      r.isLive ⟨.foreign "B", "p", .exported⟩ ∧
      (∃ span, Element.require span "f" (.resolved (.foreign "B")) ∈
        (reexportingModule.analyze.eliminate r).elements) ∧
      ∃ piece, Text.slice? reexportingInput.text.toList entry.value.span = some piece ∧
        exportLine none reexportingModule.source entry =
          .ok ⟨assignmentText "a" (String.ofList piece), none⟩ := by
  have hread : Program.read reexportingInput.text.toList = .ok reexportingProgram := by cbv
  have hclassify : Module.classify ["B"] reexportingInput = .ok reexportingModule :=
    Module.classify_eq_ok_iff.2 ⟨reexportingProgram, _, hread, rfl, rfl⟩
  obtain ⟨hforeign, program, hread', htexts⟩ := table_views_agree hclassify
  obtain rfl := Except.ok.inj (hread.symm.trans hread')
  have hentry : reexportingModule.analyze.HasEntry _ :=
    ⟨_, _, List.mem_cons_of_mem _ (List.mem_singleton_self _), List.mem_singleton_self _⟩
  have hdeclares : Declares [reexportingModule.analyze, foreignCode] ⟨.regular "B", "a", .exported⟩
      [⟨.foreign "B", "p", .exported⟩] :=
    .entry (m := reexportingModule.analyze) (by simp)
      (List.mem_cons_of_mem _ (List.mem_singleton_self _)) (List.mem_singleton_self _)
  -- The entry is a root, and the foreign key that it depends on is declared by the foreign code.
  have hlive : (Reachability.compute (definitions [reexportingModule.analyze, foreignCode])
      [.regular "B"]).isLive ⟨.regular "B", "a", .exported⟩ :=
    isLive_iff.2 (.root ⟨_, hdeclares⟩ rfl (by simp))
  have honce : reexportingModule.DeclaresAliasesOnce := List.nodup_singleton _
  obtain ⟨binder, property, haccess, hdependencies, hkept⟩ := hforeign rfl honce _ hentry rfl
  obtain ⟨rfl, rfl⟩ := Prod.mk.inj (Option.some.inj haccess)
  obtain ⟨hneeded, -, hrequire⟩ := hkept _ _ (List.mem_cons_self ..) hlive
  have hdefined : IsDeclared [reexportingModule.analyze, foreignCode]
      ⟨.foreign "B", "p", .exported⟩ :=
    ⟨_, .member (m := foreignCode) (by simp) (List.mem_singleton_self _)⟩
  obtain ⟨piece, hpiece, hline, -⟩ :=
    htexts _ _ (Module.hasEntry_eliminate_iff.2 ⟨hentry, hlive⟩) rfl
  exact ⟨hclassify, _, hentry, rfl, hdependencies, hneeded hdefined, hrequire, piece, hpiece,
    hline none⟩

end ModuleLinker
