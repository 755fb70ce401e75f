/-
# ModuleLinker.Proofs.KeptReferences -- kept code refers to kept code

Elimination drops members and requires. This module says when the code that stays can miss one of
them. An internal member stays where a kept value refers to it at a position that the analysis
examines with the name visible, hence everywhere but in the key of a setter whose parameter has
that name (`internal_reference_recorded`).
-/

import Mathlib
import ModuleLinker.Link.Program
import ModuleLinker.Proofs.Dependency

namespace ModuleLinker

open Script

variable {modules : List Module} {entryPoints : List ModuleId} {m : Module} {name : String}

/-- Every declaration of the internal member is still there after elimination. -/
def Module.KeepsInternal (m : Module) (r : Reachability) (name : String) : Prop :=
  ∀ span value dependencies,
    Element.member span .internal name value dependencies ∈ m.elements →
    Element.member span .internal name value dependencies ∈ (m.eliminate r).elements

/-- A value that elimination keeps has the property. -/
def Module.KeepsValue (m : Module) (r : Reachability) (p : Expr → Prop) : Prop :=
  ∃ element ∈ (m.eliminate r).elements, ∃ value dependencies,
    element.Records value dependencies ∧ p value

/-! ## Internal members -/

/-- Only a module with the identifier of the owner has values that depend on an internal key. -/
theorem owner_eq_of_mem_dependencies {value : Expr} {key : Key}
    (h : key ∈ (Scope.ofModule m).dependencies value) (hinternal : key.visibility = .internal) :
    key.owner = m.id := by
  have hmember : ∀ {hidden : List String} {text : String},
      (Scope.ofModule m).member? hidden text = some key → key.owner = m.id := by
    intro hidden text hsome
    unfold Scope.member? at hsome
    split at hsome
    · obtain rfl := Option.some.inj hsome
      rfl
    · cases hsome
  obtain ⟨occurrence, -, hrefer⟩ := mem_dependencies.1 h
  unfold Scope.refer? at hrefer
  split at hrefer
  · cases hrefer
  · exact hmember hrefer
  · split at hrefer
    · obtain rfl := Option.some.inj hrefer
      cases hinternal
    · split at hrefer
      · obtain rfl := Option.some.inj hrefer
        cases hinternal
      · exact hmember hrefer

/-- An internal key that some kept value of its module depends on is live, and no other is. -/
theorem isLive_internal_iff (hm : m ∈ modules)
    (hunique : ∀ other ∈ modules, other.id = m.id → other = m)
    (hmember : IsDeclared (modules.map Module.analyze) ⟨m.id, name, .internal⟩) :
    let r := Reachability.compute (definitions (modules.map Module.analyze)) entryPoints
    r.isLive ⟨m.id, name, .internal⟩ ↔
      ∃ element ∈ (m.analyze.eliminate r).elements, ∃ value dependencies,
        element.Records value dependencies ∧ ⟨m.id, name, .internal⟩ ∈ dependencies := by
  intro r
  have hanalyzed : m.analyze ∈ modules.map Module.analyze := List.mem_map.2 ⟨m, hm, rfl⟩
  constructor
  · intro hlive
    -- an internal key is no root: some live key depends on it
    cases isLive_iff.1 hlive with
    | root _ hpublic _ => cases hpublic
    | step hparent hdeclares hdep _ =>
        obtain ⟨_, hother, howner, element, helement, value, hrecords⟩ :=
          exists_records_of_declares hdeclares (isLive_iff.2 hparent)
        obtain ⟨other, hmem, rfl⟩ := List.mem_map.1 hother
        obtain ⟨⟨original, horiginal, hvalue⟩, -⟩ :=
          exists_live_of_records hother helement hrecords
        have hscope := exists_records_of_analyze horiginal hvalue
        obtain rfl : other = m := by
          refine hunique other hmem ?_
          rw [hscope] at hdep
          exact (owner_eq_of_mem_dependencies hdep rfl).symm
        exact ⟨element, helement, value, _, hrecords, hdep⟩
  · rintro ⟨element, helement, value, dependencies, hrecords, hdep⟩
    obtain ⟨-, parent, hparent, -, hdeclares⟩ :=
      exists_live_of_records hanalyzed helement hrecords
    exact isLive_iff.2 (.step (isLive_iff.1 hparent) hdeclares hdep hmember)

theorem keepsInternal_iff {r : Reachability} (hmember : m.DeclaresInternal name) :
    m.analyze.KeepsInternal r name ↔ r.isLive ⟨m.id, name, .internal⟩ := by
  constructor
  · intro hkeeps
    obtain ⟨span, value, dependencies, hmem⟩ := declaresInternal_analyze_iff.2 hmember
    exact (member_mem_eliminate_iff.1 (hkeeps _ _ _ hmem)).2
  · intro hlive span value dependencies hmem
    exact member_mem_eliminate_iff.2 ⟨hmem, hlive⟩

/-- A value depends on an internal member that it refers to unless it does so in the keys of
setters only, where the parameter of the setter hides the name. A kept value that refers to the
member therefore keeps all of its declarations, up to that exception; and where no other module has
the identifier, the member is kept for no other reason. -/
theorem internal_reference_recorded (hmember : m.DeclaresInternal name)
    (himport : ∀ id, ¬ m.Requires name id) (hexports : name ≠ "exports") :
    (∀ element ∈ m.analyze.elements, ∀ value dependencies, element.Records value dependencies →
      value.MentionsFree (.reference name) name →
      (⟨m.id, name, .internal⟩ ∉ dependencies ↔
        value.MentionsInKeysOnly (.reference name) name)) ∧
    ∀ (modules : List Module) (entryPoints : List ModuleId), m ∈ modules →
      let r := Reachability.compute (definitions (modules.map Module.analyze)) entryPoints
      (m.analyze.KeepsValue r (fun value => value.MentionsFree (.reference name) name ∧
          ¬ value.MentionsInKeysOnly (.reference name) name) →
        m.analyze.eliminate r ∈ eliminate r (modules.map Module.analyze) ∧
          m.analyze.KeepsInternal r name) ∧
      ((∀ other ∈ modules, other.id = m.id → other = m) → m.analyze.KeepsInternal r name →
        m.analyze.KeepsValue r fun value => value.MentionsFree (.reference name) name ∧
          ¬ value.MentionsInKeysOnly (.reference name) name) := by
  constructor
  · intro element helement value dependencies hrecords hfree
    rw [exists_records_of_analyze helement hrecords,
      mem_dependencies_internal hmember himport hexports, Expr.mentionsInKeysOnly_iff]
    exact ⟨fun hnot => ⟨hfree, hnot⟩, fun hkeys => hkeys.2⟩
  · intro modules entryPoints hm r
    have hanalyzed : m.analyze ∈ modules.map Module.analyze := List.mem_map.2 ⟨m, hm, rfl⟩
    have hdeclared : IsDeclared (modules.map Module.analyze) ⟨m.id, name, .internal⟩ := by
      obtain ⟨span, value, dependencies, hmem⟩ := declaresInternal_analyze_iff.2 hmember
      show IsDeclared _ ⟨m.analyze.id, name, .internal⟩
      exact ⟨dependencies, .member hanalyzed hmem⟩
    constructor
    · -- A value that is kept has a live key, and what it refers to is live by one more step.
      rintro ⟨element, helement, value, dependencies, hrecords, hmentions⟩
      refine ⟨eliminate_mem_of_records hanalyzed helement hrecords, ?_⟩
      obtain ⟨⟨original, horiginal, hvalue⟩, key, hlive, -, hdeclares⟩ :=
        exists_live_of_records hanalyzed helement hrecords
      have hdep : ⟨m.id, name, .internal⟩ ∈ dependencies := by
        rw [exists_records_of_analyze horiginal hvalue,
          mem_dependencies_internal hmember himport hexports]
        exact Expr.mentionsVisibly_iff.2 hmentions
      rw [keepsInternal_iff hmember]
      exact isLive_iff.2 (.step (isLive_iff.1 hlive) hdeclares hdep hdeclared)
    · intro hunique hkeeps
      -- Nothing outside the module refers to an internal member, so the last step to it came from
      -- a value of the module.
      rw [keepsInternal_iff hmember] at hkeeps
      obtain ⟨element, helement, value, dependencies, hrecords, hdep⟩ :=
        (isLive_internal_iff hm hunique hdeclared).1 hkeeps
      obtain ⟨⟨original, horiginal, hvalue⟩, -⟩ :=
        exists_live_of_records hanalyzed helement hrecords
      refine ⟨element, helement, value, dependencies, hrecords, Expr.mentionsVisibly_iff.1 ?_⟩
      rwa [exists_records_of_analyze horiginal hvalue,
        mem_dependencies_internal hmember himport hexports] at hdep

/-- A text in which `x` is referred to in the key of a setter and `y` in its body. -/
def setterKeyText : String :=
  "var x = 1;\nvar y = 2;\nexports.f = \x7b set [x](x) \x7b y; \x7d \x7d;\n"

/-- The object with the setter. -/
def setterKeyValue : Expr :=
  .object ⟨34, 55⟩ [.setter ⟨36, 53⟩ (.computed (.name ⟨41, 42⟩ "x"))
    (.mk [.name ⟨44, 45⟩ "x"] [.expression ⟨49, 51⟩ (.name ⟨49, 50⟩ "y")])]

/-- The module of the text. -/
def setterKeyModule : Module where
  id := .regular "A"
  filePath := none
  source := .ofText setterKeyText.toList []
  elements := [
    .member ⟨⟨0, 10⟩, 0, 0⟩ .internal "x" (.leaf ⟨8, 9⟩ .literal) [],
    .member ⟨⟨11, 21⟩, 1, 1⟩ .internal "y" (.leaf ⟨19, 20⟩ .literal) [],
    .member ⟨⟨22, 56⟩, 2, 2⟩ .exported "f" setterKeyValue []]

set_option maxRecDepth 10000 in
/-- The value refers to `x`, in a key only, and does not depend on it; `y` is kept with it. -/
theorem setter_key_reference_lost :
    Module.classify ["A"] ⟨.regular "A", none, setterKeyText⟩ = .ok setterKeyModule ∧
      (setterKeyModule.DeclaresInternal "x" ∧ (∀ id, ¬ setterKeyModule.Requires "x" id) ∧
        "x" ≠ "exports" ∧ setterKeyValue.MentionsFree (.reference "x") "x" ∧
        setterKeyValue.MentionsInKeysOnly (.reference "x") "x" ∧
        ⟨.regular "A", "x", .internal⟩ ∉
          (Scope.ofModule setterKeyModule).dependencies setterKeyValue) ∧
      setterKeyModule.DeclaresInternal "y" ∧ (∀ id, ¬ setterKeyModule.Requires "y" id) ∧
        "y" ≠ "exports" ∧
        setterKeyModule.analyze.KeepsInternal
          (Reachability.compute (definitions [setterKeyModule.analyze]) [.regular "A"]) "y" := by
  have hread : Module.classify ["A"] ⟨.regular "A", none, setterKeyText⟩ = .ok setterKeyModule := by
    cbv
  have hx : setterKeyModule.DeclaresInternal "x" := ⟨_, _, _, .head _⟩
  have hy : setterKeyModule.DeclaresInternal "y" := ⟨_, _, _, .tail _ (.head _)⟩
  have hrequires : ∀ name id, ¬ setterKeyModule.Requires name id := by
    rintro name id ⟨span, hmem⟩
    simp [setterKeyModule] at hmem
  -- The parameter of the setter hides `x` in its code, but not in its key.
  have hfree : setterKeyValue.MentionsFree (.reference "x") "x" := by
    have hreaches : Reaches (.expr setterKeyValue) [⟨[.name ⟨44, 45⟩ "x"], true⟩]
        (.expr (.name ⟨41, 42⟩ "x")) :=
      ((Reaches.here.down (.objectProperty (.head _))).down .setterKey).down .computedKey
    refine ⟨_, _, hreaches, .name, fun enclosure henclosure _ => ?_⟩
    obtain rfl := List.mem_singleton.1 henclosure
    rfl
  have hvisible : setterKeyValue.MentionsVisibly (.reference "y") "y" := by
    have hreaches : Reaches (.expr setterKeyValue) [⟨[.name ⟨44, 45⟩ "x"], false⟩]
        (.expr (.name ⟨49, 50⟩ "y")) :=
      (((Reaches.here.down (.objectProperty (.head _))).down .setterCode).down
        (.body (.head _))).down .expressionStmt
    refine ⟨_, _, hreaches, .name, fun enclosure henclosure => ?_⟩
    obtain rfl := List.mem_singleton.1 henclosure
    simp [Enclosure.Binds, ← mem_boundNames_iff, Pattern.boundNames]
  have hlost := internal_reference_recorded hx (hrequires "x") (by decide)
  have hkept := internal_reference_recorded hy (hrequires "y") (by decide)
  have hnot : ⟨.regular "A", "x", .internal⟩ ∉
      (Scope.ofModule setterKeyModule).dependencies setterKeyValue := by
    decide
  refine ⟨hread, ⟨hx, hrequires "x", by decide, hfree, ?_, hnot⟩, hy, hrequires "y", by decide, ?_⟩
  · exact (hlost.1 _ (.tail _ (.tail _ (.head _))) _ _ .member hfree).1 hnot
  · refine ((hkept.2 [setterKeyModule] [.regular "A"] (.head _)).1 ?_).2
    exact ⟨_, member_mem_eliminate_iff.2 ⟨.tail _ (.tail _ (.head _)), by decide⟩, _, _, .member,
      Expr.mentionsVisibly_iff.1 hvisible⟩

/-! ## Requires -/

/-- An alias of a module of the program has a last require, and that require is kept with every
value that accesses the alias, unless it leads back to its own module. A require that does is never
kept, since a module does not count as referring to itself. -/
theorem import_kept {binder : String} {required : ModuleId} (hrequires : m.Requires binder required)
    (hm : m ∈ modules) (entryPoints : List ModuleId) :
    let r := Reachability.compute (definitions (modules.map Module.analyze)) entryPoints
    (∃ span id, m.RequiresLast binder span id ∧ (id ≠ m.id →
      m.analyze.KeepsValue r (fun value => ∃ property,
        value.MentionsVisibly (.access binder property) binder) →
      m.analyze.eliminate r ∈ eliminate r (modules.map Module.analyze) ∧
        Element.require span binder (.resolved id) ∈ (m.analyze.eliminate r).elements)) ∧
    ∀ span other,
      Element.require span other (.resolved m.id) ∉ (m.analyze.eliminate r).elements := by
  intro r
  have hanalyzed : m.analyze ∈ modules.map Module.analyze := List.mem_map.2 ⟨m, hm, rfl⟩
  constructor
  · obtain ⟨span, id, hlast⟩ := hrequires.exists_last
    refine ⟨span, id, hlast, ?_⟩
    rintro hother ⟨element, helement, value, dependencies, hrecords, property, haccess⟩
    refine ⟨eliminate_mem_of_records hanalyzed helement hrecords, ?_⟩
    obtain ⟨⟨original, horiginal, hvalue⟩, key, hlive, howner, hdeclares⟩ :=
      exists_live_of_records hanalyzed helement hrecords
    -- The binder is that of the last require with its name: an earlier one is never looked up.
    have hdep : ⟨id, property, .exported⟩ ∈ dependencies := by
      rw [exists_records_of_analyze horiginal hvalue]
      exact mem_dependencies_of_access hlast haccess
    rw [require_mem_eliminate_iff, require_mem_analyze_iff]
    refine ⟨hlast.requires,
      isReferenced_iff.2 ⟨Ne.symm hother, key, isLive_iff.1 hlive, howner, ?_⟩⟩
    exact ⟨dependencies, hdeclares, _, hdep, rfl⟩
  · intro span other hmem
    exact (isReferenced_iff.1 (require_mem_eliminate_iff.1 hmem).2).1 rfl

/-- The text of a module `B` that requires its foreign module and itself. -/
def selfRequireText : String :=
  "var $foreign = require(\"./foreign.js\");\nvar B = require(\"../B\");\nexports.f = $foreign.g;\nexports.h = B.f;\n"

/-- `$foreign.g` -/
def foreignAccess : Expr := .member ⟨77, 87⟩ (.name ⟨77, 85⟩ "$foreign") (.name "g")

/-- `B.f` -/
def selfAccess : Expr := .member ⟨101, 104⟩ (.name ⟨101, 102⟩ "B") (.name "f")

/-- The module of the text. -/
def selfRequireModule : Module where
  id := .regular "B"
  filePath := none
  source := .ofText selfRequireText.toList []
  elements := [
    .require ⟨⟨0, 39⟩, 0, 0⟩ "$foreign" (.resolved (.foreign "B")),
    .require ⟨⟨40, 64⟩, 1, 1⟩ "B" (.resolved (.regular "B")),
    .member ⟨⟨65, 88⟩, 2, 2⟩ .exported "f" foreignAccess [],
    .member ⟨⟨89, 105⟩, 3, 3⟩ .exported "h" selfAccess []]

/-- What the module needs of itself. -/
def selfReachability : Reachability :=
  .compute (definitions ([selfRequireModule].map Module.analyze)) [.regular "B"]

theorem foreignAccess_mentionsVisibly :
    foreignAccess.MentionsVisibly (.access "$foreign" "g") "$foreign" :=
  ⟨[], _, .here, .point, by simp⟩

/-- The require of the foreign module stays with the access of its export. -/
theorem foreign_import_kept :
    selfRequireModule.Requires "$foreign" (.foreign "B") ∧
      selfRequireModule ∈ [selfRequireModule] ∧
      selfRequireModule.analyze.eliminate selfReachability ∈
        eliminate selfReachability [selfRequireModule.analyze] ∧
      ∃ span id, Element.require span "$foreign" (.resolved id) ∈
        (selfRequireModule.analyze.eliminate selfReachability).elements := by
  have hrequires : selfRequireModule.Requires "$foreign" (.foreign "B") := ⟨_, .head _⟩
  refine ⟨hrequires, .head _, ?_⟩
  obtain ⟨⟨span, id, hlast, hkept⟩, -⟩ := import_kept hrequires (.head []) [.regular "B"]
  have hid : id ≠ selfRequireModule.id := by
    have hmem := hlast.requires
    simp [selfRequireModule] at hmem
    rw [hmem.2]
    decide
  obtain ⟨hsurvives, hmem⟩ := hkept hid ⟨_, member_mem_eliminate_iff.2
    ⟨.tail _ (.tail _ (.head _)), by decide⟩, _, _, .member, _, foreignAccess_mentionsVisibly⟩
  exact ⟨hsurvives, span, id, hmem⟩

set_option maxRecDepth 10000 in
/-- The access `B.f` stays although no require of `B` does. -/
theorem self_import_dropped :
    loadModules [⟨.regular "B", none, selfRequireText⟩] = .ok [selfRequireModule.analyze] ∧
      selfRequireModule.analyze.eliminate selfReachability ∈
        eliminate selfReachability [selfRequireModule.analyze] ∧
      selfRequireModule.Requires "B" (.regular "B") ∧
      selfRequireModule.analyze.KeepsValue selfReachability
        (fun value => ∃ property, value.MentionsVisibly (.access "B" property) "B") ∧
      ∀ span target, Element.require span "B" target ∉
        (selfRequireModule.analyze.eliminate selfReachability).elements := by
  have hload : loadModules [⟨.regular "B", none, selfRequireText⟩] =
      .ok [selfRequireModule.analyze] := by
    cbv
  have haccess : selfAccess.MentionsVisibly (.access "B" "f") "B" :=
    ⟨[], _, .here, .point, by simp⟩
  have hkept : Element.member ⟨⟨89, 105⟩, 3, 3⟩ .exported "h" selfAccess
      [⟨.regular "B", "f", .exported⟩] ∈
        (selfRequireModule.analyze.eliminate selfReachability).elements :=
    member_mem_eliminate_iff.2 ⟨.tail _ (.tail _ (.tail _ (.head _))), by decide⟩
  have hanalyzed : selfRequireModule.analyze ∈ [selfRequireModule.analyze] := .head _
  refine ⟨hload, eliminate_mem_of_records hanalyzed hkept .member, ⟨_, .tail _ (.head _)⟩,
    ⟨_, hkept, _, _, .member, _, haccess⟩, ?_⟩
  have helements : (selfRequireModule.analyze.eliminate selfReachability).elements = [
      .require ⟨⟨0, 39⟩, 0, 0⟩ "$foreign" (.resolved (.foreign "B")),
      .skipped ⟨⟨40, 64⟩, 1, 1⟩,
      .member ⟨⟨65, 88⟩, 2, 2⟩ .exported "f" foreignAccess [⟨.foreign "B", "g", .exported⟩],
      .member ⟨⟨89, 105⟩, 3, 3⟩ .exported "h" selfAccess [⟨.regular "B", "f", .exported⟩]] := by
    rfl
  simp [helements]

end ModuleLinker
