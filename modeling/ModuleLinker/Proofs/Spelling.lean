/-
# ModuleLinker.Proofs.Spelling -- the spelling of property names

A property that is accessed is named behind a point or by a string in brackets, and a property of an
object literal whose value is a variable of its own name may be that name alone. `Expr.plain` spells
every access with a point and every such property in full, throughout an expression, and forgets
where things stand. Expressions that are plainly the same differ in nothing else.

The spelling cannot be told from what a tree mentions, apart from its literals, nor from the names
that are bound in it (`Expr.occurrences_plain`). A value therefore depends on the same keys however
its accesses are spelled (`Scope.dependencies_plain`).
-/

import ModuleLinker.Module.Classify
import ModuleLinker.Module.Dependencies

namespace ModuleLinker

open Script

namespace Script

/-! ## Plain trees -/

/-- The place of everything in a plain tree. -/
def nowhere : Span := ⟨0, 0⟩

/-- The key of an access, behind a point if it is written out. -/
def PropertyKey.behindPoint : PropertyKey → PropertyKey
  | .computed (.string _ text) => .name text
  | key => key

/-- The parts of a group, without the string in the brackets behind `super`. -/
def Form.behindPoint : Form → List Expr → List Expr
  | .superMember, [.string _ _] => []
  | _, parts => parts

mutual

/-- The expression in its plain spelling. -/
def Expr.plain : Expr → Expr
  | .name _ text => .name nowhere text
  | .string _ value => .string nowhere value
  | .leaf _ kind => .leaf nowhere kind
  | .group _ form parts => .group nowhere form (form.behindPoint (plainExprs parts))
  | .member _ object key => .member nowhere object.plain key.plain.behindPoint
  | .object _ properties => .object nowhere (plainProperties properties)
  | .function _ arrow code => .function nowhere arrow code.plain
  | .classBody _ members heritage =>
    .classBody nowhere (plainMembers members) (plainOption heritage)
  | .assign _ isPlain target value => .assign nowhere isPlain target.plain value.plain

def plainExprs : List Expr → List Expr
  | [] => []
  | e :: es => e.plain :: plainExprs es

def plainOption : Option Expr → Option Expr
  | none => none
  | some e => some e.plain

def PropertyKey.plain : PropertyKey → PropertyKey
  | .name text => .name text
  | .string _ value => .string nowhere value
  | .number => .number
  | .privateName text => .privateName text
  | .computed value => .computed value.plain

/-- A property in its plain spelling, with its value written out. -/
def Property.plain : Property → Property
  | .shorthand _ text => .keyed nowhere (.name text) (.name nowhere text)
  | .keyed _ key value => .keyed nowhere key.plain value.plain
  | .method _ key code => .method nowhere key.plain code.plain
  | .setter _ key code => .setter nowhere key.plain code.plain
  | .spread _ value => .spread nowhere value.plain
  | .initialized _ text value => .initialized nowhere text value.plain

def plainProperties : List Property → List Property
  | [] => []
  | property :: properties => property.plain :: plainProperties properties

def Function.plain : Function → Function
  | .mk params body => .mk (plainPatterns params) (plainStmts body)

def Pattern.plain : Pattern → Pattern
  | .name _ text => .name nowhere text
  | .array elements => .array (plainPatterns elements)
  | .object fields => .object (plainFields fields)
  | .rest pattern => .rest pattern.plain
  | .initialized pattern value => .initialized pattern.plain value.plain
  | .target value => .target value.plain

def plainPatterns : List Pattern → List Pattern
  | [] => []
  | pattern :: patterns => pattern.plain :: plainPatterns patterns

def PatternField.plain : PatternField → PatternField
  | .keyed key pattern => .keyed key.plain pattern.plain
  | .rest pattern => .rest pattern.plain

def plainFields : List PatternField → List PatternField
  | [] => []
  | field :: fields => field.plain :: plainFields fields

def ClassMember.plain : ClassMember → ClassMember
  | .method key code => .method key.plain code.plain
  | .field key value => .field key.plain (plainOption value)
  | .initializer body => .initializer (plainStmts body)

def plainMembers : List ClassMember → List ClassMember
  | [] => []
  | member :: members => member.plain :: plainMembers members

/-- The statement in its plain spelling. -/
def Stmt.plain : Stmt → Stmt
  | .expression _ value => .expression nowhere value.plain
  | .declaration _ declarators => .declaration nowhere (plainDeclarators declarators)
  | .function _ name code => .function nowhere name code.plain
  | .classBody _ name members heritage =>
    .classBody nowhere name (plainMembers members) (plainOption heritage)
  | .group _ layout parts => .group nowhere layout (plainParts parts)

def plainStmts : List Stmt → List Stmt
  | [] => []
  | stmt :: stmts => stmt.plain :: plainStmts stmts

def Declarator.plain : Declarator → Declarator
  | .mk pattern value => .mk pattern.plain (plainOption value)

def plainDeclarators : List Declarator → List Declarator
  | [] => []
  | declarator :: declarators => declarator.plain :: plainDeclarators declarators

def Part.plain : Part → Part
  | .expression value => .expression value.plain
  | .statement stmt => .statement stmt.plain
  | .binding pattern => .binding pattern.plain
  | .target pattern => .target pattern.plain

def plainParts : List Part → List Part
  | [] => []
  | part :: parts => part.plain :: plainParts parts

end

/-! ## Bound names -/

mutual

theorem Pattern.boundNames_plain :
    ∀ pattern : Pattern, pattern.plain.boundNames = pattern.boundNames
  | .name _ _ => rfl
  | .array elements => by
      simp only [Pattern.plain, Pattern.boundNames, boundNamesOfList_plain elements]
  | .object fields => by
      simp only [Pattern.plain, Pattern.boundNames, boundNamesOfFields_plain fields]
  | .rest pattern => by
      simp only [Pattern.plain, Pattern.boundNames, Pattern.boundNames_plain pattern]
  | .initialized pattern _ => by
      simp only [Pattern.plain, Pattern.boundNames, Pattern.boundNames_plain pattern]
  | .target _ => rfl

theorem boundNamesOfList_plain :
    ∀ patterns, boundNamesOfList (plainPatterns patterns) = boundNamesOfList patterns
  | [] => rfl
  | pattern :: patterns => by
      simp only [plainPatterns, boundNamesOfList, Pattern.boundNames_plain pattern,
        boundNamesOfList_plain patterns]

theorem boundNamesOfFields_plain :
    ∀ fields, boundNamesOfFields (plainFields fields) = boundNamesOfFields fields
  | [] => rfl
  | .keyed _ pattern :: fields => by
      simp only [plainFields, PatternField.plain, boundNamesOfFields,
        Pattern.boundNames_plain pattern, boundNamesOfFields_plain fields]
  | .rest pattern :: fields => by
      simp only [plainFields, PatternField.plain, boundNamesOfFields,
        Pattern.boundNames_plain pattern, boundNamesOfFields_plain fields]

end

/-! ## Names of properties -/

@[simp] theorem PropertyKey.declared?_plain (key : PropertyKey) :
    key.plain.declared? = key.declared? := by
  cases key <;> rfl

/-- A key names the same property behind a point and in brackets. -/
@[simp] theorem PropertyKey.accessed?_plain (key : PropertyKey) :
    key.plain.behindPoint.accessed? = key.accessed? := by
  cases key with
  | computed value => cases value <;> rfl
  | name | string | number | privateName => rfl

@[simp] theorem Expr.access?_plain (e : Expr) : e.plain.access? = e.access? := by
  cases e with
  | member span object key =>
      cases object with
      | name span text => simp only [Expr.plain, Expr.access?, PropertyKey.accessed?_plain]
      | _ => rfl
  | _ => rfl

/-- The name that an expression is. -/
def Expr.name? : Expr → Option String
  | .name _ text => some text
  | _ => none

theorem Expr.name?_plain (e : Expr) : e.plain.name? = e.name? := by
  cases e <;> rfl

/-- The key and the value of a property that has one. A name alone is both. -/
def Property.exported? : Property → Option (PropertyKey × Expr)
  | .shorthand span text => some (.name text, .name span text)
  | .keyed _ key value => some (key, value)
  | _ => none

theorem Property.exported?_plain (property : Property) :
    property.plain.exported? =
      property.exported?.map fun exported => (exported.1.plain, exported.2.plain) := by
  cases property <;> rfl

/-! ## Occurrences -/

/-- Whether a mention is that of a literal. -/
def Mention.isLiteral : Mention → Bool
  | .literal _ => true
  | _ => false

/-- The occurrences of names and accesses. -/
def withoutLiterals (occurrences : List Occurrence) : List Occurrence :=
  occurrences.filter fun occurrence => !occurrence.mention.isLiteral

@[simp] theorem withoutLiterals_append (xs ys : List Occurrence) :
    withoutLiterals (xs ++ ys) = withoutLiterals xs ++ withoutLiterals ys :=
  List.filter_append xs ys

@[simp] theorem withoutLiterals_literals (hidden : List String) (span : Span) (form : Form) :
    withoutLiterals (form.literals hidden span) = [] := by
  cases form <;> rfl

/-- A key mentions no names that it does not mention in brackets. -/
theorem PropertyKey.withoutLiterals_behindPoint (hidden : List String) (key : PropertyKey) :
    withoutLiterals (key.behindPoint.occurrences hidden) =
      withoutLiterals (key.occurrences hidden) := by
  unfold PropertyKey.behindPoint
  split <;> rfl

theorem Form.withoutLiterals_behindPoint (hidden : List String) (form : Form) (parts : List Expr) :
    withoutLiterals (occurrencesOfExprs hidden (form.behindPoint parts)) =
      withoutLiterals (occurrencesOfExprs hidden parts) := by
  unfold Form.behindPoint
  split <;> rfl

mutual

theorem Expr.withoutLiterals_plain (hidden : List String) : ∀ e : Expr,
    withoutLiterals (e.plain.occurrences hidden) = withoutLiterals (e.occurrences hidden)
  | .name _ _ => rfl
  | .string _ _ => rfl
  | .leaf _ _ => rfl
  | .group _ form parts => by
      simp only [Expr.plain, Expr.occurrences, withoutLiterals_append, withoutLiterals_literals,
        form.withoutLiterals_behindPoint, withoutLiterals_plainExprs hidden parts]
  | .member span object key => by
      have haccess := Expr.access?_plain (.member span object key)
      rw [Expr.plain] at haccess ⊢
      simp only [Expr.occurrences, withoutLiterals_append, haccess,
        PropertyKey.withoutLiterals_behindPoint, PropertyKey.withoutLiterals_plain hidden key]
      cases (Expr.member span object key).access? with
      | none => simp only [Expr.withoutLiterals_plain hidden object]
      | some names => rfl
  | .object _ properties => withoutLiterals_plainProperties hidden properties
  | .function _ _ code => code.withoutLiterals_plain hidden
  | .classBody _ members heritage => by
      simp only [Expr.plain, Expr.occurrences, withoutLiterals_append,
        withoutLiterals_plainMembers hidden members, withoutLiterals_plainOption hidden heritage]
  | .assign _ _ target value => by
      simp only [Expr.plain, Expr.occurrences, withoutLiterals_append, target.boundNames_plain,
        Pattern.withoutLiterals_plain hidden target, Expr.withoutLiterals_plain hidden value]

theorem withoutLiterals_plainExprs (hidden : List String) : ∀ es,
    withoutLiterals (occurrencesOfExprs hidden (plainExprs es)) =
      withoutLiterals (occurrencesOfExprs hidden es)
  | [] => rfl
  | e :: es => by
      simp only [plainExprs, occurrencesOfExprs, withoutLiterals_append,
        Expr.withoutLiterals_plain hidden e, withoutLiterals_plainExprs hidden es]

theorem withoutLiterals_plainOption (hidden : List String) : ∀ value,
    withoutLiterals (occurrencesOfOption hidden (plainOption value)) =
      withoutLiterals (occurrencesOfOption hidden value)
  | none => rfl
  | some e => e.withoutLiterals_plain hidden

theorem PropertyKey.withoutLiterals_plain (hidden : List String) : ∀ key : PropertyKey,
    withoutLiterals (key.plain.occurrences hidden) = withoutLiterals (key.occurrences hidden)
  | .name _ => rfl
  | .string _ _ => rfl
  | .number => rfl
  | .privateName _ => rfl
  | .computed value => value.withoutLiterals_plain hidden

theorem Property.withoutLiterals_plain (hidden : List String) : ∀ property : Property,
    withoutLiterals (property.plain.occurrences hidden) =
      withoutLiterals (property.occurrences hidden)
  | .shorthand _ _ => rfl
  | .keyed _ key value => by
      simp only [Property.plain, Property.occurrences, withoutLiterals_append,
        PropertyKey.withoutLiterals_plain hidden key, Expr.withoutLiterals_plain hidden value]
  | .method _ key code => by
      simp only [Property.plain, Property.occurrences, withoutLiterals_append,
        PropertyKey.withoutLiterals_plain hidden key, Function.withoutLiterals_plain hidden code]
  | .setter _ key (.mk params body) => by
      simp only [Property.plain, Function.plain, Property.occurrences, withoutLiterals_append,
        boundNamesOfList_plain params, PropertyKey.withoutLiterals_plain _ key,
        withoutLiterals_plainPatterns _ params, withoutLiterals_plainStmts _ body]
  | .spread _ value => value.withoutLiterals_plain hidden
  | .initialized _ _ value => value.withoutLiterals_plain hidden

theorem withoutLiterals_plainProperties (hidden : List String) : ∀ properties,
    withoutLiterals (occurrencesOfProperties hidden (plainProperties properties)) =
      withoutLiterals (occurrencesOfProperties hidden properties)
  | [] => rfl
  | property :: properties => by
      simp only [plainProperties, occurrencesOfProperties, withoutLiterals_append,
        Property.withoutLiterals_plain hidden property,
        withoutLiterals_plainProperties hidden properties]

theorem Function.withoutLiterals_plain (hidden : List String) : ∀ code : Function,
    withoutLiterals (code.plain.occurrences hidden) = withoutLiterals (code.occurrences hidden)
  | .mk params body => by
      simp only [Function.plain, Function.occurrences, withoutLiterals_append,
        boundNamesOfList_plain params, withoutLiterals_plainPatterns _ params,
        withoutLiterals_plainStmts _ body]

theorem Pattern.withoutLiterals_plain (hidden : List String) : ∀ pattern : Pattern,
    withoutLiterals (pattern.plain.occurrences hidden) =
      withoutLiterals (pattern.occurrences hidden)
  | .name _ _ => rfl
  | .array elements => withoutLiterals_plainPatterns hidden elements
  | .object fields => withoutLiterals_plainFields hidden fields
  | .rest pattern => pattern.withoutLiterals_plain hidden
  | .initialized pattern value => by
      simp only [Pattern.plain, Pattern.occurrences, withoutLiterals_append,
        Pattern.withoutLiterals_plain hidden pattern, Expr.withoutLiterals_plain hidden value]
  | .target value => value.withoutLiterals_plain hidden

theorem withoutLiterals_plainPatterns (hidden : List String) : ∀ patterns,
    withoutLiterals (occurrencesOfPatterns hidden (plainPatterns patterns)) =
      withoutLiterals (occurrencesOfPatterns hidden patterns)
  | [] => rfl
  | pattern :: patterns => by
      simp only [plainPatterns, occurrencesOfPatterns, withoutLiterals_append,
        Pattern.withoutLiterals_plain hidden pattern, withoutLiterals_plainPatterns hidden patterns]

theorem PatternField.withoutLiterals_plain (hidden : List String) : ∀ field : PatternField,
    withoutLiterals (field.plain.occurrences hidden) = withoutLiterals (field.occurrences hidden)
  | .keyed key pattern => by
      simp only [PatternField.plain, PatternField.occurrences, withoutLiterals_append,
        PropertyKey.withoutLiterals_plain hidden key, Pattern.withoutLiterals_plain hidden pattern]
  | .rest pattern => pattern.withoutLiterals_plain hidden

theorem withoutLiterals_plainFields (hidden : List String) : ∀ fields,
    withoutLiterals (occurrencesOfFields hidden (plainFields fields)) =
      withoutLiterals (occurrencesOfFields hidden fields)
  | [] => rfl
  | field :: fields => by
      simp only [plainFields, occurrencesOfFields, withoutLiterals_append,
        PatternField.withoutLiterals_plain hidden field, withoutLiterals_plainFields hidden fields]

theorem ClassMember.withoutLiterals_plain (hidden : List String) : ∀ member : ClassMember,
    withoutLiterals (member.plain.occurrences hidden) = withoutLiterals (member.occurrences hidden)
  | .method key code => by
      simp only [ClassMember.plain, ClassMember.occurrences, withoutLiterals_append,
        PropertyKey.withoutLiterals_plain hidden key, Function.withoutLiterals_plain hidden code]
  | .field key value => by
      simp only [ClassMember.plain, ClassMember.occurrences, withoutLiterals_append,
        PropertyKey.withoutLiterals_plain hidden key, withoutLiterals_plainOption hidden value]
  | .initializer body => withoutLiterals_plainStmts hidden body

theorem withoutLiterals_plainMembers (hidden : List String) : ∀ members,
    withoutLiterals (occurrencesOfMembers hidden (plainMembers members)) =
      withoutLiterals (occurrencesOfMembers hidden members)
  | [] => rfl
  | member :: members => by
      simp only [plainMembers, occurrencesOfMembers, withoutLiterals_append,
        ClassMember.withoutLiterals_plain hidden member,
        withoutLiterals_plainMembers hidden members]

theorem Stmt.withoutLiterals_plain (hidden : List String) : ∀ stmt : Stmt,
    withoutLiterals (stmt.plain.occurrences hidden) = withoutLiterals (stmt.occurrences hidden)
  | .expression _ value => value.withoutLiterals_plain hidden
  | .declaration _ declarators => withoutLiterals_plainDeclarators hidden declarators
  | .function _ _ code => code.withoutLiterals_plain hidden
  | .classBody _ _ members heritage => by
      simp only [Stmt.plain, Stmt.occurrences, withoutLiterals_append,
        withoutLiterals_plainMembers hidden members, withoutLiterals_plainOption hidden heritage]
  | .group _ _ parts => withoutLiterals_plainParts hidden parts

theorem withoutLiterals_plainStmts (hidden : List String) : ∀ stmts,
    withoutLiterals (occurrencesOfStmts hidden (plainStmts stmts)) =
      withoutLiterals (occurrencesOfStmts hidden stmts)
  | [] => rfl
  | stmt :: stmts => by
      simp only [plainStmts, occurrencesOfStmts, withoutLiterals_append,
        Stmt.withoutLiterals_plain hidden stmt, withoutLiterals_plainStmts hidden stmts]

theorem Declarator.withoutLiterals_plain (hidden : List String) : ∀ declarator : Declarator,
    withoutLiterals (declarator.plain.occurrences hidden) =
      withoutLiterals (declarator.occurrences hidden)
  | .mk pattern value => by
      simp only [Declarator.plain, Declarator.occurrences, withoutLiterals_append,
        Pattern.withoutLiterals_plain hidden pattern, withoutLiterals_plainOption hidden value]

theorem withoutLiterals_plainDeclarators (hidden : List String) : ∀ declarators,
    withoutLiterals (occurrencesOfDeclarators hidden (plainDeclarators declarators)) =
      withoutLiterals (occurrencesOfDeclarators hidden declarators)
  | [] => rfl
  | declarator :: declarators => by
      simp only [plainDeclarators, occurrencesOfDeclarators, withoutLiterals_append,
        Declarator.withoutLiterals_plain hidden declarator,
        withoutLiterals_plainDeclarators hidden declarators]

theorem Part.withoutLiterals_plain (hidden : List String) : ∀ part : Part,
    withoutLiterals (part.plain.occurrences hidden) = withoutLiterals (part.occurrences hidden)
  | .expression value => value.withoutLiterals_plain hidden
  | .statement stmt => stmt.withoutLiterals_plain hidden
  | .binding pattern => pattern.withoutLiterals_plain hidden
  | .target pattern => by
      simp only [Part.plain, Part.occurrences, withoutLiterals_append, pattern.boundNames_plain,
        Pattern.withoutLiterals_plain hidden pattern]

theorem withoutLiterals_plainParts (hidden : List String) : ∀ parts,
    withoutLiterals (occurrencesOfParts hidden (plainParts parts)) =
      withoutLiterals (occurrencesOfParts hidden parts)
  | [] => rfl
  | part :: parts => by
      simp only [plainParts, occurrencesOfParts, withoutLiterals_append,
        Part.withoutLiterals_plain hidden part, withoutLiterals_plainParts hidden parts]

end

/-! ## Recognised statements -/

/-- The path of a require, if a value is one. -/
def Expr.requiredPath? : Expr → Option String
  | .group _ .call [.name _ "require", .string _ path] => some path
  | _ => none

/-- A require is an internal member whose value is a call of `require`. -/
theorem Stmt.require?_eq (stmt : Stmt) :
    stmt.require? = stmt.member?.bind fun member => member.2.requiredPath?.map (member.1, ·) := by
  unfold Stmt.require?
  split
  · rfl
  · next h =>
    symm
    rw [Option.bind_eq_none_iff]
    rintro ⟨binder, value⟩ hmember
    cases hpath : value.requiredPath? with
    | none => rfl
    | some path =>
        unfold Stmt.member? at hmember
        unfold Expr.requiredPath? at hpath
        split at hpath
        · split at hmember
          · cases hmember
            exact absurd rfl (h _ _ _ _ _ _ _)
          · cases hmember
          · cases hmember
        · cases hpath

theorem Stmt.member?_plain (stmt : Stmt) :
    stmt.plain.member? = stmt.member?.map fun member => (member.1, member.2.plain) := by
  cases stmt with
  | declaration span declarators =>
      match declarators with
      | [] => rfl
      | .mk pattern value :: rest => cases pattern <;> cases value <;> cases rest <;> rfl
  | _ => rfl

theorem Expr.requiredPath?_plain (e : Expr) : e.plain.requiredPath? = e.requiredPath? := by
  cases e with
  | group span form parts =>
      cases form <;> try rfl
      match parts with
      | [] => rfl
      | first :: rest =>
        cases first <;> try rfl
        next callee =>
        by_cases hcallee : callee = "require"
        · subst hcallee
          match rest with
          | [] => rfl
          | second :: rest => cases second <;> cases rest <;> rfl
        · simp [Expr.plain, plainExprs, Form.behindPoint, Expr.requiredPath?, hcallee]
  | _ => rfl

theorem Stmt.require?_plain (stmt : Stmt) : stmt.plain.require? = stmt.require? := by
  rw [Stmt.require?_eq, Stmt.require?_eq, Stmt.member?_plain]
  cases stmt.member? with
  | none => rfl
  | some member => simp only [Option.map_some, Option.bind_some, Expr.requiredPath?_plain]

theorem Stmt.exportTable?_plain (stmt : Stmt) :
    stmt.plain.exportTable? = stmt.exportTable?.map plainProperties := by
  cases stmt with
  | expression span value =>
      cases value <;> try rfl
      next isPlain target value =>
      cases isPlain <;> cases target <;> cases value <;> try rfl
      next target span properties =>
      simp only [Stmt.plain, Expr.plain, Pattern.plain, Stmt.exportTable?, Expr.access?_plain]
      split <;> rfl
  | _ => rfl

theorem Stmt.export?_plain (stmt : Stmt) :
    stmt.plain.export? = stmt.export?.map fun member => (member.1, member.2.plain) := by
  cases stmt with
  | expression span value =>
      cases value <;> try rfl
      next isPlain target value =>
      cases isPlain <;> cases target <;> try rfl
      next target =>
      cases target <;> try rfl
      next object key =>
      cases object <;> try rfl
      next text =>
      by_cases htext : text = "exports"
      · subst htext
        have haccess := PropertyKey.accessed?_plain key
        simp only [Stmt.plain, Expr.plain, Pattern.plain, Stmt.export?, haccess, Option.map_map]
        rfl
      · simp [Stmt.plain, Expr.plain, Pattern.plain, Stmt.export?, htext]
  | _ => rfl

end Script

/-! ## Dependencies -/

/-- Literals refer to nothing. -/
theorem Scope.filterMap_refer?_withoutLiterals (scope : Scope) (occurrences : List Occurrence) :
    (withoutLiterals occurrences).filterMap scope.refer? = occurrences.filterMap scope.refer? := by
  induction occurrences with
  | nil => rfl
  | cons occurrence occurrences ih =>
      obtain ⟨mention, hidden⟩ := occurrence
      cases mention with
      | literal span => exact ih
      | reference | access =>
          show (_ :: withoutLiterals occurrences).filterMap scope.refer? = _
          rw [List.filterMap_cons, List.filterMap_cons, ih]

/-- A value depends on the same keys in its plain spelling. -/
theorem Scope.dependencies_plain (scope : Scope) (value : Expr) :
    scope.dependencies value.plain = scope.dependencies value := by
  unfold Scope.dependencies
  rw [← scope.filterMap_refer?_withoutLiterals, value.withoutLiterals_plain,
    scope.filterMap_refer?_withoutLiterals]

end ModuleLinker
