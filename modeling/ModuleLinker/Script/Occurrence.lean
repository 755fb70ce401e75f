/-
# ModuleLinker.Script.Occurrence -- what a syntax tree mentions

A tree mentions names, member accesses between written names, and string and template literals.
`occurrences` lists them in the order in which a tree is examined, each with the parameter names
of the functions around it: a name among those means the parameter. Only parameters hide a name;
a declaration inside a body does not.

Parts are examined in their order in the tree, the value that a class extends after its members.
A pattern that is assigned to mentions all its names first and then the expressions inside it.
-/

import ModuleLinker.Script.Tree

namespace ModuleLinker.Script

/-- Something that a tree mentions. -/
inductive Mention where
  | reference (name : String)
  | access (object property : String)
  | literal (span : Span)
deriving DecidableEq, Repr, Inhabited

/-- A mention with the parameter names that hide outer names at its place. -/
structure Occurrence where
  mention : Mention
  hidden : List String
deriving DecidableEq, Repr, Inhabited

/-- References to several names at one place. -/
def references (hidden names : List String) : List Occurrence :=
  names.map fun name => ⟨.reference name, hidden⟩

/-- The literal that a form of expression is by itself. -/
def Form.literals (hidden : List String) (span : Span) : Form → List Occurrence
  | .template => [⟨.literal span, hidden⟩]
  | _ => []

mutual

/-- What an expression mentions. -/
def Expr.occurrences (hidden : List String) : Expr → List Occurrence
  | .name _ text => [⟨.reference text, hidden⟩]
  | .string span _ => [⟨.literal span, hidden⟩]
  | .leaf _ _ => []
  | .group span form parts => form.literals hidden span ++ occurrencesOfExprs hidden parts
  | .member span object property =>
    (match (Expr.member span object property).access? with
      | some (left, right) => [⟨.access left right, hidden⟩]
      | none => object.occurrences hidden) ++
    property.occurrences hidden
  | .object _ properties => occurrencesOfProperties hidden properties
  | .function _ _ code => code.occurrences hidden
  | .classBody _ members heritage =>
    occurrencesOfMembers hidden members ++ occurrencesOfOption hidden heritage
  | .assign _ _ target value =>
    references hidden target.boundNames ++ target.occurrences hidden ++
      value.occurrences hidden

def occurrencesOfExprs (hidden : List String) : List Expr → List Occurrence
  | [] => []
  | e :: es => e.occurrences hidden ++ occurrencesOfExprs hidden es

def occurrencesOfOption (hidden : List String) : Option Expr → List Occurrence
  | none => []
  | some e => e.occurrences hidden

/-- What a key mentions. -/
def PropertyKey.occurrences (hidden : List String) : PropertyKey → List Occurrence
  | .name _ => []
  | .string span _ => [⟨.literal span, hidden⟩]
  | .number => []
  | .privateName _ => []
  | .computed value => value.occurrences hidden

/-- What a property mentions. The parameter of a setter already hides names in its key. -/
def Property.occurrences (hidden : List String) : Property → List Occurrence
  | .shorthand _ text => [⟨.reference text, hidden⟩]
  | .keyed _ key value => key.occurrences hidden ++ value.occurrences hidden
  | .method _ key code => key.occurrences hidden ++ code.occurrences hidden
  | .setter _ key (.mk params body) =>
    let inner := boundNamesOfList params ++ hidden
    key.occurrences inner ++ occurrencesOfPatterns inner params ++
      occurrencesOfStmts inner body
  | .spread _ value => value.occurrences hidden
  | .initialized _ _ value => value.occurrences hidden

def occurrencesOfProperties (hidden : List String) : List Property → List Occurrence
  | [] => []
  | property :: properties =>
    property.occurrences hidden ++ occurrencesOfProperties hidden properties

/-- What a function mentions; its parameters hide names in the parameter list and in the body. -/
def Function.occurrences (hidden : List String) : Function → List Occurrence
  | .mk params body =>
    let inner := boundNamesOfList params ++ hidden
    occurrencesOfPatterns inner params ++ occurrencesOfStmts inner body

/-- What a pattern mentions besides the names that it binds or assigns to. -/
def Pattern.occurrences (hidden : List String) : Pattern → List Occurrence
  | .name _ _ => []
  | .array elements => occurrencesOfPatterns hidden elements
  | .object fields => occurrencesOfFields hidden fields
  | .rest pattern => pattern.occurrences hidden
  | .initialized pattern value => pattern.occurrences hidden ++ value.occurrences hidden
  | .target value => value.occurrences hidden

def occurrencesOfPatterns (hidden : List String) : List Pattern → List Occurrence
  | [] => []
  | pattern :: patterns => pattern.occurrences hidden ++ occurrencesOfPatterns hidden patterns

/-- What a field of an object pattern mentions. -/
def PatternField.occurrences (hidden : List String) : PatternField → List Occurrence
  | .keyed key pattern => key.occurrences hidden ++ pattern.occurrences hidden
  | .rest pattern => pattern.occurrences hidden

def occurrencesOfFields (hidden : List String) : List PatternField → List Occurrence
  | [] => []
  | field :: fields => field.occurrences hidden ++ occurrencesOfFields hidden fields

/-- What a member of a class mentions. -/
def ClassMember.occurrences (hidden : List String) : ClassMember → List Occurrence
  | .method key code => key.occurrences hidden ++ code.occurrences hidden
  | .field key value => key.occurrences hidden ++ occurrencesOfOption hidden value
  | .initializer body => occurrencesOfStmts hidden body

def occurrencesOfMembers (hidden : List String) : List ClassMember → List Occurrence
  | [] => []
  | member :: members => member.occurrences hidden ++ occurrencesOfMembers hidden members

/-- What a statement mentions. -/
def Stmt.occurrences (hidden : List String) : Stmt → List Occurrence
  | .expression _ value => value.occurrences hidden
  | .declaration _ declarators => occurrencesOfDeclarators hidden declarators
  | .function _ _ code => code.occurrences hidden
  | .classBody _ _ members heritage =>
    occurrencesOfMembers hidden members ++ occurrencesOfOption hidden heritage
  | .group _ _ parts => occurrencesOfParts hidden parts

def occurrencesOfStmts (hidden : List String) : List Stmt → List Occurrence
  | [] => []
  | stmt :: stmts => stmt.occurrences hidden ++ occurrencesOfStmts hidden stmts

/-- What a declared pattern and its first value mention. -/
def Declarator.occurrences (hidden : List String) : Declarator → List Occurrence
  | .mk pattern value => pattern.occurrences hidden ++ occurrencesOfOption hidden value

def occurrencesOfDeclarators (hidden : List String) : List Declarator → List Occurrence
  | [] => []
  | declarator :: declarators =>
    declarator.occurrences hidden ++ occurrencesOfDeclarators hidden declarators

/-- What a part of a statement mentions. -/
def Part.occurrences (hidden : List String) : Part → List Occurrence
  | .expression value => value.occurrences hidden
  | .statement stmt => stmt.occurrences hidden
  | .binding pattern => pattern.occurrences hidden
  | .target pattern => references hidden pattern.boundNames ++ pattern.occurrences hidden

def occurrencesOfParts (hidden : List String) : List Part → List Occurrence
  | [] => []
  | part :: parts => part.occurrences hidden ++ occurrencesOfParts hidden parts

end

/-- The spans of the literals among some occurrences. -/
def literalSpans (occurrences : List Occurrence) : List Span :=
  occurrences.filterMap fun occurrence =>
    match occurrence.mention with
    | .literal span => some span
    | _ => none

end ModuleLinker.Script
