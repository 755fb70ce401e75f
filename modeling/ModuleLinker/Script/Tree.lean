/-
# ModuleLinker.Script.Tree -- syntax trees of scripts

The statements and expressions of a JavaScript program. The tree is exact where linking looks
at it: names, member accesses, strings, templates, functions with their parameter patterns,
assignments, object literals, declarations. All other expressions and statements are groups: a
form, and their parts in the order in which they are examined.

Spans include the parentheses of a parenthesised expression and the semicolon of a statement.
-/

import ModuleLinker.Text.Slice

namespace ModuleLinker.Script

/-- Expressions without parts. `hole` is a missing element of an array, `metaProperty` is
`new.target` or `import.meta`, `privateName` is the name in front of an `in`. -/
inductive Leaf where
  | this
  | literal
  | super
  | metaProperty
  | hole
  | privateName
deriving DecidableEq, Repr, Inhabited

/-- The forms of an expression that is a group of parts. `callImport` is a dynamic import,
`chain` is one link of an optional chain, `superMember` an access through `super`. -/
inductive Form where
  | array
  | await
  | binary (operator : String)
  | call
  | callImport
  | chain
  | conditional
  | new
  | paren
  | sequence
  | spread
  | superMember
  | tagged
  | template
  | unary (operator : String)
  | update
  | yield
deriving DecidableEq, Repr, Inhabited

/-- The forms of a statement that is a group of parts. A `case` belongs to a `switch`, a `handler`
to a `try`. -/
inductive Layout where
  | block
  | breakOut
  | case
  | conditional
  | continueOn
  | debugger
  | doWhile
  | empty
  | forEach
  | forLoop
  | handler
  | labelled
  | returnBack
  | switch
  | throw
  | tryCatch
  | whileLoop
  | withObject
deriving DecidableEq, Repr, Inhabited

mutual

/-- An expression. -/
inductive Expr where
  | name (span : Span) (name : String)
  | string (span : Span) (value : String)
  | leaf (span : Span) (kind : Leaf)
  | group (span : Span) (form : Form) (parts : List Expr)
  | member (span : Span) (object : Expr) (property : PropertyKey)
  | object (span : Span) (properties : List Property)
  | function (span : Span) (arrow : Bool) (code : Function)
  | classBody (span : Span) (members : List ClassMember) (heritage : Option Expr)
  | assign (span : Span) (plain : Bool) (target : Pattern) (value : Expr)

/-- How a property is named, after a point, in brackets, or in front of its value. -/
inductive PropertyKey where
  | name (name : String)
  | string (span : Span) (value : String)
  | number
  | privateName (name : String)
  | computed (value : Expr)

/-- A property of an object literal. Getters are methods without parameters. `initialized` is the
form `name = value`, which only a pattern may have and which no finished tree contains. -/
inductive Property where
  | shorthand (span : Span) (name : String)
  | keyed (span : Span) (key : PropertyKey) (value : Expr)
  | method (span : Span) (key : PropertyKey) (code : Function)
  | setter (span : Span) (key : PropertyKey) (code : Function)
  | spread (span : Span) (value : Expr)
  | initialized (span : Span) (name : String) (value : Expr)

/-- Parameters and body; an expression body is a returned value. -/
inductive Function where
  | mk (params : List Pattern) (body : List Stmt)

/-- What is bound or assigned to. Holes of an array pattern are left out; `target` is an
expression that is assigned to. -/
inductive Pattern where
  | name (span : Span) (name : String)
  | array (elements : List Pattern)
  | object (fields : List PatternField)
  | rest (pattern : Pattern)
  | initialized (pattern : Pattern) (value : Expr)
  | target (value : Expr)

/-- A field of an object pattern; a shorthand field has its own name as its key. -/
inductive PatternField where
  | keyed (key : PropertyKey) (pattern : Pattern)
  | rest (pattern : Pattern)

/-- A member of a class. Constructors, getters and setters are methods. -/
inductive ClassMember where
  | method (key : PropertyKey) (code : Function)
  | field (key : PropertyKey) (value : Option Expr)
  | initializer (body : List Stmt)

/-- A statement. -/
inductive Stmt where
  | expression (span : Span) (value : Expr)
  | declaration (span : Span) (declarators : List Declarator)
  | function (span : Span) (name : String) (code : Function)
  | classBody (span : Span) (name : String) (members : List ClassMember)
      (heritage : Option Expr)
  | group (span : Span) (layout : Layout) (parts : List Part)

/-- A declared pattern and its first value. -/
inductive Declarator where
  | mk (pattern : Pattern) (value : Option Expr)

/-- A part of a statement: `binding` declares a pattern, `target` assigns to one. -/
inductive Part where
  | expression (value : Expr)
  | statement (stmt : Stmt)
  | binding (pattern : Pattern)
  | target (pattern : Pattern)

end

instance : Inhabited Expr := ⟨.leaf default .literal⟩
instance : Inhabited Stmt := ⟨.group default .empty []⟩
instance : Inhabited Pattern := ⟨.array []⟩
instance : Inhabited Function := ⟨.mk [] []⟩

/-! ## Positions -/

def Expr.span : Expr → Span
  | .name span _ => span
  | .string span _ => span
  | .leaf span _ => span
  | .group span _ _ => span
  | .member span _ _ => span
  | .object span _ => span
  | .function span _ _ => span
  | .classBody span _ _ => span
  | .assign span _ _ _ => span

def Stmt.span : Stmt → Span
  | .expression span _ => span
  | .declaration span _ => span
  | .function span _ _ => span
  | .classBody span _ _ _ => span
  | .group span _ _ => span

def Property.span : Property → Span
  | .shorthand span _ => span
  | .keyed span _ _ => span
  | .method span _ _ => span
  | .setter span _ _ => span
  | .spread span _ => span
  | .initialized span _ _ => span

/-! ## Names -/

/-- The name in front of or behind a point, when it is written out: a name, or a string in
brackets. -/
def PropertyKey.accessed? : PropertyKey → Option String
  | .name text => some text
  | .computed (.string _ text) => some text
  | _ => none

/-- The name of an object literal's property, when it is a name or a string. -/
def PropertyKey.declared? : PropertyKey → Option String
  | .name text => some text
  | .string _ text => some text
  | _ => none

/-- The object and the property of a member access between two written names. -/
def Expr.access? : Expr → Option (String × String)
  | .member _ (.name _ left) property => property.accessed?.map fun right => (left, right)
  | _ => none

mutual

/-- The names that a pattern binds, from left to right. -/
def Pattern.boundNames : Pattern → List String
  | .name _ text => [text]
  | .array elements => boundNamesOfList elements
  | .object fields => boundNamesOfFields fields
  | .rest pattern => pattern.boundNames
  | .initialized pattern _ => pattern.boundNames
  | .target _ => []

/-- The names that a list of patterns binds. -/
def boundNamesOfList : List Pattern → List String
  | [] => []
  | pattern :: patterns => pattern.boundNames ++ boundNamesOfList patterns

/-- The names that the fields of an object pattern bind. -/
def boundNamesOfFields : List PatternField → List String
  | [] => []
  | .keyed _ pattern :: fields => pattern.boundNames ++ boundNamesOfFields fields
  | .rest pattern :: fields => pattern.boundNames ++ boundNamesOfFields fields

end

end ModuleLinker.Script
