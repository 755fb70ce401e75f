/-
# ModuleLinker.Script.Reinterpret -- expressions that turn out to be patterns

Only the token behind it tells that an expression was the target of an assignment, or the
parameters of an arrow function. `Expr.asPattern` turns such an expression into the pattern that
it spells, and notes an error where it spells none.
-/

import ModuleLinker.Script.Reading

namespace ModuleLinker.Script

open Reader

mutual

/-- Whether a pattern binds names only, as parameters have to. -/
def Pattern.bindsOnly : Pattern → Bool
  | .name _ _ => true
  | .array elements => bindOnlyAll elements
  | .object fields => bindOnlyFields fields
  | .rest pattern => pattern.bindsOnly
  | .initialized pattern _ => pattern.bindsOnly
  | .target _ => false

def bindOnlyAll : List Pattern → Bool
  | [] => true
  | pattern :: patterns => pattern.bindsOnly && bindOnlyAll patterns

def bindOnlyFields : List PatternField → Bool
  | [] => true
  | .keyed _ pattern :: fields => pattern.bindsOnly && bindOnlyFields fields
  | .rest pattern :: fields => pattern.bindsOnly && bindOnlyFields fields

end

/-- Whether an expression is a place that can be assigned to: a name or a member, possibly in
parentheses. -/
def Expr.isPlace : Expr → Bool
  | .name _ _ => true
  | .member _ _ _ => true
  | .group _ .superMember _ => true
  | .group _ .paren [inner] => inner.isPlace
  | _ => false

/-- Notes the assignment to an expression that is no place, and to a name that strict code
protects. -/
def checkPlace (ctx : Context) : Expr → Reader Unit
  | .name span text => checkBound ctx text span.start
  | .group _ .paren [inner] => checkPlace ctx inner
  | e => unless e.isPlace do note e.span.start

/-- The pattern of an expression that is assigned to as a whole. -/
def Expr.asPlace (ctx : Context) (e : Expr) : Reader Pattern := do
  checkPlace ctx e
  match e with
  | .name span text => return .name span text
  | e => return .target e

mutual

/-- The pattern that an expression spells; with `binding` it may only bind names. -/
def Expr.asPattern (ctx : Context) (binding : Bool) : Expr → Reader Pattern
  | .name span text => do
    checkBound ctx text span.start
    return .name span text
  | .group _ .array parts => return .array (← elementsAsPatterns ctx binding parts)
  | .object _ properties => return .object (← propertiesAsFields ctx binding properties)
  | .assign span true target value => do
    if binding && !target.bindsOnly then note span.start
    return .initialized target value
  | e => do
    if binding then note e.span.start else checkPlace ctx e
    return .target e

/-- The patterns of array elements; holes have none. -/
def elementsAsPatterns (ctx : Context) (binding : Bool) : List Expr → Reader (List Pattern)
  | [] => return []
  | .leaf _ .hole :: parts => elementsAsPatterns ctx binding parts
  | .group span .spread [inner] :: parts => do
    if ← hasSpreadComma span.start then note span.start
    let pattern ← inner.asPattern ctx binding
    if let .initialized .. := pattern then note span.start
    return .rest pattern :: (← elementsAsPatterns ctx binding parts)
  | e :: parts => do
    let pattern ← e.asPattern ctx binding
    return pattern :: (← elementsAsPatterns ctx binding parts)

/-- The fields of an object pattern. -/
def propertiesAsFields (ctx : Context) (binding : Bool) :
    List Property → Reader (List PatternField)
  | [] => return []
  | .shorthand span name :: properties => do
    checkBound ctx name span.start
    return .keyed (.name name) (.name span name) ::
      (← propertiesAsFields ctx binding properties)
  | .initialized span name value :: properties => do
    acceptInPattern span.start
    checkBound ctx name span.start
    return .keyed (.name name) (.initialized (.name span name) value) ::
      (← propertiesAsFields ctx binding properties)
  | .keyed span key value :: properties => do
    acceptInPattern span.start
    let pattern ← value.asPattern ctx binding
    return .keyed key pattern :: (← propertiesAsFields ctx binding properties)
  | .spread span value :: properties => do
    if ← hasSpreadComma span.start then note span.start
    let pattern ← value.asPattern ctx binding
    match pattern with
    | .name .. => pure ()
    | .target _ => pure ()
    | _ => note span.start
    return .rest pattern :: (← propertiesAsFields ctx binding properties)
  | .method span _ _ :: properties => do
    note span.start
    propertiesAsFields ctx binding properties
  | .setter span _ _ :: properties => do
    note span.start
    propertiesAsFields ctx binding properties

end

/-- Whether parameters are names only, so that a directive in the body may make them strict. -/
def simpleParameters : List Pattern → Bool
  | [] => true
  | .name _ _ :: patterns => simpleParameters patterns
  | _ => false

/-- Whether a name is bound twice. -/
def hasRepetition : List String → Bool
  | [] => false
  | name :: names => names.contains name || hasRepetition names

end ModuleLinker.Script
