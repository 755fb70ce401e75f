/-
# ModuleLinker.Script.Grammar.Operator -- operators by precedence

Unary and binary operators, conditionals and assignments. An arrow function without parentheses
is a whole assignment by itself: no operator applies to it.
-/

import ModuleLinker.Script.Grammar.Operand

namespace ModuleLinker.Script

open Reader

namespace Grammar

/-- Whether an expression is an arrow function without parentheses. -/
def isArrow : Expr → Bool
  | .function _ true _ => true
  | _ => false

/-- An operand with its accesses and calls. -/
def leftHandSide (g : Grammar) (ctx : Context) : Reader Expr := do
  let start ← here
  let mark ← strictMark
  let base ← g.primary ctx
  if isArrow base then return base
  else g.suffixes (g.arrowOf ctx start mark) ctx start true g.steps false base

/-! ## Unary operators -/

/-- Whether the deletion of an expression is one of a name. -/
def deletesName : Expr → Bool
  | .name _ _ => true
  | .group _ .paren [inner] => deletesName inner
  | _ => false

/-- Whether the deletion of an expression is one of a private member. -/
def deletesPrivate : Expr → Bool
  | .member _ _ (.privateName _) => true
  | .group _ .paren [inner] => deletesPrivate inner
  | .group _ .chain [inner] => deletesPrivate inner
  | _ => false

/-- Whether a token is a unary operator, and which. -/
def unaryOperator? (token : Token) : Option String :=
  match token.kind with
  | .word name false => if name ∈ ["delete", "void", "typeof"] then some name else none
  | .punctuator text => if text ∈ ["+", "-", "!", "~"] then some text else none
  | _ => none

/-- Whether `await` outside of functions is a name in front of a token, and not an operator. -/
def endsAwait (token : Token) : Bool := [")", "]", ";", ","].any (isPunctuator token)

/-- An awaited value, at the word in front of it. -/
def awaited (g : Grammar) (ctx : Context) : Reader Expr := do
  let start ← here
  let _ ← advance
  if ctx.inParameters then note start
  let value ← g.unary { ctx with arrowAt := none }
  return .group (← spanFrom start) .await [value]

/-- An operand with the operators in front of it and the one behind it. -/
def unaryExpression (g : Grammar) (ctx : Context) : Reader Expr := do
  let start ← here
  let token ← current
  let inner := { ctx with arrowAt := none }
  if let some operator := unaryOperator? token then
    let _ ← advance
    let value ← g.unary inner
    if operator = "delete" then
      if deletesName value then noteStrict ctx start
      if deletesPrivate value then note start
    return .group (← spanFrom start) (.unary operator) [value]
  else if isPunctuator token "++" || isPunctuator token "--" then
    let _ ← advance
    let value ← g.unary inner
    checkPlace ctx value
    return .group (← spanFrom start) .update [value]
  else if isWord token "await" && ctx.inAsync then g.awaited ctx
  else if isWord token "await" && ctx.awaitTop && !endsAwait (← peek) then
    noteModule
    g.awaited ctx
  else
    let value ← g.leftHandSide ctx
    if isArrow value then return value
    else
      let next ← current
      if (isPunctuator next "++" || isPunctuator next "--") && !next.lineBreak then
        checkPlace ctx value
        let _ ← advance
        return .group (← spanFrom start) .update [value]
      else return value

/-! ## Binary operators -/

/-- The binary operators; a higher number binds tighter. -/
def precedences : List (String × Nat) :=
  [("??", 1), ("||", 2), ("&&", 3), ("|", 4), ("^", 5), ("&", 6), ("==", 7), ("!=", 7),
    ("===", 7), ("!==", 7), ("<", 8), (">", 8), ("<=", 8), (">=", 8), ("<<", 9), (">>", 9),
    (">>>", 9), ("+", 10), ("-", 10), ("*", 11), ("/", 11), ("%", 11), ("**", 12)]

/-- The binary operator that a token is, with its precedence. -/
def binaryOperator? (ctx : Context) (token : Token) : Option (String × Nat) :=
  match token.kind with
  | .word "instanceof" false => some ("instanceof", 8)
  | .word "in" false => if ctx.allowIn then some ("in", 8) else none
  | .punctuator text => (precedences.lookup text).map fun precedence => (text, precedence)
  | _ => none

/-- Whether an expression is an unparenthesised use of one of the operators. -/
def usesOperator (operators : List String) : Expr → Bool
  | .group _ (.binary operator) _ => operators.contains operator
  | _ => false

/-- Whether an operator in front of an operand keeps it from being raised to a power. -/
def isUnary : Expr → Bool
  | .group _ (.unary _) _ => true
  | .group _ .await _ => true
  | _ => false

/-- Operators that bind tighter than `limit`, behind their first operand. -/
def binaryTail (g : Grammar) (ctx : Context) (start limit : Nat) :
    (steps : Nat) → Expr → Reader Expr
  | 0, _ => stop
  | steps + 1, left => do
    match binaryOperator? ctx (← current) with
    | none => return left
    | some (operator, precedence) =>
      if precedence ≤ limit then return left
      else
        let _ ← advance
        if operator = "**" && isUnary left then stop
        let right ← g.binary ctx (if operator = "**" then precedence - 1 else precedence)
        let mixes :=
          if operator = "??" then ["||", "&&"]
          else if operator = "||" || operator = "&&" then ["??"] else []
        if usesOperator mixes left || usesOperator mixes right then note start
        let e := .group (← spanFrom start) (.binary operator) [left, right]
        binaryTail g ctx start limit steps e

/-- An expression of operators that bind tighter than `limit`. -/
def binaryExpression (g : Grammar) (ctx : Context) (limit : Nat) : Reader Expr := do
  let start ← here
  let left ← g.unaryExpression ctx
  if isArrow left then return left
  else g.binaryTail ctx start limit g.steps left

/-! ## Conditionals and assignments -/

/-- A conditional expression. -/
def conditional (g : Grammar) (ctx : Context) : Reader Expr := do
  let start ← here
  let test ← g.binaryExpression ctx 0
  if isArrow test then return test
  else if ← eat "?" then
    let inner := { ctx with arrowAt := none }
    let yes ← g.assignment { inner with allowIn := true }
    expect ":"
    let no ← g.assignment inner
    return .group (← spanFrom start) .conditional [test, yes, no]
  else return test

/-- The value that a generator gives away, at the word in front of it. -/
def yielded (g : Grammar) (ctx : Context) : Reader Expr := do
  let start ← here
  let _ ← advance
  if ctx.inParameters then note start
  let token ← current
  let isBare :=
    token.lineBreak || token.kind = .endOfText || isWord token "in" || isWord token "of" ||
      [")", "]", "\x7d", ",", ";", ":"].any (isPunctuator token)
  if isBare then return .group (← spanFrom start) .yield []
  else
    let _ ← eat "*"
    let value ← g.assignment { ctx with arrowAt := none }
    return .group (← spanFrom start) .yield [value]

/-- The operators that assign the result of another operator. -/
def compoundAssignments : List String :=
  ["+=", "-=", "*=", "/=", "%=", "**=", "<<=", ">>=", ">>>=", "&=", "|=", "^=", "&&=", "||=",
    "??="]

/-- Whether a token assigns the result of another operator. -/
def isCompoundAssignment (token : Token) : Bool :=
  match token.kind with
  | .punctuator text => compoundAssignments.contains text
  | _ => false

/-- The pattern of an expression in front of an assignment or in the head of a loop. -/
def assigned (ctx : Context) (target : Expr) : Reader Pattern :=
  match target with
  | .object _ _ => target.asPattern ctx false
  | .group _ .array _ => target.asPattern ctx false
  | _ => target.asPlace ctx

/-- An assignment, a conditional, an arrow function, or a yielded value. -/
def assignmentExpression (g : Grammar) (ctx : Context) : Reader Expr := do
  let start ← here
  if ctx.inGenerator && (← atWord? "yield") then g.yielded ctx
  else
    let left ← g.conditional { ctx with arrowAt := some start }
    if isArrow left then return left
    else
      let token ← current
      let inner := { ctx with arrowAt := none }
      if isPunctuator token "=" then
        let target ← assigned ctx left
        let _ ← advance
        let value ← g.assignment inner
        return .assign (← spanFrom start) true target value
      else if isCompoundAssignment token then
        let target ← left.asPlace ctx
        let _ ← advance
        let value ← g.assignment inner
        return .assign (← spanFrom start) false target value
      else return left

end Grammar

end ModuleLinker.Script
