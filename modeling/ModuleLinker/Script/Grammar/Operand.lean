/-
# ModuleLinker.Script.Grammar.Operand -- literals, classes, names and parentheses

The operands of expressions: names, literals of all kinds, functions, classes, parenthesised
expressions, and arrow functions, which begin like names or like parentheses.
-/

import ModuleLinker.Script.Grammar.Function

namespace ModuleLinker.Script

open Reader

namespace Grammar

/-! ## Modifiers -/

/-- The words and the star in front of the key of a property. -/
structure Modifiers where
  async : Bool := false
  generator : Bool := false
  getter : Bool := false
  setter : Bool := false

/-- Whether there is any modifier. -/
def Modifiers.any (modifiers : Modifiers) : Bool :=
  modifiers.async || modifiers.generator || modifiers.getter || modifiers.setter

/-- Reads modifiers. In front of one of `stops` a word is the key itself. -/
def modifiers (stops : List String) : Reader Modifiers := do
  let token ← current
  let next ← peek
  let isKey := stops.any (isPunctuator next) || next.kind = .endOfText
  if isWord token "async" && !isKey && !next.lineBreak then
    let _ ← advance
    return { async := true, generator := ← eat "*" }
  else if isWord token "get" && !isKey && !isPunctuator next "*" then
    let _ ← advance
    return { getter := true }
  else if isWord token "set" && !isKey && !isPunctuator next "*" then
    let _ ← advance
    return { setter := true }
  else return { generator := ← eat "*" }

/-- A method behind its key. -/
def method (g : Grammar) (ctx : Context) (modifiers : Modifiers) (superCall : Bool) :
    Reader Function := do
  let start ← here
  let mark ← strictMark
  let code ← g.functionCode ctx mark
    { async := modifiers.async, generator := modifiers.generator, method := true
      superMember := true, superCall }
  let .mk params _ := code
  if modifiers.getter && !params.isEmpty then note start
  if modifiers.setter then
    match params with
    | [.rest _] => note start
    | [_] => pure ()
    | _ => note start
  return code

/-! ## Object literals -/

/-- A property that only consists of a name, behind that name, and possibly of a value that it
takes as a pattern. -/
def shorthand (g : Grammar) (ctx : Context) (start : Nat) (token : Token) : Reader Property :=
  match token.kind with
  | .word name _ => do
    checkName ctx name token.span.start
    if ← eat "=" then
      notePatternOnly start
      let value ← g.assignment ctx
      return .initialized (← spanFrom start) name value
    else return .shorthand (← spanFrom start) name
  | _ => stop

/-- A property of an object literal. -/
def property (g : Grammar) (ctx : Context) : Reader Property := do
  let start ← here
  if ← eat "..." then
    let value ← g.assignment ctx
    if ← at? "," then noteSpreadComma start
    return .spread (← spanFrom start) value
  else
    let modifiers ← modifiers ["(", ",", ":", "\x7d", "="]
    let token ← current
    let key ← g.propertyKey ctx
    if modifiers.any || (← at? "(") then
      let code ← g.method ctx modifiers false
      let span ← spanFrom start
      if modifiers.setter then return .setter span key code
      else return .method span key code
    else if ← eat ":" then
      let value ← g.assignment ctx
      return .keyed (← spanFrom start) key value
    else g.shorthand ctx start token

/-- Where an object literal gives its prototype by the usual property. -/
def prototypeOffsets : List Property → List Nat
  | [] => []
  | .keyed span key _ :: properties =>
    if key.declared? = some "__proto__" then span.start :: prototypeOffsets properties
    else prototypeOffsets properties
  | _ :: properties => prototypeOffsets properties

/-- An object literal. -/
def objectLiteral (g : Grammar) (ctx : Context) : Reader Expr := do
  let start ← here
  expect "\x7b"
  let properties ← commaList "\x7d" (g.property (bracketed ctx)) g.steps
  (prototypeOffsets properties).drop 1 |>.forM notePatternOnly
  return .object (← spanFrom start) properties

/-- An array literal. -/
def arrayLiteral (g : Grammar) (ctx : Context) : Reader Expr := do
  let start ← here
  expect "["
  let element := do
    if ← at? "," then
      let offset ← here
      return .leaf ⟨offset, offset⟩ .hole
    else g.spreadable (bracketed ctx)
  let elements ← commaList "]" element g.steps
  return .group (← spanFrom start) .array elements

/-! ## Classes -/

/-- A member of a class with what the whole class has to know about it. -/
structure MemberEntry where
  member : ClassMember
  offset : Nat
  isConstructor : Bool := false
  /-- Its private name, and whether it is the getter or the setter of it. -/
  privateName : Option (String × Option Bool) := none

/-- The key of a class member. -/
def memberKey (g : Grammar) (ctx : Context) : Reader PropertyKey := do
  let token ← current
  match token.kind with
  | .privateWord name =>
    if name = "constructor" then note token.span.start
    let _ ← advance
    return .privateName name
  | _ => g.propertyKey ctx

/-- The context of a field's value or of a static block. -/
def fieldContext (ctx : Context) : Context :=
  { strict := true
    awaitReserved := ctx.inAsync || ctx.awaitReserved
    superMember := true
    newTarget := true
    inClassField := true }

/-- A static block behind its word. -/
def staticBlock (g : Grammar) (ctx : Context) (offset : Nat) : Reader MemberEntry := do
  expect "\x7b"
  let (_, body) ← g.statements
    { fieldContext ctx with awaitReserved := true } false g.steps
  expect "\x7d"
  return { member := .initializer body, offset }

/-- A member of a class that is neither a semicolon nor a static block. -/
def plainMember (g : Grammar) (ctx : Context) (hasHeritage isStatic : Bool) (offset : Nat) :
    Reader MemberEntry := do
  let modifiers ← modifiers ["(", "=", ";", "\x7d"]
  let key ← g.memberKey ctx
  let privateName :=
    match key with
    | .privateName name =>
      some (name, if modifiers.getter then some true
        else if modifiers.setter then some false else none)
    | _ => none
  let named := fun name => key.declared? = some name
  if modifiers.any || (← at? "(") then
    let isConstructor := !isStatic && named "constructor"
    if isConstructor && modifiers.any then note offset
    if isStatic && named "prototype" then note offset
    let code ← g.method ctx modifiers (isConstructor && hasHeritage)
    return { member := .method key code, offset, isConstructor, privateName }
  else
    if named "constructor" || (isStatic && named "prototype") then note offset
    let value ←
      if ← eat "=" then do
        let value ← g.assignment (fieldContext ctx)
        pure (some value)
      else pure none
    semicolon
    return { member := .field key value, offset, privateName }

/-- A member of a class. -/
def classMember (g : Grammar) (ctx : Context) (hasHeritage : Bool) : Reader MemberEntry := do
  let offset ← here
  let next ← peek
  let isKey := ["(", "=", ";", "\x7d"].any (isPunctuator next) || next.kind = .endOfText
  if (← atWord? "static") && !isKey then
    let _ ← advance
    if ← at? "\x7b" then g.staticBlock ctx offset
    else g.plainMember ctx hasHeritage true offset
  else g.plainMember ctx hasHeritage false offset

/-- Notes constructors and private names that a class declares twice. A getter and a setter may
share a private name. -/
def checkMembers : (seenConstructor : Bool) → (seen : List (String × Option Bool)) →
    List MemberEntry → Reader Unit
  | _, _, [] => return
  | seenConstructor, seen, entry :: entries => do
    if entry.isConstructor && seenConstructor then note entry.offset
    let seenConstructor := seenConstructor || entry.isConstructor
    match entry.privateName with
    | some (name, accessor) =>
      let clashes := seen.any fun other =>
        other.1 = name && (other.2 = accessor || other.2.isNone || accessor.isNone)
      if clashes then note entry.offset
      checkMembers seenConstructor ((name, accessor) :: seen) entries
    | none => checkMembers seenConstructor seen entries

/-- The class that a class extends. -/
def heritage (g : Grammar) (ctx : Context) : Reader (Option Expr) := do
  if ← eatWord "extends" then
    let start ← here
    let base ← g.operand ctx
    return some (← g.suffixes (fun _ _ => stop) ctx start true g.steps false base)
  else return none

/-- The members of a class with their braces. Private names that the class declares are settled
at its end. -/
def classMembers (g : Grammar) (ctx : Context) (hasHeritage : Bool) :
    Reader (List ClassMember) := do
  expect "\x7b"
  let outerUses ← takePrivateUses
  let member := do
    let _ ← many (at? ";") advance g.steps
    if ← at? "\x7d" then return none
    else return some (← g.classMember ctx hasHeritage)
  let entries ← many (do return !(← at? "\x7d")) member g.steps
  let entries := entries.filterMap id
  expect "\x7d"
  checkMembers false [] entries
  settlePrivateUses (entries.filterMap fun entry => entry.privateName.map (·.1)) outerUses
  return entries.map (·.member)

/-- A class behind its word. -/
def classRest (g : Grammar) (outer : Context) (nameRequired : Bool) :
    Reader (String × List ClassMember × Option Expr) := do
  let ctx := { outer with strict := true, arrowAt := none, allowIn := true }
  let named := nameRequired || !((← at? "\x7b") || (← atWord? "extends"))
  let name ←
    if named then do
      let (_, name) ← bindingName ctx
      pure name
    else pure ""
  let heritage ← g.heritage ctx
  let members ← g.classMembers ctx heritage.isSome
  return (name, members, heritage)

/-! ## Parentheses -/

/-- Expressions up to a closing parenthesis, and whether a comma stands in front of it. -/
def parenItems (g : Grammar) (ctx : Context) : (steps : Nat) → Reader (List Expr × Bool)
  | 0 => stop
  | steps + 1 => do
    let first ← g.spreadable ctx
    if ← eat ")" then return ([first], false)
    else
      expect ","
      if ← eat ")" then return ([first], true)
      else
        let (rest, trailing) ← parenItems g ctx steps
        return (first :: rest, trailing)

/-- Where an element of a list is spread. -/
def spreadOffset? (items : List Expr) : Option Nat :=
  items.findSome? fun
    | .group span .spread _ => some span.start
    | _ => none

/-- What stands in parentheses, and whether a comma stands in front of the closing one. -/
def parenContents (g : Grammar) (ctx : Context) : Reader (List Expr × Bool) := do
  expect "("
  if ← eat ")" then return ([], false) else g.parenItems (bracketed ctx) g.steps

/-- Expressions in parentheses. -/
def inParentheses (span : Span) : List Expr → Expr
  | [inner] => .group span .paren [inner]
  | items => .group span .paren [.group span .sequence items]

/-- What stands in parentheses behind which no arrow comes. -/
def parenExpression (start : Nat) (items : List Expr) (trailing : Bool) : Reader Expr := do
  if items.isEmpty then throw start
  else
    match spreadOffset? items with
    | some offset => throw offset
    | none =>
      let span ← spanFrom start
      if trailing then throw (span.stop - 1)
      return inParentheses span items

/-- A parenthesised expression, or an arrow function. -/
def parenthesized (g : Grammar) (ctx : Context) : Reader Expr := do
  let start ← here
  let mark ← strictMark
  let contents ← g.parenContents ctx
  if ctx.arrowAt = some start && (← arrowFollows) then
    g.arrowOf ctx start mark false contents.1
  else parenExpression start contents.1 contents.2

/-! ## Operands -/

/-- A creation behind its word. -/
def creation (g : Grammar) (ctx : Context) (start : Nat) : Reader Expr := do
  if ← eat "." then
    expectWord "target"
    unless ctx.newTarget do note start
    return .leaf (← spanFrom start) .metaProperty
  else
    let calleeStart ← here
    if (← atWord? "import") && isPunctuator (← peek) "(" then stop
    let ctx := { ctx with arrowAt := none }
    let base ← g.operand ctx
    let callee ← g.suffixes (fun _ _ => stop) ctx calleeStart false g.steps false base
    let args ← if ← at? "(" then g.arguments ctx else pure []
    return .group (← spanFrom start) .new (callee :: args)

/-- A dynamic import or a property of the module, behind the word. -/
def importOperand (g : Grammar) (ctx : Context) (start : Nat) : Reader Expr := do
  if ← eat "." then
    expectWord "meta"
    noteModule
    return .leaf (← spanFrom start) .metaProperty
  else
    expect "("
    let ctx := bracketed ctx
    let first ← g.assignment ctx
    let others ← if ← eat "," then commaList ")" (g.assignment ctx) g.steps
      else do
        expect ")"
        pure []
    if others.length > 1 then note start
    return .group (← spanFrom start) .callImport (first :: others)

/-- An arrow function with one parameter, at that parameter. -/
def singleParameterArrow (g : Grammar) (ctx : Context) (start : Nat) (async : Bool) :
    Reader Expr := do
  let mark ← strictMark
  let (span, name) ← bindingName ctx
  g.arrowRest ctx start mark async [.name span name]

/-- An operand that begins with a word. -/
def wordOperand (g : Grammar) (ctx : Context) (token : Token) (name : String) (escaped : Bool) :
    Reader Expr := do
  let start := token.span.start
  let next ← peek
  let keyword := if escaped then "" else name
  match keyword with
  | "this" =>
    let _ ← advance
    return .leaf token.span .this
  | "null" | "true" | "false" =>
    let _ ← advance
    return .leaf token.span .literal
  | "function" =>
    let _ ← advance
    let (_, code) ← g.functionRest ctx false true
    return .function (← spanFrom start) false code
  | "class" =>
    let _ ← advance
    let (_, members, heritage) ← g.classRest ctx false
    return .classBody (← spanFrom start) members heritage
  | "new" =>
    let _ ← advance
    g.creation ctx start
  | "import" =>
    let _ ← advance
    g.importOperand ctx start
  | "super" =>
    let _ ← advance
    let called ← at? "("
    let accessed := (← at? ".") || (← at? "[")
    unless called || accessed do throw start
    unless if called then ctx.superCall else ctx.superMember do note start
    return .leaf token.span .super
  | _ =>
    let startsArrow := ctx.arrowAt = some start
    if keyword = "async" && isWord next "function" && !next.lineBreak then
      let _ ← advance
      let _ ← advance
      let (_, code) ← g.functionRest ctx true true
      return .function (← spanFrom start) false code
    else if isPunctuator next "=>" && !next.lineBreak && startsArrow then
      g.singleParameterArrow ctx start false
    else
      let startsAsyncArrow :=
        match next.kind with
        | .word other _ =>
          keyword = "async" && !next.lineBreak && startsArrow && !reservedWords.contains other
        | _ => false
      if startsAsyncArrow then
        let _ ← advance
        g.singleParameterArrow { ctx with awaitReserved := true } start true
      else
        checkName ctx name start
        let _ ← advance
        return .name token.span name

/-- An operand. -/
def primary (g : Grammar) (ctx : Context) : Reader Expr := do
  let token ← current
  match token.kind with
  | .word name escaped => g.wordOperand ctx token name escaped
  | .privateWord name =>
    notePrivateUse name token.span.start
    let _ ← advance
    unless (← atWord? "in") && ctx.allowIn do stop
    return .leaf token.span .privateName
  | .number legacy =>
    if legacy then noteStrict ctx token.span.start
    let _ ← advance
    return .leaf token.span .literal
  | .string value legacy =>
    if legacy then noteStrict ctx token.span.start
    let _ ← advance
    return .string token.span value
  | .punctuator "(" => g.parenthesized ctx
  | .punctuator "[" => g.arrayLiteral ctx
  | .punctuator "\x7b" => g.objectLiteral ctx
  | .punctuator "`" => g.template ctx false
  | .punctuator "/" | .punctuator "/=" =>
    let token ← advanceRegex
    return .leaf token.span .literal
  | _ => stop

end Grammar

end ModuleLinker.Script
