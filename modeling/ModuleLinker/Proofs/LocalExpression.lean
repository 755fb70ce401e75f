/-
# ModuleLinker.Proofs.LocalExpression -- expressions are read locally

Every production up to assignments is put together from local readers, and so is local itself if
the recursive readers of the grammar are. Productions that something may be looked past in front
of are shown to take a token.
-/

import ModuleLinker.Proofs.Locality

namespace ModuleLinker.Script

set_option synthInstance.maxSize 4000
set_option synthInstance.maxHeartbeats 100000

open Reader

variable {β : Type}

/-! ## Patterns from expressions -/

namespace Local

instance checkPlace (ctx : Context) (e : Expr) : Local (checkPlace ctx e) := by
  fun_induction ModuleLinker.Script.checkPlace ctx e <;> infer_instance

instance asPlace (ctx : Context) (e : Expr) : Local (e.asPlace ctx) := by
  unfold Expr.asPlace
  refine andThen fun _ => ?_
  split <;> infer_instance

theorem patterns (ctx : Context) (binding : Bool) :
    (∀ e : Expr, Local (e.asPattern ctx binding)) ∧
      (∀ properties, Local (propertiesAsFields ctx binding properties)) ∧
      ∀ parts, Local (elementsAsPatterns ctx binding parts) := by
  -- The three conversions call one another; a spread has its own check for a comma behind it.
  apply Expr.asPattern.mutual_induct binding
  case case6 | case7 =>
    intro e hname harray hobject hassign _
    rw [Expr.asPattern.eq_5 _ _ _ hname harray hobject hassign]
    infer_instance
  case case11 =>
    intro e parts hhole hspread _ _
    rw [elementsAsPatterns.eq_4 _ _ _ _ hhole hspread]
    infer_instance
  case case10 =>
    intro span inner parts _ _
    unfold elementsAsPatterns
    refine andThen fun comma => ?_
    extract_lets element
    have (u : PUnit) : Local (element u) := by
      refine andThen fun pattern => ?_
      extract_lets rest
      have (u : PUnit) : Local (rest u) := bind
      clear_value rest
      split <;> infer_instance
    clear_value element
    infer_instance
  case case16 =>
    intro span value properties _ _
    unfold propertiesAsFields
    refine andThen fun comma => ?_
    extract_lets field
    have (u : PUnit) : Local (field u) := by
      refine andThen fun pattern => ?_
      extract_lets rest
      have (u : PUnit) : Local (rest u) := bind
      clear_value rest
      split <;> infer_instance
    clear_value field
    infer_instance
  all_goals intros
  all_goals first | unfold Expr.asPattern | unfold elementsAsPatterns | unfold propertiesAsFields
  all_goals infer_instance

instance asPattern (ctx : Context) (binding : Bool) (e : Expr) :
    Local (e.asPattern ctx binding) :=
  (patterns ctx binding).1 e

instance elementsAsPatterns (ctx : Context) (binding : Bool) (parts : List Expr) :
    Local (elementsAsPatterns ctx binding parts) :=
  (patterns ctx binding).2.2 parts

end Local

/-! ## The grammar -/

/-- Readers for the recursive parts of the grammar that are all local, and take a token. -/
class Grammar.Local (g : Grammar) : Prop where
  assignment (ctx : Context) : Script.Local (g.assignment ctx)
  unary (ctx : Context) : Script.Local (g.unary ctx)
  binary (ctx : Context) (limit : Nat) : Script.Local (g.binary ctx limit)
  operand (ctx : Context) : Script.Local (g.operand ctx)
  pattern (ctx : Context) : Script.Local (g.pattern ctx)
  statement (ctx : Context) (nested : Bool) : Script.Local (g.statement ctx nested)
  takes_assignment (ctx : Context) : Takes (g.assignment ctx)
  takes_operand (ctx : Context) : Takes (g.operand ctx)
  takes_statement (ctx : Context) (nested : Bool) : Takes (g.statement ctx nested)

attribute [instance] Grammar.Local.assignment Grammar.Local.unary Grammar.Local.binary
  Grammar.Local.operand Grammar.Local.pattern Grammar.Local.statement
  Grammar.Local.takes_assignment Grammar.Local.takes_operand Grammar.Local.takes_statement

variable {g : Grammar} [g.Local]

variable (ctx outer : Context) (start mark offset limit steps : Nat) (opener name : String)
  (tagged calls inChain opening strict directive unique async anonymous superCall : Bool)
  (hasHeritage isStatic seenConstructor nameRequired trailing escaped : Bool)
  (base left target : Expr) (items : List Expr) (params : List Pattern) (token : Token)
  (shape : Grammar.Shape) (words : Grammar.Modifiers) (stops : List String)
  (seen : List (String × Option Bool)) (entries : List Grammar.MemberEntry)

instance Local.expression : Local (g.expression ctx) := by
  unfold Grammar.expression
  infer_instance

instance Takes.expression : Takes (g.expression ctx) := by
  unfold Grammar.expression
  infer_instance

instance Local.spreadable : Local (g.spreadable ctx) := by
  unfold Grammar.spreadable
  infer_instance

instance Local.arguments : Local (g.arguments ctx) := by
  unfold Grammar.arguments
  infer_instance

/-! ### Templates -/

instance Local.templateHoles : Local (g.templateHoles ctx tagged steps opener) := by
  induction steps generalizing opener with
  | zero =>
      unfold Grammar.templateHoles
      infer_instance
  | succ steps ih =>
      unfold Grammar.templateHoles
      infer_instance

instance Takes.templateHoles : Takes (g.templateHoles ctx tagged steps opener) := by
  cases steps with
  | zero =>
      unfold Grammar.templateHoles
      infer_instance
  | succ steps =>
      unfold Grammar.templateHoles
      infer_instance

instance Local.template : Local (g.template ctx tagged) := by
  unfold Grammar.template
  infer_instance

instance Takes.template : Takes (g.template ctx tagged) := by
  unfold Grammar.template
  infer_instance

/-! ### Keys and what follows an operand -/

instance Local.propertyKey : Local (g.propertyKey ctx) := by
  unfold Grammar.propertyKey
  refine andThen fun token => ?_
  split <;> infer_instance

instance Takes.propertyKey : Takes (g.propertyKey ctx) := by
  unfold Grammar.propertyKey
  refine andThen fun token => ?_
  split <;> infer_instance

instance Local.memberName : Local Grammar.memberName := by
  unfold Grammar.memberName
  refine andThen fun token => ?_
  split <;> infer_instance

instance Local.arrowFollows : Local Grammar.arrowFollows := by
  unfold Grammar.arrowFollows
  infer_instance

instance Local.suffixes {arrow : Bool → List Expr → Reader Expr}
    [∀ async args, Local (arrow async args)] :
    Local (g.suffixes arrow ctx start calls steps inChain base) := by
  induction steps generalizing inChain base with
  | zero =>
      unfold Grammar.suffixes
      infer_instance
  | succ steps ih =>
      unfold Grammar.suffixes
      refine andThen fun token => ?_
      split <;> infer_instance

/-! ### Declared patterns and parameters -/

instance Local.withInitial {target : Reader Pattern} [Local target] :
    Local (g.withInitial ctx target) := by
  unfold Grammar.withInitial
  infer_instance

instance Local.bindingElement : Local (g.bindingElement ctx) := by
  unfold Grammar.bindingElement
  infer_instance

instance Local.bindingField : Local (g.bindingField ctx) := by
  unfold Grammar.bindingField
  refine andThen fun rest => ?_
  split
  · infer_instance
  · refine andThen fun token => andThen fun key => andThen fun keyed => ?_
    split
    · infer_instance
    · split <;> infer_instance

instance Local.bindingTarget : Local (g.bindingTarget ctx) := by
  unfold Grammar.bindingTarget
  infer_instance

instance Local.parameter : Local (g.parameter ctx) := by
  unfold Grammar.parameter
  infer_instance

/-! ### Bodies and functions -/

instance Local.statements : Local (g.statements ctx opening steps) := by
  induction steps generalizing ctx opening with
  | zero =>
      unfold Grammar.statements
      infer_instance
  | succ steps ih =>
      unfold Grammar.statements
      refine andThen fun token => ?_
      split
      · infer_instance
      · refine andThen fun stmt => ?_
        generalize (if opening = true then Grammar.directive? stmt else none) = directive
        cases directive <;> infer_instance

instance Local.body : Local (g.body ctx) := by
  unfold Grammar.body
  infer_instance

instance Local.checkParameters :
    Local (Grammar.checkParameters start params strict directive unique) := by
  unfold Grammar.checkParameters
  infer_instance

instance Local.functionCode : Local (g.functionCode outer mark shape) := by
  unfold Grammar.functionCode
  infer_instance

instance Local.functionRest : Local (g.functionRest outer async anonymous) := by
  unfold Grammar.functionRest
  infer_instance

instance Local.arrowRest : Local (g.arrowRest outer start mark async params) := by
  unfold Grammar.arrowRest
  dsimp only
  infer_instance

instance Local.arrowOf : Local (g.arrowOf ctx start mark async items) := by
  unfold Grammar.arrowOf
  infer_instance

/-! ### Object and array literals -/

instance Moves.modifiers : Moves (Grammar.modifiers stops) := by
  unfold Grammar.modifiers
  infer_instance

theorem Local.modifiersThen {stops : List String} {k : Grammar.Modifiers → Reader β}
    (hk : ∀ m, Local (k m)) (ht : ∀ m, Takes (k m)) :
    Local (Grammar.modifiers stops >>= k) := by
  unfold Grammar.modifiers
  simp only [bind_assoc]
  refine andThen fun token => peekThen (fun next => ?_) fun next => ?_
  · split
    · infer_instance
    split
    · infer_instance
    split <;> infer_instance
  · split
    · infer_instance
    split
    · infer_instance
    split <;> infer_instance

instance Local.method : Local (g.method ctx words superCall) := by
  unfold Grammar.method
  refine andThen fun start => andThen fun mark => andThen fun code => ?_
  obtain ⟨params, body⟩ := code
  dsimp only
  split <;> split <;> try split
  all_goals infer_instance

instance Local.shorthand : Local (g.shorthand ctx start token) := by
  unfold Grammar.shorthand
  split <;> infer_instance

instance Local.property (ctx : Context) : Local (g.property ctx) := by
  unfold Grammar.property
  refine andThen fun start => andThen fun spread => ?_
  split
  · infer_instance
  · exact modifiersThen (fun _ => inferInstance) fun _ => inferInstance

instance Local.objectLiteral : Local (g.objectLiteral ctx) := by
  unfold Grammar.objectLiteral
  infer_instance

instance Takes.objectLiteral : Takes (g.objectLiteral ctx) := by
  unfold Grammar.objectLiteral
  infer_instance

instance Local.arrayLiteral : Local (g.arrayLiteral ctx) := by
  unfold Grammar.arrayLiteral
  infer_instance

instance Takes.arrayLiteral : Takes (g.arrayLiteral ctx) := by
  unfold Grammar.arrayLiteral
  infer_instance

/-! ### Classes -/

instance Local.memberKey : Local (g.memberKey ctx) := by
  unfold Grammar.memberKey
  refine andThen fun token => ?_
  split <;> infer_instance

instance Takes.memberKey : Takes (g.memberKey ctx) := by
  unfold Grammar.memberKey
  refine andThen fun token => ?_
  split <;> infer_instance

instance Local.staticBlock : Local (g.staticBlock ctx offset) := by
  unfold Grammar.staticBlock
  infer_instance

instance Local.plainMember (ctx : Context) (hasHeritage isStatic : Bool) (offset : Nat) :
    Local (g.plainMember ctx hasHeritage isStatic offset) := by
  unfold Grammar.plainMember
  refine modifiersThen (fun modifiers => ?_) fun modifiers => ?_
  all_goals
    dsimp only
    infer_instance

instance Takes.plainMember : Takes (g.plainMember ctx hasHeritage isStatic offset) := by
  unfold Grammar.plainMember
  infer_instance

instance Local.classMember : Local (g.classMember ctx hasHeritage) := by
  unfold Grammar.classMember
  refine andThen fun offset => peekThen (fun next => ?_) fun next => ?_
  all_goals
    dsimp only
    infer_instance

instance Local.checkMembers : Local (Grammar.checkMembers seenConstructor seen entries) := by
  induction entries generalizing seenConstructor seen with
  | nil =>
      unfold Grammar.checkMembers
      infer_instance
  | cons entry entries ih =>
      unfold Grammar.checkMembers
      dsimp only
      split <;> split <;> infer_instance

instance Local.heritage : Local (g.heritage ctx) := by
  unfold Grammar.heritage
  infer_instance

instance Local.classMembers : Local (g.classMembers ctx hasHeritage) := by
  unfold Grammar.classMembers
  dsimp only
  infer_instance

instance Local.classRest : Local (g.classRest outer nameRequired) := by
  unfold Grammar.classRest
  infer_instance

/-! ### Parentheses -/

instance Local.parenItems : Local (g.parenItems ctx steps) := by
  induction steps with
  | zero =>
      unfold Grammar.parenItems
      infer_instance
  | succ steps ih =>
      unfold Grammar.parenItems
      refine andThen fun first => andThen fun closed => ?_
      split <;> infer_instance

instance Local.parenContents : Local (g.parenContents ctx) := by
  unfold Grammar.parenContents
  infer_instance

instance Takes.parenContents : Takes (g.parenContents ctx) := by
  unfold Grammar.parenContents
  infer_instance

instance Local.parenExpression : Local (Grammar.parenExpression start items trailing) := by
  unfold Grammar.parenExpression
  split
  · infer_instance
  · split <;> infer_instance

instance Local.parenthesized : Local (g.parenthesized ctx) := by
  unfold Grammar.parenthesized
  infer_instance

instance Takes.parenthesized : Takes (g.parenthesized ctx) := by
  unfold Grammar.parenthesized
  infer_instance

/-! ### Operands -/

instance Local.creation : Local (g.creation ctx start) := by
  unfold Grammar.creation
  dsimp only
  infer_instance

instance Local.importOperand : Local (g.importOperand ctx start) := by
  unfold Grammar.importOperand
  dsimp only
  infer_instance

instance Local.singleParameterArrow : Local (g.singleParameterArrow ctx start async) := by
  unfold Grammar.singleParameterArrow
  infer_instance

instance Takes.singleParameterArrow : Takes (g.singleParameterArrow ctx start async) := by
  unfold Grammar.singleParameterArrow
  infer_instance

instance Local.wordOperand : Local (g.wordOperand ctx token name escaped) := by
  unfold Grammar.wordOperand
  refine peekThen (fun next => ?_) fun next => ?_
  all_goals
    dsimp only
    split <;> infer_instance

instance Takes.wordOperand : Takes (g.wordOperand ctx token name escaped) := by
  unfold Grammar.wordOperand
  refine andThen fun next => ?_
  dsimp only
  split <;> infer_instance

instance Local.primary : Local (g.primary ctx) := by
  unfold Grammar.primary
  refine andThen fun token => ?_
  split <;> infer_instance

instance Takes.primary : Takes (g.primary ctx) := by
  unfold Grammar.primary
  refine andThen fun token => ?_
  split <;> infer_instance

/-! ### Operators -/

instance Local.leftHandSide : Local (g.leftHandSide ctx) := by
  unfold Grammar.leftHandSide
  infer_instance

instance Takes.leftHandSide : Takes (g.leftHandSide ctx) := by
  unfold Grammar.leftHandSide
  infer_instance

instance Local.awaited : Local (g.awaited ctx) := by
  unfold Grammar.awaited
  infer_instance

instance Takes.awaited : Takes (g.awaited ctx) := by
  unfold Grammar.awaited
  infer_instance

instance Local.unaryExpression : Local (g.unaryExpression ctx) := by
  unfold Grammar.unaryExpression
  refine andThen fun start => andThen fun token => ?_
  dsimp only
  split
  · infer_instance
  · infer_instance

instance Takes.unaryExpression : Takes (g.unaryExpression ctx) := by
  unfold Grammar.unaryExpression
  refine andThen fun start => andThen fun token => ?_
  dsimp only
  split <;> infer_instance

instance Local.binaryTail : Local (g.binaryTail ctx start limit steps left) := by
  induction steps generalizing left with
  | zero =>
      unfold Grammar.binaryTail
      infer_instance
  | succ steps ih =>
      unfold Grammar.binaryTail
      refine andThen fun token => ?_
      split <;> infer_instance

instance Local.binaryExpression : Local (g.binaryExpression ctx limit) := by
  unfold Grammar.binaryExpression
  infer_instance

instance Takes.binaryExpression : Takes (g.binaryExpression ctx limit) := by
  unfold Grammar.binaryExpression
  infer_instance

instance Local.conditional : Local (g.conditional ctx) := by
  unfold Grammar.conditional
  infer_instance

instance Takes.conditional : Takes (g.conditional ctx) := by
  unfold Grammar.conditional
  infer_instance

instance Local.yielded : Local (g.yielded ctx) := by
  unfold Grammar.yielded
  dsimp only
  infer_instance

instance Takes.yielded : Takes (g.yielded ctx) := by
  unfold Grammar.yielded
  infer_instance

instance Local.assigned : Local (Grammar.assigned ctx target) := by
  unfold Grammar.assigned
  split <;> infer_instance

instance Local.assignmentExpression : Local (g.assignmentExpression ctx) := by
  unfold Grammar.assignmentExpression
  dsimp only
  infer_instance

instance Takes.assignmentExpression : Takes (g.assignmentExpression ctx) := by
  unfold Grammar.assignmentExpression
  infer_instance

end ModuleLinker.Script
