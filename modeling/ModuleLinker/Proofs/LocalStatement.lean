/-
# ModuleLinker.Proofs.LocalStatement -- statements are read locally

The productions of statements, and the grammar of any depth.
-/

import ModuleLinker.Proofs.LocalExpression

namespace ModuleLinker.Script

set_option synthInstance.maxSize 4000
set_option synthInstance.maxHeartbeats 100000

open Reader

variable {g : Grammar} [g.Local]

variable (ctx : Context) (start headStart : Nat) (kind name : String)
  (lexical awaited overElements async imports nested : Bool) (token : Token) (value : Expr)
  (layout : Layout) (head : Part) (parts first : List Part) (missing : Option Nat)
  (declared : List Declarator)

/-! ### Variables -/

instance Local.group : Local (Grammar.group start layout parts) := by
  unfold Grammar.group
  infer_instance

instance Local.declarator : Local (g.declarator ctx lexical) := by
  unfold Grammar.declarator
  dsimp only
  infer_instance

instance Local.declarators : Local (g.declarators ctx kind) := by
  unfold Grammar.declarators
  infer_instance

instance Local.noteMissing : Local (Grammar.noteMissing missing) := by
  unfold Grammar.noteMissing
  split <;> infer_instance

instance Local.variableStatement : Local (g.variableStatement ctx kind) := by
  unfold Grammar.variableStatement
  infer_instance

instance Takes.variableStatement : Takes (g.variableStatement ctx kind) := by
  unfold Grammar.variableStatement
  infer_instance

/-! ### Blocks and branches -/

instance Local.block : Local (g.block ctx) := by
  unfold Grammar.block
  infer_instance

instance Takes.block : Takes (g.block ctx) := by
  unfold Grammar.block
  infer_instance

instance Local.condition : Local (g.condition ctx) := by
  unfold Grammar.condition
  infer_instance

instance Local.branch : Local (g.branch ctx) := by
  unfold Grammar.branch
  dsimp only
  infer_instance

instance Local.ifRest : Local (g.ifRest ctx start) := by
  unfold Grammar.ifRest
  infer_instance

instance Local.switchCase : Local (g.switchCase ctx) := by
  unfold Grammar.switchCase
  dsimp only
  infer_instance

instance Local.switchRest : Local (g.switchRest ctx start) := by
  unfold Grammar.switchRest
  infer_instance

instance Local.handlerParameter : Local (g.handlerParameter ctx) := by
  unfold Grammar.handlerParameter
  infer_instance

instance Local.handler : Local (g.handler ctx) := by
  unfold Grammar.handler
  infer_instance

instance Local.finalizer : Local (g.finalizer ctx) := by
  unfold Grammar.finalizer
  infer_instance

instance Local.tryRest : Local (g.tryRest ctx start) := by
  unfold Grammar.tryRest
  infer_instance

/-! ### Loops -/

instance Local.forEachRest : Local (g.forEachRest ctx start head) := by
  unfold Grammar.forEachRest
  infer_instance

instance Takes.forEachRest : Takes (g.forEachRest ctx start head) := by
  unfold Grammar.forEachRest
  infer_instance

instance Local.forRest : Local (g.forRest ctx start first) := by
  unfold Grammar.forRest
  dsimp only
  infer_instance

instance Takes.forRest : Takes (g.forRest ctx start first) := by
  unfold Grammar.forRest
  infer_instance

instance Local.atForEach : Local Grammar.atForEach := by
  unfold Grammar.atForEach
  infer_instance

instance Local.checkForEach :
    Local (Grammar.checkForEach ctx headStart kind overElements declared) := by
  unfold Grammar.checkForEach
  dsimp only
  split <;> infer_instance

instance Local.forVariables : Local (g.forVariables ctx start kind awaited) := by
  unfold Grammar.forVariables
  infer_instance

instance TakesTwo.forVariables : TakesTwo (g.forVariables ctx start kind awaited) := by
  unfold Grammar.forVariables
  infer_instance

instance Takes.forVariables : Takes (g.forVariables ctx start kind awaited) := by
  unfold Grammar.forVariables
  infer_instance

instance Local.forExpression : Local (g.forExpression ctx start awaited) := by
  unfold Grammar.forExpression
  dsimp only
  infer_instance

instance TakesTwo.forExpression : TakesTwo (g.forExpression ctx start awaited) := by
  unfold Grammar.forExpression
  infer_instance

instance Takes.forExpression : Takes (g.forExpression ctx start awaited) := by
  unfold Grammar.forExpression
  infer_instance

instance Local.forHead : Local (g.forHead ctx start awaited) := by
  unfold Grammar.forHead
  refine andThen fun _ => andThen fun token => ?_
  split
  · infer_instance
  · refine peekThen (fun next => ?_) fun next => ?_
    all_goals
      dsimp only
      infer_instance

instance Local.forStatement : Local (g.forStatement ctx start) := by
  unfold Grammar.forStatement
  infer_instance

instance Local.whileRest : Local (g.whileRest ctx start) := by
  unfold Grammar.whileRest
  infer_instance

instance Local.doRest : Local (g.doRest ctx start) := by
  unfold Grammar.doRest
  infer_instance

/-! ### Jumps, expressions and declarations -/

instance Local.jump : Local (Grammar.jump ctx start layout) := by
  unfold Grammar.jump
  refine andThen fun token => ?_
  dsimp only
  split <;> infer_instance

instance Local.returnRest : Local (g.returnRest ctx start) := by
  unfold Grammar.returnRest
  infer_instance

instance Local.throwRest : Local (g.throwRest ctx start) := by
  unfold Grammar.throwRest
  infer_instance

instance Local.functionDeclaration : Local (g.functionDeclaration ctx start async) := by
  unfold Grammar.functionDeclaration
  infer_instance

instance Local.classDeclaration : Local (g.classDeclaration ctx start) := by
  unfold Grammar.classDeclaration
  infer_instance

instance Local.labelled : Local (g.labelled ctx name start) := by
  unfold Grammar.labelled
  dsimp only
  infer_instance

instance Local.behindExpression : Local (g.behindExpression ctx start token value) := by
  unfold Grammar.behindExpression
  split <;> infer_instance

instance Local.expressionStatement : Local (g.expressionStatement ctx) := by
  unfold Grammar.expressionStatement
  infer_instance

instance Takes.expressionStatement : Takes (g.expressionStatement ctx) := by
  unfold Grammar.expressionStatement
  infer_instance

/-! ### Imports and exports -/

instance Local.externalName : Local Grammar.externalName := by
  unfold Grammar.externalName
  refine andThen fun token => ?_
  split <;> infer_instance

instance Local.stringToken : Local Grammar.stringToken := by
  unfold Grammar.stringToken
  refine andThen fun token => ?_
  split <;> infer_instance

instance Local.moduleReference : Local (g.moduleReference ctx) := by
  unfold Grammar.moduleReference
  infer_instance

instance Local.importName : Local (Grammar.importName ctx) := by
  unfold Grammar.importName
  refine andThen fun token => andThen fun _ => andThen fun renamed => ?_
  split
  · infer_instance
  · split <;> infer_instance

instance Local.importNames : Local (g.importNames ctx) := by
  unfold Grammar.importNames
  infer_instance

instance Local.importRest : Local (g.importRest ctx) := by
  unfold Grammar.importRest
  refine andThen fun token => ?_
  split <;> infer_instance

instance Local.exportName : Local Grammar.exportName := by
  unfold Grammar.exportName
  infer_instance

instance Local.defaultExport : Local (g.defaultExport ctx) := by
  unfold Grammar.defaultExport
  refine andThen fun token => peekThen (fun next => ?_) fun next => ?_
  all_goals infer_instance

instance Local.exportRest : Local (g.exportRest ctx) := by
  unfold Grammar.exportRest
  refine andThen fun token => peekThen (fun next => ?_) fun next => ?_
  all_goals infer_instance

instance Local.noteDeclaration : Local Grammar.noteDeclaration := by
  exact modify (fun _ => rfl) fun _ _ => rfl

instance Local.declaration : Local (g.declaration ctx start imports) := by
  unfold Grammar.declaration
  infer_instance

/-! ### Statements -/

instance Local.wordStatement : Local (g.wordStatement ctx nested token name) := by
  unfold Grammar.wordStatement
  refine peekThen (fun next => ?_) fun next => ?_
  all_goals
    dsimp only
    split <;> infer_instance

instance Takes.wordStatement : Takes (g.wordStatement ctx nested token name) := by
  unfold Grammar.wordStatement
  refine andThen fun next => ?_
  dsimp only
  split <;> infer_instance

instance Local.anyStatement : Local (g.anyStatement ctx nested) := by
  unfold Grammar.anyStatement
  refine andThen fun token => ?_
  dsimp only
  split <;> infer_instance

instance Takes.anyStatement : Takes (g.anyStatement ctx nested) := by
  unfold Grammar.anyStatement
  refine andThen fun token => ?_
  dsimp only
  split <;> infer_instance

/-! ## The grammar of any depth -/

instance Grammar.Local.ofDepth (depth : Nat) : (Grammar.ofDepth depth).Local := by
  -- A grammar reads nested phrases with the grammar one level below, whose locality is the instance
  -- that the searches use.
  induction depth with
  | zero =>
      constructor
      case takes_assignment | takes_operand | takes_statement =>
        intros
        exact Takes.stop
      all_goals
        intros
        exact Local.stop
  | succ depth ih =>
      let g := Grammar.ofDepth depth
      exact
        { assignment := fun ctx => inferInstanceAs (Script.Local (g.assignmentExpression ctx))
          unary := fun ctx => inferInstanceAs (Script.Local (g.unaryExpression ctx))
          binary := fun ctx limit => inferInstanceAs (Script.Local (g.binaryExpression ctx limit))
          operand := fun ctx => inferInstanceAs (Script.Local (g.primary ctx))
          pattern := fun ctx => inferInstanceAs (Script.Local (g.bindingTarget ctx))
          statement := fun ctx nested => inferInstanceAs (Script.Local (g.anyStatement ctx nested))
          takes_assignment := fun ctx => inferInstanceAs (Takes (g.assignmentExpression ctx))
          takes_operand := fun ctx => inferInstanceAs (Takes (g.primary ctx))
          takes_statement := fun ctx nested => inferInstanceAs (Takes (g.anyStatement ctx nested)) }

end ModuleLinker.Script
