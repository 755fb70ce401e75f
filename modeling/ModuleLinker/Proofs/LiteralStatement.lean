/-
# ModuleLinker.Proofs.LiteralStatement -- statements find their literals

The productions of statements, and the grammar of any depth.
-/

import ModuleLinker.Proofs.LiteralExpression

namespace ModuleLinker.Script

set_option synthInstance.maxSize 10000
set_option synthInstance.maxHeartbeats 100000

open Reader

variable {K : Set Span} {g : Grammar} [g.Finds]

variable (ctx : Context) (start headStart : Nat) (kind name : String)
  (lexical awaited overElements async imports nested : Bool) (token : Token) (value : Expr)
  (layout : Layout) (head : Part) (parts first : List Part) (missing : Option Nat)
  (declared : List Declarator)

/-! ### Variables -/

instance Finds.group [Known K parts] : Finds K (Grammar.group start layout parts) := by
  unfold Grammar.group
  infer_instance

instance Finds.declarator : Finds K (g.declarator ctx lexical) := by
  unfold Grammar.declarator
  dsimp only
  infer_instance

instance Finds.declarators : Finds K (g.declarators ctx kind) := by
  unfold Grammar.declarators
  infer_instance

instance Finds.noteMissing : Finds K (Grammar.noteMissing missing) := by
  unfold Grammar.noteMissing
  split <;> infer_instance

instance Finds.variableStatement : Finds K (g.variableStatement ctx kind) := by
  unfold Grammar.variableStatement
  infer_instance

/-! ### Blocks and branches -/

instance Finds.block : Finds K (g.block ctx) := by
  unfold Grammar.block
  infer_instance

instance Finds.condition : Finds K (g.condition ctx) := by
  unfold Grammar.condition
  infer_instance

instance Finds.branch : Finds K (g.branch ctx) := by
  unfold Grammar.branch
  dsimp only
  infer_instance

instance Finds.ifRest : Finds K (g.ifRest ctx start) := by
  unfold Grammar.ifRest
  infer_instance

instance Finds.switchCase : Finds K (g.switchCase ctx) := by
  unfold Grammar.switchCase
  dsimp only
  infer_instance

instance Finds.switchRest : Finds K (g.switchRest ctx start) := by
  unfold Grammar.switchRest
  infer_instance

instance Finds.handlerParameter : Finds K (g.handlerParameter ctx) := by
  unfold Grammar.handlerParameter
  infer_instance

instance Finds.handler : Finds K (g.handler ctx) := by
  unfold Grammar.handler
  infer_instance

instance Finds.finalizer : Finds K (g.finalizer ctx) := by
  unfold Grammar.finalizer
  infer_instance

instance Finds.tryRest : Finds K (g.tryRest ctx start) := by
  unfold Grammar.tryRest
  infer_instance

/-! ### Loops -/

instance Finds.forEachRest [Known K head] : Finds K (g.forEachRest ctx start head) := by
  unfold Grammar.forEachRest
  infer_instance

instance Finds.forRest [Known K first] : Finds K (g.forRest ctx start first) := by
  unfold Grammar.forRest
  dsimp only
  infer_instance

instance Finds.atForEach : Finds K Grammar.atForEach := by
  unfold Grammar.atForEach
  infer_instance

instance Finds.checkForEach :
    Finds K (Grammar.checkForEach ctx headStart kind overElements declared) := by
  unfold Grammar.checkForEach
  dsimp only
  split <;> infer_instance

instance Finds.forVariables : Finds K (g.forVariables ctx start kind awaited) := by
  unfold Grammar.forVariables
  infer_instance

instance Finds.forExpression : Finds K (g.forExpression ctx start awaited) := by
  unfold Grammar.forExpression
  dsimp only
  infer_instance

instance Finds.forHead : Finds K (g.forHead ctx start awaited) := by
  unfold Grammar.forHead
  dsimp only
  infer_instance

instance Finds.forStatement : Finds K (g.forStatement ctx start) := by
  unfold Grammar.forStatement
  infer_instance

instance Finds.whileRest : Finds K (g.whileRest ctx start) := by
  unfold Grammar.whileRest
  infer_instance

instance Finds.doRest : Finds K (g.doRest ctx start) := by
  unfold Grammar.doRest
  infer_instance

/-! ### Jumps, expressions and declarations -/

instance Finds.jump : Finds K (Grammar.jump ctx start layout) := by
  unfold Grammar.jump
  refine past fun token => ?_
  dsimp only
  split <;> infer_instance

instance Finds.returnRest : Finds K (g.returnRest ctx start) := by
  unfold Grammar.returnRest
  infer_instance

instance Finds.throwRest : Finds K (g.throwRest ctx start) := by
  unfold Grammar.throwRest
  infer_instance

instance Finds.functionDeclaration : Finds K (g.functionDeclaration ctx start async) := by
  unfold Grammar.functionDeclaration
  infer_instance

instance Finds.classDeclaration : Finds K (g.classDeclaration ctx start) := by
  unfold Grammar.classDeclaration
  infer_instance

instance Finds.labelled : Finds K (g.labelled ctx name start) := by
  unfold Grammar.labelled
  dsimp only
  infer_instance

instance Finds.behindExpression [Known K value] :
    Finds K (g.behindExpression ctx start token value) := by
  unfold Grammar.behindExpression
  split <;> infer_instance

instance Finds.expressionStatement : Finds K (g.expressionStatement ctx) := by
  unfold Grammar.expressionStatement
  infer_instance

/-! ### Imports and exports -/

instance Finds.externalName : Finds K Grammar.externalName := by
  unfold Grammar.externalName
  refine past fun token => ?_
  split <;> infer_instance

instance Finds.stringToken : Finds K Grammar.stringToken := by
  unfold Grammar.stringToken
  refine past fun token => ?_
  split <;> infer_instance

instance Finds.moduleReference : Finds K (g.moduleReference ctx) := by
  unfold Grammar.moduleReference
  infer_instance

instance Finds.importName : Finds K (Grammar.importName ctx) := by
  unfold Grammar.importName
  refine andThen fun token => andThen fun _ => andThen fun renamed => ?_
  split
  · infer_instance
  · split <;> infer_instance

instance Finds.importNames : Finds K (g.importNames ctx) := by
  unfold Grammar.importNames
  infer_instance

instance Finds.importRest : Finds K (g.importRest ctx) := by
  unfold Grammar.importRest
  refine past fun token => ?_
  split <;> infer_instance

instance Finds.exportName : Finds K Grammar.exportName := by
  unfold Grammar.exportName
  infer_instance

instance Finds.defaultExport : Finds K (g.defaultExport ctx) := by
  unfold Grammar.defaultExport
  infer_instance

instance Finds.exportRest : Finds K (g.exportRest ctx) := by
  unfold Grammar.exportRest
  infer_instance

instance Finds.noteDeclaration : Finds K Grammar.noteDeclaration := by
  exact modify (fun _ => rfl) fun _ => id

instance Finds.declaration : Finds K (g.declaration ctx start imports) := by
  unfold Grammar.declaration
  infer_instance

/-! ### Statements -/

instance Finds.wordStatement : Finds K (g.wordStatement ctx nested token name) := by
  unfold Grammar.wordStatement
  refine past fun next => ?_
  dsimp only
  split <;> infer_instance

instance Finds.anyStatement : Finds K (g.anyStatement ctx nested) := by
  unfold Grammar.anyStatement
  refine past fun token => ?_
  dsimp only
  split <;> infer_instance

/-! ## The grammar of any depth -/

instance Grammar.Finds.ofDepth (depth : Nat) : (Grammar.ofDepth depth).Finds := by
  induction depth with
  | zero =>
      constructor
      all_goals
        intros
        exact Finds.stop
  | succ depth ih =>
      let g := Grammar.ofDepth depth
      exact
        { assignment := fun K ctx => inferInstanceAs (Script.Finds K (g.assignmentExpression ctx))
          unary := fun K ctx => inferInstanceAs (Script.Finds K (g.unaryExpression ctx))
          binary := fun K ctx limit =>
            inferInstanceAs (Script.Finds K (g.binaryExpression ctx limit))
          operand := fun K ctx => inferInstanceAs (Script.Finds K (g.primary ctx))
          pattern := fun K ctx => inferInstanceAs (Script.Finds K (g.bindingTarget ctx))
          statement := fun K ctx nested =>
            inferInstanceAs (Script.Finds K (g.anyStatement ctx nested)) }

end ModuleLinker.Script
