/-
# ModuleLinker.Proofs.StatementPlaces -- the text under a table of exports

A table of exports is an object that is assigned in a statement of its own. Only expression
statements hold an expression as a whole, and what they hold was read by the production of
expressions. The properties of a table, and their values, are therefore pieces of the text of the
program (`exists_slice_of_table`).
-/

import ModuleLinker.Module.Classify
import ModuleLinker.Proofs.ExpressionPlaces

namespace ModuleLinker.Script

set_option synthInstance.maxSize 4000
set_option synthInstance.maxHeartbeats 100000

open Reader Text

variable {α : Type} {c : Cursor}

/-! ## Readers of statements -/

/-- If the statement is an expression, the properties of its object are pieces of the text. -/
def Stmt.TablePlacedIn (c : Cursor) : Stmt → Prop
  | .expression _ value => value.TablePlacedIn c
  | _ => True

/-- A reader of statements whose tables stand in the text. -/
class KeepsTables (c : Cursor) (f : Reader Stmt) : Prop where
  finds : FindsIn c (Stmt.TablePlacedIn c) f

namespace KeepsTables

theorem andThen {f : Reader α} {k : α → Reader Stmt} [Moves f] (hk : ∀ a, KeepsTables c (k a)) :
    KeepsTables c (f >>= k) := ⟨.andThen fun a => (hk a).finds⟩

instance bind {f : Reader α} {k : α → Reader Stmt} [Moves f] [hk : ∀ a, KeepsTables c (k a)] :
    KeepsTables c (f >>= k) := andThen hk

instance ite {p : Prop} [Decidable p] {f g : Reader Stmt} [KeepsTables c f] [KeepsTables c g] :
    KeepsTables c (if p then f else g) := by
  split <;> assumption

instance throw (n : Nat) : KeepsTables c (MonadExcept.throw n) := by
  refine ⟨⟨?_⟩⟩
  rintro σ stmt τ - ⟨⟩

instance stop : KeepsTables c stop := by
  unfold Reader.stop
  infer_instance

theorem yields {stmt : Stmt} (h : stmt.TablePlacedIn c) : KeepsTables c (Pure.pure stmt) :=
  ⟨.pure h⟩

instance function (span : Span) (name : String) (code : Function) :
    KeepsTables c (Pure.pure (.function span name code)) := yields trivial

instance classBody (span : Span) (name : String) (members : List ClassMember)
    (heritage : Option Expr) :
    KeepsTables c (Pure.pure (.classBody span name members heritage)) := yields trivial

instance declaration (span : Span) (declared : List Declarator) :
    KeepsTables c (Pure.pure (.declaration span declared)) := yields trivial

instance group (start : Nat) (layout : Layout) (parts : List Part) :
    KeepsTables c (Grammar.group start layout parts) := by
  unfold Grammar.group
  exact andThen fun _ => yields trivial

end KeepsTables

/-! ## Productions -/

variable {g : Grammar} [g.Local] [g.PlacedIn c] (ctx : Context) (start : Nat) (kind name : String)
  (awaited async imports nested : Bool) (token : Token) (value : Expr) (layout : Layout)
  (head : Part) (first : List Part)

theorem findsIn_expression : FindsIn c (Expr.TablePlacedIn c) (g.expression ctx) := by
  have hassignment : FindsIn c (Expr.TablePlacedIn c) (g.assignment ctx) :=
    ⟨fun hσ h => ((Grammar.PlacedIn.assignment (c := c) ctx).beginsAt _ |>.readFrom hσ rfl h).table⟩
  unfold Grammar.expression
  refine .andThen fun start => .bind hassignment fun first hfirst => .andThen fun others => ?_
  exact .ite (.pure hfirst) (.andThen fun span => .pure trivial)

instance KeepsTables.ifRest : KeepsTables c (g.ifRest ctx start) := by
  unfold Grammar.ifRest
  infer_instance

instance KeepsTables.switchRest : KeepsTables c (g.switchRest ctx start) := by
  unfold Grammar.switchRest
  infer_instance

instance KeepsTables.tryRest : KeepsTables c (g.tryRest ctx start) := by
  unfold Grammar.tryRest
  infer_instance

instance KeepsTables.forEachRest : KeepsTables c (g.forEachRest ctx start head) := by
  unfold Grammar.forEachRest
  infer_instance

instance KeepsTables.forRest : KeepsTables c (g.forRest ctx start first) := by
  unfold Grammar.forRest
  dsimp only
  infer_instance

instance KeepsTables.forVariables : KeepsTables c (g.forVariables ctx start kind awaited) := by
  unfold Grammar.forVariables
  dsimp only
  infer_instance

instance KeepsTables.forExpression : KeepsTables c (g.forExpression ctx start awaited) := by
  unfold Grammar.forExpression
  dsimp only
  infer_instance

instance KeepsTables.forHead : KeepsTables c (g.forHead ctx start awaited) := by
  unfold Grammar.forHead
  dsimp only
  infer_instance

instance KeepsTables.forStatement : KeepsTables c (g.forStatement ctx start) := by
  unfold Grammar.forStatement
  infer_instance

instance KeepsTables.whileRest : KeepsTables c (g.whileRest ctx start) := by
  unfold Grammar.whileRest
  infer_instance

instance KeepsTables.doRest : KeepsTables c (g.doRest ctx start) := by
  unfold Grammar.doRest
  infer_instance

instance KeepsTables.jump : KeepsTables c (Grammar.jump ctx start layout) := by
  unfold Grammar.jump
  refine andThen fun token => ?_
  dsimp only
  split <;> infer_instance

instance KeepsTables.returnRest : KeepsTables c (g.returnRest ctx start) := by
  unfold Grammar.returnRest
  infer_instance

instance KeepsTables.throwRest : KeepsTables c (g.throwRest ctx start) := by
  unfold Grammar.throwRest
  infer_instance

instance KeepsTables.labelled : KeepsTables c (g.labelled ctx name start) := by
  unfold Grammar.labelled
  dsimp only
  infer_instance

instance KeepsTables.functionDeclaration :
    KeepsTables c (g.functionDeclaration ctx start async) := by
  unfold Grammar.functionDeclaration
  infer_instance

instance KeepsTables.classDeclaration : KeepsTables c (g.classDeclaration ctx start) := by
  unfold Grammar.classDeclaration
  infer_instance

instance KeepsTables.importOrExport : KeepsTables c (g.declaration ctx start imports) := by
  unfold Grammar.declaration
  infer_instance

instance KeepsTables.variableStatement : KeepsTables c (g.variableStatement ctx kind) := by
  unfold Grammar.variableStatement
  infer_instance

instance KeepsTables.expressionStatement : KeepsTables c (g.expressionStatement ctx) := by
  have hvalue : ∀ (start : Nat) (value : Expr), value.TablePlacedIn c → KeepsTables c (do
      return .expression (← spanFrom start) value) :=
    fun start value htable => andThen fun _ => yields htable
  unfold Grammar.expressionStatement
  refine andThen fun start => andThen fun token => ⟨?_⟩
  refine (findsIn_expression _).bind fun value htable => ?_
  have := hvalue start value htable
  have hrest : KeepsTables c (g.behindExpression ctx start token value) := by
    unfold Grammar.behindExpression
    split <;> infer_instance
  exact hrest.finds

instance KeepsTables.wordStatement : KeepsTables c (g.wordStatement ctx nested token name) := by
  unfold Grammar.wordStatement
  refine andThen fun next => ?_
  dsimp only
  split <;> infer_instance

instance KeepsTables.anyStatement : KeepsTables c (g.anyStatement ctx nested) := by
  unfold Grammar.anyStatement
  refine andThen fun token => ?_
  dsimp only
  split <;> infer_instance

/-! ## All depths -/

instance Grammar.PlacedIn.ofDepth (depth : Nat) : (Grammar.ofDepth depth).PlacedIn c := by
  induction depth with
  | zero => exact ⟨fun _ => ⟨fun _ => .of_completes (r := Completes.stop)⟩⟩
  | succ depth ih => exact ⟨fun ctx => Begins.assignmentExpression ctx⟩

instance KeepsTables.statement (depth : Nat) :
    KeepsTables c ((Grammar.ofDepth depth).statement ctx nested) := by
  cases depth with
  | zero => exact stop
  | succ depth => exact anyStatement ctx nested

/-! ## Texts -/

namespace Program

variable {text script : List Char} {program : Program}

/-- What stands in a script is a piece of the text that the script ends. -/
theorem exists_slice_of_placedIn {front : List Char} {span : Span} (h : PlacedIn ⟨script, 0⟩ span) :
    ∃ piece, slice? (front ++ script) (span.shift (byteSize front)) = some piece := by
  obtain ⟨opening, close, hopening, hclose, hstart, hstop⟩ := h
  obtain ⟨above, habove, hoffset⟩ := hopening.exists_append
  obtain ⟨piece, hpiece, hend⟩ := hclose.exists_append
  refine ⟨piece, slice?_eq_some_iff.2 ⟨front ++ above, close.rest, ?_, ?_, ?_⟩⟩
  · show front ++ script = _
    rw [show script = above ++ opening.rest from habove, hpiece]
    simp only [List.append_assoc]
  all_goals
    rw [byteSize_append]
    dsimp only [Span.shift] at hoffset ⊢
    omega

/-- The properties of a table of exports, and their values, are pieces of the text. -/
theorem exists_slice_of_table (h : read text = .ok program) {stmt : Stmt}
    (hstmt : stmt ∈ program.statements) {properties : List Property}
    (htable : stmt.exportTable? = some properties) :
    ∀ property ∈ properties,
      (∃ piece, slice? text (property.span.shift program.origin) = some piece) ∧
      ∀ span key value, property = .keyed span key value →
        ∃ piece, slice? text (value.span.shift program.origin) = some piece := by
  obtain ⟨front, script, rfl, hfront, hread⟩ := exists_script_of_read h
  obtain ⟨strict, state, hrun, -, -⟩ := readScript_eq_ok_iff.1 hread
  have hplaced : stmt.TablePlacedIn ⟨script, 0⟩ :=
    forall_mem_of_statements (KeepsTables.statement _ false _).finds.holds (begin_standsIn script)
      hrun stmt hstmt
  -- The table is the value of an assignment, and its properties are placed by the statement.
  have hall : ∀ property ∈ properties, property.PlacedIn ⟨script, 0⟩ := by
    unfold Stmt.exportTable? at htable
    split at htable
    · split at htable
      · cases htable
        exact hplaced
      · cases htable
    · cases htable
  intro property hproperty
  obtain ⟨hown, hvalue⟩ := hall property hproperty
  rw [← hfront]
  exact ⟨exists_slice_of_placedIn hown, fun span key value heq =>
    exists_slice_of_placedIn (hvalue span key value heq)⟩

end Program

end ModuleLinker.Script
