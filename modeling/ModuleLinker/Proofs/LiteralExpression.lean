/-
# ModuleLinker.Proofs.LiteralExpression -- expressions find their literals

Every production up to assignments is put together from readers that find their literals, and so
finds its own if the recursive readers of the grammar do. Literals come up in three places only: a
string as an operand, a string as a key, and a template.
-/

import ModuleLinker.Proofs.LiteralReader
import ModuleLinker.Proofs.ReadStatement

namespace ModuleLinker.Script

set_option synthInstance.maxSize 10000
set_option synthInstance.maxHeartbeats 100000

open Reader

variable {α β : Type} [HasLiterals α] [HasLiterals β] {K : Set Span}

/-! ## Strings -/

/-- What is read depends on whether the next token is a string. -/
theorem Finds.ofCurrent {k : Token → Reader β}
    (hstring : ∀ {σ v τ value legacy}, σ.token.kind = .string value legacy →
      k σ.token.toToken σ = .ok (v, τ) → τ.faults = [] → FindsAt K σ v τ)
    (hother : ∀ token : Token, (∀ value legacy, token.kind ≠ .string value legacy) →
      Finds K (k token)) : Finds K (current >>= k) := by
  constructor
  intro σ v τ h hτ
  obtain ⟨token, ρ, hcurrent, hrest⟩ := bind_eq_ok h
  cases hcurrent
  by_cases hkind : ∃ value legacy, σ.token.kind = .string value legacy
  · obtain ⟨value, legacy, hkind⟩ := hkind
    exact hstring hkind hrest hτ
  · exact (hother _ fun value legacy h => hkind ⟨value, legacy, h⟩).run hrest hτ

/-- Whoever takes a string token passes its literal. -/
theorem FindsAt.string {σ τ : Progress} {v w : β} {value : String} {legacy : Bool}
    (hkind : σ.token.kind = .string value legacy) (hw : Known {σ.token.span} w)
    (h : (do let _ ← advance; return w : Reader β) σ = .ok (v, τ)) (hτ : τ.faults = []) :
    FindsAt K σ v τ := by
  obtain ⟨token, ρ, hadvance, hpure⟩ := bind_eq_ok h
  cases hpure
  obtain ⟨hσ, htoken, hspot⟩ := Finds.advance_eq_ok_route hadvance hτ
  have htakeable := (advance_eq_ok hadvance).1
  refine ⟨hσ, hspot ▸ .single ⟨.token _ htakeable, htoken⟩, fun span hspan => .inr ?_⟩
  obtain rfl : span = σ.token.span := hw.subset hspan
  exact .string .refl hkind htoken (hspot ▸ .refl)

theorem spot_of_noteStrict {ctx : Context} {offset : Nat} {σ τ : Progress} {u : PUnit}
    (h : noteStrict ctx offset σ = .ok (u, τ)) : τ.spot = σ.spot := by
  unfold Reader.noteStrict at h
  split at h <;> cases h <;> rfl

/-- The same if a spelling that only strict code refuses is noted before. -/
theorem FindsAt.legacyString {σ τ : Progress} {v w : β} {value : String} {legacy noted : Bool}
    {ctx : Context} {offset : Nat}
    (hkind : σ.token.kind = .string value legacy) (hw : Known {σ.token.span} w)
    (h : (do
      if noted then noteStrict ctx offset
      let _ ← advance
      return w : Reader β) σ = .ok (v, τ)) (hτ : τ.faults = []) : FindsAt K σ v τ := by
  cases noted with
  | false => exact .string hkind hw h hτ
  | true =>
      obtain ⟨u, ρ, hnote, hrest⟩ := bind_eq_ok h
      have hspot : ρ.spot = σ.spot := spot_of_noteStrict hnote
      have htoken : ρ.token = σ.token := congrArg Spot.token hspot
      have hbehind : FindsAt (andIn K u) ρ v τ :=
        .string (htoken ▸ hkind) (htoken ▸ hw) hrest hτ
      exact ((Finds.noteStrict ctx offset).run hnote hbehind.faults).trans hbehind

/-! ## Patterns from expressions -/

namespace Finds

instance checkPlace (ctx : Context) (e : Expr) : Finds K (checkPlace ctx e) := by
  fun_induction ModuleLinker.Script.checkPlace ctx e <;> infer_instance

instance asPlace (ctx : Context) (e : Expr) [Known K e] : Finds K (e.asPlace ctx) := by
  unfold Expr.asPlace
  refine andThen fun _ => ?_
  split <;> infer_instance

theorem patterns (ctx : Context) (binding : Bool) :
    (∀ (e : Expr) (K : Set Span) [Known K e], Finds K (e.asPattern ctx binding)) ∧
      (∀ (properties : List Property) (K : Set Span) [Known K properties],
        Finds K (propertiesAsFields ctx binding properties)) ∧
      ∀ (parts : List Expr) (K : Set Span) [Known K parts],
        Finds K (elementsAsPatterns ctx binding parts) := by
  -- The three conversions call one another. Each case finds what is known of its parts, which the
  -- instances carry to the calls; a spread has its own check for a comma behind it.
  apply Expr.asPattern.mutual_induct binding
  case case2 =>
    intro span parts ih K h
    have := h.of_group
    unfold Expr.asPattern
    infer_instance
  case case3 =>
    intro span properties ih K h
    have := h.of_object
    unfold Expr.asPattern
    infer_instance
  case case4 | case5 =>
    intro span target value _ K h
    obtain ⟨_, _⟩ := h.of_assign
    unfold Expr.asPattern
    infer_instance
  case case6 | case7 =>
    intro e hname harray hobject hassign _ K _
    rw [Expr.asPattern.eq_5 _ _ _ hname harray hobject hassign]
    infer_instance
  case case9 =>
    intro span parts ih K h
    obtain ⟨_, _⟩ := Known.cons_iff.1 h
    unfold elementsAsPatterns
    infer_instance
  case case10 =>
    intro span inner parts _ _ K h
    obtain ⟨hspread, _⟩ := Known.cons_iff.1 h
    obtain ⟨_, -⟩ := Known.cons_iff.1 hspread.of_group
    unfold elementsAsPatterns
    refine past fun comma => ?_
    extract_lets element
    have (u : PUnit) : Finds K (element u) := by
      refine andThen fun pattern => ?_
      extract_lets rest
      have (u : PUnit) : Finds (andIn K pattern) (rest u) := bind
      clear_value rest
      split <;> infer_instance
    clear_value element
    infer_instance
  case case11 =>
    intro e parts hhole hspread _ _ K h
    obtain ⟨_, _⟩ := Known.cons_iff.1 h
    rw [elementsAsPatterns.eq_4 _ _ _ _ hhole hspread]
    infer_instance
  case case14 =>
    intro span name value properties _ K h
    obtain ⟨hfield, _⟩ := Known.cons_iff.1 h
    have := hfield.of_initialized
    unfold propertiesAsFields
    infer_instance
  case case15 =>
    intro span key value properties _ _ K h
    obtain ⟨hfield, _⟩ := Known.cons_iff.1 h
    obtain ⟨_, _⟩ := hfield.of_keyed
    unfold propertiesAsFields
    infer_instance
  case case16 =>
    intro span value properties _ _ K h
    obtain ⟨hspread, _⟩ := Known.cons_iff.1 h
    have := hspread.of_spread
    unfold propertiesAsFields
    refine past fun comma => ?_
    extract_lets field
    have (u : PUnit) : Finds K (field u) := by
      refine andThen fun pattern => ?_
      extract_lets rest
      have (u : PUnit) : Finds (andIn K pattern) (rest u) := bind
      clear_value rest
      split <;> infer_instance
    clear_value field
    infer_instance
  case case13 | case17 | case18 =>
    intros
    next h =>
      obtain ⟨-, _⟩ := Known.cons_iff.1 h
      unfold propertiesAsFields
      infer_instance
  all_goals intros
  all_goals first | unfold Expr.asPattern | unfold elementsAsPatterns | unfold propertiesAsFields
  all_goals infer_instance

instance asPattern (ctx : Context) (binding : Bool) (e : Expr) [Known K e] :
    Finds K (e.asPattern ctx binding) :=
  (patterns ctx binding).1 e K

instance elementsAsPatterns (ctx : Context) (binding : Bool) (parts : List Expr)
    [Known K parts] : Finds K (elementsAsPatterns ctx binding parts) :=
  (patterns ctx binding).2.2 parts K

end Finds

/-! ## The grammar -/

/-- Readers for the recursive parts of the grammar that all find their literals. -/
class Grammar.Finds (g : Grammar) : Prop where
  assignment (K : Set Span) (ctx : Context) : Script.Finds K (g.assignment ctx)
  unary (K : Set Span) (ctx : Context) : Script.Finds K (g.unary ctx)
  binary (K : Set Span) (ctx : Context) (limit : Nat) : Script.Finds K (g.binary ctx limit)
  operand (K : Set Span) (ctx : Context) : Script.Finds K (g.operand ctx)
  pattern (K : Set Span) (ctx : Context) : Script.Finds K (g.pattern ctx)
  statement (K : Set Span) (ctx : Context) (nested : Bool) : Script.Finds K (g.statement ctx nested)

attribute [instance] Grammar.Finds.assignment Grammar.Finds.unary Grammar.Finds.binary
  Grammar.Finds.operand Grammar.Finds.pattern Grammar.Finds.statement

variable {g : Grammar} [g.Finds]

variable (ctx outer : Context) (start mark offset limit steps : Nat) (opener name : String)
  (tagged calls inChain opening strict directive unique async anonymous superCall : Bool)
  (hasHeritage isStatic seenConstructor nameRequired trailing escaped : Bool)
  (base left target : Expr) (items : List Expr) (params : List Pattern) (token : Token)
  (shape : Grammar.Shape) (words : Grammar.Modifiers) (stops : List String)
  (seen : List (String × Option Bool)) (entries : List Grammar.MemberEntry)

instance Finds.expression : Finds K (g.expression ctx) := by
  unfold Grammar.expression
  infer_instance

instance Finds.spreadable : Finds K (g.spreadable ctx) := by
  unfold Grammar.spreadable
  infer_instance

instance Finds.arguments : Finds K (g.arguments ctx) := by
  unfold Grammar.arguments
  infer_instance

/-! ### Templates -/

instance Finds.templateHoles : Finds K (g.templateHoles ctx tagged steps opener) := by
  induction steps generalizing K opener with
  | zero =>
      unfold Grammar.templateHoles
      infer_instance
  | succ steps ih =>
      unfold Grammar.templateHoles
      infer_instance

/-- The holes of a template are read from a mark to the end of the template. -/
theorem closes_of_templateHoles {opener : String} {tagged : Bool} {σ τ : Progress}
    {holes : List Expr} (h : g.templateHoles ctx tagged steps opener σ = .ok (holes, τ))
    (hτ : τ.faults = []) : σ.token.kind = .punctuator opener ∧ σ.spot.Closes τ.spot := by
  induction steps generalizing opener σ holes with
  | zero => cases h
  | succ steps ih =>
      unfold Grammar.templateHoles at h
      obtain ⟨ends, ρ, hstretch, h⟩ := bind_eq_ok h
      obtain ⟨hmark, hcut, hends, -⟩ := stretch_eq_ok hstretch
      refine ⟨of_decide_eq_true hmark, ?_⟩
      -- the stretch is the last one, or there is a hole behind it and then the other stretches
      split at h
      · next htrue =>
        cases h
        obtain ⟨-, htoken, hspot⟩ := Finds.stretch_eq_ok_route hstretch hτ
        have hlast : chunkFrom true 0 σ.token.next =
            ((true, σ.chunk.valid, false), σ.chunk.next) := by
          rw [chunkFrom_next, ← hends, htrue, hcut]
        rw [hlast] at htoken hspot
        exact hspot ▸ .stretch .refl (of_decide_eq_true hmark) hlast htoken
      · obtain ⟨hole, ρ', hhole, h⟩ := bind_eq_ok h
        obtain ⟨others, ρ'', hothers, h⟩ := bind_eq_ok h
        cases h
        have hbehind : FindsAt ∅ ρ' others τ := Finds.run hothers hτ
        have hinside : FindsAt ∅ ρ hole ρ' := Finds.run hhole hbehind.faults
        have hbefore : FindsAt ∅ σ ends ρ := Finds.run hstretch hinside.faults
        exact (ih hothers).2.widen (hbefore.route.trans hinside.route)

instance Finds.template : Finds K (g.template ctx tagged) := by
  constructor
  intro σ e τ h hτ
  unfold Grammar.template at h
  obtain ⟨start, ρ, hhere, h⟩ := bind_eq_ok h
  cases hhere
  obtain ⟨holes, _, hholes, h⟩ := bind_eq_ok h
  cases h
  obtain ⟨hmark, hcloses⟩ := closes_of_templateHoles ctx _ hholes hτ
  have hfinds : FindsAt K σ holes τ := Finds.run hholes hτ
  refine ⟨hfinds.faults, hfinds.route, fun span hspan => ?_⟩
  -- what is found is the template itself or lies in one of its holes
  have hknown : Known ({⟨σ.token.span.start, τ.lastStop⟩} ∪ literals holes)
      (Expr.group ⟨σ.token.span.start, τ.lastStop⟩ .template holes) :=
    .template (.inl rfl) ⟨Set.subset_union_right⟩
  rcases hknown.subset hspan with rfl | hhole
  · exact .inr (.template .refl hmark hcloses .refl)
  · exact hfinds.found span hhole

/-! ### Keys and what follows an operand -/

instance Finds.propertyKey : Finds K (g.propertyKey ctx) := by
  unfold Grammar.propertyKey
  refine ofCurrent (fun hkind h hτ => ?_) fun token hno => ?_
  · rw [hkind] at h
    exact .legacyString hkind (.keyString rfl) h hτ
  · split
    case h_2 hkind => exact absurd hkind (hno _ _)
    all_goals infer_instance

instance Finds.memberName : Finds K Grammar.memberName := by
  unfold Grammar.memberName
  refine past fun token => ?_
  split <;> infer_instance

instance Finds.arrowFollows : Finds K Grammar.arrowFollows := by
  unfold Grammar.arrowFollows
  infer_instance

/-- Readers that find their literals once those of the expressions in front are known. -/
class FindsBehind (arrow : Bool → List Expr → Reader Expr) : Prop where
  finds : ∀ (K : Set Span) (async : Bool) (args : List Expr) [Known K args],
    Finds K (arrow async args)

attribute [instance] FindsBehind.finds

instance : FindsBehind fun _ _ => stop := ⟨fun _ _ _ => inferInstance⟩

instance Finds.suffixes {arrow : Bool → List Expr → Reader Expr} [FindsBehind arrow]
    [Known K base] : Finds K (g.suffixes arrow ctx start calls steps inChain base) := by
  induction steps generalizing K inChain base with
  | zero =>
      unfold Grammar.suffixes
      infer_instance
  | succ steps ih =>
      unfold Grammar.suffixes
      refine past fun token => ?_
      split <;> infer_instance

/-! ### Declared patterns and parameters -/

instance Finds.withInitial {target : Reader Pattern} [Finds K target] :
    Finds K (g.withInitial ctx target) := by
  unfold Grammar.withInitial
  infer_instance

instance Finds.bindingElement : Finds K (g.bindingElement ctx) := by
  unfold Grammar.bindingElement
  infer_instance

instance Finds.bindingField : Finds K (g.bindingField ctx) := by
  unfold Grammar.bindingField
  refine past fun rest => ?_
  split
  · infer_instance
  · refine past fun token => andThen fun key => past fun keyed => ?_
    split
    · infer_instance
    · split <;> infer_instance

instance Finds.bindingTarget : Finds K (g.bindingTarget ctx) := by
  unfold Grammar.bindingTarget
  infer_instance

instance Finds.parameter : Finds K (g.parameter ctx) := by
  unfold Grammar.parameter
  infer_instance

/-! ### Bodies and functions -/

instance Finds.statements : Finds K (g.statements ctx opening steps) := by
  induction steps generalizing K ctx opening with
  | zero =>
      unfold Grammar.statements
      infer_instance
  | succ steps ih =>
      unfold Grammar.statements
      refine past fun token => ?_
      split
      · infer_instance
      · refine andThen fun stmt => ?_
        generalize (if opening = true then Grammar.directive? stmt else none) = directive
        cases directive <;> infer_instance

instance Finds.body : Finds K (g.body ctx) := by
  unfold Grammar.body
  infer_instance

instance Finds.checkParameters :
    Finds K (Grammar.checkParameters start params strict directive unique) := by
  unfold Grammar.checkParameters
  infer_instance

instance Finds.functionCode : Finds K (g.functionCode outer mark shape) := by
  unfold Grammar.functionCode
  infer_instance

instance Finds.functionRest : Finds K (g.functionRest outer async anonymous) := by
  unfold Grammar.functionRest
  infer_instance

instance Finds.arrowRest [Known K params] :
    Finds K (g.arrowRest outer start mark async params) := by
  unfold Grammar.arrowRest
  dsimp only
  infer_instance

instance Finds.arrowOf [Known K items] : Finds K (g.arrowOf ctx start mark async items) := by
  unfold Grammar.arrowOf
  infer_instance

instance : FindsBehind (g.arrowOf ctx start mark) := ⟨fun _ _ _ => inferInstance⟩

/-! ### Object and array literals -/

instance Finds.modifiers : Finds K (Grammar.modifiers stops) := by
  unfold Grammar.modifiers
  infer_instance

instance Finds.method : Finds K (g.method ctx words superCall) := by
  unfold Grammar.method
  refine past fun start => past fun mark => andThen fun code => ?_
  obtain ⟨params, body⟩ := code
  dsimp only
  split <;> split <;> try split
  all_goals infer_instance

instance Finds.shorthand : Finds K (g.shorthand ctx start token) := by
  unfold Grammar.shorthand
  split <;> infer_instance

instance Finds.property (ctx : Context) : Finds K (g.property ctx) := by
  unfold Grammar.property
  infer_instance

instance Finds.objectLiteral : Finds K (g.objectLiteral ctx) := by
  unfold Grammar.objectLiteral
  infer_instance

instance Finds.arrayLiteral : Finds K (g.arrayLiteral ctx) := by
  unfold Grammar.arrayLiteral
  infer_instance

/-! ### Classes -/

instance Finds.memberKey : Finds K (g.memberKey ctx) := by
  unfold Grammar.memberKey
  refine past fun token => ?_
  split <;> infer_instance

instance Finds.staticBlock : Finds K (g.staticBlock ctx offset) := by
  unfold Grammar.staticBlock
  infer_instance

instance Finds.plainMember (ctx : Context) (hasHeritage isStatic : Bool) (offset : Nat) :
    Finds K (g.plainMember ctx hasHeritage isStatic offset) := by
  unfold Grammar.plainMember
  dsimp only
  infer_instance

instance Finds.classMember : Finds K (g.classMember ctx hasHeritage) := by
  unfold Grammar.classMember
  dsimp only
  infer_instance

instance Finds.checkMembers : Finds K (Grammar.checkMembers seenConstructor seen entries) := by
  induction entries generalizing seenConstructor seen with
  | nil =>
      unfold Grammar.checkMembers
      infer_instance
  | cons entry entries ih =>
      unfold Grammar.checkMembers
      dsimp only
      split <;> split <;> infer_instance

instance Finds.heritage : Finds K (g.heritage ctx) := by
  unfold Grammar.heritage
  infer_instance

instance Finds.classMembers : Finds K (g.classMembers ctx hasHeritage) := by
  unfold Grammar.classMembers
  dsimp only
  infer_instance

instance Finds.classRest : Finds K (g.classRest outer nameRequired) := by
  unfold Grammar.classRest
  infer_instance

/-! ### Parentheses -/

instance Finds.parenItems : Finds K (g.parenItems ctx steps) := by
  induction steps generalizing K with
  | zero =>
      unfold Grammar.parenItems
      infer_instance
  | succ steps ih =>
      unfold Grammar.parenItems
      refine andThen fun first => past fun closed => ?_
      split <;> infer_instance

instance Finds.parenContents : Finds K (g.parenContents ctx) := by
  unfold Grammar.parenContents
  infer_instance

instance Finds.parenExpression [Known K items] :
    Finds K (Grammar.parenExpression start items trailing) := by
  unfold Grammar.parenExpression
  split
  · infer_instance
  · split <;> infer_instance

instance Finds.parenthesized : Finds K (g.parenthesized ctx) := by
  unfold Grammar.parenthesized
  infer_instance

/-! ### Operands -/

instance Finds.creation : Finds K (g.creation ctx start) := by
  unfold Grammar.creation
  dsimp only
  infer_instance

instance Finds.importOperand : Finds K (g.importOperand ctx start) := by
  unfold Grammar.importOperand
  dsimp only
  infer_instance

instance Finds.singleParameterArrow : Finds K (g.singleParameterArrow ctx start async) := by
  unfold Grammar.singleParameterArrow
  infer_instance

instance Finds.wordOperand : Finds K (g.wordOperand ctx token name escaped) := by
  unfold Grammar.wordOperand
  refine past fun next => ?_
  dsimp only
  split <;> infer_instance

instance Finds.primary : Finds K (g.primary ctx) := by
  unfold Grammar.primary
  refine ofCurrent (fun hkind h hτ => ?_) fun token hno => ?_
  · rw [hkind] at h
    exact .legacyString hkind (.string rfl) h hτ
  · split
    case h_4 hkind => exact absurd hkind (hno _ _)
    all_goals infer_instance

/-! ### Operators -/

instance Finds.leftHandSide : Finds K (g.leftHandSide ctx) := by
  unfold Grammar.leftHandSide
  infer_instance

instance Finds.awaited : Finds K (g.awaited ctx) := by
  unfold Grammar.awaited
  infer_instance

instance Finds.unaryExpression : Finds K (g.unaryExpression ctx) := by
  unfold Grammar.unaryExpression
  refine andThen fun start => andThen fun token => ?_
  dsimp only
  split
  · infer_instance
  · infer_instance

instance Finds.binaryTail [Known K left] :
    Finds K (g.binaryTail ctx start limit steps left) := by
  induction steps generalizing K left with
  | zero =>
      unfold Grammar.binaryTail
      infer_instance
  | succ steps ih =>
      unfold Grammar.binaryTail
      refine past fun token => ?_
      split <;> infer_instance

instance Finds.binaryExpression : Finds K (g.binaryExpression ctx limit) := by
  unfold Grammar.binaryExpression
  infer_instance

instance Finds.conditional : Finds K (g.conditional ctx) := by
  unfold Grammar.conditional
  infer_instance

instance Finds.yielded : Finds K (g.yielded ctx) := by
  unfold Grammar.yielded
  dsimp only
  infer_instance

instance Finds.assigned [Known K target] : Finds K (Grammar.assigned ctx target) := by
  unfold Grammar.assigned
  split <;> infer_instance

instance Finds.assignmentExpression : Finds K (g.assignmentExpression ctx) := by
  unfold Grammar.assignmentExpression
  dsimp only
  infer_instance

end ModuleLinker.Script
