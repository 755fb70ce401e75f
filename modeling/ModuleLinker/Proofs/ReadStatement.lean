/-
# ModuleLinker.Proofs.ReadStatement -- what is known of a statement that was read

Every production of statements takes the end of its span from the reader, so that the span of a
statement tells where the reader stands behind it. A variable is declared under a word of the text,
which has no newline in it even where it is spelled with escapes: the reader takes the word in front
of the variables before it reads the first of them, and stands at a scanned token then.
-/

import ModuleLinker.Proofs.LocalStatement

namespace ModuleLinker.Script

set_option synthInstance.maxSize 4000
set_option synthInstance.maxHeartbeats 100000

open Reader

variable {α : Type}

/-! ## The spelling of words -/

theorem ne_newline_of_fitsWord {first : Bool} {c : Char} (h : fitsWord first c) : c ≠ '\n' := by
  rintro rfl
  cases first <;> exact absurd h (by decide)

/-- The characters of a word are no newlines. -/
theorem newline_notMem_readWord {first : Bool} {pending offset : Nat} {cs name : List Char}
    {escaped : Bool} {next : Cursor}
    (h : readWord first pending offset cs = some (name, escaped, next)) : '\n' ∉ name := by
  induction cs generalizing first pending offset name escaped next with
  | nil =>
      have hname : name = [] := by
        cases pending <;> simpa [readWord] using (congrArg (Option.map Prod.fst) h).symm
      rw [hname]
      exact List.not_mem_nil
  | cons c rest ih =>
      rcases pending with _ | pending
      · obtain ⟨rfl, -⟩ | ⟨x, inner, _, _, rfl, hfits, hinner⟩ := readWord_cases h
        · exact List.not_mem_nil
        · rw [List.mem_cons, not_or]
          exact ⟨(ne_newline_of_fitsWord hfits).symm, ih hinner⟩
      · exact ih h

theorem newline_notMem_read {c : Cursor} {name : String} {escaped : Bool}
    (h : (TokenKind.read c).1 = .word name escaped) : '\n' ∉ name.toList := by
  unfold TokenKind.read at h
  dsimp only at h
  split at h
  · cases h
  · split at h <;> cases h
  · split at h
    · split at h <;> cases h
    · cases h
  · split at h
    · split at h <;> cases h
    · split at h
      · split at h <;> cases h
      · split at h
        · cases h
        · split at h
          · next hread =>
            cases h
            simpa using newline_notMem_readWord hread
          · cases h

/-- The next token is no word with a newline in it. -/
def Spot.Spelled (a : Spot) : Prop :=
  ∀ name escaped, a.token.kind = .word name escaped → '\n' ∉ name.toList

theorem Spot.spelled_scan (c : Cursor) : (Spot.scan c).Spelled :=
  fun _ _ h => newline_notMem_read h

/-- A move of a reader leads to a scanned token. -/
theorem Spot.Spelled.path {a b : Spot} (h : a.Spelled) (hpath : a.Path b) : b.Spelled := by
  induction hpath with
  | refl => exact h
  | tail _ hmove _ =>
      cases hmove <;> exact spelled_scan _

/-- A reader that yields nothing without the property where it stands at a scanned token. -/
structure Yields (P : α → Prop) (f : Reader α) : Prop where
  holds : ∀ {σ v τ}, σ.spot.Spelled → f σ = .ok (v, τ) → P v

namespace Yields

variable {β : Type} {P : α → Prop} {Q : β → Prop}

theorem bind {f : Reader β} {k : β → Reader α} [hmoves : Moves f] (hf : Yields Q f)
    (hk : ∀ b, Q b → Yields P (k b)) : Yields P (f >>= k) := by
  constructor
  intro σ v τ hσ h
  obtain ⟨b, ρ, hfirst, hrest⟩ := bind_eq_ok h
  exact (hk b (hf.holds hσ hfirst)).holds (hσ.path (hmoves.path hfirst)) hrest

theorem andThen {f : Reader β} {k : β → Reader α} [Moves f] (hk : ∀ b, Yields P (k b)) :
    Yields P (f >>= k) := bind (Q := fun _ => True) ⟨fun _ _ => trivial⟩ fun b _ => hk b

theorem pure {a : α} (h : P a) : Yields P (Pure.pure a : Reader α) := by
  constructor
  intro σ v τ _ hrun
  cases hrun
  exact h

theorem ite {c : Prop} [Decidable c] {f g : Reader α} (hf : Yields P f) (hg : Yields P g) :
    Yields P (if c then f else g) := by
  split
  · exact hf
  · exact hg

end Yields

/-! ## Declared names -/

section Declared

variable {g : Grammar} {ctx : Context}

/-- If the pattern is a name, it has no newline in it. -/
def Pattern.OnLine (pattern : Pattern) : Prop :=
  ∀ span name, pattern = .name span name → '\n' ∉ name.toList

/-- If the first of the declared patterns is a name, it has no newline in it. -/
def OpensOnLine (declared : List Declarator) : Prop :=
  ∀ pattern initial rest, declared = .mk pattern initial :: rest → pattern.OnLine

theorem yields_bindingName : Yields (fun bound => '\n' ∉ bound.2.toList) (bindingName ctx) := by
  constructor
  intro σ bound τ hσ h
  unfold Reader.bindingName at h
  obtain ⟨token, ρ, hcurrent, h⟩ := bind_eq_ok h
  obtain ⟨rfl, rfl⟩ : token = σ.token.toToken ∧ ρ = σ := by
    cases hcurrent
    exact ⟨rfl, rfl⟩
  cases hkind : ρ.token.kind with
  | word name escaped =>
      rw [hkind] at h
      obtain ⟨_, _, -, h⟩ := bind_eq_ok h
      obtain ⟨_, _, -, h⟩ := bind_eq_ok h
      obtain ⟨_, _, -, h⟩ := bind_eq_ok h
      cases h
      exact hσ name escaped hkind
  | _ =>
      rw [hkind] at h
      cases h

variable [g.Local]

/-- A declared name is a word. -/
theorem yields_bindingTarget : Yields Pattern.OnLine (g.bindingTarget ctx) := by
  unfold Grammar.bindingTarget
  refine .andThen fun isArray => .ite ?_ (.andThen fun isObject => .ite ?_ ?_)
  · exact .andThen fun elements => .pure (by rintro _ _ ⟨⟩)
  · exact .andThen fun fields => .pure (by rintro _ _ ⟨⟩)
  · refine .bind yields_bindingName fun bound hbound => .pure ?_
    rintro _ _ ⟨⟩
    exact hbound

theorem yields_declarator {lexical : Bool} :
    Yields (fun declared => OpensOnLine [declared.2]) (g.declarator ctx lexical) := by
  have hpattern : ∀ start : Nat, Yields (fun declared => OpensOnLine [declared.2]) (do
      let pattern ← g.bindingTarget ctx
      if ← eat "=" then
        let value ← g.assignment ctx
        return (start, .mk pattern (some value))
      else return (start, .mk pattern none)) := by
    intro start
    refine .bind yields_bindingTarget fun pattern hpattern => .andThen fun hasValue => .ite ?_ ?_
    · refine .andThen fun value => .pure ?_
      rintro _ _ _ ⟨⟩
      exact hpattern
    · refine .pure ?_
      rintro _ _ _ ⟨⟩
      exact hpattern
  unfold Grammar.declarator
  dsimp only
  exact .andThen fun start => .andThen fun isLet =>
    .ite (.andThen fun _ => hpattern start) (hpattern start)

theorem yields_declarators {kind : String} :
    Yields (fun declared => OpensOnLine declared.1) (g.declarators ctx kind) := by
  unfold Grammar.declarators
  refine .bind yields_declarator fun first hfirst => .andThen fun others => .pure ?_
  rintro pattern initial rest h
  have hdeclared : first.2 = .mk pattern initial := (List.cons.inj h).1
  exact hfirst pattern initial [] (by rw [hdeclared])

end Declared

/-! ## Statements -/

/-- What is known of a statement that was read up to an offset. -/
structure Stmt.ReadUpTo (stmt : Stmt) (stop : Nat) : Prop where
  stop_eq : stmt.span.stop = stop
  onLine : ∀ span declared, stmt = .declaration span declared → OpensOnLine declared

/-- A reader of statements that end where the last token ends. -/
class Flush (f : Reader Stmt) : Prop where
  readUpTo : ∀ {σ stmt τ}, f σ = .ok (stmt, τ) → stmt.ReadUpTo τ.lastStop

namespace Flush

theorem andThen {f : Reader α} {k : α → Reader Stmt} (hk : ∀ a, Flush (k a)) :
    Flush (f >>= k) := by
  constructor
  intro σ stmt τ h
  obtain ⟨a, ρ, -, hrest⟩ := bind_eq_ok h
  exact (hk a).readUpTo hrest

instance bind {f : Reader α} {k : α → Reader Stmt} [hk : ∀ a, Flush (k a)] :
    Flush (f >>= k) := andThen hk

instance ite {c : Prop} [Decidable c] {f g : Reader Stmt} [Flush f] [Flush g] :
    Flush (if c then f else g) := by
  split <;> assumption

instance throw (n : Nat) : Flush (MonadExcept.throw n) := by
  constructor
  intro σ stmt τ h
  cases h

instance stop : Flush stop := by
  unfold Reader.stop
  infer_instance

/-- A statement whose span goes to the end of the last token. -/
theorem spanned (start : Nat) {f : Span → Stmt} (hspan : ∀ span, (f span).span = span)
    (honLine : ∀ span inner declared, f span = .declaration inner declared →
      OpensOnLine declared) : Flush (do return f (← spanFrom start)) := by
  constructor
  intro σ stmt τ h
  cases h
  exact ⟨by rw [hspan], honLine _⟩

end Flush

/-- A reader of the rest of a statement that starts at an offset. -/
class StartsAt (start : Nat) (f : Reader Stmt) : Prop extends Flush f where
  start_eq : ∀ {σ stmt τ}, f σ = .ok (stmt, τ) → stmt.span.start = start

namespace StartsAt

variable {start : Nat}

theorem andThen {f : Reader α} {k : α → Reader Stmt} (hk : ∀ a, StartsAt start (k a)) :
    StartsAt start (f >>= k) where
  toFlush := Flush.andThen fun a => (hk a).toFlush
  start_eq := by
    intro σ stmt τ h
    obtain ⟨a, ρ, -, hrest⟩ := bind_eq_ok h
    exact (hk a).start_eq hrest

instance bind {f : Reader α} {k : α → Reader Stmt} [hk : ∀ a, StartsAt start (k a)] :
    StartsAt start (f >>= k) := andThen hk

instance ite {c : Prop} [Decidable c] {f g : Reader Stmt} [StartsAt start f] [StartsAt start g] :
    StartsAt start (if c then f else g) := by
  split <;> assumption

/-- A statement whose span goes to the end of the last token. -/
theorem spanned {f : Span → Stmt} (hspan : ∀ span, (f span).span = span)
    (honLine : ∀ span inner declared, f span ≠ .declaration inner declared) :
    StartsAt start (do return f (← spanFrom start)) where
  toFlush := Flush.spanned start hspan fun span inner declared h =>
    absurd h (honLine span inner declared)
  start_eq := by
    intro σ stmt τ h
    cases h
    rw [hspan]

instance group (layout : Layout) (parts : List Part) :
    StartsAt start (Grammar.group start layout parts) := spanned (fun _ => rfl) nofun

end StartsAt

variable {g : Grammar} (ctx : Context) (start : Nat) (kind name : String)
  (awaited async imports nested : Bool) (token : Token) (value : Expr) (layout : Layout)
  (head : Part) (first : List Part)

instance Flush.variableStatement [g.Local] : Flush (g.variableStatement ctx kind) := by
  constructor
  intro σ stmt τ h
  unfold Grammar.variableStatement at h
  obtain ⟨start, ρ, -, h⟩ := bind_eq_ok h
  obtain ⟨token, ρ, hadvance, h⟩ := bind_eq_ok h
  obtain ⟨declared, ρ', hdeclared, h⟩ := bind_eq_ok h
  obtain ⟨_, ρ', -, h⟩ := bind_eq_ok h
  obtain ⟨_, ρ', -, h⟩ := bind_eq_ok h
  have hspelled : ρ.spot.Spelled := by
    obtain ⟨-, -, rfl⟩ := advance_eq_ok hadvance
    exact Spot.spelled_scan _
  cases h
  refine ⟨rfl, ?_⟩
  rintro _ _ ⟨⟩
  exact yields_declarators.holds hspelled hdeclared

instance StartsAt.ifRest : StartsAt start (g.ifRest ctx start) := by
  unfold Grammar.ifRest
  infer_instance

instance StartsAt.switchRest : StartsAt start (g.switchRest ctx start) := by
  unfold Grammar.switchRest
  infer_instance

instance StartsAt.tryRest : StartsAt start (g.tryRest ctx start) := by
  unfold Grammar.tryRest
  infer_instance

instance StartsAt.forEachRest : StartsAt start (g.forEachRest ctx start head) := by
  unfold Grammar.forEachRest
  infer_instance

instance StartsAt.forRest : StartsAt start (g.forRest ctx start first) := by
  unfold Grammar.forRest
  dsimp only
  infer_instance

instance StartsAt.forVariables : StartsAt start (g.forVariables ctx start kind awaited) := by
  unfold Grammar.forVariables
  dsimp only
  infer_instance

instance StartsAt.forExpression : StartsAt start (g.forExpression ctx start awaited) := by
  unfold Grammar.forExpression
  dsimp only
  infer_instance

instance StartsAt.forHead : StartsAt start (g.forHead ctx start awaited) := by
  unfold Grammar.forHead
  dsimp only
  infer_instance

instance StartsAt.forStatement : StartsAt start (g.forStatement ctx start) := by
  unfold Grammar.forStatement
  infer_instance

instance StartsAt.whileRest : StartsAt start (g.whileRest ctx start) := by
  unfold Grammar.whileRest
  infer_instance

instance StartsAt.doRest : StartsAt start (g.doRest ctx start) := by
  unfold Grammar.doRest
  infer_instance

instance StartsAt.jump : StartsAt start (Grammar.jump ctx start layout) := by
  unfold Grammar.jump
  refine andThen fun token => ?_
  dsimp only
  split <;> infer_instance

instance StartsAt.returnRest : StartsAt start (g.returnRest ctx start) := by
  unfold Grammar.returnRest
  infer_instance

instance StartsAt.throwRest : StartsAt start (g.throwRest ctx start) := by
  unfold Grammar.throwRest
  infer_instance

instance StartsAt.labelled : StartsAt start (g.labelled ctx name start) := by
  unfold Grammar.labelled
  dsimp only
  infer_instance

instance StartsAt.behindExpression : StartsAt start (g.behindExpression ctx start token value) := by
  have hexpression : StartsAt start (do return Stmt.expression (← spanFrom start) value) :=
    spanned (fun _ => rfl) nofun
  unfold Grammar.behindExpression
  split <;> infer_instance

instance Flush.expressionStatement : Flush (g.expressionStatement ctx) := by
  unfold Grammar.expressionStatement
  exact andThen fun start => andThen fun token => andThen fun value =>
    (StartsAt.behindExpression ctx start token value).toFlush

instance StartsAt.functionDeclaration : StartsAt start (g.functionDeclaration ctx start async) := by
  unfold Grammar.functionDeclaration
  exact andThen fun _ => spanned (fun _ => rfl) nofun

instance StartsAt.classDeclaration : StartsAt start (g.classDeclaration ctx start) := by
  unfold Grammar.classDeclaration
  exact andThen fun _ => spanned (fun _ => rfl) nofun

instance StartsAt.declaration : StartsAt start (g.declaration ctx start imports) := by
  unfold Grammar.declaration
  infer_instance

instance Flush.wordStatement [g.Local] : Flush (g.wordStatement ctx nested token name) := by
  unfold Grammar.wordStatement
  refine andThen fun next => ?_
  dsimp only
  split <;> infer_instance

instance Flush.anyStatement [g.Local] : Flush (g.anyStatement ctx nested) := by
  unfold Grammar.anyStatement
  refine andThen fun token => ?_
  dsimp only
  split <;> infer_instance

instance Flush.statement (depth : Nat) : Flush ((Grammar.ofDepth depth).statement ctx nested) := by
  cases depth with
  | zero => exact Flush.stop
  | succ depth => exact Flush.anyStatement ctx nested

/-! ## Where a statement starts -/

/-- A reader that leaves the next token to be read. -/
class Stays (f : Reader α) : Prop where
  spot_eq : ∀ {σ v τ}, f σ = .ok (v, τ) → τ.spot = σ.spot

instance Stays.peek : Stays peek := ⟨by rintro _ _ _ ⟨⟩; rfl⟩
instance Stays.note (offset : Nat) : Stays (note offset) := ⟨by rintro _ _ _ ⟨⟩; rfl⟩
instance Stays.throw (n : Nat) : Stays (MonadExcept.throw n : Reader α) := ⟨by rintro _ _ _ ⟨⟩⟩

/-- A reader of statements that start where the next token starts, if that is at an offset. -/
class OpensAt (start : Nat) (f : Reader Stmt) : Prop where
  start_eq : ∀ {σ stmt τ}, σ.token.span.start = start → f σ = .ok (stmt, τ) →
    stmt.span.start = start

namespace OpensAt

variable {start : Nat}

instance of_startsAt {f : Reader Stmt} [hf : StartsAt start f] : OpensAt start f :=
  ⟨fun _ => hf.start_eq⟩

theorem andThen {f : Reader α} {k : α → Reader Stmt} [hf : Stays f]
    (hk : ∀ a, OpensAt start (k a)) : OpensAt start (f >>= k) := by
  constructor
  intro σ stmt τ hstart h
  obtain ⟨a, ρ, hfirst, hrest⟩ := bind_eq_ok h
  have htoken : ρ.token = σ.token := congrArg Spot.token (hf.spot_eq hfirst)
  exact (hk a).start_eq (by rw [htoken, hstart]) hrest

instance bind {f : Reader α} {k : α → Reader Stmt} [Stays f] [hk : ∀ a, OpensAt start (k a)] :
    OpensAt start (f >>= k) := andThen hk

instance ite {c : Prop} [Decidable c] {f g : Reader Stmt} [OpensAt start f] [OpensAt start g] :
    OpensAt start (if c then f else g) := by
  split <;> assumption

theorem of_current {k : Token → Reader Stmt}
    (hk : ∀ token : Token, OpensAt token.span.start (k token)) :
    OpensAt start (current >>= k) := by
  constructor
  rintro σ stmt τ rfl h
  obtain ⟨_, _, hcurrent, hrest⟩ := bind_eq_ok h
  cases hcurrent
  exact (hk _).start_eq rfl hrest

end OpensAt

instance OpensAt.variableStatement : OpensAt start (g.variableStatement ctx kind) := by
  constructor
  rintro σ stmt τ rfl h
  unfold Grammar.variableStatement at h
  obtain ⟨start, _, hhere, h⟩ := bind_eq_ok h
  cases hhere
  obtain ⟨token, _, -, h⟩ := bind_eq_ok h
  obtain ⟨declared, _, -, h⟩ := bind_eq_ok h
  obtain ⟨_, _, -, h⟩ := bind_eq_ok h
  obtain ⟨_, _, -, h⟩ := bind_eq_ok h
  cases h
  rfl

instance OpensAt.expressionStatement : OpensAt start (g.expressionStatement ctx) := by
  constructor
  rintro σ stmt τ rfl h
  unfold Grammar.expressionStatement at h
  obtain ⟨start, _, hhere, h⟩ := bind_eq_ok h
  cases hhere
  obtain ⟨token, _, -, h⟩ := bind_eq_ok h
  obtain ⟨value, _, -, h⟩ := bind_eq_ok h
  exact (StartsAt.behindExpression ctx _ token value).start_eq h

instance OpensAt.wordStatement :
    OpensAt token.span.start (g.wordStatement ctx nested token name) := by
  unfold Grammar.wordStatement
  refine andThen fun next => ?_
  dsimp only
  split <;> infer_instance

instance OpensAt.anyStatement : OpensAt start (g.anyStatement ctx nested) := by
  unfold Grammar.anyStatement
  refine of_current fun token => ?_
  dsimp only
  split <;> infer_instance

/-- A statement starts where its first token does. -/
theorem start_of_statement {depth : Nat} {σ τ : Progress} {stmt : Stmt}
    (h : (Grammar.ofDepth depth).statement ctx nested σ = .ok (stmt, τ)) :
    stmt.span.start = σ.token.span.start := by
  cases depth with
  | zero => cases h
  | succ depth => exact (OpensAt.anyStatement ctx _ nested).start_eq rfl h

/-! ## Lists of statements -/

instance Flush.apart {f : Reader Stmt} [hf : Flush f] : Flush (apart f) := by
  constructor
  intro σ stmt τ h
  obtain ⟨ρ, hrun, rfl⟩ := apart_eq_ok h
  exact (hf.readUpTo hrun :)

/-- A list of statements ends, or it is a statement with a list of statements behind it. Whether
the statement is a directive only matters for how the others are read. -/
theorem statements_succ_eq_ok {opening strict : Bool} {steps : Nat} {ctx : Context}
    {σ τ : Progress} {stmts : List Stmt}
    (h : g.statements ctx opening (steps + 1) σ = .ok ((strict, stmts), τ)) :
    stmts = [] ∨ ∃ stmt rest ρ ctx' opening' strict', stmts = stmt :: rest ∧
      apart (g.statement ctx false) σ = .ok (stmt, ρ) ∧
      g.statements ctx' opening' steps ρ = .ok ((strict', rest), τ) := by
  unfold Grammar.statements at h
  obtain ⟨token, _, hcurrent, h⟩ := bind_eq_ok h
  cases hcurrent
  split at h
  · cases h
    exact .inl rfl
  · obtain ⟨stmt, ρ, hstmt, h⟩ := bind_eq_ok h
    -- A directive changes the context of the statements behind it, which is left open here.
    generalize (if opening then Grammar.directive? stmt else none) = directive at h
    cases directive with
    | some strict =>
        obtain ⟨⟨_, rest⟩, _, hrest, h⟩ := bind_eq_ok h
        cases h
        exact .inr ⟨stmt, rest, ρ, _, _, _, rfl, hstmt, hrest⟩
    | none =>
        obtain ⟨⟨_, rest⟩, _, hrest, h⟩ := bind_eq_ok h
        cases h
        exact .inr ⟨stmt, rest, ρ, _, _, _, rfl, hstmt, hrest⟩

/-- The variables that statements declare have no newline in their names. -/
theorem onLine_of_statements (hstatement : ∀ ctx, Flush (g.statement ctx false)) {opening : Bool}
    {steps : Nat} {ctx : Context} {σ τ : Progress} {strict : Bool} {stmts : List Stmt}
    (h : g.statements ctx opening steps σ = .ok ((strict, stmts), τ)) :
    ∀ span declared, .declaration span declared ∈ stmts → OpensOnLine declared := by
  induction steps generalizing ctx opening σ τ strict stmts with
  | zero => cases h
  | succ steps ih =>
      rcases statements_succ_eq_ok h with rfl |
        ⟨stmt, rest, ρ, _, _, _, rfl, hstmt, hrest⟩
      · exact fun _ _ hmem => absurd hmem List.not_mem_nil
      · have hread : Flush (g.statement ctx false) := hstatement ctx
        have hfirst := Flush.apart.readUpTo hstmt
        intro span declared hmem
        rcases List.mem_cons.1 hmem with heq | hmem
        · exact hfirst.onLine span declared heq.symm
        · exact ih hrest span declared hmem

/-! ## Scripts -/

namespace Program

variable {script : List Char} {stmts : List Stmt}

/-- The readers and the context at the top of a script. -/
def grammarOf (script : List Char) : Grammar := Grammar.ofDepth (2 * script.length + 4)

def topContext : Context := { awaitTop := true, declarations := true }

/-- The state behind the statements of a script once it is known whether they are strict. -/
def settled (strict : Bool) (state : Progress) : Progress :=
  if strict then
    { state with
      faults := state.strictFaults.take (state.strictFaults.length - 0) ++ state.faults }
  else state

/-- Nothing is wrong with what was noted, and nothing was imported or exported. -/
def Accepts (state : Progress) : Prop := errors state = [] ∧ state.hasDeclarations = false

theorem toEnd_eq_ok_iff {σ τ : Progress} :
    toEnd script σ = .ok (stmts, τ) ↔ ∃ strict ρ,
      (grammarOf script).statements topContext true (2 * script.length + 4) σ =
        .ok ((strict, stmts), ρ) ∧ ρ.token.kind = .endOfText ∧ τ = settled strict ρ := by
  constructor
  · intro h
    obtain ⟨⟨strict, all⟩, ρ, hall, h⟩ := bind_eq_ok h
    obtain ⟨token, ρ', hcurrent, h⟩ := bind_eq_ok h
    cases hcurrent
    dsimp only at h
    split at h
    · next hend =>
      cases strict <;> cases h <;> exact ⟨_, _, hall, hend, rfl⟩
    · obtain ⟨_, _, hstop, -⟩ := bind_eq_ok h
      cases hstop
  · rintro ⟨strict, ρ, hall, hend, rfl⟩
    refine bind_of_ok hall (bind_of_ok (a := ρ.token.toToken) (ρ := ρ) rfl ?_)
    dsimp only
    rw [if_pos hend]
    cases strict <;> rfl

/-- A script is read as the statements up to its end. -/
theorem readScript_eq_ok_iff :
    readScript script = .ok stmts ↔ ∃ strict state,
      (grammarOf script).statements topContext true (2 * script.length + 4) (begin script) =
        .ok ((strict, stmts), state) ∧ state.token.kind = .endOfText ∧
      Accepts (settled strict state) := by
  unfold readScript
  constructor
  · intro h
    split at h
    · cases h
    · next all state hrun =>
      obtain ⟨strict, ρ, hall, hend, rfl⟩ := toEnd_eq_ok_iff.1 hrun
      split at h
      · cases h
      · next herrors =>
        split at h
        · cases h
        · next hdeclarations =>
          obtain rfl := Except.ok.inj h
          exact ⟨strict, ρ, hall, hend, herrors, Bool.eq_false_iff.2 hdeclarations⟩
  · rintro ⟨strict, ρ, hall, hend, herrors, hdeclarations⟩
    have hrun : (toEnd script).run (begin script) = .ok (stmts, settled strict ρ) :=
      toEnd_eq_ok_iff.2 ⟨strict, ρ, hall, hend, rfl⟩
    simp only [hrun, herrors, hdeclarations, Bool.false_eq_true, if_false]

end Program

/-- No top-level variable of a script has a newline in its name. -/
theorem onLine_of_readScript {script : List Char} {stmts : List Stmt}
    (h : Program.readScript script = .ok stmts) :
    ∀ span declared, .declaration span declared ∈ stmts → OpensOnLine declared := by
  obtain ⟨strict, state, hall, -, -⟩ := Program.readScript_eq_ok_iff.1 h
  exact onLine_of_statements (fun ctx => Flush.statement ctx false _) hall

theorem onLine_of_read {text : List Char} {program : Program}
    (h : Program.read text = .ok program) :
    ∀ span declared, .declaration span declared ∈ program.statements → OpensOnLine declared := by
  unfold Program.read at h
  dsimp only at h
  split at h
  · next hscript =>
    obtain rfl := Except.ok.inj h
    exact onLine_of_readScript hscript
  · cases h
  · cases h

end ModuleLinker.Script
