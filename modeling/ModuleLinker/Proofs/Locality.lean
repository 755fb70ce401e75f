/-
# ModuleLinker.Proofs.Locality -- readers that see nothing but the tokens they pass

`Local` readers do the same at both sides of a fork as long as they end in front of a token of the
common beginning. Only words are ever looked past, so a reader that looks past a word is local
if it takes that word afterwards.
-/

import ModuleLinker.Proofs.Fork

namespace ModuleLinker.Script

open Reader Relation

variable {α β : Type}

/-! ## Runs -/

theorem bind_eq_ok {f : Reader α} {k : α → Reader β} {σ τ : Progress} {v : β}
    (h : (f >>= k) σ = .ok (v, τ)) : ∃ a ρ, f σ = .ok (a, ρ) ∧ k a ρ = .ok (v, τ) := by
  have hbind : (f >>= k) σ = (f σ).bind fun p => k p.1 p.2 := rfl
  rw [hbind] at h
  cases hf : f σ with
  | error e => rw [hf] at h; cases h
  | ok p =>
      rw [hf] at h
      exact ⟨p.1, p.2, rfl, h⟩

theorem bind_of_ok {f : Reader α} {k : α → Reader β} {σ ρ τ : Progress} {a : α} {v : β}
    (hf : f σ = .ok (a, ρ)) (hk : k a ρ = .ok (v, τ)) : (f >>= k) σ = .ok (v, τ) := by
  have hbind : (f >>= k) σ = (f σ).bind fun p => k p.1 p.2 := rfl
  rw [hbind, hf]
  exact hk

/-- Taking a token of the kind. -/
def takeKind (σ : Progress) (kind : TokenKind) : Reader Token :=
  match kind with
  | .illegal offset => throw offset
  | .endOfText => throw σ.token.span.start
  | _ => do
    set (σ.goOn σ.token.next)
    return σ.token.toToken

theorem advance_of_takeable {σ : Progress} (h : σ.token.kind.IsTakeable) :
    advance σ = .ok (σ.token.toToken, σ.goOn σ.token.next) := by
  have hrun : advance σ = takeKind σ σ.token.kind σ := rfl
  rw [hrun]
  cases hkind : σ.token.kind with
  | endOfText => exact absurd hkind h.1
  | illegal n => exact absurd hkind (h.2 n)
  | _ => rfl

theorem advance_eq_ok {σ τ : Progress} {t : Token} (h : advance σ = .ok (t, τ)) :
    σ.token.kind.IsTakeable ∧ t = σ.token.toToken ∧ τ = σ.goOn σ.token.next := by
  have htakeable : σ.token.kind.IsTakeable := by
    unfold Reader.advance at h
    obtain ⟨ρ, _, hget, hrest⟩ := bind_eq_ok h
    cases hget
    constructor
    · intro hkind
      rw [hkind] at hrest
      cases hrest
    · intro n hkind
      rw [hkind] at hrest
      cases hrest
  rw [advance_of_takeable htakeable] at h
  cases h
  exact ⟨htakeable, rfl, rfl⟩

/-! ## Readers that move and note -/

/-- A reader that does nothing but move and note. -/
class Moves (f : Reader α) : Prop where
  path : ∀ {σ v τ}, f σ = .ok (v, τ) → σ.spot.Path τ.spot

/-- A reader that moves at least once. -/
class Takes (f : Reader α) : Prop where
  move : ∀ {σ v τ}, f σ = .ok (v, τ) → ∃ b, σ.spot.Move b ∧ b.Path τ.spot

/-- A reader that moves at least twice. -/
class TakesTwo (f : Reader α) : Prop where
  moves : ∀ {σ v τ}, f σ = .ok (v, τ) → ∃ b c, σ.spot.Move b ∧ b.Move c ∧ c.Path τ.spot

/-- States of a reader at the two sides of a fork that only differ in the places of the token. -/
structure Fork.Beside (F : Fork) (σ σ' : Progress) : Prop where
  twins : F.Twins σ.token σ'.token
  eq : σ' = { σ with token := σ'.token }

/-- A reader that sees nothing but the tokens in front of which it ends. -/
class Local (f : Reader α) : Prop extends Moves f where
  step : ∀ {F : Fork} {σ σ' v τ}, F.Beside σ σ' → f σ = .ok (v, τ) → ¬ F.Past τ.token →
    ∃ τ', f σ' = .ok (v, τ') ∧ F.Beside τ τ'

/-! ### One reader behind the other -/

namespace Moves

theorem andThen {f : Reader α} {k : α → Reader β} [hf : Moves f] (hk : ∀ a, Moves (k a)) :
    Moves (f >>= k) := by
  constructor
  intro σ v τ h
  obtain ⟨a, ρ, hfirst, hrest⟩ := bind_eq_ok h
  exact (hf.path hfirst).trans ((hk a).path hrest)

instance bind {f : Reader α} {k : α → Reader β} [Moves f] [hk : ∀ a, Moves (k a)] :
    Moves (f >>= k) := andThen hk

instance pure (a : α) : Moves (Pure.pure a : Reader α) := by
  constructor
  intro σ v τ h
  cases h
  exact .refl

instance throw (n : Nat) : Moves (MonadExcept.throw n : Reader α) := by
  constructor
  intro σ v τ h
  cases h

instance ite {c : Prop} [Decidable c] {f g : Reader α} [Moves f] [Moves g] :
    Moves (if c then f else g) := by
  split <;> assumption

instance get : Moves (MonadState.get : Reader Progress) := by
  constructor
  intro σ v τ h
  cases h
  exact .refl

instance peek : Moves peek := bind
instance peekBeyond : Moves peekBeyond := bind

end Moves

/-- A move stays possible from further back. -/
theorem Spot.Path.then_move {a b c : Spot} (hpath : a.Path b) (h : ∃ d, b.Move d ∧ d.Path c) :
    ∃ d, a.Move d ∧ d.Path c := by
  obtain ⟨d, hmove, hrest⟩ := h
  rcases ReflTransGen.cases_head hpath with rfl | ⟨e, hmove', hpath'⟩
  · exact ⟨d, hmove, hrest⟩
  · exact ⟨e, hmove', hpath'.trans (.head hmove hrest)⟩

namespace Takes

theorem andThen {f : Reader α} {k : α → Reader β} [hf : Moves f] (hk : ∀ a, Takes (k a)) :
    Takes (f >>= k) := by
  constructor
  intro σ v τ h
  obtain ⟨a, ρ, hfirst, hrest⟩ := bind_eq_ok h
  exact Spot.Path.then_move (hf.path hfirst) ((hk a).move hrest)

instance bind {f : Reader α} {k : α → Reader β} [Moves f] [hk : ∀ a, Takes (k a)] :
    Takes (f >>= k) := andThen hk

instance first {f : Reader α} {k : α → Reader β} [hf : Takes f] [hk : ∀ a, Moves (k a)] :
    Takes (f >>= k) := by
  constructor
  intro σ v τ h
  obtain ⟨a, ρ, hfirst, hrest⟩ := bind_eq_ok h
  obtain ⟨b, hmove, hpath⟩ := hf.move hfirst
  exact ⟨b, hmove, hpath.trans ((hk a).path hrest)⟩

instance throw (n : Nat) : Takes (MonadExcept.throw n : Reader α) := by
  constructor
  intro σ v τ h
  cases h

instance ite {c : Prop} [Decidable c] {f g : Reader α} [Takes f] [Takes g] :
    Takes (if c then f else g) := by
  split <;> assumption

end Takes

namespace TakesTwo

instance bind {f : Reader α} {k : α → Reader β} [hf : Takes f] [hk : ∀ a, Takes (k a)] :
    TakesTwo (f >>= k) := by
  constructor
  intro σ v τ h
  obtain ⟨a, ρ, hfirst, hrest⟩ := bind_eq_ok h
  obtain ⟨b, hmove, hpath⟩ := hf.move hfirst
  obtain ⟨c, hmove', hpath'⟩ := (hk a).move hrest
  rcases ReflTransGen.cases_head hpath with heq | ⟨d, hmove'', hpath''⟩
  · exact ⟨b, c, hmove, heq ▸ hmove', hpath'⟩
  · exact ⟨b, d, hmove, hmove'', hpath''.trans (.head hmove' hpath')⟩

instance later {f : Reader α} {k : α → Reader β} [hf : Moves f] [hk : ∀ a, TakesTwo (k a)] :
    TakesTwo (f >>= k) := by
  constructor
  intro σ v τ h
  obtain ⟨a, ρ, hfirst, hrest⟩ := bind_eq_ok h
  obtain ⟨b, c, hmove, hmove', hpath⟩ := (hk a).moves hrest
  rcases ReflTransGen.cases_head (hf.path hfirst) with heq | ⟨d, hmove'', hpath''⟩
  · exact ⟨b, c, heq ▸ hmove, hmove', hpath⟩
  · rcases ReflTransGen.cases_head hpath'' with heq | ⟨e, hmove₃, hpath₃⟩
    · exact ⟨d, b, hmove'', heq ▸ hmove, .head hmove' hpath⟩
    · exact ⟨d, e, hmove'', hmove₃, hpath₃.trans (.head hmove (.head hmove' hpath))⟩

instance ite {c : Prop} [Decidable c] {f g : Reader α} [TakesTwo f] [TakesTwo g] :
    TakesTwo (if c then f else g) := by
  split <;> assumption

end TakesTwo

namespace Local

theorem andThen {f : Reader α} {k : α → Reader β} [hf : Local f] (hk : ∀ a, Local (k a)) :
    Local (f >>= k) where
  toMoves := Moves.andThen fun a => (hk a).toMoves
  step := by
    intro F σ σ' v τ hbeside h hpast
    obtain ⟨a, ρ, hfirst, hrest⟩ := bind_eq_ok h
    have hρ : ¬ F.Past ρ.token := fun hρ => hpast (Fork.Past.path hρ ((hk a).path hrest))
    obtain ⟨ρ', hfirst', hbeside'⟩ := hf.step hbeside hfirst hρ
    obtain ⟨τ', hrest', hτ⟩ := (hk a).step hbeside' hrest hpast
    exact ⟨τ', bind_of_ok hfirst' hrest', hτ⟩

instance bind {f : Reader α} {k : α → Reader β} [Local f] [hk : ∀ a, Local (k a)] :
    Local (f >>= k) := andThen hk

instance pure (a : α) : Local (Pure.pure a : Reader α) where
  step := by
    intro F σ σ' v τ hbeside h _
    cases h
    exact ⟨σ', rfl, hbeside⟩

instance throw (n : Nat) : Local (MonadExcept.throw n : Reader α) where
  step := by
    intro F σ σ' v τ _ h _
    cases h

instance ite {c : Prop} [Decidable c] {f g : Reader α} [Local f] [Local g] :
    Local (if c then f else g) := by
  split <;> assumption

/-- What a state says besides the places of its token is the same at both sides. -/
theorem ask (g : Progress → α) (h : ∀ σ t, t.toToken = σ.token.toToken →
    g { σ with token := t } = g σ) : Local (do return g (← get) : Reader α) where
  toMoves := Moves.bind
  step := by
    intro F σ σ' v τ hbeside hrun _
    cases hrun
    refine ⟨σ', ?_, hbeside⟩
    have hsame : g σ' = g σ := by
      rw [hbeside.eq]
      exact h _ _ hbeside.twins.toToken_eq
    rw [← hsame]
    rfl

/-- Notes are the same at both sides. -/
theorem modify {f : Progress → Progress} (hspot : ∀ σ, (f σ).spot = σ.spot)
    (h : ∀ σ t, f { σ with token := t } = { f σ with token := t }) :
    Local (MonadStateOf.modifyGet fun σ => ((), f σ) : Reader PUnit) where
  path := by
    intro σ v τ hrun
    cases hrun
    exact hspot σ ▸ .refl
  step := by
    intro F σ σ' v τ hbeside hrun _
    cases hrun
    refine ⟨f σ', rfl, ?_, ?_⟩
    · have htoken (σ : Progress) : (f σ).token = σ.token := congrArg Spot.token (hspot σ)
      rw [htoken, htoken]
      exact hbeside.twins
    · have htoken : (f σ').token = σ'.token := congrArg Spot.token (hspot σ')
      rw [htoken, ← h, ← hbeside.eq]

end Local

/-! ## Tokens and notes -/

theorem Fork.Beside.goOn {F : Fork} {σ σ' : Progress} {n : Nat} (h : F.Beside σ σ')
    (hpast : ¬ F.Past (Token.scan (F.here n) false)) :
    F.Beside (σ.goOn (F.here n)) (σ'.goOn (F.there n)) := by
  have htwins := (scan_twins_or_past n false).resolve_right hpast
  have hn : n ≤ F.shared.length := Nat.le_of_not_le fun hn => hpast (past_scan hn false)
  refine ⟨htwins, ?_⟩
  rw [h.eq]
  simp only [Progress.goOn, offset_there hn, congrArg Token.faults htwins.toToken_eq]

namespace Takes

instance advance : Takes advance := by
  constructor
  intro σ v τ h
  obtain ⟨htakeable, rfl, rfl⟩ := advance_eq_ok h
  exact ⟨_, .token _ htakeable, .refl⟩

end Takes

namespace Local

instance current : Local current := ask (fun σ => σ.token.toToken) fun _ _ h => h
instance stop : Local (stop : Reader α) := bind
instance at? (text : String) : Local (at? text) := bind
instance atWord? (name : String) : Local (atWord? name) := bind
instance here : Local here := bind
instance spanFrom (start : Nat) : Local (spanFrom start) :=
  ask (fun σ => (⟨start, σ.lastStop⟩ : Span)) fun _ _ _ => rfl
instance strictMark : Local strictMark := ask (fun σ => σ.strictFaults.length) fun _ _ _ => rfl

instance note (offset : Nat) : Local (note offset) := modify (fun _ => rfl) fun _ _ => rfl
instance becomeStrict (mark : Nat) : Local (becomeStrict mark) :=
  modify (fun _ => rfl) fun _ _ => rfl
instance noteModule : Local noteModule := modify (fun _ => rfl) fun _ _ => rfl
instance notePatternOnly (offset : Nat) : Local (notePatternOnly offset) :=
  modify (fun _ => rfl) fun _ _ => rfl
instance acceptInPattern (offset : Nat) : Local (acceptInPattern offset) :=
  modify (fun _ => rfl) fun _ _ => rfl
instance noteSpreadComma (offset : Nat) : Local (noteSpreadComma offset) :=
  modify (fun _ => rfl) fun _ _ => rfl
instance hasSpreadComma (offset : Nat) : Local (hasSpreadComma offset) :=
  ask (fun σ => σ.spreadCommas.contains offset) fun _ _ _ => rfl
instance notePrivateUse (name : String) (offset : Nat) : Local (notePrivateUse name offset) :=
  modify (fun _ => rfl) fun _ _ => rfl
instance settlePrivateUses (declared : List String) (aside : List (String × Nat)) :
    Local (settlePrivateUses declared aside) := modify (fun _ => rfl) fun _ _ => rfl

instance takePrivateUses : Local takePrivateUses := by
  have hask : Local (do return (← get).privateUses : Reader (List (String × Nat))) :=
    ask (fun σ => σ.privateUses) fun _ _ _ => rfl
  have hforget : Local (MonadStateOf.modifyGet fun σ : Progress =>
      ((), { σ with privateUses := [] }) : Reader PUnit) := modify (fun _ => rfl) fun _ _ => rfl
  have hboth : Local (do
      let uses ← (do return (← get).privateUses : Reader (List (String × Nat)))
      MonadStateOf.modifyGet fun σ : Progress => ((), { σ with privateUses := [] })
      return uses : Reader (List (String × Nat))) := bind
  exact hboth

instance noteStrict (ctx : Context) (offset : Nat) : Local (noteStrict ctx offset) := by
  unfold Reader.noteStrict
  extract_lets rest
  have (u : PUnit) : Local (rest u) := modify (fun _ => rfl) fun _ _ => rfl
  clear_value rest
  infer_instance

instance advance : Local advance where
  path := by
    intro σ v τ h
    obtain ⟨htakeable, rfl, rfl⟩ := advance_eq_ok h
    exact .single (.token _ htakeable)
  step := by
    intro F σ σ' v τ hbeside h hpast
    obtain ⟨htakeable, rfl, rfl⟩ := advance_eq_ok h
    have hsame := hbeside.twins.toToken_eq
    rw [← hsame] at htakeable
    obtain ⟨token, m, n, hmn, hn, ht, ht'⟩ := hbeside.twins
    have hnext : σ.token.next = F.here n := congrArg Scanned.next ht
    have hnext' : σ'.token.next = F.there n := congrArg Scanned.next ht'
    refine ⟨_, hsame ▸ advance_of_takeable htakeable, ?_⟩
    rw [hnext] at hpast ⊢
    rw [hnext']
    exact hbeside.goOn hpast

end Local

/-! ### Regular expressions and templates -/

theorem asRegex_kind (t : Scanned) :
    t.asRegex.kind = .regex ∨ ∃ n, t.asRegex.kind = .illegal n := by
  unfold Scanned.asRegex
  split
  · exact .inr ⟨_, rfl⟩
  · split
    · exact .inl rfl
    · exact .inr ⟨_, rfl⟩

/-- The state in which the next token is read as a regular expression. -/
def Progress.asRegex (σ : Progress) : Progress :=
  { σ with token := σ.token.asRegex, faults := σ.token.asRegex.faults.reverse ++ σ.faults }

theorem advanceRegex_eq (σ : Progress) :
    advanceRegex σ =
      if isPunctuator σ.token.toToken "/" || isPunctuator σ.token.toToken "/=" then
        advance σ.asRegex
      else .error (complaint σ.token.toToken) := by
  cases hslash : isPunctuator σ.token.toToken "/" || isPunctuator σ.token.toToken "/="
  all_goals
    show (if (isPunctuator σ.token.toToken "/" || isPunctuator σ.token.toToken "/=") = true then _
      else _ : Reader Token) σ = _
    rw [hslash]
    rfl

/-- The stretch of a template behind the next token. -/
def Progress.chunk (σ : Progress) : Chunk :=
  Chunk.read true 0 σ.token.next.offset σ.token.next.rest

theorem chunkFrom_next (σ : Progress) : chunkFrom true 0 σ.token.next =
    ((σ.chunk.ends, σ.chunk.valid, σ.chunk.cutOff), σ.chunk.next) := rfl

/-- What a stretch of a template leaves behind. -/
def Progress.behindChunk (σ : Progress) (tagged : Bool) : Progress :=
  Progress.goOn σ.chunk.next (if σ.chunk.valid || tagged then σ else
    { σ with faults := σ.token.next.offset :: σ.faults })

theorem stretch_eq (opener : String) (tagged : Bool) (σ : Progress) :
    Grammar.stretch opener tagged σ =
      if isPunctuator σ.token.toToken opener then
        if σ.chunk.cutOff then .error σ.chunk.next.offset
        else .ok (σ.chunk.ends, σ.behindChunk tagged)
      else .error (complaint σ.token.toToken) := by
  cases hmark : isPunctuator σ.token.toToken opener
  · show (if isPunctuator σ.token.toToken opener = true then _ else _ : Reader Bool) σ = _
    rw [hmark]
    rfl
  · show (if isPunctuator σ.token.toToken opener = true then _ else _ : Reader Bool) σ = _
    rw [hmark]
    show (if σ.chunk.cutOff = true then _ else _ : Reader Bool) σ = _
    cases hcut : σ.chunk.cutOff
    · show (if (σ.chunk.valid || tagged) = true then _ else _ : Reader Bool) σ = _
      unfold Progress.behindChunk
      cases hvalid : σ.chunk.valid || tagged <;> rfl
    · rfl

theorem stretch_eq_ok {opener : String} {tagged ends : Bool} {σ τ : Progress}
    (h : Grammar.stretch opener tagged σ = .ok (ends, τ)) :
    isPunctuator σ.token.toToken opener ∧ σ.chunk.cutOff = false ∧ ends = σ.chunk.ends ∧
      τ = σ.behindChunk tagged := by
  rw [stretch_eq] at h
  split at h
  · next hmark =>
    split at h
    · cases h
    · next hcut =>
      cases h
      exact ⟨hmark, Bool.eq_false_iff.2 hcut, rfl, rfl⟩
  · cases h

theorem spot_behindChunk (σ : Progress) (tagged : Bool) :
    (σ.behindChunk tagged).spot = .scan (chunkFrom true 0 σ.token.next).2 := by
  unfold Progress.behindChunk
  split <;> rfl

/-- Notes of earlier readers behind those of a later one. -/
def Progress.behind (before after : Progress) : Progress :=
  { after with
    faults := after.faults ++ before.faults
    strictFaults := after.strictFaults ++ before.strictFaults
    patternOnly := after.patternOnly ++ before.patternOnly
    spreadCommas := after.spreadCommas ++ before.spreadCommas
    privateUses := after.privateUses ++ before.privateUses
    isModule := after.isModule || before.isModule
    hasDeclarations := after.hasDeclarations || before.hasDeclarations }

/-- The state without what was noted. -/
def Progress.fresh (σ : Progress) : Progress := { token := σ.token, lastStop := σ.lastStop }

theorem apart_eq_ok {f : Reader α} {σ τ : Progress} {v : α} (h : apart f σ = .ok (v, τ)) :
    ∃ ρ, f σ.fresh = .ok (v, ρ) ∧ τ = σ.behind ρ := by
  unfold Reader.apart at h
  obtain ⟨_, _, hget, h₁⟩ := bind_eq_ok h
  cases hget
  obtain ⟨_, _, hset, h₂⟩ := bind_eq_ok h₁
  cases hset
  obtain ⟨a, ρ, hrun, h₃⟩ := bind_eq_ok h₂
  cases h₃
  exact ⟨ρ, hrun, rfl⟩

theorem apart_of_ok {f : Reader α} {σ ρ : Progress} {v : α} (h : f σ.fresh = .ok (v, ρ)) :
    apart f σ = .ok (v, σ.behind ρ) := by
  unfold Reader.apart
  refine bind_of_ok (a := σ) rfl (bind_of_ok (a := ⟨⟩) rfl (bind_of_ok h ?_))
  rfl

namespace Takes

instance advanceRegex : Takes advanceRegex := by
  constructor
  intro σ v τ h
  rw [advanceRegex_eq] at h
  split at h
  · next hslash =>
    obtain ⟨htakeable, rfl, rfl⟩ := advance_eq_ok h
    have hregex := (asRegex_kind σ.token).resolve_right fun ⟨n, hn⟩ => htakeable.2 n hn
    simp only [isPunctuator, Bool.or_eq_true, decide_eq_true_eq] at hslash
    rcases hslash with hslash | hslash <;> exact ⟨_, .regex _ hslash hregex, .refl⟩
  · cases h

instance stretch (opener : String) (tagged : Bool) : Takes (Grammar.stretch opener tagged) := by
  constructor
  intro σ v τ h
  obtain ⟨hmark, -, rfl, rfl⟩ := stretch_eq_ok h
  rw [spot_behindChunk]
  exact ⟨_, .stretch _ (of_decide_eq_true hmark), .refl⟩

end Takes

theorem Moves.of_takes {f : Reader α} [hf : Takes f] : Moves f := by
  constructor
  intro σ v τ h
  obtain ⟨b, hmove, hpath⟩ := hf.move h
  exact .head hmove hpath

namespace Local

instance advanceRegex : Local advanceRegex where
  toMoves := .of_takes
  step := by
    intro F σ σ' v τ hbeside h hpast
    have hsame := hbeside.twins.toToken_eq
    rw [advanceRegex_eq] at h ⊢
    rw [hsame]
    split at h
    · next hslash =>
      have hregex := (asRegex_kind σ.token).resolve_right fun ⟨n, hn⟩ =>
        (advance_eq_ok h).1.2 n hn
      obtain ⟨token, m, n, hmn, hn, hread, hread'⟩ := Fork.asRegex_twins hbeside.twins hregex
      rw [if_pos hslash]
      refine advance.step ⟨⟨token, m, n, hmn, hn, hread, hread'⟩, ?_⟩ h hpast
      rw [hbeside.eq]
      simp only [Progress.asRegex, hread, hread']
    · cases h

instance stretch (opener : String) (tagged : Bool) : Local (Grammar.stretch opener tagged) where
  toMoves := .of_takes
  step := by
    intro F σ σ' v τ hbeside h hpast
    obtain ⟨hmark, hcut, rfl, rfl⟩ := stretch_eq_ok h
    obtain ⟨token, m, n, hmn, hn, ht, ht'⟩ := hbeside.twins
    have hnext : σ.token.next = F.here n := congrArg Scanned.next ht
    have hnext' : σ'.token.next = F.there n := congrArg Scanned.next ht'
    have hspot : (σ.behindChunk tagged).token =
        Token.scan (chunkFrom true 0 (F.here n)).2 false := by
      rw [← hnext]
      exact congrArg Spot.token (spot_behindChunk σ tagged)
    rw [hspot] at hpast
    -- The chunk ends within the shared text, where both sides read the same, or the token behind it
    -- is past the fork, which `hpast` excludes.
    rcases Fork.chunkFrom_here (Nat.le_of_lt hn) with
      ⟨⟨ends, valid, cutOff⟩, k, hk, hread, hread'⟩ | ⟨k, hk, hread⟩
    · rw [hread] at hpast
      rw [← hnext, chunkFrom_next, Prod.mk.injEq, Prod.mk.injEq, Prod.mk.injEq] at hread
      rw [← hnext', chunkFrom_next, Prod.mk.injEq, Prod.mk.injEq, Prod.mk.injEq] at hread'
      obtain ⟨⟨rfl, rfl, rfl⟩, hplace⟩ := hread
      obtain ⟨⟨hends, hvalid, hcutOff⟩, hplace'⟩ := hread'
      refine ⟨σ'.behindChunk tagged, ?_, ?_⟩
      · rw [stretch_eq, hbeside.twins.toToken_eq, if_pos hmark, hcutOff, hcut, hends]
        rfl
      · have hoffset : σ'.token.next.offset = σ.token.next.offset := by
          rw [hnext, hnext', Fork.offset_there (Nat.le_of_lt hn)]
        unfold Progress.behindChunk
        rw [hvalid, hplace, hplace', hoffset]
        split
        · exact hbeside.goOn hpast
        · refine Fork.Beside.goOn ⟨hbeside.twins, ?_⟩ hpast
          rw [hbeside.eq]
    · rw [hread] at hpast
      exact absurd (Fork.past_scan hk false) hpast

instance apart {f : Reader α} [hf : Local f] : Local (apart f) where
  path := by
    intro σ v τ h
    obtain ⟨ρ, hrun, rfl⟩ := apart_eq_ok h
    exact (hf.path hrun :)
  step := by
    intro F σ σ' v τ hbeside h hpast
    obtain ⟨ρ, hrun, rfl⟩ := apart_eq_ok h
    have hfresh : F.Beside σ.fresh σ'.fresh := by
      refine ⟨hbeside.twins, ?_⟩
      rw [hbeside.eq]
      rfl
    obtain ⟨ρ', hrun', hρ⟩ := hf.step hfresh hrun hpast
    refine ⟨_, apart_of_ok hrun', hρ.twins, ?_⟩
    rw [hbeside.eq, hρ.eq]
    rfl

end Local

/-! ### Looking past words -/

theorem Scanned.behindWord_of_word {t : Scanned} {name : String} {escaped : Bool}
    (h : t.kind = .word name escaped) : t.behindWord = Token.scan t.next false := by
  unfold Scanned.behindWord
  rw [h]

theorem Scanned.behindWord_of_not_word {t : Scanned}
    (h : ¬ ∃ name escaped, t.kind = .word name escaped) : t.behindWord = t := by
  unfold Scanned.behindWord
  split
  · next hword => exact absurd ⟨_, _, hword⟩ h
  · rfl

/-- The token behind a word is the same at both sides if a reader takes the word and ends in front
of a token of the common beginning. -/
theorem Fork.Twins.behindWord {F : Fork} {a b c : Spot} {t' : Scanned} (h : F.Twins a.token t')
    (hmove : a.Move b) (hpath : b.Path c) (hpast : ¬ F.Past c.token) :
    F.Twins a.token.behindWord t'.behindWord := by
  have hsame := congrArg Token.kind h.toToken_eq
  by_cases hword : ∃ name escaped, a.token.kind = .word name escaped
  · obtain ⟨name, escaped, hword⟩ := hword
    obtain ⟨token, m, n, -, -, ht, ht'⟩ := h
    have hb := hmove.of_word hword
    have hnext : a.token.next = F.here n := congrArg Scanned.next ht
    have hnext' : t'.next = F.there n := congrArg Scanned.next ht'
    rw [Scanned.behindWord_of_word hword, Scanned.behindWord_of_word (hsame.trans hword), hnext']
    rw [hnext] at hb ⊢
    refine (scan_twins_or_past n false).resolve_right fun hscan => hpast ?_
    exact Fork.Past.path (a := b) (hb ▸ hscan) hpath
  · rwa [Scanned.behindWord_of_not_word hword, Scanned.behindWord_of_not_word (hsame ▸ hword)]

namespace Local

theorem peekThen {k : Token → Reader β} (hk : ∀ t, Local (k t)) (ht : ∀ t, Takes (k t)) :
    Local (peek >>= k) where
  toMoves := Moves.andThen fun t => (hk t).toMoves
  step := by
    intro F σ σ' v τ hbeside h hpast
    obtain ⟨next, ρ, hpeek, hrest⟩ := bind_eq_ok h
    cases hpeek
    obtain ⟨b, hmove, hpath⟩ := (ht _).move hrest
    have hnext : F.Twins σ.token.behindWord σ'.token.behindWord :=
      hbeside.twins.behindWord hmove hpath hpast
    obtain ⟨τ', hrest', hτ⟩ := (hk _).step hbeside hrest hpast
    rw [← hnext.toToken_eq] at hrest'
    exact ⟨τ', bind_of_ok rfl hrest', hτ⟩

instance peekBind {k : Token → Reader β} [hk : ∀ t, Local (k t)] [ht : ∀ t, Takes (k t)] :
    Local (peek >>= k) := peekThen hk ht

instance peekBeyondBind {k : Token → Reader β} [hk : ∀ t, Local (k t)]
    [ht : ∀ t, TakesTwo (k t)] : Local (peekBeyond >>= k) where
  toMoves := Moves.andThen fun t => (hk t).toMoves
  step := by
    intro F σ σ' v τ hbeside h hpast
    obtain ⟨after, ρ, hpeek, hrest⟩ := bind_eq_ok h
    cases hpeek
    obtain ⟨b, c, hmove, hmove', hpath⟩ := (ht _).moves hrest
    have hnext : F.Twins σ.token.behindWord σ'.token.behindWord :=
      hbeside.twins.behindWord hmove (.head hmove' hpath) hpast
    -- Two tokens are looked at, and both are taken later on: the path that takes them stays in the
    -- shared text.
    have hafter : F.Twins σ.token.behindWord.behindWord σ'.token.behindWord.behindWord := by
      by_cases hword : ∃ name escaped, σ.token.kind = .word name escaped
      · obtain ⟨name, escaped, hword⟩ := hword
        have hb : b.token = σ.token.behindWord := by
          rw [hmove.of_word hword, Scanned.behindWord_of_word hword]
          rfl
        rw [← hb] at hnext ⊢
        exact hnext.behindWord hmove' hpath hpast
      · have hsame := congrArg Token.kind hbeside.twins.toToken_eq
        have hstay' : σ'.token.behindWord = σ'.token :=
          Scanned.behindWord_of_not_word (hsame ▸ hword)
        rw [Scanned.behindWord_of_not_word hword, Scanned.behindWord_of_not_word hword, hstay',
          hstay']
        exact hbeside.twins
    obtain ⟨τ', hrest', hτ⟩ := (hk _).step hbeside hrest hpast
    rw [← hafter.toToken_eq] at hrest'
    exact ⟨τ', bind_of_ok rfl hrest', hτ⟩

end Local

/-! ### Readers of single tokens -/

namespace Takes

instance stop : Takes (stop : Reader α) := by
  unfold Reader.stop
  infer_instance

end Takes

namespace Local

instance eat (text : String) : Local (eat text) := by
  unfold Reader.eat
  infer_instance

instance eatWord (name : String) : Local (eatWord name) := by
  unfold Reader.eatWord
  infer_instance

instance expect (text : String) : Local (expect text) := by
  unfold Reader.expect
  infer_instance

instance expectWord (name : String) : Local (expectWord name) := by
  unfold Reader.expectWord
  infer_instance

instance semicolon : Local semicolon := by
  unfold Reader.semicolon
  infer_instance

instance checkName (ctx : Context) (name : String) (offset : Nat) :
    Local (checkName ctx name offset) := by
  unfold Reader.checkName
  extract_lets field await yield strict
  have (u : PUnit) : Local (field u) := ite
  have (u : PUnit) : Local (await u) := ite
  have (u : PUnit) : Local (yield u) := ite
  have (u : PUnit) : Local (strict u) := ite
  infer_instance

instance checkBound (ctx : Context) (name : String) (offset : Nat) :
    Local (checkBound ctx name offset) := by
  unfold Reader.checkBound
  infer_instance

instance bindingName (ctx : Context) : Local (bindingName ctx) := by
  unfold Reader.bindingName
  refine andThen fun token => ?_
  split <;> infer_instance

/-! ### Repetitions -/

instance commaList (closer : String) {item : Reader α} [Local item] (steps : Nat) :
    Local (commaList closer item steps) := by
  induction steps with
  | zero => unfold Reader.commaList; infer_instance
  | succ steps ih => unfold Reader.commaList; infer_instance

instance many {more : Reader Bool} {item : Reader α} [Local more] [Local item] (steps : Nat) :
    Local (many more item steps) := by
  induction steps with
  | zero => unfold Reader.many; infer_instance
  | succ steps ih => unfold Reader.many; infer_instance

instance forM {f : α → Reader PUnit} [∀ a, Local (f a)] (l : List α) : Local (l.forM f) := by
  induction l with
  | nil => exact pure _
  | cons a l ih =>
      show Local (f a >>= fun _ => l.forM f)
      infer_instance

end Local

/-- A reader that says whether it moved. -/
class Eats (f : Reader Bool) : Prop extends Moves f where
  move : ∀ {σ τ}, f σ = .ok (true, τ) → ∃ b, σ.spot.Move b ∧ b.Path τ.spot

namespace Eats

instance eat (text : String) : Eats (eat text) where
  move := by
    intro σ τ h
    unfold Reader.eat at h
    obtain ⟨next, ρ, hat, hrest⟩ := bind_eq_ok h
    cases hat
    split at hrest
    · obtain ⟨t, ρ', hadvance, hpure⟩ := bind_eq_ok hrest
      cases hpure
      exact Takes.advance.move hadvance
    · cases hrest

instance eatWord (name : String) : Eats (eatWord name) where
  move := by
    intro σ τ h
    unfold Reader.eatWord at h
    obtain ⟨next, ρ, hat, hrest⟩ := bind_eq_ok h
    cases hat
    split at hrest
    · obtain ⟨t, ρ', hadvance, hpure⟩ := bind_eq_ok hrest
      cases hpure
      exact Takes.advance.move hadvance
    · cases hrest

end Eats

namespace Takes

/-- What is taken is the token itself, or what the other branch takes. -/
instance eatBind {f : Reader Bool} {k : Bool → Reader β} [hf : Eats f]
    [hk : ∀ eaten, Moves (k eaten)] [ht : Takes (k false)] : Takes (f >>= k) := by
  constructor
  intro σ v τ h
  obtain ⟨eaten, ρ, heat, hrest⟩ := bind_eq_ok h
  cases eaten with
  | true =>
      obtain ⟨b, hmove, hpath⟩ := hf.move heat
      exact ⟨b, hmove, hpath.trans ((hk _).path hrest)⟩
  | false =>
      exact Spot.Path.then_move (Moves.path heat) (ht.move hrest)

/-- Where nothing was taken, the other branch is left. -/
instance iteFalse {f g : Reader α} [hg : Takes g] : Takes (if false = true then f else g) := by
  rwa [if_neg Bool.false_ne_true]

instance expect (text : String) : Takes (expect text) := by
  unfold Reader.expect
  infer_instance

instance expectWord (name : String) : Takes (expectWord name) := by
  unfold Reader.expectWord
  infer_instance

instance bindingName (ctx : Context) : Takes (bindingName ctx) := by
  unfold Reader.bindingName
  refine andThen fun token => ?_
  split <;> infer_instance

end Takes

end ModuleLinker.Script
