/-
# ModuleLinker.Proofs.LiteralReader -- literals lie where a reader passed them

A reader that notes no error on its way passes tokens without errors in them (`Spot.Route`). `Finds`
says of a reader that every literal in what it yields was known before, or was passed on that way:
as a string token, or as a template from its opening mark to the end of its last stretch.
-/

import ModuleLinker.Proofs.NodeLiterals
import ModuleLinker.Proofs.Locality

namespace ModuleLinker.Script

open Reader Relation

/-! ## Ways without errors -/

namespace Spot

/-- Any number of moves to tokens without errors in them. -/
abbrev Route : Spot → Spot → Prop := ReflTransGen fun a b => a.Move b ∧ b.token.faults = []

/-- The way from a mark of a template to the end of the template: the last stretch is passed at the
end of it. -/
inductive Closes (a : Spot) : Spot → Prop
  | stretch {b : Spot} {text : String} {valid : Bool} {close : Cursor} (hroute : a.Route b)
      (hmark : b.token.kind = .punctuator text)
      (hends : chunkFrom true 0 b.token.next = ((true, valid, false), close))
      (hnext : (scan close).token.faults = []) : Closes a (scan close)

theorem Closes.widen {a b c : Spot} (h : b.Closes c) (hbefore : a.Route b) : a.Closes c := by
  cases h with
  | stretch hroute hmark hends hnext => exact .stretch (hbefore.trans hroute) hmark hends hnext

/-- The span of a literal that is passed on the way from one spot to another. -/
inductive Passes (a b : Spot) : Span → Prop
  | string {c : Spot} {value : String} {legacy : Bool} (hbefore : a.Route c)
      (hkind : c.token.kind = .string value legacy) (hnext : (scan c.token.next).token.faults = [])
      (hbehind : (scan c.token.next).Route b) : Passes a b c.token.span
  | template {c d : Spot} (hbefore : a.Route c) (hmark : c.token.kind = .punctuator "`")
      (hcloses : c.Closes d) (hbehind : d.Route b) : Passes a b ⟨c.token.span.start, d.lastStop⟩

/-- What is passed on a part of the way is passed on the way. -/
theorem Passes.widen {a b c d : Spot} {span : Span} (h : b.Passes c span) (hbefore : a.Route b)
    (hbehind : c.Route d) : a.Passes d span := by
  cases h with
  | string hb hkind hnext hc => exact .string (hbefore.trans hb) hkind hnext (hc.trans hbehind)
  | template hb hmark hcloses hc =>
      exact .template (hbefore.trans hb) hmark hcloses (hc.trans hbehind)

end Spot

/-! ## Readers that find literals -/

variable {α β : Type} [HasLiterals α] [HasLiterals β] {K : Set Span}

/-- What a run of a reader tells of literals if no error is noted by its end: none was noted before,
and the literals in what the reader yields are known or were passed. -/
structure FindsAt (K : Set Span) (σ : Progress) (v : α) (τ : Progress) : Prop where
  faults : σ.faults = []
  route : σ.spot.Route τ.spot
  found : ∀ span ∈ literals v, span ∈ K ∨ σ.spot.Passes τ.spot span

/-- A reader that yields no literals but those in `K` and those that it passes. -/
class Finds (K : Set Span) (f : Reader α) : Prop where
  run : ∀ {σ v τ}, f σ = .ok (v, τ) → τ.faults = [] → FindsAt K σ v τ

/-- A run of one reader behind that of another. -/
theorem FindsAt.trans {σ ρ τ : Progress} {a : α} {v : β} (h : FindsAt K σ a ρ)
    (h' : FindsAt (andIn K a) ρ v τ) : FindsAt K σ v τ where
  faults := h.faults
  route := h.route.trans h'.route
  found _ hspan := by
    rcases h'.found _ hspan with (hK | ha) | hpasses
    · exact .inl hK
    · exact (h.found _ ha).imp_right fun hpasses => hpasses.widen .refl h'.route
    · exact .inr (hpasses.widen h.route .refl)

/-- A run that stays where it is finds nothing. -/
theorem FindsAt.stay {σ τ : Progress} {v : α} (hv : Known K v) (hspot : τ.spot = σ.spot)
    (hfaults : τ.faults = [] → σ.faults = []) (h : τ.faults = []) : FindsAt K σ v τ where
  faults := hfaults h
  route := hspot ▸ .refl
  found _ hspan := .inl (hv.subset hspan)

namespace Finds

theorem andThen {f : Reader α} {k : α → Reader β} [hf : Finds K f]
    (hk : ∀ a, Finds (andIn K a) (k a)) : Finds K (f >>= k) := by
  constructor
  intro σ v τ h hτ
  obtain ⟨a, ρ, hfirst, hrest⟩ := bind_eq_ok h
  have hbehind := (hk a).run hrest hτ
  exact (hf.run hfirst hbehind.faults).trans hbehind

instance bind {f : Reader α} {k : α → Reader β} [Finds K f]
    [hk : ∀ a, Finds (andIn K a) (k a)] : Finds K (f >>= k) := andThen hk

/-- What has no literals adds nothing to what is known. -/
theorem past {f : Reader α} {k : α → Reader β} [Silent α] [Finds K f]
    (hk : ∀ a, Finds K (k a)) : Finds K (f >>= k) := by
  have hand (a : α) : andIn K a = K := by simp [andIn, Silent.eq_empty]
  exact andThen fun a => (hand a).symm ▸ hk a

instance bindSilent {f : Reader α} {k : α → Reader β} [Silent α] [Finds K f]
    [hk : ∀ a, Finds K (k a)] : Finds K (f >>= k) := past hk

instance pure {a : α} [ha : Known K a] : Finds K (Pure.pure a : Reader α) := by
  constructor
  intro σ v τ h hτ
  cases h
  exact .stay ha rfl id hτ

instance throw (n : Nat) : Finds K (MonadExcept.throw n : Reader α) := by
  constructor
  intro σ v τ h
  cases h

instance ite {c : Prop} [Decidable c] {f g : Reader α} [Finds K f] [Finds K g] :
    Finds K (if c then f else g) := by
  split <;> assumption

/-- What a state says apart from its token holds no literal. -/
theorem ask (g : Progress → α) (h : ∀ σ, Known K (g σ)) :
    Finds K (do return g (← get) : Reader α) := by
  constructor
  intro σ v τ hrun hτ
  cases hrun
  exact .stay (h σ) rfl id hτ

/-- Notes that keep the errors. -/
theorem modify {f : Progress → Progress} (hspot : ∀ σ, (f σ).spot = σ.spot)
    (hfaults : ∀ σ, (f σ).faults = [] → σ.faults = []) :
    Finds K (MonadStateOf.modifyGet fun σ => ((), f σ) : Reader PUnit) := by
  constructor
  intro σ v τ hrun hτ
  cases hrun
  exact .stay inferInstance (hspot σ) (hfaults σ) hτ

instance get : Finds K current := ask (fun σ => σ.token.toToken) fun _ => inferInstance
instance peek : Finds K peek := ask (fun σ => σ.token.behindWord.toToken) fun _ => inferInstance
instance peekBeyond : Finds K peekBeyond :=
  ask (fun σ => σ.token.behindWord.behindWord.toToken) fun _ => inferInstance
instance spanFrom (start : Nat) : Finds K (spanFrom start) :=
  ask (fun σ => (⟨start, σ.lastStop⟩ : Span)) fun _ => inferInstance
instance strictMark : Finds K strictMark :=
  ask (fun σ => σ.strictFaults.length) fun _ => inferInstance
instance hasSpreadComma (offset : Nat) : Finds K (hasSpreadComma offset) :=
  ask (fun σ => σ.spreadCommas.contains offset) fun _ => inferInstance

instance note (offset : Nat) : Finds K (note offset) := modify (fun _ => rfl) nofun
instance becomeStrict (mark : Nat) : Finds K (becomeStrict mark) :=
  modify (fun _ => rfl) fun _ h => (List.append_eq_nil_iff.1 h).2
instance noteModule : Finds K noteModule := modify (fun _ => rfl) fun _ => id
instance notePatternOnly (offset : Nat) : Finds K (notePatternOnly offset) :=
  modify (fun _ => rfl) fun _ => id
instance acceptInPattern (offset : Nat) : Finds K (acceptInPattern offset) :=
  modify (fun _ => rfl) fun _ => id
instance noteSpreadComma (offset : Nat) : Finds K (noteSpreadComma offset) :=
  modify (fun _ => rfl) fun _ => id
instance notePrivateUse (name : String) (offset : Nat) : Finds K (notePrivateUse name offset) :=
  modify (fun _ => rfl) fun _ => id
instance settlePrivateUses (declared : List String) (aside : List (String × Nat)) :
    Finds K (settlePrivateUses declared aside) := modify (fun _ => rfl) fun _ => id

instance takePrivateUses : Finds K takePrivateUses := by
  constructor
  intro σ v τ h hτ
  cases h
  exact .stay inferInstance rfl id hτ

instance noteStrict (ctx : Context) (offset : Nat) : Finds K (noteStrict ctx offset) := by
  unfold Reader.noteStrict
  extract_lets rest
  have (u : PUnit) : Finds K (rest u) := modify (fun _ => rfl) fun _ => id
  clear_value rest
  infer_instance

/-- A token is taken without an error if the one behind it has none. -/
theorem advance_eq_ok_route {σ τ : Progress} {t : Token} (h : advance σ = .ok (t, τ))
    (hτ : τ.faults = []) : σ.faults = [] ∧ (Spot.scan σ.token.next).token.faults = [] ∧
      τ.spot = .scan σ.token.next := by
  obtain ⟨-, -, rfl⟩ := advance_eq_ok h
  obtain ⟨htoken, hσ⟩ := List.append_eq_nil_iff.1 hτ
  exact ⟨hσ, List.reverse_eq_nil_iff.1 htoken, rfl⟩

instance advance : Finds K advance := by
  constructor
  intro σ t τ h hτ
  obtain ⟨hσ, htoken, hspot⟩ := advance_eq_ok_route h hτ
  exact ⟨hσ, hspot ▸ .single ⟨.token _ (advance_eq_ok h).1, htoken⟩, fun _ => nofun⟩

instance advanceRegex : Finds K advanceRegex := by
  constructor
  intro σ t τ h hτ
  rw [advanceRegex_eq] at h
  split at h
  · next hslash =>
    have hregex := (asRegex_kind σ.token).resolve_right fun ⟨n, hn⟩ => (advance_eq_ok h).1.2 n hn
    obtain ⟨hσ, htoken, hspot⟩ := advance_eq_ok_route h hτ
    refine ⟨(List.append_eq_nil_iff.1 hσ).2, hspot ▸ .single ⟨?_, htoken⟩, fun _ => nofun⟩
    simp only [isPunctuator, Bool.or_eq_true, decide_eq_true_eq] at hslash
    rcases hslash with hslash | hslash <;> exact .regex σ.spot hslash hregex
  · cases h

/-- A stretch of a template is passed without an error if the token behind it has none. -/
theorem stretch_eq_ok_route {opener : String} {tagged ends : Bool} {σ τ : Progress}
    (h : Grammar.stretch opener tagged σ = .ok (ends, τ)) (hτ : τ.faults = []) :
    σ.faults = [] ∧ (Spot.scan (chunkFrom true 0 σ.token.next).2).token.faults = [] ∧
      τ.spot = .scan (chunkFrom true 0 σ.token.next).2 := by
  obtain ⟨-, -, -, rfl⟩ := stretch_eq_ok h
  refine ⟨?_, ?_, spot_behindChunk σ tagged⟩
  all_goals
    unfold Progress.behindChunk at hτ
    obtain ⟨htoken, hσ⟩ := List.append_eq_nil_iff.1 hτ
    split at hσ
  · exact hσ
  · cases hσ
  · exact List.reverse_eq_nil_iff.1 htoken
  · cases hσ

instance stretch (opener : String) (tagged : Bool) :
    Finds K (Grammar.stretch opener tagged) := by
  constructor
  intro σ ends τ h hτ
  obtain ⟨hσ, htoken, hspot⟩ := stretch_eq_ok_route h hτ
  have hmark : σ.token.kind = .punctuator opener := of_decide_eq_true (stretch_eq_ok h).1
  exact ⟨hσ, hspot ▸ .single ⟨.stretch σ.spot hmark, htoken⟩, fun _ => nofun⟩

instance apart {f : Reader α} [hf : Finds K f] : Finds K (apart f) := by
  constructor
  intro σ v τ h hτ
  obtain ⟨ρ, hrun, rfl⟩ := apart_eq_ok h
  obtain ⟨hρ, hσ⟩ := List.append_eq_nil_iff.1 hτ
  exact ⟨hσ, (hf.run hrun hρ).route, (hf.run hrun hρ).found⟩

/-! ### Readers of single tokens -/

instance stop : Finds K (stop : Reader α) := by
  unfold Reader.stop
  infer_instance

instance at? (text : String) : Finds K (at? text) := bind
instance atWord? (name : String) : Finds K (atWord? name) := bind
instance here : Finds K here := bind

instance eat (text : String) : Finds K (eat text) := by
  unfold Reader.eat
  infer_instance

instance eatWord (name : String) : Finds K (eatWord name) := by
  unfold Reader.eatWord
  infer_instance

instance expect (text : String) : Finds K (expect text) := by
  unfold Reader.expect
  infer_instance

instance expectWord (name : String) : Finds K (expectWord name) := by
  unfold Reader.expectWord
  infer_instance

instance semicolon : Finds K semicolon := by
  unfold Reader.semicolon
  infer_instance

instance checkName (ctx : Context) (name : String) (offset : Nat) :
    Finds K (checkName ctx name offset) := by
  unfold Reader.checkName
  extract_lets field await yield strict
  have (u : PUnit) : Finds K (field u) := ite
  have (u : PUnit) : Finds K (await u) := ite
  have (u : PUnit) : Finds K (yield u) := ite
  have (u : PUnit) : Finds K (strict u) := ite
  clear_value strict
  infer_instance

instance checkBound (ctx : Context) (name : String) (offset : Nat) :
    Finds K (checkBound ctx name offset) := by
  unfold Reader.checkBound
  infer_instance

instance bindingName (ctx : Context) : Finds K (bindingName ctx) := by
  unfold Reader.bindingName
  refine past fun token => ?_
  split <;> infer_instance

/-! ### Repetitions -/

instance commaList (closer : String) {item : Reader α} [hitem : ∀ K, Finds K item] (steps : Nat) :
    Finds K (commaList closer item steps) := by
  induction steps generalizing K with
  | zero => unfold Reader.commaList; infer_instance
  | succ steps ih => unfold Reader.commaList; infer_instance

instance many {more : Reader Bool} {item : Reader α} [hmore : ∀ K, Finds K more]
    [hitem : ∀ K, Finds K item] (steps : Nat) : Finds K (many more item steps) := by
  induction steps generalizing K with
  | zero => unfold Reader.many; infer_instance
  | succ steps ih => unfold Reader.many; infer_instance

instance forM {α : Type} {f : α → Reader PUnit} [∀ a K, Finds K (f a)] (l : List α) :
    Finds K (l.forM f) := by
  induction l generalizing K with
  | nil => exact pure
  | cons a l ih =>
      show Finds K (f a >>= fun _ => l.forM f)
      infer_instance

end Finds

end ModuleLinker.Script
