/-
# ModuleLinker.Proofs.ExpressionPlaces -- the text under an expression

The span of an expression goes from the token that it begins with to the end of the last token that
was taken for it, through all the readers that pass it on: operators, accesses and calls may follow
an operand, and where none does the operand is the expression. A property of an object literal and
the value of the property are therefore pieces of the text (`findsIn_property`). What is read where
an assignment may stand begins with its first token and, if it is an object or assigns one, holds
such properties: that is what `Grammar.PlacedIn` asks of the grammar inside of brackets, and what
`Begins.assignmentExpression` shows of the grammar around it.
-/

import ModuleLinker.Proofs.LiteralPlaces

namespace ModuleLinker.Script

set_option synthInstance.maxSize 4000
set_option synthInstance.maxHeartbeats 100000

open Reader

variable {α : Type} {c : Cursor}

/-! ## Places of expressions -/

/-- The span is that of a piece of the text. -/
def PlacedIn (c : Cursor) (span : Span) : Prop :=
  ∃ opening close, c.Before opening ∧ opening.Before close ∧
    opening.offset = span.start ∧ close.offset = span.stop

/-- The property is a piece of the text, and so is its value. -/
structure Property.PlacedIn (c : Cursor) (property : Property) : Prop where
  own : Script.PlacedIn c property.span
  value : ∀ span key value, property = .keyed span key value → Script.PlacedIn c value.span

/-- If the expression is an object or assigns one, the properties of the object are pieces of the
text. -/
def Expr.TablePlacedIn (c : Cursor) : Expr → Prop
  | .object _ properties => ∀ property ∈ properties, property.PlacedIn c
  | .assign _ _ _ (.object _ properties) => ∀ property ∈ properties, property.PlacedIn c
  | _ => True

/-- What is known of an expression that begins at an offset when the reader stands behind it. -/
structure Expr.ReadFrom (c : Cursor) (start : Nat) (e : Expr) (a : Spot) : Prop where
  span_eq : e.span = ⟨start, a.lastStop⟩
  table : e.TablePlacedIn c

theorem Expr.TablePlacedIn.assign {value : Expr} (h : value.TablePlacedIn c) (span : Span)
    (plain : Bool) (target : Pattern) : (Expr.assign span plain target value).TablePlacedIn c := by
  cases value with
  | object => exact h
  | _ => trivial

/-! ## Readers of expressions -/

/-- A reader of the rest of an expression that began at an offset. -/
class Completes (c : Cursor) (start : Nat) (f : Reader Expr) : Prop where
  readFrom : ∀ {σ e τ}, σ.spot.StandsIn c → f σ = .ok (e, τ) → e.ReadFrom c start τ.spot

/-- A reader of an expression that begins at an offset if the next token does. -/
class BeginsAt (c : Cursor) (start : Nat) (f : Reader Expr) : Prop where
  readFrom : ∀ {σ e τ}, σ.spot.StandsIn c → σ.token.span.start = start → f σ = .ok (e, τ) →
    e.ReadFrom c start τ.spot

/-- A reader of an expression that begins at the next token. -/
class Begins (c : Cursor) (f : Reader Expr) : Prop where
  beginsAt : ∀ start, BeginsAt c start f

/-- A reader of what follows an expression that began at an offset. -/
class Continues (c : Cursor) (start : Nat) (base : Expr) (f : Reader Expr) : Prop where
  readFrom : ∀ {σ e τ}, σ.spot.StandsIn c → base.ReadFrom c start σ.spot → f σ = .ok (e, τ) →
    e.ReadFrom c start τ.spot

variable {start : Nat} {base : Expr}

namespace Stays

instance current : Stays current := ⟨by rintro _ _ _ ⟨⟩; rfl⟩
instance strictMark : Stays strictMark := ⟨by rintro _ _ _ ⟨⟩; rfl⟩
instance at? (text : String) : Stays (at? text) := ⟨by rintro _ _ _ ⟨⟩; rfl⟩
instance atWord? (name : String) : Stays (atWord? name) := ⟨by rintro _ _ _ ⟨⟩; rfl⟩
instance noteModule : Stays noteModule := ⟨by rintro _ _ _ ⟨⟩; rfl⟩
instance notePrivateUse (name : String) (offset : Nat) : Stays (notePrivateUse name offset) :=
  ⟨by rintro _ _ _ ⟨⟩; rfl⟩
instance pure (a : α) : Stays (Pure.pure a : Reader α) := ⟨by rintro _ _ _ ⟨⟩; rfl⟩

instance bind {β : Type} {f : Reader α} {k : α → Reader β} [hf : Stays f] [hk : ∀ a, Stays (k a)] :
    Stays (f >>= k) := by
  constructor
  intro σ v τ h
  obtain ⟨a, ρ, hfirst, hrest⟩ := bind_eq_ok h
  rw [(hk a).spot_eq hrest, hf.spot_eq hfirst]

instance ite {p : Prop} [Decidable p] {f g : Reader α} [Stays f] [Stays g] :
    Stays (if p then f else g) := by
  split <;> assumption

instance stop : Stays (stop : Reader α) := by
  unfold Reader.stop
  infer_instance

instance noteStrict (ctx : Context) (offset : Nat) : Stays (noteStrict ctx offset) := by
  constructor
  intro σ v τ h
  unfold Reader.noteStrict at h
  split at h <;> cases h <;> rfl

instance checkName (ctx : Context) (name : String) (offset : Nat) :
    Stays (checkName ctx name offset) := by
  unfold Reader.checkName
  extract_lets field await yield strict
  have (u : PUnit) : Stays (field u) := ite
  have (u : PUnit) : Stays (await u) := ite
  have (u : PUnit) : Stays (yield u) := ite
  have (u : PUnit) : Stays (strict u) := ite
  infer_instance

instance checkBound (ctx : Context) (name : String) (offset : Nat) :
    Stays (checkBound ctx name offset) := by
  unfold Reader.checkBound
  infer_instance

instance checkPlace (ctx : Context) (e : Expr) : Stays (checkPlace ctx e) := by
  fun_induction ModuleLinker.Script.checkPlace ctx e <;> infer_instance

end Stays

namespace Completes

theorem andThen {f : Reader α} {k : α → Reader Expr} [Moves f] (hk : ∀ a, Completes c start (k a)) :
    Completes c start (f >>= k) := by
  constructor
  intro σ e τ hσ h
  obtain ⟨a, ρ, hfirst, hrest⟩ := bind_eq_ok h
  exact (hk a).readFrom (hσ.of_run hfirst) hrest

instance bind {f : Reader α} {k : α → Reader Expr} [Moves f] [hk : ∀ a, Completes c start (k a)] :
    Completes c start (f >>= k) := andThen hk

instance ite {p : Prop} [Decidable p] {f g : Reader Expr} [Completes c start f]
    [Completes c start g] : Completes c start (if p then f else g) := by
  split <;> assumption

instance throw (n : Nat) : Completes c start (MonadExcept.throw n) := by
  constructor
  intro σ e τ _ h
  cases h

instance stop : Completes c start stop := by
  unfold Reader.stop
  infer_instance

/-- An expression whose span goes to the end of the last token. -/
theorem spanned {f : Span → Expr} (hspan : ∀ span, (f span).span = span)
    (htable : ∀ span, (f span).TablePlacedIn c) :
    Completes c start (do return f (← spanFrom start)) := by
  constructor
  intro σ e τ _ h
  cases h
  exact ⟨hspan _, htable _⟩

/-- It may be continued. -/
theorem spannedThen {f : Span → Expr} {k : Expr → Reader Expr}
    (hspan : ∀ span, (f span).span = span)
    (htable : ∀ span, (f span).TablePlacedIn c) (hk : ∀ base, Continues c start base (k base)) :
    Completes c start (do k (f (← spanFrom start))) := by
  constructor
  intro σ e τ hσ h
  obtain ⟨span, _, hspanned, hrest⟩ := bind_eq_ok h
  cases hspanned
  exact (hk _).readFrom hσ ⟨hspan _, htable _⟩ hrest

instance group (form : Form) (parts : List Expr) :
    Completes c start (do return .group (← spanFrom start) form parts) :=
  spanned (fun _ => rfl) fun _ => trivial

instance leaf (kind : Leaf) : Completes c start (do return .leaf (← spanFrom start) kind) :=
  spanned (fun _ => rfl) fun _ => trivial

instance function (arrow : Bool) (code : Function) :
    Completes c start (do return .function (← spanFrom start) arrow code) :=
  spanned (fun _ => rfl) fun _ => trivial

instance classBody (members : List ClassMember) (heritage : Option Expr) :
    Completes c start (do return .classBody (← spanFrom start) members heritage) :=
  spanned (fun _ => rfl) fun _ => trivial

/-- An assigned object stands in the text where it is an expression. -/
instance assign (plain : Bool) (target : Pattern) {f : Reader Expr} [Moves f] [hf : Begins c f] :
    Completes c start (do
      let value ← f
      return .assign (← spanFrom start) plain target value) := by
  constructor
  intro σ e τ hσ h
  obtain ⟨value, ρ, hvalue, h⟩ := bind_eq_ok h
  cases h
  have hread := (hf.beginsAt _).readFrom hσ rfl hvalue
  exact ⟨rfl, hread.table.assign _ _ _⟩

end Completes

namespace BeginsAt

instance of_completes {f : Reader Expr} [r : Completes c start f] : BeginsAt c start f :=
  ⟨fun hσ _ => r.readFrom hσ⟩

instance of_begins {f : Reader Expr} [hf : Begins c f] : BeginsAt c start f := hf.beginsAt start

instance later {f : Reader α} {k : α → Reader Expr} [hf : Stays f]
    [r : ∀ a, BeginsAt c start (k a)] : BeginsAt c start (f >>= k) := by
  constructor
  intro σ e τ hσ hstart h
  obtain ⟨a, ρ, hfirst, hrest⟩ := bind_eq_ok h
  have hspot := hf.spot_eq hfirst
  have htoken : ρ.token = σ.token := congrArg Spot.token hspot
  exact (r a).readFrom (hspot ▸ hσ) (htoken ▸ hstart) hrest

/-- What is read first may be continued. -/
instance first {f : Reader Expr} {k : Expr → Reader Expr} [Moves f] [hf : BeginsAt c start f]
    [hk : ∀ base, Continues c start base (k base)] : BeginsAt c start (f >>= k) := by
  constructor
  intro σ e τ hσ hstart h
  obtain ⟨base, ρ, hfirst, hrest⟩ := bind_eq_ok h
  exact (hk base).readFrom (hσ.of_run hfirst) (hf.readFrom hσ hstart hfirst) hrest

instance ite {p : Prop} [Decidable p] {f g : Reader Expr} [BeginsAt c start f]
    [BeginsAt c start g] : BeginsAt c start (if p then f else g) := by
  split <;> assumption

end BeginsAt

namespace Begins

theorem of_here {k : Nat → Reader Expr} (hk : ∀ start, BeginsAt c start (k start)) :
    Begins c (here >>= k) := by
  constructor
  intro start
  constructor
  rintro σ e τ hσ rfl h
  obtain ⟨_, _, hhere, hrest⟩ := bind_eq_ok h
  cases hhere
  exact (hk _).readFrom hσ rfl hrest

instance here {k : Nat → Reader Expr} [hk : ∀ start, BeginsAt c start (k start)] :
    Begins c (here >>= k) := of_here hk

end Begins

namespace Continues

instance of_completes {f : Reader Expr} [hf : Completes c start f] : Continues c start base f :=
  ⟨fun hσ _ => hf.readFrom hσ⟩

instance pure : Continues c start base (Pure.pure base) := by
  constructor
  intro σ e τ _ hbase h
  cases h
  exact hbase

instance ite {p : Prop} [Decidable p] {f g : Reader Expr} [Continues c start base f]
    [Continues c start base g] : Continues c start base (if p then f else g) := by
  split <;> assumption

instance later {f : Reader α} {k : α → Reader Expr} [hf : Stays f]
    [r : ∀ a, Continues c start base (k a)] : Continues c start base (f >>= k) := by
  constructor
  intro σ e τ hσ hbase h
  obtain ⟨a, ρ, hfirst, hrest⟩ := bind_eq_ok h
  have hspot := hf.spot_eq hfirst
  exact (r a).readFrom (hspot ▸ hσ) (hspot ▸ hbase) hrest

/-- What follows begins with a punctuator, or nothing follows. -/
instance eat (text : String) {f g : Reader Expr} [hf : Completes c start f]
    [hg : Continues c start base g] :
    Continues c start base (do if ← eat text then f else g) := by
  constructor
  intro σ e τ hσ hbase h
  obtain ⟨eaten, ρ, heat, hrest⟩ := bind_eq_ok h
  cases eaten with
  | true => exact hf.readFrom (hσ.of_run heat) hrest
  | false =>
      unfold Reader.eat at heat
      obtain ⟨next, _, hat, heat⟩ := bind_eq_ok heat
      cases hat
      split at heat
      · obtain ⟨_, _, -, heat⟩ := bind_eq_ok heat
        cases heat
      · cases heat
        exact hg.readFrom hσ hbase hrest

end Continues

/-! ## Operands -/

/-- A reader that stays and yields an expression with this span. -/
class YieldsSpan (c : Cursor) (span : Span) (f : Reader Expr) : Prop extends Stays f where
  yieldsSpan : ∀ {σ e τ}, f σ = .ok (e, τ) → e.span = span ∧ e.TablePlacedIn c

namespace YieldsSpan

variable {span : Span}

instance later {f : Reader α} {k : α → Reader Expr} [hf : Stays f]
    [hk : ∀ a, YieldsSpan c span (k a)] : YieldsSpan c span (f >>= k) where
  yieldsSpan := by
    intro σ e τ h
    obtain ⟨a, ρ, -, hrest⟩ := bind_eq_ok h
    exact (hk a).yieldsSpan hrest

instance ite {p : Prop} [Decidable p] {f g : Reader Expr} [YieldsSpan c span f]
    [YieldsSpan c span g] : YieldsSpan c span (if p then f else g) := by
  split <;> assumption

theorem of_pure {e : Expr} (hspan : e.span = span) (htable : e.TablePlacedIn c) :
    YieldsSpan c span (Pure.pure e) where
  yieldsSpan := by
    rintro σ _ τ ⟨⟩
    exact ⟨hspan, htable⟩

instance name (text : String) : YieldsSpan c span (Pure.pure (.name span text)) :=
  of_pure rfl trivial
instance string (text : String) : YieldsSpan c span (Pure.pure (.string span text)) :=
  of_pure rfl trivial
instance leaf (kind : Leaf) : YieldsSpan c span (Pure.pure (.leaf span kind)) :=
  of_pure rfl trivial

end YieldsSpan

theorem span_asRegex {t : Scanned} (h : t.asRegex.kind = .regex) :
    t.asRegex.span = ⟨t.span.start, t.asRegex.next.offset⟩ := by
  unfold Scanned.asRegex at h ⊢
  split at h
  · cases h
  · split at h
    · rfl
    · cases h

/-- A reader of an expression that begins at the next token if that is a given one. -/
class BeginsWith (c : Cursor) (token : Token) (f : Reader Expr) : Prop where
  readFrom : ∀ {σ e τ}, σ.spot.StandsIn c → σ.token.toToken = token → f σ = .ok (e, τ) →
    e.ReadFrom c token.span.start τ.spot

namespace BeginsWith

variable {token : Token}

instance of_beginsAt {f : Reader Expr} [hf : BeginsAt c token.span.start f] :
    BeginsWith c token f := by
  constructor
  rintro σ e τ hσ rfl h
  exact hf.readFrom hσ rfl h

instance later {f : Reader α} {k : α → Reader Expr} [hf : Stays f]
    [r : ∀ a, BeginsWith c token (k a)] : BeginsWith c token (f >>= k) := by
  constructor
  intro σ e τ hσ htoken h
  obtain ⟨a, ρ, hfirst, hrest⟩ := bind_eq_ok h
  have hspot := hf.spot_eq hfirst
  have hsame : ρ.token = σ.token := congrArg Spot.token hspot
  exact (r a).readFrom (hspot ▸ hσ) (hsame ▸ htoken) hrest

instance ite {p : Prop} [Decidable p] {f g : Reader Expr} [BeginsWith c token f]
    [BeginsWith c token g] : BeginsWith c token (if p then f else g) := by
  split <;> assumption

/-- An expression that is a single token has the span of the token. -/
instance taken {k : Token → Reader Expr} [hk : ∀ t, YieldsSpan c token.span (k t)] :
    BeginsWith c token (advance >>= k) := by
  constructor
  rintro σ e τ ⟨d, lineStart, hd, htoken, -⟩ rfl h
  obtain ⟨t, ρ, hadvance, hrest⟩ := bind_eq_ok h
  obtain ⟨-, -, rfl⟩ := advance_eq_ok hadvance
  obtain ⟨hspan, htable⟩ := (hk t).yieldsSpan hrest
  have hspot := (hk t).spot_eq hrest
  -- the span of a scanned token ends where the next one is scanned
  have hstop : σ.token.span.stop = σ.token.next.offset := by
    have htoken : σ.token = Token.scan d lineStart := htoken
    rw [htoken]
    exact (scan_places d lineStart).2.2
  refine ⟨?_, htable⟩
  rw [hspan, hspot]
  show σ.token.span = ⟨σ.token.span.start, σ.token.next.offset⟩
  rw [← hstop]

/-- A regular expression goes from the slash that opens it to the end of its flags. -/
instance regex : BeginsWith c token (do
    let regex ← advanceRegex
    return .leaf regex.span .literal) := by
  constructor
  rintro σ e τ - rfl h
  obtain ⟨regex, ρ, hregex, h⟩ := bind_eq_ok h
  cases h
  rw [advanceRegex_eq] at hregex
  split at hregex
  · obtain ⟨htakeable, rfl, rfl⟩ := advance_eq_ok hregex
    exact ⟨span_asRegex ((asRegex_kind σ.token).resolve_right fun ⟨n, hn⟩ => htakeable.2 n hn),
      trivial⟩
  · cases hregex

end BeginsWith

namespace Begins

/-- What begins with the next token, whichever that is. -/
theorem of_current {k : Token → Reader Expr} (hk : ∀ token, BeginsWith c token (k token)) :
    Begins c (current >>= k) := by
  constructor
  intro start
  constructor
  rintro σ e τ hσ rfl h
  obtain ⟨_, _, hcurrent, hrest⟩ := bind_eq_ok h
  cases hcurrent
  exact (hk _).readFrom hσ rfl hrest

end Begins

/-! ## Productions -/

/-- Readers for the recursive parts of the grammar whose expressions stand in the text. -/
class Grammar.PlacedIn (c : Cursor) (g : Grammar) : Prop where
  assignment (ctx : Context) : Begins c (g.assignment ctx)

attribute [instance] Grammar.PlacedIn.assignment

variable {g : Grammar} [g.Local] [g.PlacedIn c] (ctx outer : Context) (mark limit steps : Nat)
  (name : String) (tagged calls inChain async anonymous escaped trailing : Bool)
  (items : List Expr) (params : List Pattern) (token : Token)

/-! ### Object literals -/

/-- A reader of values that have a property wherever it begins in the text. -/
structure FindsIn (c : Cursor) (P : α → Prop) (f : Reader α) : Prop where
  holds : ∀ {σ v τ}, σ.spot.StandsIn c → f σ = .ok (v, τ) → P v

namespace FindsIn

variable {β : Type} {P : α → Prop} {Q : β → Prop}

theorem bind {f : Reader β} {k : β → Reader α} [Moves f] (hf : FindsIn c Q f)
    (hk : ∀ b, Q b → FindsIn c P (k b)) : FindsIn c P (f >>= k) := by
  constructor
  intro σ v τ hσ h
  obtain ⟨b, ρ, hfirst, hrest⟩ := bind_eq_ok h
  exact (hk b (hf.holds hσ hfirst)).holds (hσ.of_run hfirst) hrest

theorem andThen {f : Reader β} {k : β → Reader α} [Moves f] (hk : ∀ b, FindsIn c P (k b)) :
    FindsIn c P (f >>= k) := bind (Q := fun _ => True) ⟨fun _ _ => trivial⟩ fun b _ => hk b

theorem pure {a : α} (h : P a) : FindsIn c P (Pure.pure a : Reader α) := by
  constructor
  rintro σ _ τ _ ⟨⟩
  exact h

theorem ite {p : Prop} [Decidable p] {f g : Reader α} (hf : FindsIn c P f) (hg : FindsIn c P g) :
    FindsIn c P (if p then f else g) := by
  split <;> assumption

theorem stop : FindsIn c P (stop : Reader α) := by
  constructor
  intro σ v τ _ h
  cases h

theorem commaList {closer : String} {item : Reader α} [Local item] (hitem : FindsIn c P item)
    (steps : Nat) : FindsIn c (fun items => ∀ x ∈ items, P x) (commaList closer item steps) := by
  induction steps with
  | zero => exact stop
  | succ steps ih =>
      unfold Reader.commaList
      refine andThen fun closed => ite (pure fun x hx => absurd hx List.not_mem_nil) ?_
      refine bind hitem fun first hfirst => andThen fun last => ?_
      have hall : FindsIn c (fun items => ∀ x ∈ items, P x) (do
          let rest ← Reader.commaList closer item steps
          return first :: rest) :=
        bind ih fun rest hrest => pure (List.forall_mem_cons.2 ⟨hfirst, hrest⟩)
      exact ite hall (andThen fun _ => hall)

end FindsIn

/-- An expression that takes a token is a piece of the text. -/
theorem placedIn_of_run {f : Reader Expr} [hf : Begins c f] [ht : Takes f] {σ τ : Progress}
    {e : Expr} (hσ : σ.spot.StandsIn c) (h : f σ = .ok (e, τ)) : PlacedIn c e.span := by
  rw [((hf.beginsAt _).readFrom hσ rfl h).span_eq]
  exact hσ.exists_piece (ht.move h)

omit [g.Local] in
/-- A property that is a name alone, or a name with a default. -/
theorem shorthand_eq_ok {start : Nat} {token : Token} {σ τ : Progress} {property : Property}
    (h : g.shorthand ctx start token σ = .ok (property, τ)) :
    property.span = ⟨start, τ.lastStop⟩ ∧ ∀ span key value, property ≠ .keyed span key value := by
  unfold Grammar.shorthand at h
  generalize token.kind = kind at h
  cases kind with
  | word name escaped =>
    obtain ⟨_, ρ, -, h⟩ := bind_eq_ok h
    obtain ⟨initialized, ρ₁, -, h⟩ := bind_eq_ok h
    split at h
    · obtain ⟨_, ρ₂, -, h⟩ := bind_eq_ok h
      obtain ⟨value, ρ₃, -, h⟩ := bind_eq_ok h
      cases h
      exact ⟨rfl, nofun⟩
    · cases h
      exact ⟨rfl, nofun⟩
  | _ => cases h

/-- A property with the value that it ends with, if it has one. -/
theorem property_eq_ok {σ τ : Progress} {property : Property}
    (h : g.property ctx σ = .ok (property, τ)) :
    property.span = ⟨σ.token.span.start, τ.lastStop⟩ ∧
      ∀ span key value, property = .keyed span key value →
        ∃ ρ, σ.spot.Path ρ.spot ∧ g.assignment ctx ρ = .ok (value, τ) := by
  -- Only the branch behind a colon gives a keyed property; the others have nothing more to show.
  unfold Grammar.property at h
  obtain ⟨start, _, hhere, h⟩ := bind_eq_ok h
  cases hhere
  obtain ⟨spread, ρ, hspread, h⟩ := bind_eq_ok h
  split at h
  · obtain ⟨value, ρ₁, -, h⟩ := bind_eq_ok h
    obtain ⟨comma, ρ₂, -, h⟩ := bind_eq_ok h
    split at h
    · obtain ⟨_, ρ₃, -, h⟩ := bind_eq_ok h
      cases h
      exact ⟨rfl, nofun⟩
    · cases h
      exact ⟨rfl, nofun⟩
  · obtain ⟨modifiers, ρ₁, hmodifiers, h⟩ := bind_eq_ok h
    obtain ⟨token, ρ₂, hcurrent, h⟩ := bind_eq_ok h
    obtain ⟨key, ρ₃, hkey, h⟩ := bind_eq_ok h
    obtain ⟨opens, ρ₄, hopens, h⟩ := bind_eq_ok h
    split at h
    · obtain ⟨code, ρ₅, -, h⟩ := bind_eq_ok h
      obtain ⟨_, _, hspan, h⟩ := bind_eq_ok h
      cases hspan
      split at h
      · cases h
        exact ⟨rfl, nofun⟩
      · cases h
        exact ⟨rfl, nofun⟩
    · obtain ⟨colon, ρ₅, hcolon, h⟩ := bind_eq_ok h
      split at h
      · obtain ⟨value, ρ₆, hvalue, h⟩ := bind_eq_ok h
        cases h
        refine ⟨rfl, ?_⟩
        rintro _ _ _ ⟨⟩
        refine ⟨ρ₅, ?_, hvalue⟩
        exact (Moves.path hspread).trans ((Moves.path hmodifiers).trans ((Moves.path hcurrent).trans
          ((Moves.path hkey).trans ((Moves.path hopens).trans (Moves.path hcolon)))))
      · obtain ⟨hspan, hkeyed⟩ := shorthand_eq_ok ctx h
        exact ⟨hspan, fun span key value heq => absurd heq (hkeyed span key value)⟩

instance Takes.property : Takes (g.property ctx) := by
  unfold Grammar.property
  infer_instance

theorem findsIn_property : FindsIn c (Property.PlacedIn c) (g.property ctx) := by
  constructor
  intro σ property τ hσ h
  obtain ⟨hspan, hvalue⟩ := property_eq_ok ctx h
  refine ⟨?_, ?_⟩
  · rw [hspan]
    exact hσ.exists_piece (Takes.move h)
  · intro span key value heq
    obtain ⟨ρ, hpath, hrun⟩ := hvalue span key value heq
    exact placedIn_of_run (hσ.path hpath).stands hrun

/-- The properties of an object literal stand in the text. -/
instance Begins.objectLiteral : Begins c (g.objectLiteral ctx) := by
  constructor
  intro start
  constructor
  rintro σ e τ hσ rfl h
  unfold Grammar.objectLiteral at h
  obtain ⟨_, _, hhere, h⟩ := bind_eq_ok h
  cases hhere
  obtain ⟨_, ρ, hbrace, h⟩ := bind_eq_ok h
  obtain ⟨properties, ρ₁, hproperties, h⟩ := bind_eq_ok h
  obtain ⟨_, ρ₂, -, h⟩ := bind_eq_ok h
  cases h
  exact ⟨rfl, ((findsIn_property _).commaList _).holds (hσ.of_run hbrace) hproperties⟩

/-! ### Functions, templates and arrays -/

instance Completes.arrowRest : Completes c start (g.arrowRest outer start mark async params) := by
  unfold Grammar.arrowRest
  dsimp only
  infer_instance

instance Completes.arrowOf : Completes c start (g.arrowOf ctx start mark async items) := by
  unfold Grammar.arrowOf
  infer_instance

instance Begins.template : Begins c (g.template ctx tagged) := by
  unfold Grammar.template
  infer_instance

instance Begins.arrayLiteral : Begins c (g.arrayLiteral ctx) := by
  unfold Grammar.arrayLiteral
  infer_instance

/-! ### Parentheses -/

theorem span_inParentheses (span : Span) (items : List Expr) :
    (Grammar.inParentheses span items).span = span := by
  unfold Grammar.inParentheses
  split <;> rfl

theorem tablePlacedIn_inParentheses (span : Span) (items : List Expr) :
    (Grammar.inParentheses span items).TablePlacedIn c := by
  unfold Grammar.inParentheses
  split <;> trivial

instance Completes.parenExpression :
    Completes c start (Grammar.parenExpression start items trailing) := by
  have hexpression : Completes c start (do
      let span ← spanFrom start
      return Grammar.inParentheses span items) :=
    spanned (span_inParentheses · items) (tablePlacedIn_inParentheses · items)
  unfold Grammar.parenExpression
  split
  · infer_instance
  · split
    · infer_instance
    · constructor
      intro σ e τ hσ h
      obtain ⟨span, _, hspan, h⟩ := bind_eq_ok h
      split at h
      · cases h
      · exact hexpression.readFrom hσ (bind_of_ok hspan h)

instance Begins.parenthesized : Begins c (g.parenthesized ctx) := by
  unfold Grammar.parenthesized
  infer_instance

/-! ### Operands -/

instance Completes.creation : Completes c start (g.creation ctx start) := by
  unfold Grammar.creation
  dsimp only
  infer_instance

instance Completes.importOperand : Completes c start (g.importOperand ctx start) := by
  unfold Grammar.importOperand
  dsimp only
  infer_instance

instance Completes.singleParameterArrow :
    Completes c start (g.singleParameterArrow ctx start async) := by
  unfold Grammar.singleParameterArrow
  infer_instance

instance BeginsWith.wordOperand : BeginsWith c token (g.wordOperand ctx token name escaped) := by
  unfold Grammar.wordOperand
  refine BeginsWith.later (r := fun next => ?_)
  dsimp only
  split <;> infer_instance

instance Begins.primary : Begins c (g.primary ctx) := by
  unfold Grammar.primary
  refine Begins.of_current fun token => ?_
  dsimp only
  split <;> infer_instance

/-! ### What follows an operand -/

theorem span_link_access (inChain : Bool) (span : Span) (object : Expr) (key : PropertyKey) :
    (Grammar.link inChain (Grammar.access span object key)).span = span := by
  have haccess : (Grammar.access span object key).span = span := by
    unfold Grammar.access
    split <;> rfl
  cases inChain <;> exact haccess

theorem tablePlacedIn_link_access (inChain : Bool) (span : Span) (object : Expr)
    (key : PropertyKey) :
    (Grammar.link inChain (Grammar.access span object key)).TablePlacedIn c := by
  have haccess : (Grammar.access span object key).TablePlacedIn c := by
    unfold Grammar.access
    split <;> trivial
  cases inChain
  · exact haccess
  · trivial

instance Continues.suffixes {arrow : Bool → List Expr → Reader Expr}
    [∀ async args, Local (arrow async args)] [∀ async args, Completes c start (arrow async args)] :
    Continues c start base (g.suffixes arrow ctx start calls steps inChain base) := by
  -- By induction on the fuel. Each kind of suffix goes on with an expression that begins at
  -- `start`; the facts below are the instances that the branches look up.
  induction steps generalizing inChain base with
  | zero =>
      unfold Grammar.suffixes
      infer_instance
  | succ steps ih =>
      have hnext : ∀ (f : Span → Expr) (inChain : Bool), (∀ span, (f span).span = span) →
          (∀ span, (f span).TablePlacedIn c) → Completes c start (do
            g.suffixes arrow ctx start calls steps inChain (f (← spanFrom start))) :=
        fun f inChain hspan htable => .spannedThen hspan htable fun _ => ih inChain
      have haccess : ∀ key, Completes c start (do
          g.suffixes arrow ctx start calls steps inChain
            (Grammar.link inChain (Grammar.access (← spanFrom start) base key))) := fun key =>
        hnext _ inChain (span_link_access inChain · base key)
          (tablePlacedIn_link_access inChain · base key)
      have hnextCall : ∀ args inChain, Completes c start (do
          g.suffixes arrow ctx start calls steps inChain
            (Grammar.link inChain (.group (← spanFrom start) .call (base :: args)))) :=
        fun args inChain => hnext _ inChain (by cases inChain <;> exact fun _ => rfl)
          (by cases inChain <;> exact fun _ => trivial)
      have hmember : ∀ key, Completes c start (do
          g.suffixes arrow ctx start calls steps true
            (Grammar.link true (.member (← spanFrom start) base key))) := fun key =>
        hnext _ true (fun _ => rfl) fun _ => trivial
      have htagged : ∀ text, Completes c start (do
          g.suffixes arrow ctx start calls steps inChain
            (.group (← spanFrom start) .tagged [base, text])) := fun text =>
        hnext _ inChain (fun _ => rfl) fun _ => trivial
      rw [Grammar.suffixes]
      refine Continues.later (r := fun token => ?_)
      dsimp only
      split <;> infer_instance

/-! ### Operators -/

instance Begins.leftHandSide : Begins c (g.leftHandSide ctx) := by
  unfold Grammar.leftHandSide
  infer_instance

instance Begins.awaited : Begins c (g.awaited ctx) := by
  unfold Grammar.awaited
  infer_instance

instance Begins.unaryExpression : Begins c (g.unaryExpression ctx) := by
  unfold Grammar.unaryExpression
  refine Begins.of_here fun start => BeginsAt.later (r := fun token => ?_)
  dsimp only
  split <;> infer_instance

instance Continues.binaryTail :
    Continues c start base (g.binaryTail ctx start limit steps base) := by
  induction steps generalizing base with
  | zero =>
      unfold Grammar.binaryTail
      infer_instance
  | succ steps ih =>
      have hnext : ∀ operator right, Completes c start (do
          g.binaryTail ctx start limit steps
            (.group (← spanFrom start) (.binary operator) [base, right])) := fun operator right =>
        .spannedThen (fun _ => rfl) (fun _ => trivial) fun _ => ih
      rw [Grammar.binaryTail]
      refine Continues.later (r := fun token => ?_)
      dsimp only
      split <;> infer_instance

instance Begins.binaryExpression : Begins c (g.binaryExpression ctx limit) := by
  unfold Grammar.binaryExpression
  infer_instance

instance Begins.conditional : Begins c (g.conditional ctx) := by
  unfold Grammar.conditional
  infer_instance

instance Begins.yielded : Begins c (g.yielded ctx) := by
  unfold Grammar.yielded
  dsimp only
  infer_instance

instance Begins.assignmentExpression : Begins c (g.assignmentExpression ctx) := by
  unfold Grammar.assignmentExpression
  dsimp only
  infer_instance

end ModuleLinker.Script
