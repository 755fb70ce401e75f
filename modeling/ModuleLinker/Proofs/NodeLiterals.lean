/-
# ModuleLinker.Proofs.NodeLiterals -- the literals of what a reader yields

`literals` gives the spans of the string and template literals anywhere in a syntax tree, in a list
of trees, or in whatever else a reader yields, which has none if it is no tree. `Known K a` says
that all of them lie in `K`; instances find this from the parts of `a`.
-/

import ModuleLinker.Proofs.Position
import ModuleLinker.Script.Program
import Mathlib.Data.Set.Lattice

namespace ModuleLinker.Script

/-! ## Literals below a node -/

/-- The spans of the literals at a node and below it. -/
def Node.literals (node : Node) : Set Span :=
  {span | ∃ above inner, Reaches node above inner ∧ Mentions inner (.literal span)}

/-- Who is below a node is the node itself or below one of its parts. -/
theorem Reaches.cases_head {root node : Node} {above : List Enclosure}
    (h : Reaches root above node) :
    node = root ∨ ∃ passed child inner, Child root passed child ∧ Reaches child inner node := by
  induction h with
  | here => exact .inl rfl
  | @down _ _ node child hreaches hchild ih =>
      rcases ih with rfl | ⟨passed, first, inner, hfirst, hinner⟩
      · exact .inr ⟨_, child, [], hchild, .here⟩
      · exact .inr ⟨passed, first, _, hfirst, hinner.down hchild⟩

theorem Node.literals_subset_iff {node : Node} {K : Set Span} :
    node.literals ⊆ K ↔ (∀ span, Mentions node (.literal span) → span ∈ K) ∧
      ∀ passed child, Child node passed child → child.literals ⊆ K := by
  constructor
  · refine fun h => ⟨fun span hspan => h ⟨[], node, .here, hspan⟩, ?_⟩
    rintro passed child hchild span ⟨above, inner, hreaches, hspan⟩
    exact h ⟨above ++ passed, inner, hreaches.head hchild, hspan⟩
  · rintro ⟨hhere, hbelow⟩ span ⟨above, inner, hreaches, hspan⟩
    rcases hreaches.cases_head with rfl | ⟨passed, child, _, hchild, hreaches⟩
    · exact hhere span hspan
    · exact hbelow passed child hchild ⟨_, inner, hreaches, hspan⟩

/-- What is below a pattern does not depend on whether it is assigned to. -/
theorem Reaches.reassign {assigned : Bool} {pattern : Pattern} {above : List Enclosure}
    {node : Node} (h : Reaches (.pattern assigned pattern) above node) (assigned' : Bool) :
    (∃ inner, node = .pattern assigned inner ∧
      Reaches (.pattern assigned' pattern) above (.pattern assigned' inner)) ∨
    Reaches (.pattern assigned' pattern) above node := by
  induction h with
  | here => exact .inl ⟨pattern, rfl, .here⟩
  | down _ hchild ih =>
      rcases ih with ⟨inner, rfl, hreaches⟩ | hreaches
      · cases hchild with
        | arrayElement hmem => exact .inl ⟨_, rfl, hreaches.down (.arrayElement hmem)⟩
        | fieldKey hmem => exact .inr (hreaches.down (.fieldKey hmem))
        | fieldPattern hmem => exact .inl ⟨_, rfl, hreaches.down (.fieldPattern hmem)⟩
        | restPattern => exact .inl ⟨_, rfl, hreaches.down .restPattern⟩
        | initializedPattern => exact .inl ⟨_, rfl, hreaches.down .initializedPattern⟩
        | initialValue => exact .inr (hreaches.down .initialValue)
        | targetValue => exact .inr (hreaches.down .targetValue)
      · exact .inr (hreaches.down hchild)

theorem Node.literals_pattern (assigned assigned' : Bool) (pattern : Pattern) :
    (Node.pattern assigned pattern).literals = (Node.pattern assigned' pattern).literals := by
  have hsubset (assigned assigned' : Bool) :
      (Node.pattern assigned pattern).literals ⊆ (Node.pattern assigned' pattern).literals := by
    rintro span ⟨above, inner, hreaches, hspan⟩
    rcases hreaches.reassign assigned' with ⟨_, rfl, -⟩ | hreaches
    · cases hspan
    · exact ⟨above, inner, hreaches, hspan⟩
  exact (hsubset _ _).antisymm (hsubset _ _)

theorem mem_literalSpans_iff {span : Span} {occurrences : List Occurrence} :
    span ∈ literalSpans occurrences ↔ ∃ hidden, ⟨.literal span, hidden⟩ ∈ occurrences := by
  rw [literalSpans, List.mem_filterMap]
  constructor
  · rintro ⟨⟨mention, hidden⟩, hmem, hspan⟩
    cases mention with
    | literal span' =>
        obtain rfl := Option.some.inj hspan
        exact ⟨hidden, hmem⟩
    | reference | access => cases hspan
  · rintro ⟨hidden, hmem⟩
    exact ⟨⟨.literal span, hidden⟩, hmem, rfl⟩

/-- The literals of a tree are those among its occurrences. -/
theorem Node.mem_literals_iff (node : Node) {span : Span} {hidden : List String} :
    span ∈ node.literals ↔ span ∈ literalSpans (node.occurrences hidden) := by
  rw [mem_literalSpans_iff]
  constructor
  · rintro ⟨above, inner, hreaches, hspan⟩
    rcases hreaches.lift hspan.mem_occurrences with hmem | ⟨_, _, hreference, -⟩
    · exact ⟨_, hmem⟩
    · cases hreference
  · rintro ⟨names, hmem⟩
    obtain ⟨above, inner, hreaches, hspan, -⟩ := exists_position hmem
    exact ⟨above, inner, hreaches, hspan⟩

/-! ## Literals of what is read -/

/-- Something that may have literals in it. -/
class HasLiterals (α : Type) where
  literals : α → Set Span

export HasLiterals (literals)

section Instances

variable {α β : Type} [HasLiterals α] [HasLiterals β]

instance : HasLiterals Expr := ⟨fun e => (Node.expr e).literals⟩
instance : HasLiterals PropertyKey := ⟨fun key => (Node.key key).literals⟩
instance : HasLiterals Property := ⟨fun property => (Node.property property).literals⟩
instance : HasLiterals Function := ⟨fun code => (Node.code code).literals⟩
instance : HasLiterals ClassMember := ⟨fun member => (Node.member member).literals⟩
instance : HasLiterals Stmt := ⟨fun stmt => (Node.stmt stmt).literals⟩
instance : HasLiterals Declarator := ⟨fun declarator => (Node.declarator declarator).literals⟩
instance : HasLiterals Part := ⟨fun part => (Node.part part).literals⟩

instance : HasLiterals Pattern := ⟨fun pattern => (Node.pattern false pattern).literals⟩

instance : HasLiterals PatternField where
  literals
    | .keyed key pattern => literals key ∪ literals pattern
    | .rest pattern => literals pattern

instance : HasLiterals Grammar.MemberEntry := ⟨fun entry => literals entry.member⟩

instance : HasLiterals PUnit := ⟨fun _ => ∅⟩
instance : HasLiterals Bool := ⟨fun _ => ∅⟩
instance : HasLiterals Nat := ⟨fun _ => ∅⟩
instance : HasLiterals String := ⟨fun _ => ∅⟩
instance : HasLiterals Span := ⟨fun _ => ∅⟩
instance : HasLiterals Token := ⟨fun _ => ∅⟩
instance : HasLiterals Grammar.Modifiers := ⟨fun _ => ∅⟩
instance : HasLiterals (List α) := ⟨fun as => ⋃ a ∈ as, literals a⟩
instance : HasLiterals (Option α) := ⟨fun a => ⋃ b ∈ a, literals b⟩
instance : HasLiterals (α × β) := ⟨fun p => literals p.1 ∪ literals p.2⟩

end Instances

/-- Something that has no literals in it. -/
class Silent (α : Type) [HasLiterals α] : Prop where
  eq_empty : ∀ a : α, literals a = ∅

instance : Silent PUnit := ⟨fun _ => rfl⟩
instance : Silent Bool := ⟨fun _ => rfl⟩
instance : Silent Nat := ⟨fun _ => rfl⟩
instance : Silent String := ⟨fun _ => rfl⟩
instance : Silent Span := ⟨fun _ => rfl⟩
instance : Silent Token := ⟨fun _ => rfl⟩
instance : Silent Grammar.Modifiers := ⟨fun _ => rfl⟩

section Silent

variable {α β : Type} [HasLiterals α] [HasLiterals β] [Silent α]

instance : Silent (List α) := ⟨fun _ => by simp [literals, Silent.eq_empty]⟩
instance : Silent (Option α) := ⟨fun _ => by simp [literals, Silent.eq_empty]⟩
instance [Silent β] : Silent (α × β) := ⟨fun _ => by simp [literals, Silent.eq_empty]⟩

end Silent

/-- The forms of an expression that are no literals. -/
class Form.Plain (form : Form) : Prop where
  ne : form ≠ .template

namespace Form.Plain

variable {operator : String}

instance : Plain .array := ⟨nofun⟩
instance : Plain .await := ⟨nofun⟩
instance : Plain (.binary operator) := ⟨nofun⟩
instance : Plain .call := ⟨nofun⟩
instance : Plain .callImport := ⟨nofun⟩
instance : Plain .chain := ⟨nofun⟩
instance : Plain .conditional := ⟨nofun⟩
instance : Plain .new := ⟨nofun⟩
instance : Plain .paren := ⟨nofun⟩
instance : Plain .sequence := ⟨nofun⟩
instance : Plain .spread := ⟨nofun⟩
instance : Plain .superMember := ⟨nofun⟩
instance : Plain .tagged := ⟨nofun⟩
instance : Plain (.unary operator) := ⟨nofun⟩
instance : Plain .update := ⟨nofun⟩
instance : Plain .yield := ⟨nofun⟩

end Form.Plain

/-! ## Known literals -/

section Known

variable {α β : Type} [HasLiterals α] [HasLiterals β]

/-- All literals in `a` are among those in `K`. -/
class Known (K : Set Span) (a : α) : Prop where
  subset : literals a ⊆ K

/-- What is known once `a` is. -/
def andIn (K : Set Span) (a : α) : Set Span := K ∪ literals a

variable {K : Set Span} {a : α} {b : β}

namespace Known

instance silent [Silent α] : Known K a := ⟨by simp [Silent.eq_empty a]⟩
instance known : Known (andIn K a) a := ⟨Set.subset_union_right⟩
instance earlier [h : Known K a] : Known (andIn K b) a := ⟨h.subset.trans Set.subset_union_left⟩

/-! ### Pairs, options and lists -/

theorem pair_iff : Known K (a, b) ↔ Known K a ∧ Known K b :=
  ⟨fun h => ⟨⟨(Set.union_subset_iff.1 h.subset).1⟩, ⟨(Set.union_subset_iff.1 h.subset).2⟩⟩,
    fun h => ⟨Set.union_subset h.1.subset h.2.subset⟩⟩

instance pair [ha : Known K a] [hb : Known K b] : Known K (a, b) := pair_iff.2 ⟨ha, hb⟩
instance fst {p : α × β} [h : Known K p] : Known K p.1 := (pair_iff.1 h).1
instance snd {p : α × β} [h : Known K p] : Known K p.2 := (pair_iff.1 h).2

theorem list_iff {as : List α} : Known K as ↔ ∀ a ∈ as, Known K a :=
  ⟨fun h _ ha => ⟨fun _ hs => h.subset (Set.mem_biUnion ha hs)⟩,
    fun h => ⟨Set.iUnion₂_subset fun a ha => (h a ha).subset⟩⟩

theorem option_iff {a : Option α} : Known K a ↔ ∀ b ∈ a, Known K b :=
  ⟨fun h _ hb => ⟨fun _ hs => h.subset (Set.mem_biUnion hb hs)⟩,
    fun h => ⟨Set.iUnion₂_subset fun b hb => (h b hb).subset⟩⟩

instance none : Known K (none : Option α) := option_iff.2 (by simp)
instance some [h : Known K a] : Known K (some a) := option_iff.2 (by simpa using h)
instance nil : Known K ([] : List α) := list_iff.2 (by simp)

theorem cons_iff {as : List α} : Known K (a :: as) ↔ Known K a ∧ Known K as := by
  simp [list_iff]

instance cons {as : List α} [ha : Known K a] [has : Known K as] : Known K (a :: as) :=
  cons_iff.2 ⟨ha, has⟩

instance append {as bs : List α} [ha : Known K as] [hb : Known K bs] : Known K (as ++ bs) :=
  list_iff.2 fun a h => (List.mem_append.1 h).elim (list_iff.1 ha a) (list_iff.1 hb a)

instance map {as : List α} {f : α → β} [h : Known K as]
    [hf : ∀ a, Known (andIn K a) (f a)] : Known K (as.map f) := by
  rw [list_iff] at h ⊢
  intro b hb
  obtain ⟨a, ha, rfl⟩ := List.mem_map.1 hb
  exact ⟨(hf a).subset.trans (Set.union_subset Set.Subset.rfl (h a ha).subset)⟩

instance filterMap {as : List (Option α)} [h : Known K as] : Known K (as.filterMap id) := by
  rw [list_iff] at h ⊢
  intro a ha
  obtain ⟨_, hmem, rfl⟩ := List.mem_filterMap.1 ha
  exact option_iff.1 (h _ hmem) a rfl

/-! ### Trees -/

/-- A node that is no literal itself has those of its parts. -/
theorem of_node (node : Node) (hnode : literals a = node.literals)
    (hhere : ∀ span, ¬ Mentions node (.literal span))
    (hbelow : ∀ passed child, Child node passed child → child.literals ⊆ K) : Known K a :=
  ⟨hnode ▸ Node.literals_subset_iff.2 ⟨fun span h => absurd h (hhere span), hbelow⟩⟩

/-- A part of a node has no other literals than the node. -/
theorem of_child {node child : Node} {passed : List Enclosure} (h : node.literals ⊆ K)
    (hchild : Child node passed child) (hnode : literals a = child.literals) : Known K a :=
  ⟨hnode ▸ (Node.literals_subset_iff.1 h).2 passed child hchild⟩

section Trees

variable {span : Span} {text : String} {e value : Expr} {parts : List Expr} {form : Form}
  {key : PropertyKey} {code : Function} {pattern : Pattern} {params patterns : List Pattern}
  {field : PatternField} {fields : List PatternField} {properties : List Property}
  {members : List ClassMember} {body : List Stmt} {initial : Option Expr} {stmt : Stmt}

theorem assigned_subset (h : Known K pattern) : (Node.pattern true pattern).literals ⊆ K := by
  rw [Node.literals_pattern true false]
  exact h.subset

instance name : Known K (Expr.name span text) :=
  of_node (.expr _) rfl (by rintro _ ⟨⟩) (by rintro _ _ ⟨⟩)

instance leaf {kind : Leaf} : Known K (Expr.leaf span kind) :=
  of_node (.expr _) rfl (by rintro _ ⟨⟩) (by rintro _ _ ⟨⟩)

instance group [hform : form.Plain] [h : Known K parts] : Known K (Expr.group span form parts) := by
  refine of_node (.expr (.group span form parts)) rfl ?_ ?_
  · rintro _ ⟨⟩
    exact hform.ne rfl
  · rintro _ _ ⟨⟩
    next hmem => exact (list_iff.1 h _ hmem).subset

theorem of_group (h : Known K (Expr.group span form parts)) : Known K parts :=
  list_iff.2 fun _ hmem => of_child h.subset (.groupPart hmem) rfl

/-- A template has its own literal and those in its holes. -/
theorem template (hspan : span ∈ K) (h : Known K parts) :
    Known K (Expr.group span .template parts) := by
  refine ⟨Node.literals_subset_iff.2 ⟨?_, ?_⟩⟩
  · rintro _ ⟨⟩
    exact hspan
  · rintro _ _ ⟨⟩
    next hmem => exact (list_iff.1 h _ hmem).subset

theorem string (hspan : span ∈ K) : Known K (Expr.string span text) := by
  refine ⟨Node.literals_subset_iff.2 ⟨?_, by rintro _ _ ⟨⟩⟩⟩
  rintro _ ⟨⟩
  exact hspan

instance member [he : Known K e] [hkey : Known K key] : Known K (Expr.member span e key) := by
  refine of_node (.expr (.member span e key)) rfl (by rintro _ ⟨⟩) ?_
  rintro _ _ ⟨⟩
  · exact he.subset
  · exact hkey.subset

instance object [h : Known K properties] : Known K (Expr.object span properties) := by
  refine of_node (.expr (.object span properties)) rfl (by rintro _ ⟨⟩) ?_
  rintro _ _ ⟨⟩
  next hmem => exact (list_iff.1 h _ hmem).subset

theorem of_object (h : Known K (Expr.object span properties)) : Known K properties :=
  list_iff.2 fun _ hmem => of_child h.subset (.objectProperty hmem) rfl

instance function {arrow : Bool} [h : Known K code] : Known K (Expr.function span arrow code) := by
  refine of_node (.expr (.function span arrow code)) rfl (by rintro _ ⟨⟩) ?_
  rintro _ _ ⟨⟩
  exact h.subset

instance classBody [hmembers : Known K members] [hinitial : Known K initial] :
    Known K (Expr.classBody span members initial) := by
  refine of_node (.expr (.classBody span members initial)) rfl (by rintro _ ⟨⟩) ?_
  rintro _ _ ⟨⟩
  · next hmem => exact (list_iff.1 hmembers _ hmem).subset
  · exact (option_iff.1 hinitial _ rfl).subset

instance assign {plain : Bool} [hpattern : Known K pattern] [hvalue : Known K value] :
    Known K (Expr.assign span plain pattern value) := by
  refine of_node (.expr (.assign span plain pattern value)) rfl (by rintro _ ⟨⟩) ?_
  rintro _ _ ⟨⟩
  · exact hpattern.assigned_subset
  · exact hvalue.subset

theorem of_assign {plain : Bool} (h : Known K (Expr.assign span plain pattern value)) :
    Known K pattern ∧ Known K value := by
  refine ⟨of_child h.subset .assignTarget ?_, of_child h.subset .assignValue rfl⟩
  exact Node.literals_pattern false true pattern

/-! Keys and properties. -/

instance keyName : Known K (PropertyKey.name text) :=
  of_node (.key _) rfl (by rintro _ ⟨⟩) (by rintro _ _ ⟨⟩)

instance keyNumber : Known K PropertyKey.number :=
  of_node (.key _) rfl (by rintro _ ⟨⟩) (by rintro _ _ ⟨⟩)

instance keyPrivate : Known K (PropertyKey.privateName text) :=
  of_node (.key _) rfl (by rintro _ ⟨⟩) (by rintro _ _ ⟨⟩)

theorem keyString (hspan : span ∈ K) : Known K (PropertyKey.string span text) := by
  refine ⟨Node.literals_subset_iff.2 ⟨?_, by rintro _ _ ⟨⟩⟩⟩
  rintro _ ⟨⟩
  exact hspan

instance computed [h : Known K value] : Known K (PropertyKey.computed value) := by
  refine of_node (.key (.computed value)) rfl (by rintro _ ⟨⟩) ?_
  rintro _ _ ⟨⟩
  exact h.subset

instance shorthand : Known K (Property.shorthand span text) :=
  of_node (.property _) rfl (by rintro _ ⟨⟩) (by rintro _ _ ⟨⟩)

instance keyed [hkey : Known K key] [hvalue : Known K value] :
    Known K (Property.keyed span key value) := by
  refine of_node (.property (.keyed span key value)) rfl (by rintro _ ⟨⟩) ?_
  rintro _ _ ⟨⟩
  · exact hkey.subset
  · exact hvalue.subset

theorem of_keyed (h : Known K (Property.keyed span key value)) : Known K key ∧ Known K value :=
  ⟨of_child h.subset .keyedKey rfl, of_child h.subset .keyedValue rfl⟩

instance method [hkey : Known K key] [hcode : Known K code] :
    Known K (Property.method span key code) := by
  refine of_node (.property (.method span key code)) rfl (by rintro _ ⟨⟩) ?_
  rintro _ _ ⟨⟩
  · exact hkey.subset
  · exact hcode.subset

instance setter [hkey : Known K key] [hcode : Known K code] :
    Known K (Property.setter span key code) := by
  refine of_node (.property (.setter span key code)) rfl (by rintro _ ⟨⟩) ?_
  rintro _ _ ⟨⟩
  · exact hkey.subset
  · exact hcode.subset

instance spread [h : Known K value] : Known K (Property.spread span value) := by
  refine of_node (.property (.spread span value)) rfl (by rintro _ ⟨⟩) ?_
  rintro _ _ ⟨⟩
  exact h.subset

theorem of_spread (h : Known K (Property.spread span value)) : Known K value :=
  of_child h.subset .spreadValue rfl

instance initialized [h : Known K value] : Known K (Property.initialized span text value) := by
  refine of_node (.property (.initialized span text value)) rfl (by rintro _ ⟨⟩) ?_
  rintro _ _ ⟨⟩
  exact h.subset

theorem of_initialized (h : Known K (Property.initialized span text value)) : Known K value :=
  of_child h.subset .initializedValue rfl

/-! Functions and patterns. -/

instance functionMk [hparams : Known K params] [hbody : Known K body] :
    Known K (Function.mk params body) := by
  refine of_node (.code (.mk params body)) rfl (by rintro _ ⟨⟩) ?_
  rintro _ _ ⟨⟩
  · next hmem => exact (list_iff.1 hparams _ hmem).subset
  · next hmem => exact (list_iff.1 hbody _ hmem).subset

instance namePattern : Known K (Pattern.name span text) :=
  of_node (.pattern false _) rfl (by rintro _ ⟨⟩) (by rintro _ _ ⟨⟩)

instance arrayPattern [h : Known K patterns] : Known K (Pattern.array patterns) := by
  refine of_node (.pattern false (.array patterns)) rfl (by rintro _ ⟨⟩) ?_
  rintro _ _ ⟨⟩
  next hmem => exact (list_iff.1 h _ hmem).subset

instance keyedField [hkey : Known K key] [hpattern : Known K pattern] :
    Known K (PatternField.keyed key pattern) := ⟨Set.union_subset hkey.subset hpattern.subset⟩

instance restField [h : Known K pattern] : Known K (PatternField.rest pattern) := ⟨h.subset⟩

instance objectPattern [h : Known K fields] : Known K (Pattern.object fields) := by
  refine of_node (.pattern false (.object fields)) rfl (by rintro _ ⟨⟩) ?_
  rintro _ _ ⟨⟩
  · next hmem => exact (Set.union_subset_iff.1 (list_iff.1 h _ hmem).subset).1
  · next field hmem =>
    have hfield := (list_iff.1 h _ hmem).subset
    cases field with
    | keyed => exact (Set.union_subset_iff.1 hfield).2
    | rest => exact hfield

instance restPattern [h : Known K pattern] : Known K (Pattern.rest pattern) := by
  refine of_node (.pattern false (.rest pattern)) rfl (by rintro _ ⟨⟩) ?_
  rintro _ _ ⟨⟩
  exact h.subset

instance initializedPattern [hpattern : Known K pattern] [hvalue : Known K value] :
    Known K (Pattern.initialized pattern value) := by
  refine of_node (.pattern false (.initialized pattern value)) rfl (by rintro _ ⟨⟩) ?_
  rintro _ _ ⟨⟩
  · exact hpattern.subset
  · exact hvalue.subset

instance targetPattern [h : Known K value] : Known K (Pattern.target value) := by
  refine of_node (.pattern false (.target value)) rfl (by rintro _ ⟨⟩) ?_
  rintro _ _ ⟨⟩
  exact h.subset

/-! Classes. -/

instance memberMethod [hkey : Known K key] [hcode : Known K code] :
    Known K (ClassMember.method key code) := by
  refine of_node (.member (.method key code)) rfl (by rintro _ ⟨⟩) ?_
  rintro _ _ ⟨⟩
  · exact hkey.subset
  · exact hcode.subset

instance memberField [hkey : Known K key] [hinitial : Known K initial] :
    Known K (ClassMember.field key initial) := by
  refine of_node (.member (.field key initial)) rfl (by rintro _ ⟨⟩) ?_
  rintro _ _ ⟨⟩
  · exact hkey.subset
  · exact (option_iff.1 hinitial _ rfl).subset

instance initializer [h : Known K body] : Known K (ClassMember.initializer body) := by
  refine of_node (.member (.initializer body)) rfl (by rintro _ ⟨⟩) ?_
  rintro _ _ ⟨⟩
  next hmem => exact (list_iff.1 h _ hmem).subset

instance entry {member : ClassMember} {offset : Nat} {isConstructor : Bool}
    {privateName : Option (String × Option Bool)} [h : Known K member] :
    Known K (Grammar.MemberEntry.mk member offset isConstructor privateName) := ⟨h.subset⟩

instance entryMember {entry : Grammar.MemberEntry} [h : Known K entry] : Known K entry.member :=
  ⟨h.subset⟩

/-! Statements. -/

instance expression [h : Known K value] : Known K (Stmt.expression span value) := by
  refine of_node (.stmt (.expression span value)) rfl (by rintro _ ⟨⟩) ?_
  rintro _ _ ⟨⟩
  exact h.subset

instance declaration {declarators : List Declarator} [h : Known K declarators] :
    Known K (Stmt.declaration span declarators) := by
  refine of_node (.stmt (.declaration span declarators)) rfl (by rintro _ ⟨⟩) ?_
  rintro _ _ ⟨⟩
  next hmem => exact (list_iff.1 h _ hmem).subset

instance functionStmt [h : Known K code] : Known K (Stmt.function span text code) := by
  refine of_node (.stmt (.function span text code)) rfl (by rintro _ ⟨⟩) ?_
  rintro _ _ ⟨⟩
  exact h.subset

instance classStmt [hmembers : Known K members] [hinitial : Known K initial] :
    Known K (Stmt.classBody span text members initial) := by
  refine of_node (.stmt (.classBody span text members initial)) rfl (by rintro _ ⟨⟩) ?_
  rintro _ _ ⟨⟩
  · next hmem => exact (list_iff.1 hmembers _ hmem).subset
  · exact (option_iff.1 hinitial _ rfl).subset

instance groupStmt {layout : Layout} {parts : List Part} [h : Known K parts] :
    Known K (Stmt.group span layout parts) := by
  refine of_node (.stmt (.group span layout parts)) rfl (by rintro _ ⟨⟩) ?_
  rintro _ _ ⟨⟩
  next hmem => exact (list_iff.1 h _ hmem).subset

instance declarator [hpattern : Known K pattern] [hinitial : Known K initial] :
    Known K (Declarator.mk pattern initial) := by
  refine of_node (.declarator (.mk pattern initial)) rfl (by rintro _ ⟨⟩) ?_
  rintro _ _ ⟨⟩
  · exact hpattern.subset
  · exact (option_iff.1 hinitial _ rfl).subset

instance partExpression [h : Known K value] : Known K (Part.expression value) := by
  refine of_node (.part (.expression value)) rfl (by rintro _ ⟨⟩) ?_
  rintro _ _ ⟨⟩
  exact h.subset

instance partStatement [h : Known K stmt] : Known K (Part.statement stmt) := by
  refine of_node (.part (.statement stmt)) rfl (by rintro _ ⟨⟩) ?_
  rintro _ _ ⟨⟩
  exact h.subset

instance partBinding [h : Known K pattern] : Known K (Part.binding pattern) := by
  refine of_node (.part (.binding pattern)) rfl (by rintro _ ⟨⟩) ?_
  rintro _ _ ⟨⟩
  exact h.subset

instance partTarget [h : Known K pattern] : Known K (Part.target pattern) := by
  refine of_node (.part (.target pattern)) rfl (by rintro _ ⟨⟩) ?_
  rintro _ _ ⟨⟩
  exact h.assigned_subset

/-! ### Trees that the grammar puts together -/

instance access [he : Known K e] [hkey : Known K key] : Known K (Grammar.access span e key) := by
  unfold Grammar.access
  split
  · next value =>
    have hvalue : Known K value := of_child hkey.subset .computedKey rfl
    infer_instance
  · infer_instance
  · infer_instance

instance link {inChain : Bool} [Known K e] : Known K (Grammar.link inChain e) := by
  unfold Grammar.link
  split <;> infer_instance

instance inParentheses [h : Known K parts] : Known K (Grammar.inParentheses span parts) := by
  unfold Grammar.inParentheses
  split <;> infer_instance

end Trees

end Known

end Known

end ModuleLinker.Script
