/-
# ModuleLinker.Proofs.BoundNames -- dependencies in one pass

The keys that a value refers to can be collected in one pass over the value that keeps a single set
of names, those of the top level (`Collector.bound`). In front of a function the set loses the names
of the parameters. Behind the function it gets back the ones that it lost there, and no others: a
name that a function further out had taken stays out. A key is added when it is not there yet.

`Scope.dependencies` goes over the occurrences instead, each of which carries the names that are
hidden at its place. Both find the same keys in the same order, and the pass ends with the set that
it began with (`Scope.collect_eq`). The induction over the syntax rests on what the set is at each
place, the names of the top level without those hidden there (`Collects`).
-/

import Mathlib.Data.Finset.Basic
import Mathlib.Data.Finset.Lattice.Lemmas
import ModuleLinker.Module.Dependencies
import ModuleLinker.Proofs.Position

namespace ModuleLinker

open Script

/-! ## The pass -/

/-- Where a pass has got to: the names of the top level that no parameter hides there, and the keys
found so far. -/
structure Collector where
  bound : Finset String
  dependencies : List Key := []

namespace Collector

/-- Adds a key behind the others, unless it is one of them. -/
def add (c : Collector) (key : Key) : Collector :=
  if key ∈ c.dependencies then c else { c with dependencies := c.dependencies ++ [key] }

/-- A name that may be bound to an internal member. -/
def reference (scope : Scope) (c : Collector) (name : String) : Collector :=
  if name ∈ c.bound ∧ name ∈ scope.members then c.add ⟨scope.self, name, .internal⟩ else c

def referenceAll (scope : Scope) (c : Collector) (names : List String) : Collector :=
  names.foldl (reference scope) c

/-- The module that a name stands for. -/
def import? (scope : Scope) (c : Collector) (name : String) : Option ModuleId :=
  if name ∈ c.bound then scope.imports.lookup name else none

/-- The export that a member access refers to. -/
def export? (scope : Scope) (c : Collector) (object property : String) : Option Key :=
  match c.import? scope object with
  | some id => some ⟨id, property, .exported⟩
  | none => if object = "exports" then some ⟨scope.self, property, .exported⟩ else none

/-- Takes names out of a set, and lists those that were in it. -/
def shadow (bound : Finset String) : List String → Finset String × List String
  | [] => (bound, [])
  | name :: names =>
    if name ∈ bound then
      let (inner, shadowed) := shadow (bound.erase name) names
      (inner, name :: shadowed)
    else shadow bound names

/-- Visits a function whose parameters have these names. Those of them that are bound in front of it
are not bound inside, and are again behind it. -/
def withParams (names : List String) (visit : Collector → Collector) (c : Collector) : Collector :=
  let (inner, shadowed) := shadow c.bound names
  let after := visit { c with bound := inner }
  { after with bound := after.bound ∪ shadowed.toFinset }

end Collector

namespace Script

mutual

/-- Visits an expression. -/
def Expr.visit (scope : Scope) : Expr → Collector → Collector
  | .name _ text, c => c.reference scope text
  | .string _ _, c => c
  | .leaf _ _, c => c
  | .group _ _ parts, c => visitExprs scope parts c
  | .member span object property, c =>
    match (Expr.member span object property).access?.bind fun (left, right) =>
        c.export? scope left right with
    | some key => c.add key
    | none => property.visit scope (object.visit scope c)
  | .object _ properties, c => visitProperties scope properties c
  | .function _ _ code, c => code.visit scope c
  | .classBody _ members heritage, c =>
    visitOption scope heritage (visitMembers scope members c)
  | .assign _ _ target value, c =>
    value.visit scope (target.visit scope (c.referenceAll scope target.boundNames))

def visitExprs (scope : Scope) : List Expr → Collector → Collector
  | [], c => c
  | e :: es, c => visitExprs scope es (e.visit scope c)

def visitOption (scope : Scope) : Option Expr → Collector → Collector
  | none, c => c
  | some e, c => e.visit scope c

def PropertyKey.visit (scope : Scope) : PropertyKey → Collector → Collector
  | .name _, c => c
  | .string _ _, c => c
  | .number, c => c
  | .privateName _, c => c
  | .computed value, c => value.visit scope c

/-- Visits a property. The key of a setter is visited without the name of its parameter. -/
def Property.visit (scope : Scope) : Property → Collector → Collector
  | .shorthand _ text, c => c.reference scope text
  | .keyed _ key value, c => value.visit scope (key.visit scope c)
  | .method _ key code, c => code.visit scope (key.visit scope c)
  | .setter _ key (.mk params body), c =>
    c.withParams (boundNamesOfList params) fun c =>
      visitStmts scope body (visitPatterns scope params (key.visit scope c))
  | .spread _ value, c => value.visit scope c
  | .initialized _ _ value, c => value.visit scope c

def visitProperties (scope : Scope) : List Property → Collector → Collector
  | [], c => c
  | property :: properties, c => visitProperties scope properties (property.visit scope c)

/-- Visits the parameters and the body of a function. -/
def Function.visit (scope : Scope) : Function → Collector → Collector
  | .mk params body, c =>
    c.withParams (boundNamesOfList params) fun c =>
      visitStmts scope body (visitPatterns scope params c)

def Pattern.visit (scope : Scope) : Pattern → Collector → Collector
  | .name _ _, c => c
  | .array elements, c => visitPatterns scope elements c
  | .object fields, c => visitFields scope fields c
  | .rest pattern, c => pattern.visit scope c
  | .initialized pattern value, c => value.visit scope (pattern.visit scope c)
  | .target value, c => value.visit scope c

def visitPatterns (scope : Scope) : List Pattern → Collector → Collector
  | [], c => c
  | pattern :: patterns, c => visitPatterns scope patterns (pattern.visit scope c)

def PatternField.visit (scope : Scope) : PatternField → Collector → Collector
  | .keyed key pattern, c => pattern.visit scope (key.visit scope c)
  | .rest pattern, c => pattern.visit scope c

def visitFields (scope : Scope) : List PatternField → Collector → Collector
  | [], c => c
  | field :: fields, c => visitFields scope fields (field.visit scope c)

def ClassMember.visit (scope : Scope) : ClassMember → Collector → Collector
  | .method key code, c => code.visit scope (key.visit scope c)
  | .field key value, c => visitOption scope value (key.visit scope c)
  | .initializer body, c => visitStmts scope body c

def visitMembers (scope : Scope) : List ClassMember → Collector → Collector
  | [], c => c
  | member :: members, c => visitMembers scope members (member.visit scope c)

/-- Visits a statement. -/
def Stmt.visit (scope : Scope) : Stmt → Collector → Collector
  | .expression _ value, c => value.visit scope c
  | .declaration _ declarators, c => visitDeclarators scope declarators c
  | .function _ _ code, c => code.visit scope c
  | .classBody _ _ members heritage, c =>
    visitOption scope heritage (visitMembers scope members c)
  | .group _ _ parts, c => visitParts scope parts c

def visitStmts (scope : Scope) : List Stmt → Collector → Collector
  | [], c => c
  | stmt :: stmts, c => visitStmts scope stmts (stmt.visit scope c)

def Declarator.visit (scope : Scope) : Declarator → Collector → Collector
  | .mk pattern value, c => visitOption scope value (pattern.visit scope c)

def visitDeclarators (scope : Scope) : List Declarator → Collector → Collector
  | [], c => c
  | declarator :: declarators, c =>
    visitDeclarators scope declarators (declarator.visit scope c)

def Part.visit (scope : Scope) : Part → Collector → Collector
  | .expression value, c => value.visit scope c
  | .statement stmt, c => stmt.visit scope c
  | .binding pattern, c => pattern.visit scope c
  | .target pattern, c => pattern.visit scope (c.referenceAll scope pattern.boundNames)

def visitParts (scope : Scope) : List Part → Collector → Collector
  | [], c => c
  | part :: parts, c => visitParts scope parts (part.visit scope c)

end

end Script

/-- The names that the top level binds. -/
def Scope.bound (scope : Scope) : Finset String :=
  (scope.members ++ scope.imports.map (·.1)).toFinset

/-- The pass over a whole value. -/
def Scope.collect (scope : Scope) (value : Expr) : Collector :=
  value.visit scope { bound := scope.bound }

/-! ## Keys -/

namespace Collector

variable {c : Collector}

/-- Adds keys one after the other. -/
def addAll (c : Collector) (keys : List Key) : Collector := keys.foldl add c

theorem addAll_append (keys keys' : List Key) :
    c.addAll (keys ++ keys') = (c.addAll keys).addAll keys' :=
  List.foldl_append

/-- The keys that were not there are added, each once. -/
theorem addAll_eq (keys : List Key) :
    c.addAll keys = { c with dependencies :=
      c.dependencies ++ (distinct keys).filter (· ∉ c.dependencies) } := by
  induction keys generalizing c with
  | nil => simp [addAll, distinct]
  | cons key keys ih =>
      show (c.add key).addAll keys = _
      rw [ih, distinct, List.filter_cons, List.filter_filter]
      unfold add
      split
      -- A key that is there already leaves nothing more to leave out.
      · next hknown =>
        have hrest : (distinct keys).filter (· ∉ c.dependencies) =
            (distinct keys).filter fun other => (other ∉ c.dependencies) && (other ≠ key) := by
          apply List.filter_congr
          intro other _
          have hne : other ∉ c.dependencies → other ≠ key := fun hother heq => hother (heq ▸ hknown)
          simpa using hne
        rw [if_neg (by simpa using hknown), hrest]
      · next hnew =>
        rw [if_pos (by simpa using hnew)]
        simp

theorem bound_addAll (keys : List Key) : (c.addAll keys).bound = c.bound := by
  rw [addAll_eq]

end Collector

/-! ## Names -/

/-- The names of the top level that are not among the hidden ones. -/
def Scope.visible (scope : Scope) (hidden : List String) : Finset String :=
  scope.bound \ hidden.toFinset

section Visible

variable {scope : Scope} {hidden : List String} {c : Collector} {name : String}

theorem Scope.mem_visible_iff : name ∈ scope.visible hidden ↔
    (name ∈ scope.members ∨ name ∈ scope.imports.map (·.1)) ∧ name ∉ hidden := by
  simp only [Scope.visible, Scope.bound, Finset.mem_sdiff, List.mem_toFinset, List.mem_append]

theorem Scope.visible_append (names : List String) :
    scope.visible (names ++ hidden) = scope.visible hidden \ names.toFinset := by
  ext name
  simp only [Finset.mem_sdiff, Scope.mem_visible_iff, List.mem_toFinset, List.mem_append]
  tauto

namespace Collector

/-- Parameters are taken out one after the other, and none of them twice. -/
theorem shadow_eq (bound : Finset String) (names : List String) :
    (shadow bound names).1 = bound \ names.toFinset ∧
      (shadow bound names).2.toFinset = bound ∩ names.toFinset := by
  induction names generalizing bound with
  | nil => exact ⟨Finset.sdiff_empty.symm, (Finset.inter_empty _).symm⟩
  | cons name names ih =>
      unfold shadow
      split
      · next hname =>
        obtain ⟨hinner, hshadowed⟩ := ih (bound.erase name)
        dsimp only
        rw [hinner, List.toFinset_cons, List.toFinset_cons, hshadowed]
        constructor
        · rw [Finset.sdiff_insert, Finset.erase_sdiff_comm]
        · rw [Finset.insert_inter_distrib, Finset.insert_erase hname]
      · next hname =>
        obtain ⟨hinner, hshadowed⟩ := ih bound
        rw [hinner, hshadowed, List.toFinset_cons]
        constructor
        · rw [Finset.sdiff_insert_of_notMem hname]
        · rw [Finset.inter_insert_of_notMem hname]

variable (hbound : c.bound = scope.visible hidden)

include hbound

theorem reference_eq (name : String) :
    c.reference scope name = c.addAll (scope.member? hidden name).toList := by
  have hvisible : name ∈ c.bound ∧ name ∈ scope.members ↔
      name ∈ scope.members ∧ name ∉ hidden := by
    rw [hbound, Scope.mem_visible_iff]
    tauto
  unfold reference Scope.member?
  simp only [hvisible]
  split <;> rfl

theorem import?_eq (name : String) : c.import? scope name = scope.import? hidden name := by
  unfold import? Scope.import?
  rw [hbound]
  by_cases hhidden : name ∈ hidden
  · rw [if_neg fun hname => (Scope.mem_visible_iff.1 hname).2 hhidden, if_pos hhidden]
  · rw [if_neg hhidden]
    split
    · rfl
    · next hname =>
      symm
      apply List.lookup_eq_none_iff.2
      intro entry hentry
      have hne : name ≠ entry.1 := fun heq =>
        hname (Scope.mem_visible_iff.2 ⟨.inr (heq ▸ List.mem_map_of_mem hentry), hhidden⟩)
      simpa using hne

/-- A member access refers to an export, or else to what its object refers to. -/
theorem refer?_access (object property : String) :
    scope.refer? ⟨.access object property, hidden⟩ =
      (c.export? scope object property).or (scope.refer? ⟨.reference object, hidden⟩) := by
  unfold Scope.refer? export?
  rw [import?_eq hbound]
  dsimp only
  cases scope.import? hidden object with
  | some id => rfl
  | none => by_cases hexports : object = "exports" <;> simp [hexports]

end Collector

end Visible

/-! ## Visits -/

/-- Where these names are hidden, the visit adds the keys that the occurrences refer to, and it
leaves the bound names as they were. -/
def Collects (scope : Scope) (hidden : List String) (visit : Collector → Collector)
    (occurrences : List Occurrence) : Prop :=
  ∀ c : Collector, c.bound = scope.visible hidden →
    visit c = c.addAll (occurrences.filterMap scope.refer?)

namespace Collects

variable {scope : Scope} {hidden names : List String} {f g : Collector → Collector}
  {xs ys : List Occurrence}

theorem nothing : Collects scope hidden (fun c => c) [] := fun _ _ => rfl

/-- A literal refers to nothing. -/
theorem literal (span : Span) : Collects scope hidden (fun c => c) [⟨.literal span, hidden⟩] :=
  fun _ _ => rfl

theorem literals (span : Span) (form : Form) :
    Collects scope hidden (fun c => c) (form.literals hidden span) := by
  cases form <;> exact nothing

theorem andThen (hf : Collects scope hidden f xs) (hg : Collects scope hidden g ys) :
    Collects scope hidden (fun c => g (f c)) (xs ++ ys) := by
  intro c hc
  have hfirst := hf c hc
  have hbound : (f c).bound = scope.visible hidden := by
    rw [hfirst, Collector.bound_addAll, hc]
  show g (f c) = _
  rw [hg (f c) hbound, hfirst, List.filterMap_append, Collector.addAll_append]

theorem reference (name : String) :
    Collects scope hidden (·.reference scope name) [⟨.reference name, hidden⟩] := by
  intro c hc
  show c.reference scope name = _
  rw [Collector.reference_eq hc, List.filterMap_cons]
  unfold Scope.refer?
  dsimp only
  cases scope.member? hidden name <;> rfl

theorem referenceAll (names : List String) :
    Collects scope hidden (·.referenceAll scope names) (references hidden names) := by
  induction names with
  | nil => exact nothing
  | cons name names ih => exact (reference name).andThen ih

/-- Behind a function the names that it hides are bound again. -/
theorem withParams (h : Collects scope (names ++ hidden) f xs) :
    Collects scope hidden (·.withParams names f) xs := by
  intro c hc
  obtain ⟨hinner, hshadowed⟩ := Collector.shadow_eq c.bound names
  have hvisit := h { c with bound := (Collector.shadow c.bound names).1 } (by
    rw [hinner, hc, Scope.visible_append])
  show Collector.mk _ _ = _
  rw [hvisit, Collector.addAll_eq, Collector.addAll_eq, hinner, hshadowed,
    Finset.sdiff_union_inter]

/-- A written key refers to nothing. -/
theorem refer?_of_accessed? {key : PropertyKey} {text : String} (h : key.accessed? = some text) :
    (key.occurrences hidden).filterMap scope.refer? = [] := by
  unfold PropertyKey.accessed? at h
  split at h
  · rfl
  · rfl
  · cases h

/-- Only what is no access to an export is visited part by part. -/
theorem member {span : Span} {object : Expr} {property : PropertyKey}
    (hobject : Collects scope hidden (object.visit scope) (object.occurrences hidden))
    (hproperty : Collects scope hidden (property.visit scope) (property.occurrences hidden)) :
    Collects scope hidden ((Expr.member span object property).visit scope)
      ((Expr.member span object property).occurrences hidden) := by
  intro c hc
  have hparts := (hobject.andThen hproperty) c hc
  rw [Expr.visit, Expr.occurrences]
  cases haccess : (Expr.member span object property).access? with
  | none => exact hparts
  | some names =>
      obtain ⟨left, right⟩ := names
      obtain ⟨inner, rfl⟩ := Expr.eq_name_of_access? haccess
      obtain ⟨_, hright, -⟩ := Option.map_eq_some_iff.1 haccess
      have hrefer := Collector.refer?_access hc left right
      rw [List.filterMap_append, refer?_of_accessed? hright, List.append_nil] at hparts ⊢
      rw [Option.bind_some, List.filterMap_cons, hrefer]
      dsimp only
      cases c.export? scope left right with
      | some key => rfl
      | none => exact hparts

end Collects

namespace Script

-- The induction is on the syntax, for all hidden names at once: where a function begins, the parts
-- are visited with the names of its parameters hidden too.
mutual

theorem Expr.collects (scope : Scope) (hidden : List String) : ∀ e : Expr,
    Collects scope hidden (e.visit scope) (e.occurrences hidden)
  | .name _ text => .reference text
  | .string span _ => .literal span
  | .leaf _ _ => .nothing
  | .group span form parts =>
      (Collects.literals span form).andThen (collects_exprs scope hidden parts)
  | .member _ object property =>
      (object.collects scope hidden).member (property.collects scope hidden)
  | .object _ properties => collects_properties scope hidden properties
  | .function _ _ code => code.collects scope hidden
  | .classBody _ members heritage =>
      (collects_members scope hidden members).andThen (collects_option scope hidden heritage)
  | .assign _ _ target value =>
      ((Collects.referenceAll target.boundNames).andThen (target.collects scope hidden)).andThen
        (value.collects scope hidden)

theorem collects_exprs (scope : Scope) (hidden : List String) : ∀ es,
    Collects scope hidden (visitExprs scope es) (occurrencesOfExprs hidden es)
  | [] => .nothing
  | e :: es => (e.collects scope hidden).andThen (collects_exprs scope hidden es)

theorem collects_option (scope : Scope) (hidden : List String) : ∀ value,
    Collects scope hidden (visitOption scope value) (occurrencesOfOption hidden value)
  | none => .nothing
  | some e => e.collects scope hidden

theorem PropertyKey.collects (scope : Scope) (hidden : List String) : ∀ key : PropertyKey,
    Collects scope hidden (key.visit scope) (key.occurrences hidden)
  | .name _ => .nothing
  | .string span _ => .literal span
  | .number => .nothing
  | .privateName _ => .nothing
  | .computed value => value.collects scope hidden

theorem Property.collects (scope : Scope) (hidden : List String) : ∀ property : Property,
    Collects scope hidden (property.visit scope) (property.occurrences hidden)
  | .shorthand _ text => .reference text
  | .keyed _ key value => (key.collects scope hidden).andThen (value.collects scope hidden)
  | .method _ key code => (key.collects scope hidden).andThen (code.collects scope hidden)
  | .setter _ key (.mk params body) =>
      .withParams (((key.collects scope _).andThen (collects_patterns scope _ params)).andThen
        (collects_stmts scope _ body))
  | .spread _ value => value.collects scope hidden
  | .initialized _ _ value => value.collects scope hidden

theorem collects_properties (scope : Scope) (hidden : List String) : ∀ properties,
    Collects scope hidden (visitProperties scope properties)
      (occurrencesOfProperties hidden properties)
  | [] => .nothing
  | property :: properties =>
      (property.collects scope hidden).andThen (collects_properties scope hidden properties)

theorem Function.collects (scope : Scope) (hidden : List String) : ∀ code : Function,
    Collects scope hidden (code.visit scope) (code.occurrences hidden)
  | .mk params body =>
      .withParams ((collects_patterns scope _ params).andThen (collects_stmts scope _ body))

theorem Pattern.collects (scope : Scope) (hidden : List String) : ∀ pattern : Pattern,
    Collects scope hidden (pattern.visit scope) (pattern.occurrences hidden)
  | .name _ _ => .nothing
  | .array elements => collects_patterns scope hidden elements
  | .object fields => collects_fields scope hidden fields
  | .rest pattern => pattern.collects scope hidden
  | .initialized pattern value =>
      (pattern.collects scope hidden).andThen (value.collects scope hidden)
  | .target value => value.collects scope hidden

theorem collects_patterns (scope : Scope) (hidden : List String) : ∀ patterns,
    Collects scope hidden (visitPatterns scope patterns) (occurrencesOfPatterns hidden patterns)
  | [] => .nothing
  | pattern :: patterns =>
      (pattern.collects scope hidden).andThen (collects_patterns scope hidden patterns)

theorem PatternField.collects (scope : Scope) (hidden : List String) : ∀ field : PatternField,
    Collects scope hidden (field.visit scope) (field.occurrences hidden)
  | .keyed key pattern => (key.collects scope hidden).andThen (pattern.collects scope hidden)
  | .rest pattern => pattern.collects scope hidden

theorem collects_fields (scope : Scope) (hidden : List String) : ∀ fields,
    Collects scope hidden (visitFields scope fields) (occurrencesOfFields hidden fields)
  | [] => .nothing
  | field :: fields =>
      (field.collects scope hidden).andThen (collects_fields scope hidden fields)

theorem ClassMember.collects (scope : Scope) (hidden : List String) : ∀ member : ClassMember,
    Collects scope hidden (member.visit scope) (member.occurrences hidden)
  | .method key code => (key.collects scope hidden).andThen (code.collects scope hidden)
  | .field key value => (key.collects scope hidden).andThen (collects_option scope hidden value)
  | .initializer body => collects_stmts scope hidden body

theorem collects_members (scope : Scope) (hidden : List String) : ∀ members,
    Collects scope hidden (visitMembers scope members) (occurrencesOfMembers hidden members)
  | [] => .nothing
  | member :: members =>
      (member.collects scope hidden).andThen (collects_members scope hidden members)

theorem Stmt.collects (scope : Scope) (hidden : List String) : ∀ stmt : Stmt,
    Collects scope hidden (stmt.visit scope) (stmt.occurrences hidden)
  | .expression _ value => value.collects scope hidden
  | .declaration _ declarators => collects_declarators scope hidden declarators
  | .function _ _ code => code.collects scope hidden
  | .classBody _ _ members heritage =>
      (collects_members scope hidden members).andThen (collects_option scope hidden heritage)
  | .group _ _ parts => collects_parts scope hidden parts

theorem collects_stmts (scope : Scope) (hidden : List String) : ∀ stmts,
    Collects scope hidden (visitStmts scope stmts) (occurrencesOfStmts hidden stmts)
  | [] => .nothing
  | stmt :: stmts => (stmt.collects scope hidden).andThen (collects_stmts scope hidden stmts)

theorem Declarator.collects (scope : Scope) (hidden : List String) : ∀ declarator : Declarator,
    Collects scope hidden (declarator.visit scope) (declarator.occurrences hidden)
  | .mk pattern value =>
      (pattern.collects scope hidden).andThen (collects_option scope hidden value)

theorem collects_declarators (scope : Scope) (hidden : List String) : ∀ declarators,
    Collects scope hidden (visitDeclarators scope declarators)
      (occurrencesOfDeclarators hidden declarators)
  | [] => .nothing
  | declarator :: declarators =>
      (declarator.collects scope hidden).andThen (collects_declarators scope hidden declarators)

theorem Part.collects (scope : Scope) (hidden : List String) : ∀ part : Part,
    Collects scope hidden (part.visit scope) (part.occurrences hidden)
  | .expression value => value.collects scope hidden
  | .statement stmt => stmt.collects scope hidden
  | .binding pattern => pattern.collects scope hidden
  | .target pattern =>
      (Collects.referenceAll pattern.boundNames).andThen (pattern.collects scope hidden)

theorem collects_parts (scope : Scope) (hidden : List String) : ∀ parts,
    Collects scope hidden (visitParts scope parts) (occurrencesOfParts hidden parts)
  | [] => .nothing
  | part :: parts => (part.collects scope hidden).andThen (collects_parts scope hidden parts)

end

end Script

/-- The pass over a value finds its dependencies in their order, and behind it the same names are
bound as in front of it. -/
theorem Scope.collect_eq (scope : Scope) (value : Expr) :
    scope.collect value = ⟨scope.bound, scope.dependencies value⟩ := by
  have hvisible : scope.bound = scope.visible [] := Finset.sdiff_empty.symm
  rw [collect, value.collects scope [] _ hvisible, Collector.addAll_eq, dependencies]
  simp

end ModuleLinker
