/-
# ModuleLinker.Proofs.Position -- occurrences are positions

`Expr.occurrences` lists what a tree mentions. This module says the same without lists: a position
is a node that can be reached from the root by going down one part at a time (`Reaches`), and on the
way it collects the parameter lists of the functions that it enters. What is mentioned at a
position can be read off the node alone (`Refers`, `Accesses`), and the names hidden there are the
ones that the collected parameters bind.

The two descriptions agree. `exists_stands` finds the position of an occurrence, and
`Stands.mem_of_reference` and `Reaches.mem_of_access` lead back. They differ in one point only: the
object of a member access between written names is a position of its own, but no occurrence besides
that of the access (`Reaches.exists_subject`).
-/

import ModuleLinker.Script.Occurrence

namespace ModuleLinker.Script

/-! ## Bound names -/

/-- A pattern binds a name. -/
inductive Pattern.Binds : Pattern → String → Prop
  | name {span : Span} {text : String} : Binds (.name span text) text
  | array {elements : List Pattern} {pattern : Pattern} {text : String} :
      pattern ∈ elements → Binds pattern text → Binds (.array elements) text
  | keyed {fields : List PatternField} {key : PropertyKey} {pattern : Pattern} {text : String} :
      PatternField.keyed key pattern ∈ fields → Binds pattern text → Binds (.object fields) text
  | restField {fields : List PatternField} {pattern : Pattern} {text : String} :
      PatternField.rest pattern ∈ fields → Binds pattern text → Binds (.object fields) text
  | rest {pattern : Pattern} {text : String} : Binds pattern text → Binds (.rest pattern) text
  | initialized {pattern : Pattern} {value : Expr} {text : String} :
      Binds pattern text → Binds (.initialized pattern value) text

theorem mem_boundNamesOfList {text : String} {patterns : List Pattern} :
    text ∈ boundNamesOfList patterns ↔ ∃ pattern ∈ patterns, text ∈ pattern.boundNames := by
  induction patterns with
  | nil => simp [boundNamesOfList]
  | cons pattern patterns ih => simp [boundNamesOfList, ih]

/-- The pattern in a field. -/
def PatternField.pattern : PatternField → Pattern
  | .keyed _ pattern => pattern
  | .rest pattern => pattern

theorem mem_boundNamesOfFields {text : String} {fields : List PatternField} :
    text ∈ boundNamesOfFields fields ↔ ∃ field ∈ fields, text ∈ field.pattern.boundNames := by
  induction fields with
  | nil => simp [boundNamesOfFields]
  | cons field fields ih =>
      cases field <;> simp [boundNamesOfFields, PatternField.pattern, ih]

theorem Pattern.Binds.mem_boundNames {pattern : Pattern} {text : String}
    (h : pattern.Binds text) : text ∈ pattern.boundNames := by
  induction h with
  | name => simp [Pattern.boundNames]
  | array hmem _ ih => exact mem_boundNamesOfList.2 ⟨_, hmem, ih⟩
  | keyed hmem _ ih => exact mem_boundNamesOfFields.2 ⟨_, hmem, ih⟩
  | restField hmem _ ih => exact mem_boundNamesOfFields.2 ⟨_, hmem, ih⟩
  | rest _ ih => simpa [Pattern.boundNames] using ih
  | initialized _ ih => simpa [Pattern.boundNames] using ih

mutual

theorem Pattern.binds_of_mem_boundNames {text : String} :
    ∀ {pattern : Pattern}, text ∈ pattern.boundNames → pattern.Binds text
  | .name _ _, h => by
      obtain rfl : text = _ := by simpa [Pattern.boundNames] using h
      exact .name
  | .array _, h => by
      obtain ⟨pattern, hmem, hbinds⟩ := binds_of_mem_boundNamesOfList h
      exact .array hmem hbinds
  | .object _, h => by
      obtain ⟨field, hmem, hbinds⟩ := binds_of_mem_boundNamesOfFields h
      cases field with
      | keyed key pattern => exact .keyed hmem hbinds
      | rest pattern => exact .restField hmem hbinds
  | .rest _, h => .rest (Pattern.binds_of_mem_boundNames (by simpa [Pattern.boundNames] using h))
  | .initialized _ _, h =>
      .initialized (Pattern.binds_of_mem_boundNames (by simpa [Pattern.boundNames] using h))
  | .target _, h => by simp [Pattern.boundNames] at h

theorem binds_of_mem_boundNamesOfList {text : String} :
    ∀ {patterns : List Pattern}, text ∈ boundNamesOfList patterns →
      ∃ pattern ∈ patterns, pattern.Binds text
  | [], h => by simp [boundNamesOfList] at h
  | pattern :: patterns, h => by
      rw [boundNamesOfList, List.mem_append] at h
      rcases h with h | h
      · exact ⟨pattern, by simp, Pattern.binds_of_mem_boundNames h⟩
      · obtain ⟨other, hmem, hbinds⟩ := binds_of_mem_boundNamesOfList h
        exact ⟨other, by simp [hmem], hbinds⟩

theorem binds_of_mem_boundNamesOfFields {text : String} :
    ∀ {fields : List PatternField}, text ∈ boundNamesOfFields fields →
      ∃ field ∈ fields, field.pattern.Binds text
  | [], h => by simp [boundNamesOfFields] at h
  | .keyed key pattern :: fields, h => by
      rw [boundNamesOfFields, List.mem_append] at h
      rcases h with h | h
      · exact ⟨.keyed key pattern, by simp, Pattern.binds_of_mem_boundNames h⟩
      · obtain ⟨other, hmem, hbinds⟩ := binds_of_mem_boundNamesOfFields h
        exact ⟨other, by simp [hmem], hbinds⟩
  | .rest pattern :: fields, h => by
      rw [boundNamesOfFields, List.mem_append] at h
      rcases h with h | h
      · exact ⟨.rest pattern, by simp, Pattern.binds_of_mem_boundNames h⟩
      · obtain ⟨other, hmem, hbinds⟩ := binds_of_mem_boundNamesOfFields h
        exact ⟨other, by simp [hmem], hbinds⟩

end

/-- `boundNames` lists the names that a pattern binds. -/
theorem mem_boundNames_iff {pattern : Pattern} {text : String} :
    text ∈ pattern.boundNames ↔ pattern.Binds text :=
  ⟨Pattern.binds_of_mem_boundNames, Pattern.Binds.mem_boundNames⟩

/-! ## Nodes -/

/-- A node of a syntax tree. Patterns are told apart by whether they are assigned to. -/
inductive Node where
  | expr (e : Expr)
  | key (key : PropertyKey)
  | property (property : Property)
  | code (code : Function)
  | pattern (assigned : Bool) (pattern : Pattern)
  | member (member : ClassMember)
  | stmt (stmt : Stmt)
  | declarator (declarator : Declarator)
  | part (part : Part)

/-- A parameter list that the way to a position passes. The way leads to the parameters and the
body of the function, or to the key in front of them. -/
structure Enclosure where
  params : List Pattern
  toKey : Bool

/-- One of the parameters binds the name. -/
def Enclosure.Binds (enclosure : Enclosure) (text : String) : Prop :=
  ∃ pattern ∈ enclosure.params, pattern.Binds text

/-- One step down in a tree, with the parameter list that it passes, if any. The key of a setter is
the only one that is reached past parameters. -/
inductive Child : Node → List Enclosure → Node → Prop
  | groupPart {span : Span} {form : Form} {parts : List Expr} {e : Expr} :
      e ∈ parts → Child (.expr (.group span form parts)) [] (.expr e)
  | memberObject {span : Span} {object : Expr} {key : PropertyKey} :
      Child (.expr (.member span object key)) [] (.expr object)
  | memberKey {span : Span} {object : Expr} {key : PropertyKey} :
      Child (.expr (.member span object key)) [] (.key key)
  | objectProperty {span : Span} {properties : List Property} {property : Property} :
      property ∈ properties → Child (.expr (.object span properties)) [] (.property property)
  | functionCode {span : Span} {arrow : Bool} {code : Function} :
      Child (.expr (.function span arrow code)) [] (.code code)
  | classMember {span : Span} {members : List ClassMember} {heritage : Option Expr}
      {member : ClassMember} :
      member ∈ members → Child (.expr (.classBody span members heritage)) [] (.member member)
  | classHeritage {span : Span} {members : List ClassMember} {e : Expr} :
      Child (.expr (.classBody span members (some e))) [] (.expr e)
  | assignTarget {span : Span} {plain : Bool} {target : Pattern} {value : Expr} :
      Child (.expr (.assign span plain target value)) [] (.pattern true target)
  | assignValue {span : Span} {plain : Bool} {target : Pattern} {value : Expr} :
      Child (.expr (.assign span plain target value)) [] (.expr value)
  | computedKey {e : Expr} : Child (.key (.computed e)) [] (.expr e)
  | keyedKey {span : Span} {key : PropertyKey} {value : Expr} :
      Child (.property (.keyed span key value)) [] (.key key)
  | keyedValue {span : Span} {key : PropertyKey} {value : Expr} :
      Child (.property (.keyed span key value)) [] (.expr value)
  | methodKey {span : Span} {key : PropertyKey} {code : Function} :
      Child (.property (.method span key code)) [] (.key key)
  | methodCode {span : Span} {key : PropertyKey} {code : Function} :
      Child (.property (.method span key code)) [] (.code code)
  | setterKey {span : Span} {key : PropertyKey} {params : List Pattern} {body : List Stmt} :
      Child (.property (.setter span key (.mk params body))) [⟨params, true⟩] (.key key)
  | setterCode {span : Span} {key : PropertyKey} {code : Function} :
      Child (.property (.setter span key code)) [] (.code code)
  | spreadValue {span : Span} {value : Expr} :
      Child (.property (.spread span value)) [] (.expr value)
  | initializedValue {span : Span} {name : String} {value : Expr} :
      Child (.property (.initialized span name value)) [] (.expr value)
  | param {params : List Pattern} {body : List Stmt} {pattern : Pattern} :
      pattern ∈ params →
      Child (.code (.mk params body)) [⟨params, false⟩] (.pattern false pattern)
  | body {params : List Pattern} {body : List Stmt} {stmt : Stmt} :
      stmt ∈ body → Child (.code (.mk params body)) [⟨params, false⟩] (.stmt stmt)
  | arrayElement {assigned : Bool} {elements : List Pattern} {pattern : Pattern} :
      pattern ∈ elements →
      Child (.pattern assigned (.array elements)) [] (.pattern assigned pattern)
  | fieldKey {assigned : Bool} {fields : List PatternField} {key : PropertyKey}
      {pattern : Pattern} :
      PatternField.keyed key pattern ∈ fields →
      Child (.pattern assigned (.object fields)) [] (.key key)
  | fieldPattern {assigned : Bool} {fields : List PatternField} {field : PatternField} :
      field ∈ fields →
      Child (.pattern assigned (.object fields)) [] (.pattern assigned field.pattern)
  | restPattern {assigned : Bool} {pattern : Pattern} :
      Child (.pattern assigned (.rest pattern)) [] (.pattern assigned pattern)
  | initializedPattern {assigned : Bool} {pattern : Pattern} {value : Expr} :
      Child (.pattern assigned (.initialized pattern value)) [] (.pattern assigned pattern)
  | initialValue {assigned : Bool} {pattern : Pattern} {value : Expr} :
      Child (.pattern assigned (.initialized pattern value)) [] (.expr value)
  | targetValue {assigned : Bool} {value : Expr} :
      Child (.pattern assigned (.target value)) [] (.expr value)
  | memberMethodKey {key : PropertyKey} {code : Function} :
      Child (.member (.method key code)) [] (.key key)
  | memberMethodCode {key : PropertyKey} {code : Function} :
      Child (.member (.method key code)) [] (.code code)
  | memberFieldKey {key : PropertyKey} {value : Option Expr} :
      Child (.member (.field key value)) [] (.key key)
  | memberFieldValue {key : PropertyKey} {value : Expr} :
      Child (.member (.field key (some value))) [] (.expr value)
  | memberInitializer {body : List Stmt} {stmt : Stmt} :
      stmt ∈ body → Child (.member (.initializer body)) [] (.stmt stmt)
  | expressionStmt {span : Span} {value : Expr} :
      Child (.stmt (.expression span value)) [] (.expr value)
  | declarationStmt {span : Span} {declarators : List Declarator} {declarator : Declarator} :
      declarator ∈ declarators →
      Child (.stmt (.declaration span declarators)) [] (.declarator declarator)
  | functionStmt {span : Span} {name : String} {code : Function} :
      Child (.stmt (.function span name code)) [] (.code code)
  | classStmtMember {span : Span} {name : String} {members : List ClassMember}
      {heritage : Option Expr} {member : ClassMember} :
      member ∈ members →
      Child (.stmt (.classBody span name members heritage)) [] (.member member)
  | classStmtHeritage {span : Span} {name : String} {members : List ClassMember} {e : Expr} :
      Child (.stmt (.classBody span name members (some e))) [] (.expr e)
  | stmtPart {span : Span} {layout : Layout} {parts : List Part} {part : Part} :
      part ∈ parts → Child (.stmt (.group span layout parts)) [] (.part part)
  | declaredPattern {pattern : Pattern} {value : Option Expr} :
      Child (.declarator (.mk pattern value)) [] (.pattern false pattern)
  | declaredValue {pattern : Pattern} {value : Expr} :
      Child (.declarator (.mk pattern (some value))) [] (.expr value)
  | partExpression {value : Expr} : Child (.part (.expression value)) [] (.expr value)
  | partStatement {stmt : Stmt} : Child (.part (.statement stmt)) [] (.stmt stmt)
  | partBinding {pattern : Pattern} : Child (.part (.binding pattern)) [] (.pattern false pattern)
  | partTarget {pattern : Pattern} : Child (.part (.target pattern)) [] (.pattern true pattern)

/-- The way from a root down to a node, with the parameter lists that it passes, the innermost
first. -/
inductive Reaches (root : Node) : List Enclosure → Node → Prop
  | here : Reaches root [] root
  | down {above passed : List Enclosure} {node child : Node} :
      Reaches root above node → Child node passed child → Reaches root (passed ++ above) child

/-- What a node mentions by itself. A name is referred to by an identifier expression, by a
shorthand of an object literal, and where it is assigned to: by itself, inside a pattern, or in the
head of a loop. -/
inductive Mentions : Node → Mention → Prop
  | name {span : Span} {text : String} : Mentions (.expr (.name span text)) (.reference text)
  | shorthand {span : Span} {text : String} :
      Mentions (.property (.shorthand span text)) (.reference text)
  | target {span : Span} {text : String} :
      Mentions (.pattern true (.name span text)) (.reference text)
  | point {span inner : Span} {left right : String} :
      Mentions (.expr (.member span (.name inner left) (.name right))) (.access left right)
  | brackets {span inner quoted : Span} {left right : String} :
      Mentions (.expr (.member span (.name inner left) (.computed (.string quoted right))))
        (.access left right)
  | string {span : Span} {value : String} : Mentions (.expr (.string span value)) (.literal span)
  | template {span : Span} {parts : List Expr} :
      Mentions (.expr (.group span .template parts)) (.literal span)
  | keyString {span : Span} {value : String} :
      Mentions (.key (.string span value)) (.literal span)

theorem Reaches.single {node child : Node} {passed : List Enclosure} (h : Child node passed child) :
    Reaches node passed child := by
  simpa using Reaches.here.down h

/-- A way may also be extended at its root. -/
theorem Reaches.head {root child node : Node} {passed above : List Enclosure}
    (hchild : Child root passed child) (h : Reaches child above node) :
    Reaches root (above ++ passed) node := by
  induction h with
  | here => exact .single hchild
  | down _ hstep ih => simpa [List.append_assoc] using ih.down hstep

/-! ## Occurrences of nodes -/

/-- What a node and everything below it mentions. -/
def Node.occurrences (hidden : List String) : Node → List Occurrence
  | .expr e => e.occurrences hidden
  | .key k => k.occurrences hidden
  | .property p => p.occurrences hidden
  | .code f => f.occurrences hidden
  | .pattern assigned p =>
    (if assigned then references hidden p.boundNames else []) ++ p.occurrences hidden
  | .member m => m.occurrences hidden
  | .stmt s => s.occurrences hidden
  | .declarator d => d.occurrences hidden
  | .part p => p.occurrences hidden

/-- The names that parameter lists hide. -/
def hiddenNames (enclosures : List Enclosure) : List String :=
  enclosures.flatMap fun enclosure => boundNamesOfList enclosure.params

@[simp] theorem hiddenNames_nil : hiddenNames [] = [] := rfl

@[simp] theorem hiddenNames_singleton (params : List Pattern) (toKey : Bool) :
    hiddenNames [⟨params, toKey⟩] = boundNamesOfList params := by
  simp [hiddenNames]

@[simp] theorem hiddenNames_append (inner outer : List Enclosure) :
    hiddenNames (inner ++ outer) = hiddenNames inner ++ hiddenNames outer := by
  simp [hiddenNames]

theorem mem_hiddenNames {text : String} {enclosures : List Enclosure} :
    text ∈ hiddenNames enclosures ↔ ∃ enclosure ∈ enclosures, enclosure.Binds text := by
  simp only [hiddenNames, List.mem_flatMap, mem_boundNamesOfList, mem_boundNames_iff,
    Enclosure.Binds]

variable {hidden : List String} {occurrence : Occurrence}

@[simp] theorem mem_references {names : List String} :
    occurrence ∈ references hidden names ↔
      ∃ text ∈ names, occurrence = ⟨.reference text, hidden⟩ := by
  simp only [references, List.mem_map, eq_comm]

theorem mem_occurrencesOfExprs {es : List Expr} :
    occurrence ∈ occurrencesOfExprs hidden es ↔ ∃ e ∈ es, occurrence ∈ e.occurrences hidden := by
  induction es with
  | nil => simp [occurrencesOfExprs]
  | cons e es ih => simp [occurrencesOfExprs, ih]

theorem mem_occurrencesOfOption {e : Option Expr} :
    occurrence ∈ occurrencesOfOption hidden e ↔
      ∃ value, e = some value ∧ occurrence ∈ value.occurrences hidden := by
  cases e <;> simp [occurrencesOfOption]

theorem mem_occurrencesOfProperties {properties : List Property} :
    occurrence ∈ occurrencesOfProperties hidden properties ↔
      ∃ property ∈ properties, occurrence ∈ property.occurrences hidden := by
  induction properties with
  | nil => simp [occurrencesOfProperties]
  | cons property properties ih => simp [occurrencesOfProperties, ih]

theorem mem_occurrencesOfPatterns {patterns : List Pattern} :
    occurrence ∈ occurrencesOfPatterns hidden patterns ↔
      ∃ pattern ∈ patterns, occurrence ∈ pattern.occurrences hidden := by
  induction patterns with
  | nil => simp [occurrencesOfPatterns]
  | cons pattern patterns ih => simp [occurrencesOfPatterns, ih]

theorem mem_occurrencesOfFields {fields : List PatternField} :
    occurrence ∈ occurrencesOfFields hidden fields ↔
      (∃ key pattern, PatternField.keyed key pattern ∈ fields ∧
        occurrence ∈ key.occurrences hidden) ∨
      ∃ field ∈ fields, occurrence ∈ field.pattern.occurrences hidden := by
  induction fields with
  | nil => simp [occurrencesOfFields]
  | cons field fields ih =>
      cases field with
      | keyed key pattern =>
          simp only [occurrencesOfFields, PatternField.occurrences, List.mem_append, ih,
            List.mem_cons, PatternField.keyed.injEq, exists_eq_or_imp, PatternField.pattern]
          grind
      | rest pattern =>
          simp only [occurrencesOfFields, PatternField.occurrences, List.mem_append, ih,
            List.mem_cons, reduceCtorEq, false_or, exists_eq_or_imp, PatternField.pattern]
          grind

theorem mem_occurrencesOfMembers {members : List ClassMember} :
    occurrence ∈ occurrencesOfMembers hidden members ↔
      ∃ member ∈ members, occurrence ∈ member.occurrences hidden := by
  induction members with
  | nil => simp [occurrencesOfMembers]
  | cons member members ih => simp [occurrencesOfMembers, ih]

theorem mem_occurrencesOfStmts {stmts : List Stmt} :
    occurrence ∈ occurrencesOfStmts hidden stmts ↔
      ∃ stmt ∈ stmts, occurrence ∈ stmt.occurrences hidden := by
  induction stmts with
  | nil => simp [occurrencesOfStmts]
  | cons stmt stmts ih => simp [occurrencesOfStmts, ih]

theorem mem_occurrencesOfDeclarators {declarators : List Declarator} :
    occurrence ∈ occurrencesOfDeclarators hidden declarators ↔
      ∃ declarator ∈ declarators, occurrence ∈ declarator.occurrences hidden := by
  induction declarators with
  | nil => simp [occurrencesOfDeclarators]
  | cons declarator declarators ih => simp [occurrencesOfDeclarators, ih]

theorem mem_occurrencesOfParts {parts : List Part} :
    occurrence ∈ occurrencesOfParts hidden parts ↔
      ∃ part ∈ parts, occurrence ∈ part.occurrences hidden := by
  induction parts with
  | nil => simp [occurrencesOfParts]
  | cons part parts ih => simp [occurrencesOfParts, ih]

/-! ## One step -/

section Step

attribute [local simp] mem_occurrencesOfExprs mem_occurrencesOfOption mem_occurrencesOfProperties
  mem_occurrencesOfPatterns mem_occurrencesOfFields mem_occurrencesOfMembers
  mem_occurrencesOfStmts mem_occurrencesOfDeclarators mem_occurrencesOfParts
  mem_boundNamesOfList mem_boundNamesOfFields

attribute [local simp] Node.occurrences Expr.occurrences PropertyKey.occurrences
  Property.occurrences Function.occurrences Pattern.occurrences
  ClassMember.occurrences Stmt.occurrences Declarator.occurrences
  Part.occurrences Pattern.boundNames

theorem Mentions.mem_occurrences {node : Node} {mention : Mention} (h : Mentions node mention) :
    ⟨mention, hidden⟩ ∈ node.occurrences hidden := by
  cases h <;> simp [Form.literals, Expr.access?, PropertyKey.accessed?]

theorem mentions_access_of_accessed? {span inner : Span} {key : PropertyKey} {left right : String}
    (h : key.accessed? = some right) :
    Mentions (.expr (.member span (.name inner left) key)) (.access left right) := by
  unfold PropertyKey.accessed? at h
  split at h <;> simp only [Option.some.injEq, reduceCtorEq] at h
  · exact h ▸ .point
  · exact h ▸ .brackets

theorem Expr.eq_name_of_access? {span : Span} {object : Expr} {key : PropertyKey}
    {left right : String} (h : (Expr.member span object key).access? = some (left, right)) :
    ∃ inner, object = .name inner left := by
  cases object with
  | name inner text =>
      simp only [Expr.access?, Option.map_eq_some_iff, Prod.mk.injEq] at h
      obtain ⟨_, _, rfl, _⟩ := h
      exact ⟨inner, rfl⟩
  | _ => simp [Expr.access?] at h

/-- What a part mentions, the whole mentions too, unless the part is the object of a member access
between written names. -/
theorem Child.lift_of_not_object {node child : Node} {passed : List Enclosure}
    (h : Child node passed child)
    (hobject : ∀ left right span text, Mentions node (.access left right) →
      child ≠ .expr (.name span text))
    (hmem : occurrence ∈ child.occurrences (hiddenNames passed ++ hidden)) :
    occurrence ∈ node.occurrences hidden := by
  cases h with
  | @memberObject span object key =>
      cases haccess : (Expr.member span object key).access? with
      | none => simpa [haccess] using .inl hmem
      | some names =>
          obtain ⟨inner, rfl⟩ := Expr.eq_name_of_access? haccess
          obtain ⟨right, hkey, -⟩ := Option.map_eq_some_iff.1 haccess
          exact absurd rfl (hobject _ _ _ _ (mentions_access_of_accessed? hkey))
  | @setterCode span key code =>
      obtain ⟨params, body⟩ := code
      simp at hmem ⊢
      grind
  | _ =>
      simp at hmem ⊢
      grind

/-- What a part mentions, the whole mentions too; only the object of a member access between
written names counts as the access. -/
theorem Child.lift {node child : Node} {passed : List Enclosure} (h : Child node passed child)
    (hmem : occurrence ∈ child.occurrences (hiddenNames passed ++ hidden)) :
    occurrence ∈ node.occurrences hidden ∨
      ∃ left right, occurrence.mention = .reference left ∧
        ⟨.access left right, occurrence.hidden⟩ ∈ node.occurrences hidden := by
  by_cases hobject : ∃ left right span text, Mentions node (.access left right) ∧
      child = .expr (.name span text)
  · obtain ⟨left, right, span, text, hmentions, rfl⟩ := hobject
    have haccess : ⟨.access left right, hidden⟩ ∈ node.occurrences hidden :=
      hmentions.mem_occurrences
    cases hmentions <;> cases h
    all_goals
      obtain rfl : occurrence = ⟨.reference _, hidden⟩ := by simpa using hmem
      exact .inr ⟨_, _, rfl, haccess⟩
  · refine .inl (h.lift_of_not_object ?_ hmem)
    intro left right span text hmentions heq
    exact hobject ⟨left, right, span, text, hmentions, heq⟩

/-- An occurrence is mentioned by the node itself or belongs to one of its parts. -/
def Splits (node : Node) (hidden : List String) (occurrence : Occurrence) : Prop :=
  (Mentions node occurrence.mention ∧ occurrence.hidden = hidden) ∨
    ∃ passed child, Child node passed child ∧
      occurrence ∈ child.occurrences (hiddenNames passed ++ hidden)

theorem splits_expr {e : Expr} (h : occurrence ∈ e.occurrences hidden) :
    Splits (.expr e) hidden occurrence := by
  cases e with
  | name span text =>
      obtain rfl : occurrence = ⟨.reference text, hidden⟩ := by simpa using h
      exact .inl ⟨.name, rfl⟩
  | string span value =>
      obtain rfl : occurrence = ⟨.literal span, hidden⟩ := by simpa using h
      exact .inl ⟨.string, rfl⟩
  | leaf span kind => simp at h
  | group span form parts =>
      rw [Expr.occurrences, List.mem_append, mem_occurrencesOfExprs] at h
      rcases h with h | ⟨e, hpart, hmem⟩
      · cases form with
        | template =>
            obtain rfl : occurrence = ⟨.literal span, hidden⟩ := by simpa [Form.literals] using h
            exact .inl ⟨.template, rfl⟩
        | _ => simp [Form.literals] at h
      · exact .inr ⟨_, _, .groupPart hpart, hmem⟩
  -- A member that is an access is mentioned as a whole; of any other, the object is searched.
  | member span object key =>
      rw [Expr.occurrences, List.mem_append] at h
      rcases h with h | h
      · cases haccess : (Expr.member span object key).access? with
        | none =>
            rw [haccess] at h
            exact .inr ⟨_, _, .memberObject, h⟩
        | some names =>
            obtain ⟨left, right⟩ := names
            obtain rfl : occurrence = ⟨.access left right, hidden⟩ := by simpa [haccess] using h
            obtain ⟨inner, rfl⟩ := Expr.eq_name_of_access? haccess
            obtain ⟨_, hkey, heq⟩ := Option.map_eq_some_iff.1 haccess
            obtain ⟨-, rfl⟩ := Prod.mk.inj heq
            exact .inl ⟨mentions_access_of_accessed? hkey, rfl⟩
      · exact .inr ⟨_, _, .memberKey, h⟩
  | object span properties =>
      obtain ⟨property, hproperty, hmem⟩ := mem_occurrencesOfProperties.1 h
      exact .inr ⟨_, _, .objectProperty hproperty, hmem⟩
  | function span arrow code => exact .inr ⟨_, _, .functionCode, h⟩
  | classBody span members heritage =>
      rw [Expr.occurrences, List.mem_append, mem_occurrencesOfMembers,
        mem_occurrencesOfOption] at h
      rcases h with ⟨member, hmember, hmem⟩ | ⟨e, rfl, hmem⟩
      · exact .inr ⟨_, _, .classMember hmember, hmem⟩
      · exact .inr ⟨_, _, .classHeritage, hmem⟩
  | assign span plain target value =>
      rw [Expr.occurrences, List.mem_append] at h
      rcases h with h | h
      · exact .inr ⟨_, _, .assignTarget, by simpa using h⟩
      · exact .inr ⟨_, _, .assignValue, h⟩

theorem splits_key {key : PropertyKey} (h : occurrence ∈ key.occurrences hidden) :
    Splits (.key key) hidden occurrence := by
  cases key with
  | string span value =>
      obtain rfl : occurrence = ⟨.literal span, hidden⟩ := by simpa using h
      exact .inl ⟨.keyString, rfl⟩
  | computed e => exact .inr ⟨_, _, .computedKey, h⟩
  | _ => simp at h

theorem splits_code {code : Function} (h : occurrence ∈ code.occurrences hidden) :
    Splits (.code code) hidden occurrence := by
  obtain ⟨params, body⟩ := code
  rw [Function.occurrences, List.mem_append, mem_occurrencesOfPatterns,
    mem_occurrencesOfStmts] at h
  rcases h with ⟨pattern, hpattern, hmem⟩ | ⟨stmt, hstmt, hmem⟩
  · exact .inr ⟨_, _, .param hpattern, by simpa using hmem⟩
  · exact .inr ⟨_, _, .body hstmt, by simpa using hmem⟩

theorem splits_property {property : Property} (h : occurrence ∈ property.occurrences hidden) :
    Splits (.property property) hidden occurrence := by
  cases property with
  | shorthand span text =>
      obtain rfl : occurrence = ⟨.reference text, hidden⟩ := by simpa using h
      exact .inl ⟨.shorthand, rfl⟩
  | keyed span key value =>
      rw [Property.occurrences, List.mem_append] at h
      rcases h with h | h
      · exact .inr ⟨_, _, .keyedKey, h⟩
      · exact .inr ⟨_, _, .keyedValue, h⟩
  | method span key code =>
      rw [Property.occurrences, List.mem_append] at h
      rcases h with h | h
      · exact .inr ⟨_, _, .methodKey, h⟩
      · exact .inr ⟨_, _, .methodCode, h⟩
  | setter span key code =>
      obtain ⟨params, body⟩ := code
      rw [Property.occurrences, List.append_assoc, List.mem_append] at h
      rcases h with h | h
      · exact .inr ⟨_, _, .setterKey, by simpa using h⟩
      · exact .inr ⟨_, _, .setterCode, by simpa using h⟩
  | spread span value => exact .inr ⟨_, _, .spreadValue, h⟩
  | initialized span name value => exact .inr ⟨_, _, .initializedValue, h⟩

theorem splits_pattern {assigned : Bool} {pattern : Pattern}
    (h : occurrence ∈ (Node.pattern assigned pattern).occurrences hidden) :
    Splits (.pattern assigned pattern) hidden occurrence := by
  cases pattern with
  | name span text =>
      obtain ⟨rfl, rfl⟩ : assigned = true ∧ occurrence = ⟨.reference text, hidden⟩ := by
        simpa using h
      exact .inl ⟨.target, rfl⟩
  | array elements =>
      obtain ⟨pattern, hpattern, hmem⟩ : ∃ pattern ∈ elements,
          occurrence ∈ (Node.pattern assigned pattern).occurrences hidden := by
        simp at h ⊢
        grind
      exact .inr ⟨_, _, .arrayElement hpattern, hmem⟩
  | object fields =>
      have hsplit : (∃ key pattern, PatternField.keyed key pattern ∈ fields ∧
            occurrence ∈ key.occurrences hidden) ∨
          ∃ field ∈ fields,
            occurrence ∈ (Node.pattern assigned field.pattern).occurrences hidden := by
        simp at h ⊢
        grind
      rcases hsplit with ⟨key, pattern, hfield, hmem⟩ | ⟨field, hfield, hmem⟩
      · exact .inr ⟨_, _, .fieldKey hfield, hmem⟩
      · exact .inr ⟨_, _, .fieldPattern hfield, hmem⟩
  | rest pattern => exact .inr ⟨_, _, .restPattern, h⟩
  | initialized pattern value =>
      rw [Node.occurrences, Pattern.occurrences, ← List.append_assoc, List.mem_append] at h
      rcases h with h | h
      · exact .inr ⟨_, _, .initializedPattern, h⟩
      · exact .inr ⟨_, _, .initialValue, h⟩
  | target value => exact .inr ⟨_, _, .targetValue, by simpa using h⟩

theorem splits_member {member : ClassMember} (h : occurrence ∈ member.occurrences hidden) :
    Splits (.member member) hidden occurrence := by
  cases member with
  | method key code =>
      rw [ClassMember.occurrences, List.mem_append] at h
      rcases h with h | h
      · exact .inr ⟨_, _, .memberMethodKey, h⟩
      · exact .inr ⟨_, _, .memberMethodCode, h⟩
  | field key value =>
      rw [ClassMember.occurrences, List.mem_append, mem_occurrencesOfOption] at h
      rcases h with h | ⟨value, rfl, h⟩
      · exact .inr ⟨_, _, .memberFieldKey, h⟩
      · exact .inr ⟨_, _, .memberFieldValue, h⟩
  | initializer body =>
      obtain ⟨stmt, hstmt, hmem⟩ := mem_occurrencesOfStmts.1 h
      exact .inr ⟨_, _, .memberInitializer hstmt, hmem⟩

theorem splits_stmt {stmt : Stmt} (h : occurrence ∈ stmt.occurrences hidden) :
    Splits (.stmt stmt) hidden occurrence := by
  cases stmt with
  | expression span value => exact .inr ⟨_, _, .expressionStmt, h⟩
  | declaration span declarators =>
      obtain ⟨declarator, hdeclarator, hmem⟩ := mem_occurrencesOfDeclarators.1 h
      exact .inr ⟨_, _, .declarationStmt hdeclarator, hmem⟩
  | function span name code => exact .inr ⟨_, _, .functionStmt, h⟩
  | classBody span name members heritage =>
      rw [Stmt.occurrences, List.mem_append, mem_occurrencesOfMembers,
        mem_occurrencesOfOption] at h
      rcases h with ⟨member, hmember, hmem⟩ | ⟨e, rfl, hmem⟩
      · exact .inr ⟨_, _, .classStmtMember hmember, hmem⟩
      · exact .inr ⟨_, _, .classStmtHeritage, hmem⟩
  | group span layout parts =>
      obtain ⟨part, hpart, hmem⟩ := mem_occurrencesOfParts.1 h
      exact .inr ⟨_, _, .stmtPart hpart, hmem⟩

theorem splits_declarator {declarator : Declarator}
    (h : occurrence ∈ declarator.occurrences hidden) :
    Splits (.declarator declarator) hidden occurrence := by
  obtain ⟨pattern, value⟩ := declarator
  rw [Declarator.occurrences, List.mem_append, mem_occurrencesOfOption] at h
  rcases h with h | ⟨value, rfl, h⟩
  · exact .inr ⟨_, _, .declaredPattern, h⟩
  · exact .inr ⟨_, _, .declaredValue, h⟩

theorem splits_part {part : Part} (h : occurrence ∈ part.occurrences hidden) :
    Splits (.part part) hidden occurrence := by
  cases part with
  | expression value => exact .inr ⟨_, _, .partExpression, h⟩
  | statement stmt => exact .inr ⟨_, _, .partStatement, h⟩
  | binding pattern => exact .inr ⟨_, _, .partBinding, h⟩
  | target pattern => exact .inr ⟨_, _, .partTarget, h⟩

theorem Node.splits {node : Node} (h : occurrence ∈ node.occurrences hidden) :
    Splits node hidden occurrence := by
  cases node with
  | expr e => exact splits_expr h
  | key key => exact splits_key h
  | property property => exact splits_property h
  | code code => exact splits_code h
  | pattern assigned pattern => exact splits_pattern h
  | member member => exact splits_member h
  | stmt stmt => exact splits_stmt h
  | declarator declarator => exact splits_declarator h
  | part part => exact splits_part h

end Step

/-! ## Ways through a tree -/

theorem PatternField.sizeOf_pattern_lt (field : PatternField) :
    sizeOf field.pattern < sizeOf field := by
  cases field with
  | keyed key pattern =>
      simp only [PatternField.pattern, PatternField.keyed.sizeOf_spec]
      omega
  | rest pattern =>
      simp only [PatternField.pattern, PatternField.rest.sizeOf_spec]
      omega

/-- The size of what stands at a node. -/
noncomputable def Node.size : Node → Nat
  | .expr e => sizeOf e
  | .key k => sizeOf k
  | .property p => sizeOf p
  | .code f => sizeOf f
  | .pattern _ p => sizeOf p
  | .member m => sizeOf m
  | .stmt s => sizeOf s
  | .declarator d => sizeOf d
  | .part p => sizeOf p

theorem Child.size_lt {node child : Node} {passed : List Enclosure}
    (h : Child node passed child) : child.size < node.size := by
  cases h with
  | @fieldPattern assigned fields field hfield =>
      have hlist := List.sizeOf_lt_of_mem hfield
      have hpattern := field.sizeOf_pattern_lt
      simp only [Node.size, Pattern.object.sizeOf_spec]
      omega
  | _ =>
      simp [Node.size] <;> grind [→ List.sizeOf_lt_of_mem]

/-- A position below a root together with the node right above it, of which it is a part. -/
inductive Stands (root : Node) : Option Node → List Enclosure → Node → Prop
  | root : Stands root none [] root
  | part {above passed : List Enclosure} {node child : Node} :
      Reaches root above node → Child node passed child →
      Stands root (some node) (passed ++ above) child

theorem Stands.reaches {root node : Node} {parent : Option Node} {above : List Enclosure}
    (h : Stands root parent above node) : Reaches root above node := by
  cases h with
  | root => exact .here
  | part hreaches hchild => exact hreaches.down hchild

theorem Stands.head {root child node : Node} {passed above : List Enclosure} {parent : Option Node}
    (hchild : Child root passed child) (h : Stands child parent above node) :
    ∃ parent', Stands root (some parent') (above ++ passed) node ∧
      (parent' = root ∨ parent = some parent') := by
  cases h with
  | root => exact ⟨root, by simpa using Stands.part .here hchild, .inl rfl⟩
  | @part above passed' parent _ hreaches hstep =>
      have hstands := Stands.part (hreaches.head hchild) hstep
      exact ⟨parent, by simpa [List.append_assoc] using hstands, .inr rfl⟩

/-- The object of a member access between written names is no reference of its own. -/
theorem Mentions.not_reference_of_access {node : Node} {left right text : String}
    {hidden names : List String} (h : Mentions node (.access left right)) :
    ⟨.reference text, names⟩ ∉ node.occurrences hidden := by
  cases h <;> simp [Node.occurrences, Expr.occurrences, Expr.access?, PropertyKey.accessed?,
    PropertyKey.occurrences]

/-- Every occurrence is mentioned at some position, under the names that are hidden there. That of
a name is not the object of a member access between written names. -/
theorem exists_stands {root : Node} {hidden : List String} {occurrence : Occurrence}
    (h : occurrence ∈ root.occurrences hidden) :
    ∃ parent above node, Stands root parent above node ∧ Mentions node occurrence.mention ∧
      occurrence.hidden = hiddenNames above ++ hidden ∧
      ∀ text access left right, occurrence.mention = .reference text → parent = some access →
        ¬ Mentions access (.access left right) := by
  rcases Node.splits h with ⟨hmentions, hhidden⟩ | ⟨passed, child, hchild, hmem⟩
  · exact ⟨none, [], root, .root, hmentions, hhidden, by simp⟩
  · obtain ⟨parent, above, node, hstands, hmentions, hhidden, hobject⟩ := exists_stands hmem
    obtain ⟨parent', hstands', hparent⟩ := hstands.head hchild
    refine ⟨some parent', above ++ passed, node, hstands', hmentions, by simpa using hhidden, ?_⟩
    rintro text access left right hreference heq
    obtain rfl := Option.some.inj heq
    rcases hparent with rfl | hparent
    · intro haccess
      obtain ⟨mention, names⟩ := occurrence
      obtain rfl : mention = .reference text := hreference
      exact haccess.not_reference_of_access h
    · exact hobject text _ left right hreference hparent
termination_by root.size
decreasing_by exact hchild.size_lt

/-- Every occurrence is mentioned at some position, under the names that are hidden there. -/
theorem exists_position {root : Node} {hidden : List String} {occurrence : Occurrence}
    (h : occurrence ∈ root.occurrences hidden) :
    ∃ above node, Reaches root above node ∧ Mentions node occurrence.mention ∧
      occurrence.hidden = hiddenNames above ++ hidden := by
  obtain ⟨parent, above, node, hstands, hmentions, hhidden, -⟩ := exists_stands h
  exact ⟨above, node, hstands.reaches, hmentions, hhidden⟩

/-- What is mentioned below some node of a tree, the tree mentions, unless the node is a name, which
may be the object of a member access. -/
theorem Reaches.lift_of_ne_name {root node : Node} {above : List Enclosure}
    (h : Reaches root above node) (hname : ∀ span text, node ≠ .expr (.name span text))
    (hmem : occurrence ∈ node.occurrences (hiddenNames above ++ hidden)) :
    occurrence ∈ root.occurrences hidden := by
  induction h generalizing occurrence with
  | here => simpa using hmem
  | down hreaches hchild ih =>
      rw [hiddenNames_append, List.append_assoc] at hmem
      refine ih ?_ (hchild.lift_of_not_object (fun _ _ _ _ _ => hname _ _) hmem)
      rintro span text rfl
      cases hchild

/-- A name that is referred to at a position is an occurrence, unless it is the object of a member
access between written names. -/
theorem Stands.mem_of_reference {root node : Node} {parent : Option Node} {above : List Enclosure}
    {text : String} (h : Stands root parent above node)
    (hmentions : Mentions node (.reference text))
    (hobject : ∀ access left right, parent = some access → ¬ Mentions access (.access left right)) :
    ⟨.reference text, hiddenNames above ++ hidden⟩ ∈ root.occurrences hidden := by
  have hmem : ∀ hidden, ⟨.reference text, hidden⟩ ∈ node.occurrences hidden :=
    fun _ => hmentions.mem_occurrences
  cases h with
  | root => simpa using hmem hidden
  | @part above passed node _ hreaches hchild =>
      have hname : ∀ span text, node ≠ .expr (.name span text) := by
        rintro span text rfl
        cases hchild
      refine hreaches.lift_of_ne_name hname (hchild.lift_of_not_object ?_ ?_)
      · intro left right _ _ haccess
        exact absurd haccess (hobject _ left right rfl)
      · simpa [List.append_assoc] using hmem (hiddenNames (passed ++ above) ++ hidden)

/-- What is mentioned below some node of a tree, the tree mentions; only the object of a member
access between written names counts as the access. -/
theorem Reaches.lift {root node : Node} {above : List Enclosure} (h : Reaches root above node)
    (hmem : occurrence ∈ node.occurrences (hiddenNames above ++ hidden)) :
    occurrence ∈ root.occurrences hidden ∨
      ∃ left right, occurrence.mention = .reference left ∧
        ⟨.access left right, occurrence.hidden⟩ ∈ root.occurrences hidden := by
  induction h generalizing occurrence with
  | here => exact .inl (by simpa using hmem)
  | down hreaches hchild ih =>
      rw [hiddenNames_append, List.append_assoc] at hmem
      rcases hchild.lift hmem with hnode | ⟨left, right, hreference, hnode⟩
      · exact ih hnode
      · -- the access is itself no reference, so it is lifted as it stands
        rcases ih hnode with hroot | ⟨_, _, hcontra, _⟩
        · exact .inr ⟨left, right, hreference, hroot⟩
        · cases hcontra

variable {root node : Node} {above : List Enclosure}

/-- A member access at a position is an occurrence. -/
theorem Reaches.mem_of_access {left right : String} (h : Reaches root above node)
    (hmentions : Mentions node (.access left right)) :
    ⟨.access left right, hiddenNames above ++ hidden⟩ ∈ root.occurrences hidden := by
  rcases h.lift hmentions.mem_occurrences with hroot | ⟨_, _, hcontra, _⟩
  · exact hroot
  · cases hcontra

/-- A name that is referred to at a position is the subject of an occurrence. -/
theorem Reaches.exists_subject {text : String} (h : Reaches root above node)
    (hmentions : Mentions node (.reference text)) :
    ⟨.reference text, hiddenNames above ++ hidden⟩ ∈ root.occurrences hidden ∨
      ∃ right, ⟨.access text right, hiddenNames above ++ hidden⟩ ∈ root.occurrences hidden := by
  rcases h.lift hmentions.mem_occurrences with hroot | ⟨left, right, hreference, hroot⟩
  · exact .inl hroot
  · obtain rfl := Mention.reference.inj hreference
    exact .inr ⟨right, hroot⟩

/-- The object of a member access refers to its name. -/
theorem Mentions.exists_object {left right : String} (h : Mentions node (.access left right)) :
    ∃ object, Child node [] object ∧ Mentions object (.reference left) := by
  cases h with
  | point => exact ⟨_, .memberObject, .name⟩
  | brackets => exact ⟨_, .memberObject, .name⟩

/-- The object of a member access is a position where its name is referred to. -/
theorem Reaches.object {left right : String} (h : Reaches root above node)
    (hmentions : Mentions node (.access left right)) :
    ∃ object, Reaches root above object ∧ Mentions object (.reference left) := by
  obtain ⟨object, hchild, hreference⟩ := hmentions.exists_object
  exact ⟨object, by simpa using h.down hchild, hreference⟩

/-- A name right below a member access between written names is its object. -/
theorem Stands.of_object {access : Node} {left right text : String}
    (h : Stands root (some access) above node) (haccess : Mentions access (.access left right))
    (hmentions : Mentions node (.reference text)) : text = left ∧ Reaches root above access := by
  cases h with
  | part hreaches hchild =>
      cases haccess <;> cases hchild <;> cases hmentions
      all_goals exact ⟨rfl, by simpa using hreaches⟩

end ModuleLinker.Script
