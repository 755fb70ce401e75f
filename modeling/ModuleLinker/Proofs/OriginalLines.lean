/-
# ModuleLinker.Proofs.OriginalLines -- the lines that mappings lead back to

A mapping names a line of the text of a module. Three kinds of lines are counted differently when a
program is written: a comment by looking up the offset of its line, a line of a copied statement by
counting on from the line of the statement, and a line that is made for a require or an export by
the line of its span. `ComesFrom` says for each of them what the number has to be, in terms of the
newlines in the text, and `mappings_lead_back` that every mapping has that number.
-/

import ModuleLinker.Proofs.GeneratedLines
import ModuleLinker.Proofs.LineNumbers
import ModuleLinker.Proofs.TextPieces
import ModuleLinker.Proofs.VerbatimCopy

namespace ModuleLinker

open Text

/-! ## Lines of a text -/

namespace Text

/-- The offset lies between two characters of the text, on the line with the number. -/
def OnLine (text : List Char) (offset number : Nat) : Prop :=
  ∃ above below, text = above ++ below ∧ byteSize above = offset ∧ above.count '\n' = number

/-- The piece stands in the text at the offset, all of it on the line with the number. -/
structure IsExcerpt (text : List Char) (offset : Nat) (piece : List Char) (number : Nat) :
    Prop where
  split : ∃ above below, text = above ++ (piece ++ below) ∧ byteSize above = offset ∧
    above.count '\n' = number
  inLine : ∃ line, (splitLines text)[number]? = some line ∧ piece <:+: line

/-- What stands in front of the first newline is the beginning of the first line. -/
theorem exists_splitLines_append {piece : List Char} (h : '\n' ∉ piece) (below : List Char) :
    ∃ rest lines, splitLines (piece ++ below) = (piece ++ rest) :: lines := by
  induction piece with
  | nil =>
      obtain ⟨first, lines, hlines⟩ := List.exists_cons_of_ne_nil (splitLines_ne_nil below)
      exact ⟨first, lines, hlines⟩
  | cons c piece ih =>
      rw [List.mem_cons, not_or] at h
      obtain ⟨rest, lines, hlines⟩ := ih h.2
      refine ⟨rest, lines, ?_⟩
      rw [List.cons_append, splitLines, if_neg (Ne.symm h.1), hlines]
      rfl

/-- A piece without newlines lies on the line whose number is that of the newlines before it. -/
theorem exists_line_of_split {above piece below : List Char} (h : '\n' ∉ piece) :
    ∃ line, (splitLines (above ++ (piece ++ below)))[above.count '\n']? = some line ∧
      piece <:+: line := by
  induction above with
  | nil =>
      obtain ⟨rest, lines, hlines⟩ := exists_splitLines_append h below
      refine ⟨piece ++ rest, ?_, (List.prefix_append piece rest).isInfix⟩
      rw [List.nil_append, hlines]
      rfl
  | cons c above ih =>
      obtain ⟨line, hline, hinfix⟩ := ih
      rw [List.cons_append, splitLines, List.count_cons]
      split
      · next hc =>
        refine ⟨line, ?_, hinfix⟩
        rw [hc, beq_self_eq_true, if_pos rfl, List.getElem?_cons_succ]
        exact hline
      · next hc =>
        have hcount : (if (c == '\n') = true then 1 else 0) = 0 := if_neg (by simpa using hc)
        rw [hcount, Nat.add_zero]
        split
        · next hnone => exact absurd hnone (splitLines_ne_nil _)
        · next first lines hsplit =>
          rw [hsplit] at hline
          cases hnumber : above.count '\n' with
          | zero =>
              rw [hnumber] at hline
              obtain rfl := Option.some.inj hline
              exact ⟨c :: first, rfl, hinfix.trans (List.suffix_cons c first).isInfix⟩
          | succ number =>
              rw [hnumber] at hline
              exact ⟨line, hline, hinfix⟩

theorem IsExcerpt.of_split {text above piece below : List Char}
    (heq : text = above ++ (piece ++ below)) (h : '\n' ∉ piece) :
    IsExcerpt text (byteSize above) piece (above.count '\n') := by
  refine ⟨⟨above, below, heq, rfl, rfl⟩, ?_⟩
  rw [heq]
  exact exists_line_of_split h

/-- A part of an excerpt is an excerpt. -/
theorem IsExcerpt.of_append {text above left piece right below : List Char}
    (heq : text = above ++ ((left ++ piece ++ right) ++ below))
    (h : '\n' ∉ left ++ piece ++ right) :
    IsExcerpt text (byteSize (above ++ left)) piece (above.count '\n') := by
  rw [List.mem_append, List.mem_append, not_or, not_or] at h
  obtain ⟨⟨hleft, hpiece⟩, -⟩ := h
  have hsplit : text = (above ++ left) ++ (piece ++ (right ++ below)) := by
    rw [heq]
    simp only [List.append_assoc]
  have hexcerpt := IsExcerpt.of_split hsplit hpiece
  rwa [List.count_append, List.count_eq_zero.2 hleft, Nat.add_zero] at hexcerpt

end Text

namespace Emission

/-- The line at an index stands in the piece behind as many newlines. -/
theorem exists_split_of_numberedLines {piece line : List Char} {offset start index : Nat}
    (h : (numberedLines offset (splitLines piece))[index]? = some (start, line)) :
    ∃ above below, piece = above ++ (line ++ below) ∧ start = offset + byteSize above ∧
      above.count '\n' = index ∧ '\n' ∉ line := by
  generalize hlines : splitLines piece = lines at h
  induction lines generalizing piece offset index with
  | nil => cases h
  | cons first lines ih =>
      cases index with
      | zero =>
          obtain ⟨rfl, rfl⟩ := Prod.mk.inj (Option.some.inj h)
          have hfirst : '\n' ∉ first :=
            newline_notMem_of_mem_splitLines (hlines ▸ List.mem_cons_self)
          rcases splitLines_eq_cons hlines with ⟨-, rfl⟩ | ⟨rest, rfl, -⟩
          · exact ⟨[], [], by simp, rfl, rfl, hfirst⟩
          · exact ⟨[], '\n' :: rest, rfl, rfl, rfl, hfirst⟩
      | succ index =>
          rcases splitLines_eq_cons hlines with ⟨rfl, -⟩ | ⟨rest, rfl, hrest⟩
          · cases h
          · obtain ⟨above, below, rfl, rfl, rfl, hline⟩ := ih hrest h
            have hfirst : '\n' ∉ first :=
              newline_notMem_of_mem_splitLines (hlines ▸ List.mem_cons_self)
            refine ⟨first ++ '\n' :: above, below, by simp, ?_, ?_, hline⟩
            · have hnewline : '\n'.utf8Size = 1 := by decide
              simp only [byteSize_append, byteSize, hnewline]
              omega
            · rw [List.count_append, List.count_cons, List.count_eq_zero.2 hfirst]
              simp

/-! ## Comments -/

/-- A comment is a part of the line between two statements that it was found on. -/
theorem infix_of_commentText? {start : Nat} {opens : Bool} {line text : List Char}
    (h : commentText? start opens line = some text) : text <:+: line := by
  have hdrop : line.dropWhile (· = byteOrderMark) <:+: line := (List.dropWhile_suffix _).isInfix
  have hend : ∀ cs : List Char, trimEnd cs <:+: cs := by
    intro cs
    have hprefix : trimEnd cs <+: cs.reverse.reverse :=
      List.reverse_prefix.2 (List.dropWhile_suffix _)
    rw [List.reverse_reverse] at hprefix
    exact hprefix.isInfix
  have hstart : ∀ cs : List Char, trimStart cs <:+: cs :=
    fun cs => (List.dropWhile_suffix _).isInfix
  unfold commentText? at h
  dsimp only at h
  split at h
  · cases h
  · split at h
    · obtain rfl := Option.some.inj h
      exact ((hend _).trans (hstart _)).trans hdrop
    · obtain rfl := Option.some.inj h
      exact (hend _).trans hdrop

variable {file : Option String} {source : Source}

theorem lineOf_eq {above below : List Char} (h : source.text = above ++ below) :
    source.lines.lineOf (byteSize above) = above.count '\n' := by
  rw [source.lines_eq, h]
  exact LineIndex.lineOf_ofText above below

/-- A comment is mapped to the line of the text that it stands on. -/
theorem exists_excerpt_of_mem_comments {gap : Span} {line : Line}
    (h : line ∈ comments file source gap) :
    ∃ piece offset number, line = copied file (indent piece) number ∧ gap.start ≤ offset ∧
      offset + byteSize piece ≤ gap.stop ∧ IsExcerpt source.text offset piece number := by
  unfold comments at h
  split at h
  · cases h
  · next text htext =>
    obtain ⟨⟨start, raw⟩, hmem, hline⟩ := List.mem_filterMap.1 h
    obtain ⟨piece, hpiece, rfl⟩ := Option.map_eq_some_iff.1 hline
    obtain ⟨above, below, heq, hstart, hstop⟩ := slice?_eq_some_iff.1 htext
    obtain ⟨index, hindex⟩ := List.mem_iff_getElem?.1 hmem
    obtain ⟨front, back, rfl, rfl, -, hraw⟩ := exists_split_of_numberedLines hindex
    obtain ⟨left, right, rfl⟩ := infix_of_commentText? hpiece
    -- The comment stands in a line of the gap, and the gap in the text.
    have hsplit : source.text =
        (above ++ front) ++ ((left ++ piece ++ right) ++ (back ++ below)) := by
      rw [heq]
      simp only [List.append_assoc]
    have hoffset : gap.start + byteSize front = byteSize (above ++ front) := by
      rw [byteSize_append, hstart]
    refine ⟨piece, byteSize (above ++ front ++ left), (above ++ front).count '\n', ?_, ?_, ?_,
      .of_append hsplit hraw⟩
    · rw [hoffset, lineOf_eq hsplit]
    · simp only [byteSize_append]
      omega
    · simp only [byteSize_append] at hstop ⊢
      omega

/-! ## Statements -/

theorem getElem?_statementLines {pieces : List (Nat × List Char)} {first : Bool}
    {number index : Nat} {line : Line}
    (h : (statementLines file source number first pieces)[index]? = some line) :
    ∃ first start raw, pieces[index]? = some (start, raw) ∧
      line = copied file (statementText source first start raw) (number + index) := by
  induction pieces generalizing number first index with
  | nil => cases h
  | cons piece pieces ih =>
      obtain ⟨start, raw⟩ := piece
      cases index with
      | zero =>
          obtain rfl := Option.some.inj h
          exact ⟨first, start, raw, rfl, rfl⟩
      | succ index =>
          obtain ⟨first, start, raw, hpiece, rfl⟩ := ih h
          refine ⟨first, start, raw, hpiece, ?_⟩
          rw [Nat.add_right_comm, Nat.add_assoc]

/-- A copied line is a line of the statement without the carriage return, perhaps indented. -/
theorem statementText_eq_or (first : Bool) (start : Nat) (raw : List Char) :
    statementText source first start raw = String.ofList (withoutReturn raw) ∨
      statementText source first start raw = indent (withoutReturn raw) := by
  unfold statementText
  dsimp only
  split
  · exact .inl rfl
  · exact .inr rfl

theorem exists_append_withoutReturn (raw : List Char) :
    ∃ right, raw = withoutReturn raw ++ right := by
  obtain ⟨right, hright⟩ : withoutReturn raw <+: raw := by
    unfold withoutReturn
    split
    · exact List.dropLast_prefix raw
    · exact List.prefix_rfl
  exact ⟨right, hright.symm⟩

/-- A line of a copied statement is mapped as many lines behind the line of the statement as it
stands behind the first line of the statement. -/
theorem exists_excerpt_of_verbatim {span : LineSpan} (hspan : source.Holds span)
    {before after : List Line} {line : Line}
    (h : verbatim file source span = .ok (before ++ line :: after)) :
    ∃ piece text offset first, line = copied file text (first + before.length) ∧
      (text = String.ofList piece ∨ text = indent piece) ∧ span.start ≤ offset ∧
      offset + byteSize piece ≤ span.stop ∧ OnLine source.text span.start first ∧
      IsExcerpt source.text offset piece (first + before.length) := by
  obtain ⟨piece, hpiece⟩ := hspan.cut
  obtain ⟨above, below, heq, hstart, hstop⟩ := slice?_eq_some_iff.1 hpiece
  have hfirst : span.firstLine = above.count '\n' := by
    have hlocated := congrArg LineSpan.firstLine hspan.located
    rw [List.append_assoc] at heq
    rw [hlocated, ← lineOf_eq heq, hstart]
    rfl
  unfold verbatim at h
  rw [hpiece] at h
  have hlines := Except.ok.inj h
  have hline : (statementLines file source span.firstLine true
      (numberedLines span.start (splitLines piece)))[before.length]? = some line := by
    rw [hlines, List.getElem?_append_right (Nat.le_refl _), Nat.sub_self]
    rfl
  obtain ⟨first, start, raw, hraw, rfl⟩ := getElem?_statementLines hline
  obtain ⟨front, back, rfl, rfl, hcount, hnewline⟩ := exists_split_of_numberedLines hraw
  obtain ⟨right, hright⟩ := exists_append_withoutReturn raw
  -- The written line is a line of the statement without the carriage return at its end.
  have hsplit : source.text =
      (above ++ front) ++ (([] ++ withoutReturn raw ++ right) ++ (back ++ below)) := by
    rw [heq, List.nil_append, ← hright]
    simp only [List.append_assoc]
  have hexcerpt := IsExcerpt.of_append hsplit (by rwa [List.nil_append, ← hright])
  have hsize : byteSize (withoutReturn raw) ≤ byteSize raw := by
    conv_rhs => rw [hright, byteSize_append]
    omega
  rw [List.append_nil, List.count_append, hcount] at hexcerpt
  refine ⟨withoutReturn raw, statementText source first (span.start + byteSize front) raw,
    byteSize (above ++ front), above.count '\n', ?_, statementText_eq_or first _ raw, ?_, ?_,
    ⟨above, _, heq.trans (List.append_assoc ..), hstart, rfl⟩, hexcerpt⟩
  · rw [hfirst]
  · rw [byteSize_append]
    omega
  · simp only [byteSize_append] at hstop ⊢
    omega

end Emission

/-! ## Parts of a module -/

namespace Module

/-- The offset behind the last of some elements. -/
def stopOf (elements : List Element) : Nat := (elements.getLast?.map (·.span.stop)).getD 0

@[simp] theorem stopOf_append (elements : List Element) (element : Element) :
    stopOf (elements ++ [element]) = element.span.stop := by
  simp [stopOf]

/-- The spans in front of the elements that are not skipped, and behind the last element. -/
inductive Gap (m : Module) : Span → Prop
  | before {front back : List Element} {element : Element} :
      m.elements = front ++ element :: back → element.isSkipped = false →
      Gap m ⟨stopOf front, element.span.start⟩
  | behind : Gap m ⟨stopOf m.elements, byteSize m.source.text⟩

end Module

namespace Emission

section ComesFrom

variable {setting : Setting} {m : Module} {file : Option String}

/-- A line of a module was written for a part of its text, and the number is that of the line of the
text on which this part begins. -/
inductive ComesFrom (setting : Setting) (m : Module) (file : Option String) (line : Line) :
    Nat → Prop
  /-- A comment is a piece of a gap between two statements. -/
  | comment {gap : Span} {piece : List Char} {offset number : Nat} :
      m.Gap gap → line ∈ comments file m.source gap → line.text = indent piece →
      gap.start ≤ offset → offset + byteSize piece ≤ gap.stop →
      IsExcerpt m.source.text offset piece number → ComesFrom setting m file line number
  /-- A line of a statement that is copied stands as many lines behind the first one as it is
  written behind it. -/
  | statement {element : Element} {before after : List Line} {piece : List Char}
      {offset first : Nat} :
      element ∈ m.elements → element.IsVerbatim setting m.id →
      elementLines setting m file element = .ok (before ++ line :: after) →
      (line.text = String.ofList piece ∨ line.text = indent piece) →
      element.span.start ≤ offset → offset + byteSize piece ≤ element.span.stop →
      OnLine m.source.text element.span.start first →
      IsExcerpt m.source.text offset piece (first + before.length) →
      ComesFrom setting m file line (first + before.length)
  /-- A require that is rewritten comes from the statement. -/
  | require {span : LineSpan} {binder : String} {id : ModuleId} {number : Nat} :
      .require span binder (.resolved id) ∈ m.elements →
      ¬ (Element.require span binder (.resolved id)).IsVerbatim setting m.id →
      elementLines setting m file (.require span binder (.resolved id)) = .ok [line] →
      OnLine m.source.text span.start number → ComesFrom setting m file line number
  /-- The assignment of an export comes from the value of the entry. -/
  | assignment {span : LineSpan} {entries : List ExportEntry} {entry : ExportEntry}
      {before after : List Line} {number : Nat} :
      .exports span entries ∈ m.elements →
      elementLines setting m file (.exports span entries) = .ok (before ++ line :: after) →
      entries[before.length]? = some entry →
      entry.span.start = entry.value.span.start + m.source.origin →
      OnLine m.source.text entry.span.start number → ComesFrom setting m file line number

theorem onLine_of_holds {source : Source} {span : LineSpan} (h : source.Holds span) :
    OnLine source.text span.start span.firstLine := by
  obtain ⟨piece, hpiece⟩ := h.cut
  obtain ⟨above, below, heq, hstart, -⟩ := slice?_eq_some_iff.1 hpiece
  rw [List.append_assoc] at heq
  refine ⟨above, _, heq, hstart, ?_⟩
  rw [h.located, ← lineOf_eq heq, hstart]
  rfl

/-- A line of a statement that is copied is mapped to the line that it stands on. -/
theorem exists_comesFrom_of_isVerbatim (hm : m.HeldByText) {element : Element}
    (helement : element ∈ m.elements) (hkept : element.IsVerbatim setting m.id)
    {before after : List Line} {line : Line}
    (h : elementLines setting m file element = .ok (before ++ line :: after)) :
    ∃ number, line = copied file line.text number ∧ ComesFrom setting m file line number := by
  have hlines := h
  rw [elementLines_of_isVerbatim hkept] at hlines
  obtain ⟨piece, text, offset, first, rfl, htext, hlow, hhigh, hfirst, hexcerpt⟩ :=
    exists_excerpt_of_verbatim (hm.elements element helement).own hlines
  exact ⟨_, rfl, .statement helement hkept h htext hlow hhigh hfirst hexcerpt⟩

/-- The assignment of an export is mapped to the line that its value begins on. -/
theorem exists_comesFrom_of_exports (hm : m.HeldByText) {span : LineSpan}
    {entries : List ExportEntry} (helement : .exports span entries ∈ m.elements)
    {before after : List Line} {line : Line}
    (h : elementLines setting m file (.exports span entries) = .ok (before ++ line :: after)) :
    ∃ number, line = copied file line.text number ∧ ComesFrom setting m file line number := by
  have hall := mapM_except_eq_ok_iff.1 h
  rcases forall₂_getElem? hall before.length with
    ⟨-, hnone⟩ | ⟨entry, written, hentry, hwritten, hline⟩
  · simp at hnone
  · have hsame : line = written := by simpa using hwritten
    subst hsame
    obtain ⟨value, -, hline⟩ := bind_except_eq_ok_iff.1 hline
    have hheld := (hm.elements _ helement).entries span entries rfl entry
      (List.mem_of_getElem? hentry)
    obtain rfl := Except.ok.inj hline
    exact ⟨_, rfl, .assignment helement h hentry (congrArg Span.start hheld.value_eq)
      (onLine_of_holds hheld.holds)⟩

/-- A require that is rewritten is mapped to the line that it begins on. -/
theorem exists_comesFrom_of_require (hm : m.HeldByText) {span : LineSpan} {binder : String}
    {id : ModuleId} (helement : .require span binder (.resolved id) ∈ m.elements)
    (hkept : ¬ (Element.require span binder (.resolved id)).IsVerbatim setting m.id)
    {before after : List Line} {line : Line}
    (h : elementLines setting m file (.require span binder (.resolved id)) =
      .ok (before ++ line :: after)) :
    ∃ number, line = copied file line.text number ∧ ComesFrom setting m file line number := by
  have hrewritten := not_not.1 (mt Element.isVerbatim_resolved_iff.2 hkept)
  have hsingle := Except.ok.inj ((if_pos hrewritten).symm.trans h)
  cases before with
  | nil =>
      obtain ⟨rfl, rfl⟩ := List.cons.inj hsingle
      exact ⟨_, rfl, .require helement hkept h (onLine_of_holds (hm.elements _ helement).own)⟩
  | cons _ before => simp at hsingle

/-- A line that is written for an element is mapped to the line that the element, or the value
exported by it, begins on, counting on from there if the element is copied. -/
theorem exists_comesFrom_of_elementLines (hm : m.HeldByText) {element : Element}
    (helement : element ∈ m.elements) {before after : List Line} {line : Line}
    (h : elementLines setting m file element = .ok (before ++ line :: after)) :
    ∃ number, line = copied file line.text number ∧ ComesFrom setting m file line number := by
  by_cases hkept : element.IsVerbatim setting m.id
  · exact exists_comesFrom_of_isVerbatim hm helement hkept h
  · cases element with
    | skipped span =>
        have hnil : [] = before ++ line :: after := Except.ok.inj h
        exact absurd hnil.symm (by simp)
    | exports span entries => exact exists_comesFrom_of_exports hm helement h
    | require span binder target =>
        cases target with
        | unresolved path => exact absurd trivial hkept
        | resolved id => exact exists_comesFrom_of_require hm helement hkept h
    | member => exact absurd trivial hkept
    | other => exact absurd trivial hkept

/-- A line of a body was written for a gap or for an element. -/
theorem mem_bodyLines {todo done : List Element} (hsplit : m.elements = done ++ todo)
    {body : List Line} (h : bodyLines setting m file (Module.stopOf done) todo = .ok body)
    {line : Line} (hline : line ∈ body) :
    (∃ gap, m.Gap gap ∧ line ∈ comments file m.source gap) ∨
      ∃ element ∈ m.elements, ∃ lines, elementLines setting m file element = .ok lines ∧
        line ∈ lines := by
  induction todo generalizing done body with
  | nil =>
      obtain rfl := Except.ok.inj h
      rw [List.append_nil] at hsplit
      exact .inl ⟨_, hsplit ▸ Module.Gap.behind, hline⟩
  | cons element todo ih =>
      obtain ⟨own, rest, hown, hrest, rfl⟩ := bodyLines_cons_eq_ok_iff.1 h
      rcases List.mem_append.1 hline with hline | hline
      · rcases List.mem_append.1 hline with hline | hline
        · unfold gapLines at hline
          split at hline
          · cases hline
          · next hkept =>
            exact .inl ⟨_, .before hsplit (Bool.eq_false_iff.2 hkept), hline⟩
        · refine .inr ⟨element, ?_, own, hown, hline⟩
          rw [hsplit]
          exact List.mem_append_right done List.mem_cons_self
      · have hsplit' : m.elements = (done ++ [element]) ++ todo := by
          rw [hsplit, List.append_assoc]
          rfl
        refine ih hsplit' ?_ hline
        rw [Module.stopOf_append]
        exact hrest

/-- Every line of a body is mapped to the line of the text that it was written from. -/
theorem exists_comesFrom_of_mem_bodyLines (hm : m.HeldByText) {body : List Line}
    (h : bodyLines setting m file 0 m.elements = .ok body) {line : Line} (hline : line ∈ body) :
    ∃ number, line = copied file line.text number ∧ ComesFrom setting m file line number := by
  have hsplit : m.elements = [] ++ m.elements := rfl
  rcases mem_bodyLines hsplit h hline with
    ⟨gap, hgap, hline⟩ | ⟨element, hmem, lines, hlines, hline⟩
  · obtain ⟨piece, offset, number, rfl, hlow, hhigh, hexcerpt⟩ :=
      exists_excerpt_of_mem_comments hline
    exact ⟨number, rfl, .comment hgap hline rfl hlow hhigh hexcerpt⟩
  · obtain ⟨before, after, rfl⟩ := List.append_of_mem hline
    exact exists_comesFrom_of_elementLines hm hmem hlines

end ComesFrom

/-! ## Mappings -/

theorem exists_path_of_sourceFile {outputFile : Option String} {output file : String} {m : Module}
    (houtput : outputFile = some output) (h : sourceFile outputFile m = some file) :
    ∃ path, m.filePath = some path ∧ Path.sourcePath path output = file := by
  subst houtput
  exact Option.map_eq_some_iff.1 h

/-- Classified modules can be written, and every mapping of the program leads from a line of a
module to the line of its text that this line was written from. -/
theorem mappings_lead_back [Script.ParserWording] {modules : List Module} {options : Options}
    {output : String} (hclassified : ∀ m ∈ modules, m.Classified)
    (houtput : options.outputFile = some output) :
    ∃ (bundle : Bundle) (wrappers : List (Wrapper (settingOf modules options) options.outputFile))
      (maps : List LineMapping), emit modules options = .ok bundle ∧
      wrappers.map (·.content) = modules ∧ bundle.code = joined (assembled options wrappers) ∧
      bundle.sourceMap = some ⟨(outputName options).getD "", maps⟩ ∧
      ∀ mapping ∈ maps, ∃ w ∈ wrappers, ∃ path line, w.content.filePath = some path ∧
        mapping.sourceFile = Path.sourcePath path output ∧
        (assembled options wrappers)[mapping.generatedLine]? = some line ∧ line ∈ w.body ∧
        ComesFrom (settingOf modules options) w.content (some mapping.sourceFile) line
          mapping.sourceLine := by
  have hheld : ∀ m ∈ modules, m.HeldByText := fun m hm => (hclassified m hm).heldByText
  obtain ⟨bundle, hemit⟩ := exists_emit hheld options
  obtain ⟨wrappers, hmodules, hcode, hmap⟩ := emit_eq_ok_iff.1 hemit
  rw [houtput] at hmap
  refine ⟨bundle, wrappers, mappings 0 (assembled options wrappers), hemit, hmodules, hcode, hmap,
    ?_⟩
  intro mapping hmapping
  obtain ⟨front, line, back, origin, hlines, horigin, rfl⟩ := mem_mappings_iff.1 hmapping
  have hsome : line.origin.isSome := by
    rw [horigin]
    rfl
  obtain ⟨before, w, after, x, y, hwrappers, hbody, -⟩ := exists_body_of_assembled hlines hsome
  have hw : w ∈ wrappers := by
    rw [hwrappers]
    exact List.mem_append_right before List.mem_cons_self
  have hline : line ∈ w.body := by
    rw [hbody]
    exact List.mem_append_right x List.mem_cons_self
  have hcontent : w.content ∈ modules := by
    have hmem : w.content ∈ wrappers.map (·.content) := List.mem_map_of_mem hw
    rwa [hmodules] at hmem
  obtain ⟨number, hcopied, hfrom⟩ :=
    exists_comesFrom_of_mem_bodyLines (hheld _ hcontent) w.isBody hline
  -- the file of the mapping is that of the module, so that the module has a path
  have hmapped : (sourceFile options.outputFile w.content).map (fun file => Origin.mk file number) =
      some origin := by
    rw [← horigin, hcopied]
    rfl
  obtain ⟨file, hfile, rfl⟩ := Option.map_eq_some_iff.1 hmapped
  rw [hfile] at hfrom
  obtain ⟨path, hpath, rfl⟩ := exists_path_of_sourceFile houtput hfile
  refine ⟨w, hw, path, line, hpath, rfl, ?_, hline, hfrom⟩
  rw [hlines]
  simp [mappingAt]

/-- A module that requires itself, behind a byte order mark and a comment. -/
def markedInput : ModuleInput :=
  ⟨.regular "M", some "M/index.js", "\uFEFF// a\r\nvar m = require(\"../M\");\n" ++
    "var f = function () \x7b\r\n  return m.x;\n\x7d;\nmodule.exports = \x7b\n  x: f\n\x7d;\n"⟩

/-- The program of the module, and the lines that it was written from. -/
def markedBundle : Bundle where
  code := "var PS = \x7b\x7d;\n(function(exports) \x7b\n  // a\n  var m = PS[\"M\"];\n" ++
    "  var f = function () \x7b\n    return m.x;\n  \x7d;\n  exports[\"x\"] = f;\n" ++
    "\x7d)(PS[\"M\"] = PS[\"M\"] || \x7b\x7d);\n//# sourceMappingURL=a.js.map\n"
  sourceMap := some ⟨"a.js", [⟨2, 0, "M/index.js", 0, 0⟩, ⟨3, 0, "M/index.js", 1, 0⟩,
    ⟨4, 0, "M/index.js", 2, 0⟩, ⟨5, 0, "M/index.js", 3, 0⟩, ⟨6, 0, "M/index.js", 4, 0⟩,
    ⟨7, 0, "M/index.js", 6, 0⟩]⟩

/-- The comment, the require, the three lines of the function and the export lead back to the lines
of the text that they stand on. -/
theorem marked_module_leads_back :
    ∃ m, Module.classify ["M"] markedInput = .ok m ∧ (∀ m' ∈ [m], m'.Classified) ∧
      ({ outputFile := some "a.js" } : Options).outputFile = some "a.js" ∧
      emit [m] { outputFile := some "a.js" } = .ok markedBundle ∧
      ∃ (wrappers : List (Wrapper (settingOf [m] { outputFile := some "a.js" }) (some "a.js")))
        (maps : List LineMapping), wrappers.map (·.content) = [m] ∧
        markedBundle.sourceMap = some ⟨"a.js", maps⟩ ∧
        ∀ mapping ∈ maps, ∃ w ∈ wrappers, ∃ line ∈ w.body,
          ComesFrom (settingOf [m] { outputFile := some "a.js" }) w.content
            (some mapping.sourceFile) line mapping.sourceLine := by
  have hrun : ((Module.classify ["M"] markedInput).toOption.map fun m =>
      (emit [m] { outputFile := some "a.js" }).toOption) = some (some markedBundle) := by
    decide +kernel
  obtain ⟨m, hm, hemit⟩ := Option.map_eq_some_iff.1 hrun
  have hclassify : Module.classify ["M"] markedInput = .ok m := eq_ok_of_toOption hm
  have hemit : emit [m] { outputFile := some "a.js" } = .ok markedBundle := eq_ok_of_toOption hemit
  have hclassified : ∀ m' ∈ [m], m'.Classified := by
    refine List.forall_mem_singleton.2 ⟨_, _, m, hclassify, rfl, rfl, rfl, ?_⟩
    exact List.forall₂_same.2 fun element _ => .same element
  have houtput : ({ outputFile := some "a.js" } : Options).outputFile = some "a.js" := rfl
  obtain ⟨bundle, wrappers, maps, hbundle, hcontents, -, hmap, hall⟩ :=
    mappings_lead_back hclassified houtput
  obtain rfl := Except.ok.inj (hemit.symm.trans hbundle)
  refine ⟨m, hclassify, hclassified, houtput, hemit, wrappers, maps, hcontents, hmap, ?_⟩
  intro mapping hmapping
  obtain ⟨w, hw, path, line, -, -, -, hline, hfrom⟩ := hall mapping hmapping
  exact ⟨w, hw, line, hline, hfrom⟩

end Emission

end ModuleLinker
