/-
# ModuleLinker.Proofs.Layout -- the lines of a module by statement

The lines between the first and the last line of a module are comment lines and the lines of
statements: one statement for each element that is copied or rewritten, and one for each entry of
a table of exports. `Emission.bodyBlocks` tells them apart, and `passages` puts the comments to the
statements that they precede.
-/

import ModuleLinker.Proofs.TextScan
import ModuleLinker.Proofs.Wrapper

namespace ModuleLinker

open Text

namespace Emission

/-! ## Blocks -/

/-- A comment line, or the lines of one statement. -/
inductive Block where
  | comment (line : Line)
  | statement (first : Line) (others : List Line)

def Block.lines : Block → List Line
  | .comment line => [line]
  | .statement first others => first :: others

/-- Lines of one statement, if there are any. -/
def Block.ofLines : List Line → List Block
  | [] => []
  | first :: others => [.statement first others]

/-- The statements of an element; every entry of a table of exports is one. -/
def elementBlocks (setting : Setting) (m : Module) (file : Option String) (element : Element) :
    Except Failure (List Block) := do
  let lines ← elementLines setting m file element
  match element with
  | .exports _ _ => return lines.map fun line => .statement line []
  | _ => return Block.ofLines lines

/-- The blocks of elements behind the offset `previous`. -/
def bodyBlocks (setting : Setting) (m : Module) (file : Option String) :
    (previous : Nat) → List Element → Except Failure (List Block)
  | previous, [] =>
    .ok ((comments file m.source ⟨previous, byteSize m.source.text⟩).map .comment)
  | previous, element :: elements => do
    let gap :=
      if element.isSkipped then []
      else comments file m.source ⟨previous, element.span.start⟩
    let blocks ← elementBlocks setting m file element
    let rest ← bodyBlocks setting m file element.span.stop elements
    return gap.map .comment ++ blocks ++ rest

theorem flatMap_lines_comment (lines : List Line) :
    (lines.map Block.comment).flatMap Block.lines = lines := by
  induction lines with
  | nil => rfl
  | cons line lines ih => rw [List.map_cons, List.flatMap_cons, ih]; rfl

/-- The lines of an element are those of its statements. -/
theorem exists_elementBlocks {setting : Setting} {m : Module} {file : Option String}
    {element : Element} {lines : List Line}
    (h : elementLines setting m file element = .ok lines) :
    ∃ blocks, elementBlocks setting m file element = .ok blocks ∧
      blocks.flatMap Block.lines = lines := by
  have hstatements : (lines.map fun line => Block.statement line []).flatMap Block.lines =
      lines := by
    rw [List.flatMap_map]
    exact List.flatMap_singleton' lines
  have hwhole : (Block.ofLines lines).flatMap Block.lines = lines := by
    cases lines
    · rfl
    · exact List.append_nil _
  unfold elementBlocks
  rw [h]
  cases element
  case exports => exact ⟨_, rfl, hstatements⟩
  all_goals exact ⟨_, rfl, hwhole⟩

/-- The lines of a module are those of its blocks. -/
theorem exists_bodyBlocks {setting : Setting} {m : Module} {file : Option String}
    {previous : Nat} {elements : List Element} {lines : List Line}
    (h : bodyLines setting m file previous elements = .ok lines) :
    ∃ blocks, bodyBlocks setting m file previous elements = .ok blocks ∧
      blocks.flatMap Block.lines = lines := by
  induction elements generalizing previous lines with
  | nil =>
      obtain rfl := Except.ok.inj h
      exact ⟨_, rfl, flatMap_lines_comment _⟩
  | cons element elements ih =>
      obtain ⟨own, rest, hown, hrest, rfl⟩ := bodyLines_cons_eq_ok_iff.1 h
      obtain ⟨ownBlocks, hownBlocks, rfl⟩ := exists_elementBlocks hown
      obtain ⟨restBlocks, hrestBlocks, rfl⟩ := ih hrest
      refine ⟨(gapLines m file previous element).map .comment ++ ownBlocks ++ restBlocks, ?_, ?_⟩
      · unfold bodyBlocks
        rw [hownBlocks, hrestBlocks]
        rfl
      · rw [List.flatMap_append, List.flatMap_append, flatMap_lines_comment]

/-! ## Texts of lines -/

/-- The text of lines, with a newline behind each. -/
def textOf (lines : List Line) : List Char := (joined lines).toList

theorem textOf_cons (line : Line) (lines : List Line) :
    textOf (line :: lines) = line.text.toList ++ '\n' :: textOf lines := by
  simp [textOf, joined]

theorem textOf_append (a b : List Line) : textOf (a ++ b) = textOf a ++ textOf b := by
  induction a with
  | nil => rfl
  | cons line a ih => rw [List.cons_append, textOf_cons, textOf_cons, ih]; simp

theorem complete_textOf (lines : List Line) : Script.Complete (textOf lines) := by
  induction lines with
  | nil => exact .inl rfl
  | cons line lines ih =>
      rw [textOf_cons]
      rcases ih with hnil | hlast
      · rw [hnil]
        exact .inr (by simp)
      · exact .inr (by simp [List.getLast?_append, List.getLast?_cons, hlast])

/-! ## Indentation -/

/-- The line is empty or begins with a blank. -/
def Line.Opens (line : Line) : Prop := ∀ c ∈ line.text.toList.head?, c = ' '

theorem opens_indent (line : List Char) : ∀ c ∈ (indent line).toList.head?, c = ' ' := by
  intro c hc
  simp only [indent, String.toList_ofList, List.head?_cons, Option.mem_def,
    Option.some.injEq] at hc
  exact hc.symm

theorem opens_comments {file : Option String} {source : Source} {gap : Span} {line : Line}
    (h : line ∈ comments file source gap) : Line.Opens line := by
  unfold comments at h
  split at h
  · cases h
  · obtain ⟨⟨start, cs⟩, -, htext⟩ := List.mem_filterMap.1 h
    obtain ⟨text, -, rfl⟩ := Option.map_eq_some_iff.1 htext
    exact opens_indent text

theorem opens_statementText (source : Source) (start : Nat) (cs : List Char) :
    ∀ c ∈ (statementText source true start cs).toList.head?, c = ' ' := by
  unfold statementText
  dsimp only
  split
  · next hempty =>
    have hnil : withoutReturn cs = [] := by simpa using hempty
    rw [hnil]
    intro c hc
    cases hc
  · exact opens_indent _

theorem opens_exportLine {file : Option String} {source : Source} {entry : ExportEntry}
    {line : Line} (h : exportLine file source entry = .ok line) : Line.Opens line := by
  unfold exportLine at h
  cases hvalue : boundText source entry with
  | error failure => rw [hvalue] at h; cases h
  | ok value =>
      rw [hvalue] at h
      cases h
      intro c hc
      simp only [copied, String.toList_append, Option.mem_def] at hc
      exact (Option.some.inj hc).symm

theorem opens_verbatim {file : Option String} {source : Source} {span : LineSpan}
    {lines : List Line} (h : verbatim file source span = .ok lines) :
    ∀ line ∈ lines.head?, Line.Opens line := by
  unfold verbatim at h
  split at h
  · cases h
  · next piece _ =>
    cases h
    intro line hline
    cases hsplit : splitLines piece with
    | nil => rw [hsplit] at hline; cases hline
    | cons cs rest =>
        rw [hsplit] at hline
        obtain rfl := Option.some.inj hline
        exact opens_statementText source _ cs

/-- The first line of an element opens. -/
theorem opens_elementLines {setting : Setting} {m : Module} {file : Option String}
    {element : Element} {lines : List Line}
    (h : elementLines setting m file element = .ok lines) :
    ∀ line ∈ lines.head?, Line.Opens line := by
  cases elementLines_eq_ok_iff.1 h with
  | skipped => exact fun line hline => nomatch hline
  | exports _ hentries =>
      intro line hline
      obtain ⟨entry, -, hentry⟩ :=
        (exists_mem_of_forall₂ hentries).2 line (List.mem_of_mem_head? hline)
      exact opens_exportLine hentry
  | rewritten =>
      intro line hline c hc
      obtain rfl := Option.some.inj hline
      simp only [copied, String.toList_append, Option.mem_def] at hc
      exact (Option.some.inj hc).symm
  | kept _ hlines => exact opens_verbatim hlines

/-- Behind the first line of a module there is a blank or another newline. -/
theorem head?_bodyLines {setting : Setting} {m : Module} {file : Option String}
    {previous : Nat} {elements : List Element} {lines : List Line}
    (h : bodyLines setting m file previous elements = .ok lines) :
    ∀ line ∈ lines.head?, Line.Opens line := by
  induction elements generalizing previous lines with
  | nil =>
      cases h
      exact fun line hline => opens_comments (List.mem_of_mem_head? hline)
  | cons element elements ih =>
      obtain ⟨own, rest, hown, hrest, rfl⟩ := bodyLines_cons_eq_ok_iff.1 h
      intro line hline
      rw [List.head?_append, List.head?_append, Option.mem_def, Option.or_eq_some_iff,
        Option.or_eq_some_iff] at hline
      rcases hline with (hgap | ⟨-, hline⟩) | ⟨-, hline⟩
      · unfold gapLines at hgap
        split at hgap
        · cases hgap
        · exact opens_comments (List.mem_of_mem_head? hgap)
      · exact opens_elementLines hown line hline
      · exact ih hrest line hline

/-! ## Passages -/

/-- The lines of a statement and the comment lines in front of it. -/
structure Passage where
  comments : List Line
  first : Line
  others : List Line

def Passage.lines (p : Passage) : List Line := p.comments ++ p.first :: p.others

def Passage.text (p : Passage) : List Char := textOf p.lines

/-- Where the statement of a passage stands, given where the passage begins: behind the two blanks
in front of it, and up to the end of its last line. -/
def Passage.place (start : Nat) (p : Passage) : Span :=
  ⟨start + byteSize (textOf p.comments) + 2, start + byteSize p.text - 1⟩

/-- Where the statements of consecutive passages stand. -/
def places (start : Nat) : List Passage → List Span
  | [] => []
  | p :: ps => p.place start :: places (start + byteSize p.text) ps

/-- The passages of blocks behind some comment lines, and the comment lines behind the last. -/
def passages (gap : List Line) : List Block → List Passage × List Line
  | [] => ([], gap)
  | .comment line :: blocks => passages (gap ++ [line]) blocks
  | .statement first others :: blocks =>
    (⟨gap, first, others⟩ :: (passages [] blocks).1, (passages [] blocks).2)

theorem passages_lines (gap : List Line) (blocks : List Block) :
    (passages gap blocks).1.flatMap Passage.lines ++ (passages gap blocks).2 =
      gap ++ blocks.flatMap Block.lines := by
  induction blocks generalizing gap with
  | nil => simp [passages]
  | cons block blocks ih =>
      cases block with
      | comment line => simp [passages, ih, Block.lines]
      | statement first others => simp [passages, ih, Block.lines, Passage.lines]

end Emission

end ModuleLinker
