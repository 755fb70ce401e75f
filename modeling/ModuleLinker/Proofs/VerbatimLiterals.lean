/-
# ModuleLinker.Proofs.VerbatimLiterals -- literals survive

What a module writes of a statement that is copied is the statement's text, with two blanks in front
of each line that does not begin inside of a literal and without the carriage returns at the ends of
the lines. The literals are those of the syntax tree of the statement, at any depth: a line begins
inside of one of them if and only if it begins inside of a literal that was collected for the module
because it runs over several lines.

`literals_survive` says so, and that each literal is therefore written as it stands in the text but
for its carriage returns.
-/

import ModuleLinker.Proofs.LineNumbers
import ModuleLinker.Proofs.LiteralPlaces
import ModuleLinker.Proofs.VerbatimCopy

namespace ModuleLinker

open Script Text

/-! ## Inside of literals -/

namespace Script

/-- The offset lies strictly inside of a literal of the statement. -/
def Stmt.IsInside (stmt : Stmt) (offset : Nat) : Prop :=
  ∃ span ∈ literals stmt, span.start < offset ∧ offset < span.stop

instance (stmt : Stmt) : DecidablePred stmt.IsInside := fun offset =>
  decidable_of_iff
    (∃ span ∈ literalSpans (stmt.occurrences []), span.start < offset ∧ offset < span.stop)
    (exists_congr fun _ => and_congr_left' (Node.mem_literals_iff (.stmt stmt)).symm)

end Script

/-- A newline in a piece of a text, behind which a line begins inside of a literal, is a character
of the literal; it is not the last one, which is a quote. -/
theorem newline_mem_of_cuts {start : Nat} {piece before body behind above below : List Char}
    {span : Span} {quote : Char} (h : Cuts start piece span before (body ++ [quote]) behind)
    (hquote : quote.utf8Size = 1) (hline : piece = above ++ '\n' :: below)
    (hlow : span.start < start + byteSize above + 1)
    (hhigh : start + byteSize above + 1 < span.stop) : '\n' ∈ body := by
  have hbegins := h.start_eq
  have hends := h.stop_eq
  obtain ⟨inner, rfl, hrest⟩ := exists_append_of_byteSize_le (h.eq.symm.trans hline) (by omega)
  have hinner : byteSize (inner ++ ['\n']) ≤ byteSize body := by
    have hnewline : Char.utf8Size '\n' = 1 := rfl
    simp only [byteSize_append, byteSize, hquote] at hhigh hends ⊢
    omega
  have hbody : (inner ++ ['\n']) ++ below = body ++ ([quote] ++ behind) := by
    simpa using hrest.symm
  obtain ⟨rest, rfl, -⟩ := exists_append_of_byteSize_le hbody hinner
  simp

section Inside

variable {names : List String} {input : ModuleInput} {program : Program} {stmt : Stmt}
  {offset : Nat}

/-- The literals of a program that run over several lines are those of its statements. -/
theorem mem_multilineLiterals_iff {lines : LineIndex} {place : Span} :
    place ∈ Module.multilineLiterals lines program ↔
      ∃ stmt ∈ program.statements, ∃ span ∈ literals stmt, place = span.shift program.origin ∧
        (lines.locate place).firstLine < (lines.locate place).lastLine := by
  have hliterals : ∀ span, span ∈ literalSpans (occurrencesOfStmts [] program.statements) ↔
      ∃ stmt ∈ program.statements, span ∈ literals stmt := by
    intro span
    have hnode : ∀ stmt : Stmt, span ∈ literals stmt ↔ ∃ hidden,
        ⟨.literal span, hidden⟩ ∈ stmt.occurrences [] := fun stmt =>
      (Node.mem_literals_iff (.stmt stmt)).trans mem_literalSpans_iff
    rw [mem_literalSpans_iff]
    simp only [mem_occurrencesOfStmts, hnode]
    constructor
    · rintro ⟨hidden, stmt, hstmt, hmem⟩
      exact ⟨stmt, hstmt, hidden, hmem⟩
    · rintro ⟨stmt, hstmt, hidden, hmem⟩
      exact ⟨hidden, stmt, hstmt, hmem⟩
  simp only [Module.multilineLiterals, List.mem_filter, List.mem_map, hliterals, decide_eq_true_eq]
  constructor
  · rintro ⟨⟨span, ⟨stmt, hstmt, hspan⟩, rfl⟩, hlines⟩
    exact ⟨stmt, hstmt, span, hspan, rfl, hlines⟩
  · rintro ⟨stmt, hstmt, span, hspan, rfl, hlines⟩
    exact ⟨⟨span, ⟨stmt, hstmt, hspan⟩, rfl⟩, hlines⟩

/-- An offset lies inside of a literal that was collected if it lies inside of a literal, of any
statement, that runs over several lines. -/
theorem insideLiteral_siteOf_iff :
    (Module.siteOf names input program).source.insideLiteral (offset + program.origin) ↔
      ∃ stmt ∈ program.statements, ∃ span ∈ literals stmt,
        (span.start < offset ∧ offset < span.stop) ∧
        ((LineIndex.ofText input.text.toList).locate (span.shift program.origin)).firstLine <
          ((LineIndex.ofText input.text.toList).locate (span.shift program.origin)).lastLine := by
  simp only [Source.insideLiteral, Module.siteOf, Source.ofText, List.any_eq_true,
    mem_multilineLiterals_iff, Bool.and_eq_true, decide_eq_true_eq]
  constructor
  · rintro ⟨_, ⟨stmt, hstmt, span, hspan, rfl, hlines⟩, hstart, hstop⟩
    exact ⟨stmt, hstmt, span, hspan,
      ⟨Nat.lt_of_add_lt_add_right hstart, Nat.lt_of_add_lt_add_right hstop⟩, hlines⟩
  · rintro ⟨stmt, hstmt, span, hspan, ⟨hstart, hstop⟩, hlines⟩
    exact ⟨_, ⟨stmt, hstmt, span, hspan, rfl, hlines⟩, Nat.add_lt_add_right hstart _,
      Nat.add_lt_add_right hstop _⟩

variable (hread : Program.read input.text.toList = .ok program)
  (hstmt : stmt ∈ program.statements)

include hread hstmt

/-- No literal of another statement reaches into a statement. -/
theorem isInside_of_insideLiteral (hlow : stmt.span.start ≤ offset)
    (hhigh : offset ≤ stmt.span.stop)
    (h : (Module.siteOf names input program).source.insideLiteral (offset + program.origin)) :
    stmt.IsInside offset := by
  obtain ⟨other, hother, span, hspan, ⟨hstart, hstop⟩, -⟩ := insideLiteral_siteOf_iff.1 h
  obtain ⟨_, script, -, -, hscript⟩ := Program.exists_script_of_read hread
  obtain ⟨hstands, hpairs⟩ := Program.standsIn_of_readScript hscript
  obtain ⟨hbegins, hends, -⟩ := (hstands other hother).quoted span hspan
  -- the statements stand one behind the other, and each holds its own literals
  let Apart (a b : Stmt) : Prop :=
    a = b ∨ a.span.stop ≤ b.span.start ∨ b.span.stop ≤ a.span.start
  have happart : Apart stmt other :=
    List.Pairwise.forall_of_forall_of_flip (R := Apart) (fun _ _ => .inl rfl)
      (hpairs.imp fun h => .inr (.inl h)) (hpairs.imp fun h => .inr (.inr h)) hstmt hother
  rcases happart with rfl | hbefore | hbehind
  · exact ⟨span, hspan, hstart, hstop⟩
  all_goals omega

/-- A literal that a line begins inside of runs over several lines. -/
theorem insideLiteral_of_isInside {piece above below : List Char}
    (hpiece : slice? input.text.toList (stmt.span.shift program.origin) = some piece)
    (hline : piece = above ++ '\n' :: below)
    (h : stmt.IsInside (stmt.span.start + byteSize above + 1)) :
    (Module.siteOf names input program).source.insideLiteral
      (stmt.span.start + byteSize above + 1 + program.origin) := by
  obtain ⟨span, hspan, hstart, hstop⟩ := h
  refine insideLiteral_siteOf_iff.2 ⟨stmt, hstmt, span, hspan, ⟨hstart, hstop⟩, ?_⟩
  obtain ⟨piece', hpiece', hcut⟩ := Program.exists_piece_of_read hread hstmt
  obtain rfl := Option.some.inj (hpiece.symm.trans hpiece')
  obtain ⟨before, body, quote, behind, hquote, hcuts⟩ := hcut span hspan
  obtain ⟨front, back, htext, hfront, -⟩ := slice?_eq_some_iff.1 hpiece
  -- A literal around the beginning of a line has a newline in its body, so that it is one of those
  -- the module remembers.
  have hnewline : '\n' ∈ body :=
    newline_mem_of_cuts hcuts hquote.utf8Size_eq hline hstart hstop
  have hplace : input.text.toList =
      (front ++ before) ++ (body ++ [quote] ++ (behind ++ back)) := by
    rw [htext, hcuts.eq]
    simp only [List.append_assoc]
  have hbegins := hcuts.start_eq
  have hends := hcuts.stop_eq
  rw [hplace]
  refine (LineIndex.firstLine_lt_lastLine_iff hquote.utf8Size_eq ?_ ?_).2 hnewline
  · rw [byteSize_append, hfront]
    dsimp only [Span.shift]
    omega
  · dsimp only [Span.shift]
    omega

end Inside

/-! ## Statements as they are written -/

/-- What is written of a statement, whose text is a piece of the text of its module: a copy of that
piece, in which each of its literals stands at its place without its carriage returns. -/
structure Script.Stmt.CopiedAs (stmt : Stmt) (piece copy : List Char) : Prop where
  copy_eq : copy = Emission.writtenOf stmt.IsInside stmt.span.start piece
  literal : ∀ span ∈ literals stmt, ∃ before literal behind,
    Cuts stmt.span.start piece span before literal behind ∧
    copy = (Emission.margin stmt.IsInside stmt.span.start (piece ++ ['\n']) ++
        Emission.copyOf stmt.IsInside (literal ++ (behind ++ ['\n'])) stmt.span.start before) ++
      Emission.withoutReturns literal ++
      (Emission.copyOf stmt.IsInside ['\n'] span.stop behind ++ ['\n'])

section Statements

open Emission

/-- A literal all of which is taken to be inside of literals is written without its carriage
returns: no line begins at its end, for it ends with a quote. -/
theorem copyOf_literal {inside : Nat → Prop} [DecidablePred inside] {behind body : List Char}
    {quote : Char} {offset : Nat} (hquote : IsQuote quote)
    (hinside : ∀ o, offset < o → o < offset + byteSize (body ++ [quote]) → inside o) :
    copyOf inside behind offset (body ++ [quote]) = withoutReturns (body ++ [quote]) := by
  apply copyOf_eq_withoutReturns
  · intro above below hline
    have hbelow : below ≠ [] := by
      rintro rfl
      have hlast := (List.append_inj' hline rfl).2
      rcases hquote with rfl | rfl | rfl <;> cases hlast
    obtain ⟨c, below, rfl⟩ := List.exists_cons_of_ne_nil hbelow
    apply hinside
    · omega
    · have hnewline : Char.utf8Size '\n' = 1 := rfl
      have hc := c.utf8Size_pos
      rw [hline]
      simp only [byteSize_append, byteSize]
      omega
  · rw [List.getLast?_concat]
    rintro ⟨⟩
    rcases hquote with h | h | h <;> cases h

variable {names : List String} {input : ModuleInput} {program : Program} {stmt : Stmt}
  {piece : List Char} (hread : Program.read input.text.toList = .ok program)
  (hstmt : stmt ∈ program.statements)
  (hpiece : slice? input.text.toList (stmt.span.shift program.origin) = some piece)

include hread hstmt hpiece

/-- In the copy of a statement, its literals stand without their carriage returns. -/
theorem copiedAs_of_copy {copy : List Char}
    (hcopy : copy = writtenOf stmt.IsInside stmt.span.start piece) :
    stmt.CopiedAs piece copy := by
  refine ⟨hcopy, fun span hspan => ?_⟩
  obtain ⟨piece', hpiece', hcut⟩ := Program.exists_piece_of_read hread hstmt
  obtain rfl := Option.some.inj (hpiece.symm.trans hpiece')
  obtain ⟨before, body, quote, behind, hquote, hcuts⟩ := hcut span hspan
  refine ⟨before, body ++ [quote], behind, hcuts, ?_⟩
  have hliteral : copyOf stmt.IsInside (behind ++ ['\n']) span.start (body ++ [quote]) =
      withoutReturns (body ++ [quote]) :=
    copyOf_literal hquote fun o hlow hhigh => ⟨span, hspan, hlow, hcuts.stop_eq ▸ hhigh⟩
  have hsplit : copyOf stmt.IsInside ['\n'] stmt.span.start piece =
      copyOf stmt.IsInside ((body ++ [quote]) ++ (behind ++ ['\n'])) stmt.span.start before ++
        (withoutReturns (body ++ [quote]) ++ copyOf stmt.IsInside ['\n'] span.stop behind) := by
    rw [hcuts.eq, copyOf_append, hcuts.start_eq, copyOf_append, hcuts.stop_eq, hliteral,
      List.append_assoc (body ++ [quote])]
  rw [hcopy, writtenOf, hsplit]
  simp only [List.append_assoc]

/-- The lines of a statement are what is written of it, as its own literals say. -/
theorem joined_statementLines_eq {file : Option String} {number : Nat} :
    (joined (statementLines file (Module.siteOf names input program).source number true
      (numberedLines (stmt.span.start + program.origin) (splitLines piece)))).toList =
    writtenOf stmt.IsInside stmt.span.start piece := by
  have hsize : stmt.span.start + byteSize piece = stmt.span.stop := by
    obtain ⟨front, back, -, hfront, hend⟩ := slice?_eq_some_iff.1 hpiece
    dsimp only [Span.shift] at hfront hend
    omega
  -- No literal of the statement begins in front of it.
  have hstart : ¬ stmt.IsInside stmt.span.start := by
    rintro ⟨span, hspan, hbegins, -⟩
    obtain ⟨_, -, hcut⟩ := Program.exists_piece_of_read hread hstmt
    obtain ⟨_, _, _, _, -, hcuts⟩ := hcut span hspan
    have := hcuts.start_eq
    omega
  have hinside : ¬ InsideLiteral (Module.siteOf names input program).source
      (stmt.span.start + program.origin) :=
    mt (isInside_of_insideLiteral hread hstmt (Nat.le_refl _) (by omega)) hstart
  rw [toList_joined_statementLines rfl fun _ => hinside, writtenOf, writtenOf,
    margin_congr (iff_of_false hinside hstart)]
  congr 2
  apply copyOf_congr
  intro above below hline
  have hline' : stmt.span.start + byteSize above + 1 ≤ stmt.span.stop := by
    rw [← hsize, hline]
    simp only [byteSize_append, byteSize]
    have hnewline : Char.utf8Size '\n' = 1 := rfl
    omega
  exact ⟨isInside_of_insideLiteral hread hstmt (by omega) hline',
    insideLiteral_of_isInside hread hstmt hpiece hline⟩

end Statements

/-! ## Elements -/

section Elements

open Emission

variable {setting : Setting} {m : Module} {file : Option String} {element : Element}

theorem span_of_elementOf {site : Module.Site} {imports : Module.Imports} {stmt : Stmt}
    (h : Module.elementOf site imports stmt = .ok element) :
    element.span = site.locate stmt.span := by
  unfold Module.elementOf at h
  dsimp only at h
  split at h
  · exact Except.ok.inj h ▸ rfl
  · split at h
    · exact Except.ok.inj h ▸ rfl
    · split at h
      · obtain ⟨_, -, h⟩ := bind_except_eq_ok_iff.1 h
        exact Except.ok.inj h ▸ rfl
      · split at h <;> exact Except.ok.inj h ▸ rfl

theorem Element.span_eliminate (r : Reachability) (owner : ModuleId) (element : Element) :
    (element.eliminate r owner).span = element.span := by
  unfold Element.eliminate
  split
  · split <;> rfl
  · rfl
  · split <;> rfl
  · rfl

theorem Scope.span_analyzeElement (scope : Scope) (element : Element) :
    (scope.analyzeElement element).span = element.span := by
  cases element <;> rfl

/-- The elements of a module stand where its statements do. -/
theorem forall₂_span_eliminate {site : Module.Site} {stmts : List Stmt}
    (h : Module.elementsOf site [] stmts = .ok m.elements) (r : Reachability) :
    List.Forall₂ (fun stmt element => element.span = site.locate stmt.span)
      stmts (m.analyze.eliminate r).elements := by
  simp only [Module.eliminate, Module.analyze, List.forall₂_map_right_iff]
  refine (Module.forall₂_elementOf h).imp ?_
  rintro stmt element ⟨imports, helement⟩
  rw [Element.span_eliminate, Scope.span_analyzeElement, span_of_elementOf helement]

/-- The lines of an element stand among those of its module. -/
theorem infix_of_moduleLines {outputFile : Option String} {lines written : List Line}
    (h : moduleLines setting outputFile m = .ok written) (helement : element ∈ m.elements)
    (hlines : elementLines setting m (sourceFile outputFile m) element = .ok lines) :
    lines <:+: written := by
  obtain ⟨w, rfl, rfl⟩ := moduleLines_eq_ok_iff.1 h
  obtain ⟨front, lines', back, hlines', hbody⟩ := exists_elementLines_of_mem w.isBody helement
  obtain rfl := Except.ok.inj (hlines.symm.trans hlines')
  exact ⟨openingLine :: front, back ++ [closingLine setting w.content.id],
    by simp [Wrapper.lines, hbody]⟩

/-- Each statement of a module that is copied is written with its literals as they stand in the
text, but for their carriage returns. Besides, only the blanks in front of its lines and the
carriage returns at the ends of its lines are different. -/
theorem literals_survive [ParserWording] {names : List String} {input : ModuleInput}
    (h : Module.classify names input = .ok m) (r : Reachability) (setting : Setting)
    (outputFile : Option String) :
    ∃ program, Program.read input.text.toList = .ok program ∧
      List.Forall₂ (fun stmt element => element.IsVerbatim setting m.id →
          ∃ piece lines,
            slice? input.text.toList (stmt.span.shift program.origin) = some piece ∧
            elementLines setting (m.analyze.eliminate r)
              (sourceFile outputFile (m.analyze.eliminate r)) element = .ok lines ∧
            stmt.CopiedAs piece (joined lines).toList ∧
            ∀ written, moduleLines setting outputFile (m.analyze.eliminate r) = .ok written →
              lines <:+: written)
        program.statements (m.analyze.eliminate r).elements := by
  obtain ⟨program, elements, hread, helements, rfl⟩ := Module.classify_eq_ok_iff.1 h
  let source := (Module.siteOf names input program).source
  let left : Module := (Module.mk input.id input.filePath source elements).analyze.eliminate r
  let file := sourceFile outputFile left
  have hspans : List.Forall₂ _ program.statements left.elements :=
    forall₂_span_eliminate helements r
  refine ⟨program, hread, (forall₂_with_mem hspans).imp ?_⟩
  rintro stmt element ⟨hstmt, helement, hspan⟩ hverbatim
  obtain ⟨piece, hpiece, -⟩ := Program.exists_piece_of_read hread hstmt
  have hslice : source.slice? element.span.toSpan = some piece := by
    rw [hspan]
    exact hpiece
  have hlines : elementLines setting left file element =
      .ok (statementLines file source element.span.firstLine true
        (numberedLines (stmt.span.start + program.origin) (splitLines piece))) := by
    refine (elementLines_of_isVerbatim (m := left) hverbatim).trans ?_
    show verbatim file source element.span = _
    unfold verbatim
    rw [hslice, hspan]
    rfl
  exact ⟨piece, _, hpiece, hlines,
    copiedAs_of_copy hread hstmt hpiece (joined_statementLines_eq hread hstmt hpiece),
    fun written h => infix_of_moduleLines h helement hlines⟩

/-- A call on four lines behind a byte order mark. A template with a string in it goes on up to the
third line, which begins with its closing quote. -/
def templateInput : ModuleInput :=
  ⟨.regular "M", none, "\uFEFFt(`a\r\n$\x7b'b'\x7d\r\n`,\r\nc)"⟩

def templateSetting : Setting := ⟨"PS", [.regular "M"]⟩

/-- The lines of the template are copied without their carriage returns, and no blanks are written
in front of them. -/
theorem template_survives :
    ∃ m program stmt element piece lines, Module.classify ["M"] templateInput = .ok m ∧
      Program.read templateInput.text.toList = .ok program ∧ program.statements = [stmt] ∧
      ⟨2, 15⟩ ∈ literals stmt ∧ ⟨8, 11⟩ ∈ literals stmt ∧
      (m.analyze.eliminate {}).elements = [element] ∧
      element.IsVerbatim templateSetting m.id ∧
      elementLines templateSetting (m.analyze.eliminate {}) none element = .ok lines ∧
      joined lines = "  t(`a\n$\x7b'b'\x7d\n`,\n  c)\n" ∧
      stmt.CopiedAs piece (joined lines).toList := by
  have hrun : (Module.classify ["M"] templateInput).toOption.map (fun m =>
      (m.analyze.eliminate {}).elements.map fun element =>
        (match element with
          | .other _ => true
          | _ => false,
        (elementLines templateSetting (m.analyze.eliminate {}) none element).toOption.map
          joined)) = some [(true, some "  t(`a\n$\x7b'b'\x7d\n`,\n  c)\n")] := by
    decide +kernel
  have hspans : (Program.read templateInput.text.toList).toOption.map (fun program =>
      program.statements.map fun stmt => literalSpans (stmt.occurrences [])) =
        some [[⟨2, 15⟩, ⟨8, 11⟩]] := by
    decide +kernel
  obtain ⟨m, hm, helements⟩ := Option.map_eq_some_iff.1 hrun
  have hclassify : Module.classify ["M"] templateInput = .ok m := eq_ok_of_toOption hm
  obtain ⟨program, hread, hall⟩ := literals_survive hclassify {} templateSetting none
  obtain ⟨element, rest, hsplit, helement, hrest⟩ := List.map_eq_cons_iff.1 helements
  obtain rfl := List.map_eq_nil_iff.1 hrest
  obtain ⟨hother, hjoined⟩ := Prod.mk.inj helement
  have hverbatim : element.IsVerbatim templateSetting m.id := by
    cases element with
    | other => trivial
    | _ => cases hother
  rw [hread] at hspans
  obtain ⟨stmt, others, hstmts, hliterals, hothers⟩ :=
    List.map_eq_cons_iff.1 (Option.some.inj hspans)
  obtain rfl := List.map_eq_nil_iff.1 hothers
  have hmem (span : Span) (h : span ∈ [(⟨2, 15⟩ : Span), ⟨8, 11⟩]) : span ∈ literals stmt :=
    (Node.mem_literals_iff (.stmt stmt)).2 (hliterals ▸ h)
  rw [hstmts, hsplit] at hall
  obtain ⟨piece, lines, -, hlines, hcopied, -⟩ := (List.forall₂_cons.1 hall).1 hverbatim
  have hlines : elementLines templateSetting (m.analyze.eliminate {}) none element = .ok lines :=
    hlines
  rw [hlines] at hjoined
  exact ⟨m, program, stmt, element, piece, lines, hclassify, hread, hstmts,
    hmem _ (by decide), hmem _ (by decide), hsplit, hverbatim, hlines,
    Option.some.inj hjoined, hcopied⟩

end Elements

end ModuleLinker
