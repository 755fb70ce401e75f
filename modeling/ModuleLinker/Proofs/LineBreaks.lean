/-
# ModuleLinker.Proofs.LineBreaks -- the lines of a module that are several

What is copied from a text is cut at its newlines first, names of modules and exports are quoted,
and the name under which a module is required is a word. The value of an export is the only text
that is written as it stands: a line of a module has a newline in it exactly where such a value has
one (`exists_breaks_iff`).
-/

import ModuleLinker.Proofs.ReadStatement
import ModuleLinker.Proofs.Stages

namespace ModuleLinker

open Text

/-! ## Pieces of texts -/

theorem newline_notMem_of_mem_splitLines {text line : List Char} (h : line ∈ splitLines text) :
    '\n' ∉ line := by
  induction text generalizing line with
  | nil =>
      obtain rfl := List.mem_singleton.1 h
      exact List.not_mem_nil
  | cons c cs ih =>
      unfold splitLines at h
      split at h
      · rcases List.mem_cons.1 h with rfl | h
        · exact List.not_mem_nil
        · exact ih h
      -- A character that is no newline goes in front of the first of the lines behind it.
      · next hc =>
        split at h
        · obtain rfl := List.mem_singleton.1 h
          simpa using Ne.symm hc
        · next first rest hsplit =>
          rcases List.mem_cons.1 h with rfl | h
          · have hfirst : '\n' ∉ first := ih (hsplit ▸ List.mem_cons_self)
            rw [List.mem_cons, not_or]
            exact ⟨Ne.symm hc, hfirst⟩
          · exact ih (hsplit ▸ List.mem_cons_of_mem _ h)

theorem hexDigit_ne_newline {n : Nat} (h : n < 16) : hexDigit n ≠ '\n' := by
  revert n
  decide

theorem newline_notMem_escaped (c : Char) : '\n' ∉ escaped c := by
  unfold escaped
  split_ifs
  all_goals try decide
  · next hcontrol _ _ _ _ _ =>
    have hhigh := hexDigit_ne_newline (n := c.toNat / 16) (by omega)
    have hlow := hexDigit_ne_newline (n := c.toNat % 16) (by omega)
    simp [hhigh.symm, hlow.symm]
  · next hcontrol =>
    rw [List.mem_singleton]
    rintro rfl
    exact hcontrol (by decide)

theorem newline_notMem_quotedChars (cs : List Char) : '\n' ∉ quotedChars cs := by
  simp [quotedChars, newline_notMem_escaped]

theorem mem_trimEnd {c : Char} {cs : List Char} (h : c ∈ trimEnd cs) : c ∈ cs := by
  rw [trimEnd, List.mem_reverse] at h
  exact List.mem_reverse.1 ((List.dropWhile_suffix _).mem h)

theorem mem_trim {c : Char} {cs : List Char} (h : c ∈ trim cs) : c ∈ cs :=
  (List.dropWhile_suffix _).mem (mem_trimEnd h)

/-- The text of the line has a newline in it. -/
def Line.Breaks (line : Line) : Prop := '\n' ∈ line.text.toList

namespace Emission

/-! ## Lines that are copied -/

variable {file : Option String} {source : Source}

theorem mem_of_mem_numberedLines {offset start : Nat} {lines : List (List Char)} {line : List Char}
    (h : (start, line) ∈ numberedLines offset lines) : line ∈ lines := by
  induction lines generalizing offset with
  | nil => cases h
  | cons first lines ih =>
      rcases List.mem_cons.1 h with heq | h
      · exact (Prod.mk.inj heq).2 ▸ List.mem_cons_self
      · exact List.mem_cons_of_mem _ (ih h)

theorem newline_notMem_indent {line : List Char} (h : '\n' ∉ line) :
    '\n' ∉ (indent line).toList := by
  simpa [indent] using h

theorem not_breaks_comments {gap : Span} {line : Line} (h : line ∈ comments file source gap) :
    ¬ line.Breaks := by
  unfold comments at h
  split at h
  · cases h
  · obtain ⟨⟨start, cs⟩, hmem, htext⟩ := List.mem_filterMap.1 h
    obtain ⟨text, hcomment, rfl⟩ := Option.map_eq_some_iff.1 htext
    have hcs : '\n' ∉ cs := newline_notMem_of_mem_splitLines (mem_of_mem_numberedLines hmem)
    have hsubset : ∀ c ∈ text, c ∈ cs := by
      intro c hc
      unfold commentText? at hcomment
      dsimp only at hcomment
      split at hcomment
      · cases hcomment
      · split at hcomment
        · obtain rfl := Option.some.inj hcomment
          exact (List.dropWhile_suffix _).mem (mem_trim hc)
        · obtain rfl := Option.some.inj hcomment
          exact (List.dropWhile_suffix _).mem (mem_trimEnd hc)
    exact newline_notMem_indent fun hmem => hcs (hsubset _ hmem)

theorem newline_notMem_statementText {first : Bool} {start : Nat} {cs : List Char}
    (h : '\n' ∉ cs) : '\n' ∉ (statementText source first start cs).toList := by
  have hreturn : '\n' ∉ withoutReturn cs := by
    unfold withoutReturn
    split
    · exact fun hmem => h (List.mem_of_mem_dropLast hmem)
    · exact h
  unfold statementText
  dsimp only
  split
  · simpa using hreturn
  · exact newline_notMem_indent hreturn

theorem not_breaks_statementLines {pieces : List (Nat × List Char)}
    (h : ∀ piece ∈ pieces, '\n' ∉ piece.2) {number : Nat} {first : Bool} :
    ∀ line ∈ statementLines file source number first pieces, ¬ line.Breaks := by
  induction pieces generalizing number first with
  | nil => exact fun line hline => absurd hline List.not_mem_nil
  | cons piece pieces ih =>
      obtain ⟨hpiece, hpieces⟩ := List.forall_mem_cons.1 h
      exact List.forall_mem_cons.2 ⟨newline_notMem_statementText hpiece, ih hpieces⟩

theorem not_breaks_verbatim {span : LineSpan} {lines : List Line}
    (h : verbatim file source span = .ok lines) : ∀ line ∈ lines, ¬ line.Breaks := by
  unfold verbatim at h
  split at h
  · cases h
  · obtain rfl := Except.ok.inj h
    apply not_breaks_statementLines
    intro piece hpiece
    exact newline_notMem_of_mem_splitLines (mem_of_mem_numberedLines hpiece)

/-! ## Lines that are made -/

theorem newline_notMem_slot {globalObject name : String} (h : '\n' ∉ globalObject.toList) :
    '\n' ∉ (slot globalObject name).toList := by
  simp [slot, h, newline_notMem_quotedChars]

/-- An export breaks where its value does. -/
theorem breaks_exportLine_iff {entry : ExportEntry} {line : Line}
    (h : exportLine file source entry = .ok line) :
    line.Breaks ↔ ∃ value, boundText source entry = .ok value ∧ '\n' ∈ value.toList := by
  obtain ⟨value, hvalue, h⟩ := bind_except_eq_ok_iff.1 h
  obtain rfl := Except.ok.inj h
  rw [hvalue]
  simp [Line.Breaks, copied, newline_notMem_quotedChars]

/-! ## Bodies -/

section Body

variable {setting : Setting} {m : Module} {element : Element} {lines : List Line}

/-- The value of an export that the element holds has a newline in it. -/
def SpreadsExport (source : Source) (element : Element) : Prop :=
  ∃ span entries entry value, element = .exports span entries ∧ entry ∈ entries ∧
    boundText source entry = .ok value ∧ '\n' ∈ value.toList

/-- If the element is a require, its alias has no newline in it. -/
def BindsOnLine (element : Element) : Prop :=
  ∀ span binder target, element = .require span binder target → '\n' ∉ binder.toList

theorem exists_breaks_elementLines_iff (hglobal : '\n' ∉ setting.globalObject.toList)
    (hbinder : BindsOnLine element) (h : elementLines setting m file element = .ok lines) :
    (∃ line ∈ lines, line.Breaks) ↔ SpreadsExport m.source element := by
  cases elementLines_eq_ok_iff.1 h with
  | skipped => simp [SpreadsExport]
  | exports span hentries =>
      have hall := exists_mem_of_forall₂ hentries
      constructor
      · rintro ⟨line, hline, hbreaks⟩
        obtain ⟨entry, hentry, hline⟩ := hall.2 line hline
        obtain ⟨value, hvalue, hnewline⟩ := (breaks_exportLine_iff hline).1 hbreaks
        exact ⟨span, _, entry, value, rfl, hentry, hvalue, hnewline⟩
      · rintro ⟨_, _, entry, value, ⟨⟩, hentry, hvalue, hnewline⟩
        obtain ⟨line, hline, hexport⟩ := hall.1 entry hentry
        exact ⟨line, hline, (breaks_exportLine_iff hexport).2 ⟨value, hvalue, hnewline⟩⟩
  | @rewritten span binder id =>
      have hname : '\n' ∉ binder.toList := hbinder span binder _ rfl
      have hslot : '\n' ∉ (slot setting.globalObject id.name).toList :=
        newline_notMem_slot hglobal
      refine iff_of_false ?_ (by rintro ⟨_, _, _, _, ⟨⟩, -⟩)
      simp [Line.Breaks, copied, hname, hslot]
  | kept hkept hlines =>
      refine iff_of_false ?_ ?_
      · rintro ⟨line, hline, hbreaks⟩
        exact not_breaks_verbatim hlines line hline hbreaks
      · rintro ⟨_, _, _, _, rfl, -⟩
        exact hkept

/-- A line of a module has a newline in it where the value of one of its exports has. -/
theorem exists_breaks_iff (hglobal : '\n' ∉ setting.globalObject.toList) {previous : Nat}
    {elements : List Element} (hbinders : ∀ element ∈ elements, BindsOnLine element)
    (h : bodyLines setting m file previous elements = .ok lines) :
    (∃ line ∈ lines, line.Breaks) ↔ ∃ element ∈ elements, SpreadsExport m.source element := by
  have hcomments : ∀ gap, ¬ ∃ line ∈ comments file m.source gap, line.Breaks := by
    rintro gap ⟨line, hline, hbreaks⟩
    exact not_breaks_comments hline hbreaks
  induction elements generalizing previous lines with
  | nil =>
      obtain rfl := Except.ok.inj h
      exact iff_of_false (hcomments _) (by simp)
  | cons element elements ih =>
      obtain ⟨own, rest, hown, hrest, rfl⟩ := bodyLines_cons_eq_ok_iff.1 h
      obtain ⟨hbinder, hbinders⟩ := List.forall_mem_cons.1 hbinders
      have hgap : ¬ ∃ line ∈ gapLines m file previous element, line.Breaks := by
        unfold gapLines
        split
        · simp
        · exact hcomments _
      -- The comments in front of an element are cut into lines, so that none of them breaks.
      have hparts : (∃ line ∈ gapLines m file previous element ++ own ++ rest, line.Breaks) ↔
          (∃ line ∈ own, line.Breaks) ∨ ∃ line ∈ rest, line.Breaks := by
        simp only [List.mem_append, or_and_right, exists_or]
        rw [or_iff_right hgap]
      have hfirst := exists_breaks_elementLines_iff hglobal hbinder hown
      have hothers := ih hbinders hrest
      refine hparts.trans ((or_congr hfirst hothers).trans ?_)
      simp only [List.mem_cons, or_and_right, exists_or, exists_eq_left]

end Body

/-! ## Origins -/

section Origin

variable {setting : Setting} {m : Module} {lines : List Line}

theorem isSome_origin_copied (file : Option String) (text : String) (number : Nat) :
    (copied file text number).origin.isSome = file.isSome := by
  simp [copied]

theorem isSome_origin_of_mem_comments {gap : Span} {line : Line}
    (h : line ∈ comments file source gap) : line.origin.isSome = file.isSome := by
  unfold comments at h
  split at h
  · cases h
  · obtain ⟨⟨start, cs⟩, -, htext⟩ := List.mem_filterMap.1 h
    obtain ⟨text, -, rfl⟩ := Option.map_eq_some_iff.1 htext
    exact isSome_origin_copied file _ _

theorem isSome_origin_of_mem_statementLines {pieces : List (Nat × List Char)} {number : Nat}
    {first : Bool} :
    ∀ line ∈ statementLines file source number first pieces,
      line.origin.isSome = file.isSome := by
  induction pieces generalizing number first with
  | nil => exact fun line hline => absurd hline List.not_mem_nil
  | cons piece pieces ih =>
      exact List.forall_mem_cons.2 ⟨isSome_origin_copied file _ _, ih⟩

theorem isSome_origin_of_mem_verbatim {span : LineSpan}
    (h : verbatim file source span = .ok lines) :
    ∀ line ∈ lines, line.origin.isSome = file.isSome := by
  unfold verbatim at h
  split at h
  · cases h
  · obtain rfl := Except.ok.inj h
    exact isSome_origin_of_mem_statementLines

theorem isSome_origin_of_mem_elementLines {element : Element}
    (h : elementLines setting m file element = .ok lines) :
    ∀ line ∈ lines, line.origin.isSome = file.isSome := by
  cases elementLines_eq_ok_iff.1 h with
  | skipped => exact fun line hline => absurd hline List.not_mem_nil
  | exports _ hentries =>
      intro line hline
      obtain ⟨entry, -, hline⟩ := (exists_mem_of_forall₂ hentries).2 line hline
      obtain ⟨value, -, hline⟩ := bind_except_eq_ok_iff.1 hline
      obtain rfl := Except.ok.inj hline
      exact isSome_origin_copied file _ _
  | rewritten => exact List.forall_mem_singleton.2 (isSome_origin_copied file _ _)
  | kept _ hlines => exact isSome_origin_of_mem_verbatim hlines

/-- All lines of a module come from its file, if that is known. -/
theorem isSome_origin_of_mem_bodyLines {previous : Nat} {elements : List Element}
    (h : bodyLines setting m file previous elements = .ok lines) :
    ∀ line ∈ lines, line.origin.isSome = file.isSome := by
  induction elements generalizing previous lines with
  | nil =>
      obtain rfl := Except.ok.inj h
      exact fun line hline => isSome_origin_of_mem_comments hline
  | cons element elements ih =>
      obtain ⟨own, rest, hown, hrest, rfl⟩ := bodyLines_cons_eq_ok_iff.1 h
      intro line hline
      rcases List.mem_append.1 hline with hline | hline
      · rcases List.mem_append.1 hline with hline | hline
        · unfold gapLines at hline
          split at hline
          · cases hline
          · exact isSome_origin_of_mem_comments hline
        · exact isSome_origin_of_mem_elementLines hown line hline
      · exact ih hrest line hline

end Origin

end Emission

/-! ## Classified modules -/

/-- What may be left of an element where elements are skipped and exports are left out. -/
inductive Element.LeftOf : Element → Element → Prop
  | same (element : Element) : LeftOf element element
  | skipped (element : Element) : LeftOf (.skipped element.span) element
  | member {span : LineSpan} {visibility : Visibility} {name : String} {value : Script.Expr}
      {dependencies others : List Key} :
      LeftOf (.member span visibility name value dependencies)
        (.member span visibility name value others)
  | exports {span : LineSpan} {left entries : List ExportEntry} :
      (left.map fun entry => { entry with dependencies := [] }).Sublist
        (entries.map fun entry => { entry with dependencies := [] }) →
      LeftOf (.exports span left) (.exports span entries)

/-- The module is a classified one, apart from skipped elements, left out exports, and the
dependencies of its values. -/
def Module.Classified [Script.ParserWording] (m : Module) : Prop :=
  ∃ names input original, Module.classify names input = .ok original ∧ m.id = original.id ∧
    m.filePath = original.filePath ∧ m.source = original.source ∧
    List.Forall₂ Element.LeftOf m.elements original.elements

section Classified

open Script

variable {site : Module.Site} {imports : Module.Imports} {elements : List Element}

theorem Script.Stmt.eq_of_require? {stmt : Stmt} {binder path : String}
    (h : stmt.require? = some (binder, path)) :
    ∃ span inner value, stmt = .declaration span [.mk (.name inner binder) value] := by
  unfold Stmt.require? at h
  split at h
  · obtain ⟨rfl, rfl⟩ := Prod.mk.inj (Option.some.inj h)
    exact ⟨_, _, _, rfl⟩
  · cases h

/-- An alias is the name of a declared variable. -/
theorem bindsOnLine_of_elementOf {stmt : Stmt}
    (hstmt : ∀ span declared, stmt = .declaration span declared → OpensOnLine declared)
    {element : Element} (h : Module.elementOf site imports stmt = .ok element) :
    Emission.BindsOnLine element := by
  rintro span binder target rfl
  unfold Module.elementOf at h
  dsimp only at h
  split at h
  · next name path hrequire =>
    obtain ⟨_, inner, value, rfl⟩ := Stmt.eq_of_require? hrequire
    obtain ⟨-, rfl, -⟩ := Element.require.inj (Except.ok.inj h)
    exact hstmt _ _ rfl _ value [] rfl inner name rfl
  · split at h
    · cases h
    · split at h
      · obtain ⟨_, -, h⟩ := bind_except_eq_ok_iff.1 h
        cases h
      · split at h <;> cases h

theorem bindsOnLine_of_elementsOf {stmts : List Stmt}
    (hstmts : ∀ span declared, .declaration span declared ∈ stmts → OpensOnLine declared)
    (h : Module.elementsOf site imports stmts = .ok elements) :
    ∀ element ∈ elements, Emission.BindsOnLine element := by
  intro element helement
  obtain ⟨stmt, hstmt, imports, hread⟩ :=
    (exists_mem_of_forall₂ (Module.forall₂_elementOf h)).2 element helement
  exact bindsOnLine_of_elementOf (fun span declared heq => hstmts span declared (heq ▸ hstmt)) hread

/-- The value of an export of the module has a newline in it. -/
def Module.SpreadsExport (m : Module) : Prop :=
  ∃ element ∈ m.elements, Emission.SpreadsExport m.source element

/-- No alias of a classified module has a newline in it. -/
theorem Module.Classified.bindsOnLine [ParserWording] {m : Module} (h : m.Classified) :
    ∀ element ∈ m.elements, Emission.BindsOnLine element := by
  obtain ⟨names, input, original, hclassify, -, -, -, hleft⟩ := h
  obtain ⟨program, site, hread, helements, -⟩ := classify_eq_ok hclassify
  have hall : ∀ element ∈ original.elements, Emission.BindsOnLine element :=
    bindsOnLine_of_elementsOf (onLine_of_read hread) helements
  intro element helement span binder target hrequire
  obtain ⟨before, hbefore, hrel⟩ := (exists_mem_of_forall₂ hleft).1 element helement
  rw [hrequire] at hrel
  cases hrel
  exact hall _ hbefore span binder target rfl

end Classified

end ModuleLinker
