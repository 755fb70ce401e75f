/-
# ModuleLinker.Proofs.MarkedProgram -- byte order marks leave no trace in a program

The lines of a module are cut out of its text along the spans of its elements, and along the gaps
between them. Behind a byte order mark all of these are moved on by the size of the mark, except
that the first gap still begins with the text: the mark stands on the first line of that gap, from
which it is dropped. A gap further on begins behind a statement, and is told from the first one by
that (`Module.IsWide`). A module behind a mark is therefore written like the module itself.

The order of the modules follows from their identifiers and requires, in which the mark is not
seen. Marks in front of any of the texts change neither a program nor an error (`link_marked`).
-/

import ModuleLinker.Proofs.MarkedModule
import ModuleLinker.Proofs.NumberedOrder

namespace ModuleLinker

open Text

/-! ## Writing a module -/

namespace Emission

variable {setting : Setting} {file : Option String}

theorem numberedLines_add (offset n : Nat) (lines : List (List Char)) :
    numberedLines (offset + n) lines =
      (numberedLines offset lines).map fun line => (line.1 + n, line.2) := by
  induction lines generalizing offset with
  | nil => rfl
  | cons line lines ih =>
      have hnext : offset + n + byteSize line + 1 = offset + byteSize line + 1 + n := by omega
      rw [numberedLines, numberedLines, hnext, ih, List.map_cons]

theorem le_of_mem_numberedLines {offset : Nat} {lines : List (List Char)} {line : Nat × List Char}
    (h : line ∈ numberedLines offset lines) : offset ≤ line.1 := by
  induction lines generalizing offset with
  | nil => cases h
  | cons first lines ih =>
      rcases List.mem_cons.1 h with rfl | h
      · exact Nat.le_refl _
      · have hle := ih h
        omega

section Source

variable (source : Source)

/-- A line that is copied begins inside of a literal behind the mark if it does so without it. -/
theorem statementLines_marked (number : Nat) (first : Bool) (lines : List (Nat × List Char)) :
    statementLines file source.marked number first
        (lines.map fun line => (line.1 + markSize, line.2)) =
      statementLines file source number first lines := by
  induction lines generalizing number first with
  | nil => rfl
  | cons line lines ih =>
      obtain ⟨start, text⟩ := line
      simp only [List.map_cons, statementLines, statementText, source.insideLiteral_marked, ih]

theorem verbatim_marked (span : LineSpan) :
    EndsLike Eq (verbatim file source span) (verbatim file source.marked span.behindMark) := by
  have hslice : source.marked.slice? span.behindMark.toSpan = source.slice? span.toSpan :=
    source.slice?_marked span.toSpan
  unfold verbatim
  rw [hslice]
  cases source.slice? span.toSpan with
  | none => exact .outOfText _ _
  | some piece =>
      show EndsLike Eq _ (.ok (statementLines file source.marked span.firstLine true
        (numberedLines (span.start + markSize) (splitLines piece))))
      rw [numberedLines_add, statementLines_marked]
      exact .ok rfl

theorem exportLine_marked (entry : ExportEntry) :
    EndsLike Eq (exportLine file source entry)
      (exportLine file source.marked entry.behindMark) := by
  have hvalue : EndsLike Eq (boundText source entry)
      (boundText source.marked entry.behindMark) := by
    have hslice : source.marked.slice? entry.behindMark.span.toSpan =
        source.slice? entry.span.toSpan := source.slice?_marked entry.span.toSpan
    have hbinding : entry.behindMark.binding = entry.binding := rfl
    unfold boundText
    rw [hbinding, hslice]
    cases entry.binding with
    | expression text => exact .ok rfl
    | foreign =>
        cases source.slice? entry.span.toSpan with
        | none => exact .outOfText _ _
        | some piece => exact .ok rfl
  apply hvalue.bind
  rintro value _ rfl
  exact .ok rfl

/-! ### Comments -/

/-- What is a comment on a line does not depend on a mark in front of it. -/
theorem commentText?_marked (start : Nat) (opens : Bool) (line : List Char) :
    commentText? start opens (Text.marked line) = commentText? start opens line := by
  have hdrop : (Text.marked line).dropWhile (· = byteOrderMark) =
      line.dropWhile (· = byteOrderMark) := List.dropWhile_cons_of_pos (decide_eq_true rfl)
  simp only [commentText?, hdrop]

/-- Where a gap behind an offset begins behind the mark: the first gap begins with the text. -/
def gapStart : Nat → Nat
  | 0 => 0
  | offset + 1 => offset + 1 + markSize

theorem gapStart_of_pos {offset : Nat} (h : 0 < offset) : gapStart offset = offset + markSize := by
  cases offset with
  | zero => exact absurd h (Nat.lt_irrefl 0)
  | succ => rfl

/-- The comment on a line of a gap that begins at the offset `begins`. -/
def commentOn (file : Option String) (source : Source) (begins : Nat) (line : Nat × List Char) :
    Option Line :=
  (commentText? line.1 (line.1 = begins && 0 < line.1) line.2).map fun text =>
    copied file (indent text) (source.lines.lineOf line.1)

theorem comments_of_slice {gap : Span} {piece : List Char} (h : source.slice? gap = some piece) :
    comments file source gap =
      (numberedLines gap.start (splitLines piece)).filterMap (commentOn file source gap.start) := by
  unfold comments
  rw [h]
  rfl

/-- Behind the first line of the text, what is a comment is one behind the mark. -/
theorem filterMap_commentOn_marked {begins begins' : Nat} {lines : List (Nat × List Char)}
    (hpos : ∀ line ∈ lines, 0 < line.1)
    (hbegins : ∀ line ∈ lines, line.1 + markSize = begins' ↔ line.1 = begins) :
    (lines.map fun line => (line.1 + markSize, line.2)).filterMap
        (commentOn file source.marked begins') =
      lines.filterMap (commentOn file source begins) := by
  rw [List.filterMap_map]
  refine List.filterMap_congr fun line hline => ?_
  -- the text begins with neither line, so that no interpreter is looked for on them
  have hstart : line.1 ≠ 0 := (hpos line hline).ne'
  have hmoved : line.1 + markSize ≠ 0 := by omega
  simp only [Function.comp_apply, commentOn, commentText?, source.lineOf_marked, hbegins line hline,
    hstart, hmoved, decide_false, Bool.false_and, Nat.pos_of_ne_zero hmoved, hpos line hline]

/-- The comments of the first gap are the same behind the mark. -/
theorem comments_marked_first (stop : Nat) :
    comments file source.marked ⟨0, stop + markSize⟩ = comments file source ⟨0, stop⟩ := by
  have hslice : source.marked.slice? ⟨0, stop + markSize⟩ =
      (source.slice? ⟨0, stop⟩).map Text.marked := slice?_marked_zero source.text stop
  cases hpiece : source.slice? ⟨0, stop⟩ with
  | none =>
      rw [hpiece] at hslice
      rw [comments, comments, hslice, hpiece]
      rfl
  | some piece =>
      rw [hpiece] at hslice
      rw [comments_of_slice source hpiece, comments_of_slice source.marked hslice]
      obtain ⟨line, lines, hplain, hmarked⟩ := splitLines_marked piece
      have hnext : 0 + byteSize (Text.marked line) + 1 = 0 + byteSize line + 1 + markSize := by
        rw [byteSize_marked]
        omega
      -- the first line begins at zero with and without the mark, all others are moved along
      have hfirst : commentOn file source.marked 0 (0, Text.marked line) =
          commentOn file source 0 (0, line) := by
        have hline : source.marked.lines.lineOf 0 = source.lines.lineOf 0 := by
          rw [source.lines_eq, source.marked.lines_eq, LineIndex.lineOf_zero, LineIndex.lineOf_zero]
        simp only [commentOn, commentText?_marked, hline]
      have hlater : ∀ other ∈ numberedLines (0 + byteSize line + 1) lines, 0 < other.1 :=
        fun other hother => (Nat.succ_pos _).trans_le (le_of_mem_numberedLines hother)
      have hrest : ((numberedLines (0 + byteSize line + 1) lines).map fun other =>
          (other.1 + markSize, other.2)).filterMap (commentOn file source.marked 0) =
          (numberedLines (0 + byteSize line + 1) lines).filterMap (commentOn file source 0) := by
        refine filterMap_commentOn_marked source hlater fun other hother => ?_
        have hpos := hlater other hother
        omega
      rw [hplain, hmarked, numberedLines, numberedLines, hnext, numberedLines_add,
        List.filterMap_cons, List.filterMap_cons, hfirst, hrest]

/-- The comments of a gap behind a statement are the same behind the mark. -/
theorem comments_marked_later {gap : Span} (h : 0 < gap.start) :
    comments file source.marked gap.behindMark = comments file source gap := by
  have hslice : source.marked.slice? gap.behindMark = source.slice? gap := source.slice?_marked gap
  cases hpiece : source.slice? gap with
  | none =>
      rw [comments, comments, hslice, hpiece]
  | some piece =>
      rw [hpiece] at hslice
      rw [comments_of_slice source hpiece, comments_of_slice source.marked hslice]
      show (numberedLines (gap.start + markSize) _).filterMap
        (commentOn file source.marked (gap.start + markSize)) = _
      rw [numberedLines_add]
      refine filterMap_commentOn_marked source (fun line hline => ?_) fun line _ => ?_
      · exact h.trans_le (le_of_mem_numberedLines hline)
      · exact Nat.add_right_cancel_iff

theorem comments_marked (start stop : Nat) :
    comments file source.marked ⟨gapStart start, stop + markSize⟩ =
      comments file source ⟨start, stop⟩ := by
  cases start with
  | zero => exact comments_marked_first source stop
  | succ start =>
      have hgap : 0 < (Span.mk (start + 1) stop).start := start.succ_pos
      exact comments_marked_later source hgap

end Source

/-! ### Elements -/

theorem elementLines_marked (m : Module) (element : Element) :
    EndsLike Eq (elementLines setting m file element)
      (elementLines setting m.marked file element.behindMark) := by
  cases element with
  | skipped span => exact .ok rfl
  | exports span entries =>
      have hentries : List.Forall₂ (fun entry entry' => ExportEntry.behindMark entry = entry')
          entries (entries.map ExportEntry.behindMark) := forall₂_eq_map_iff.2 rfl
      have hlines : EndsLike (List.Forall₂ Eq) (entries.mapM (exportLine file m.source))
          ((entries.map ExportEntry.behindMark).mapM (exportLine file m.source.marked)) := by
        apply EndsLike.mapM hentries
        rintro entry _ rfl
        exact exportLine_marked m.source entry
      exact hlines.mono fun lines lines' _ hsame => by rwa [List.forall₂_eq_eq_eq] at hsame
  | require span binder target =>
      cases target with
      | unresolved path => exact verbatim_marked m.source span
      | resolved id =>
          have hid : m.marked.id = m.id := rfl
          simp only [elementLines, Element.behindMark, hid]
          split
          · exact .ok rfl
          · exact verbatim_marked m.source span
  | member span => exact verbatim_marked m.source span
  | other span => exact verbatim_marked m.source span

theorem gapLines_marked (m : Module) (previous : Nat) (element : Element) :
    gapLines m.marked file (gapStart previous) element.behindMark =
      gapLines m file previous element := by
  rw [gapLines, gapLines, Element.isSkipped_behindMark, Element.span_behindMark]
  split
  · rfl
  · exact comments_marked m.source previous element.span.start

theorem bodyLines_marked (m : Module) {previous : Nat} {elements : List Element}
    (h : ∀ element ∈ elements, 0 < element.span.stop) :
    EndsLike Eq (bodyLines setting m file previous elements)
      (bodyLines setting m.marked file (gapStart previous)
        (elements.map Element.behindMark)) := by
  induction elements generalizing previous with
  | nil =>
      have hstop : byteSize m.marked.source.text = byteSize m.source.text + markSize :=
        byteSize_marked m.source.text
      have hcomments : comments file m.source.marked ⟨gapStart previous, _⟩ = _ :=
        comments_marked m.source previous (byteSize m.source.text)
      rw [← hstop] at hcomments
      exact .ok hcomments.symm
  | cons element elements ih =>
      obtain ⟨hfirst, hothers⟩ := List.forall_mem_cons.1 h
      -- only a gap that begins with the text begins at the same offset behind the mark
      have hnext : element.behindMark.span.stop = gapStart element.span.stop := by
        rw [gapStart_of_pos hfirst, Element.span_behindMark]
        rfl
      rw [List.map_cons, bodyLines, bodyLines, hnext]
      apply (elementLines_marked m element).bind
      rintro lines _ rfl
      apply (ih hothers).bind
      rintro rest _ rfl
      exact .ok (congrArg (· ++ lines ++ rest) (gapLines_marked m previous element).symm)

/-- A module that may be marked is written like the module itself. -/
theorem moduleLines_marked {outputFile : Option String} {m m' : Module} (h : m.MayBeMarked m') :
    EndsLike Eq (moduleLines setting outputFile m) (moduleLines setting outputFile m') := by
  cases h with
  | same => exact .refl _
  | marked hwide =>
      unfold moduleLines
      apply (bodyLines_marked m hwide).bind
      rintro body _ rfl
      exact .ok rfl

end Emission

/-- Modules that are written alike under the same identifiers make the same program. -/
theorem emit_endsLike {modules modules' : List Module} {options : Options}
    (h : List.Forall₂ (fun m m' => m'.id = m.id ∧ ∀ setting, EndsLike Eq
      (Emission.moduleLines setting options.outputFile m)
      (Emission.moduleLines setting options.outputFile m')) modules modules') :
    EndsLike Eq (emit modules options) (emit modules' options) := by
  have hids : modules'.map (·.id) = modules.map (·.id) :=
    map_eq_map_of_forall₂ (h.flip.imp fun _ _ hm => hm.1)
  have hlines : EndsLike Eq (Emission.programLines modules options)
      (Emission.programLines modules' options) := by
    unfold Emission.programLines
    rw [hids]
    apply (EndsLike.mapM h fun _ _ hm => hm.2 _).bind
    intro bodies bodies' hsame
    rw [List.forall₂_eq_eq_eq] at hsame
    exact .ok (by rw [hsame])
  apply hlines.bind
  rintro lines _ rfl
  exact .ok rfl

/-! ## Modules in order -/

section Order

variable {modules modules' : List Module} (h : List.Forall₂ Module.MayBeMarked modules modules')

include h

theorem map_id_of_mayBeMarked : modules'.map (·.id) = modules.map (·.id) :=
  map_eq_map_of_forall₂ (h.flip.imp fun _ _ hm => hm.id_eq)

theorem definitions_of_mayBeMarked : definitions modules' = definitions modules := by
  induction h with
  | nil => rfl
  | cons hm _ ih =>
      show _ ++ definitions _ = _ ++ definitions _
      rw [hm.definitions_eq, ih]

theorem eliminate_marked (r : Reachability) :
    List.Forall₂ Module.MayBeMarked (eliminate r modules) (eliminate r modules') := by
  have hmap : List.Forall₂ Module.MayBeMarked (modules.map (Module.eliminate r))
      (modules'.map (Module.eliminate r)) := by
    rw [List.forall₂_map_left_iff, List.forall₂_map_right_iff]
    exact h.imp fun m m' hm => hm.eliminate r
  refine List.rel_filter (fun m m' hm => ?_) hmap
  show (!m.isEmpty) = true ↔ (!m'.isEmpty) = true
  rw [hm.isEmpty_eq]

/-- The module that is found under an identifier may be marked. -/
theorem lastWithId?_marked (id : ModuleId) :
    Option.Rel Module.MayBeMarked (lastWithId? modules id) (lastWithId? modules' id) := by
  unfold lastWithId?
  rw [← List.forall₂_reverse_iff] at h
  generalize modules.reverse = xs at h ⊢
  generalize modules'.reverse = ys at h ⊢
  induction h with
  | nil => exact .none
  | cons hm _ ih =>
      rw [List.find?_cons, List.find?_cons, hm.id_eq]
      split
      · exact .some hm
      · exact ih

theorem loadOrder_marked :
    List.Forall₂ Module.MayBeMarked (loadOrder modules) (loadOrder modules') := by
  have hids : identifiers modules' = identifiers modules := by
    rw [identifiers, identifiers, map_id_of_mayBeMarked h]
  have hrequired : requiredAmong (identifiers modules') modules' =
      requiredAmong (identifiers modules) modules := by
    funext id
    rw [hids, requiredAmong, requiredAmong]
    have hfound := lastWithId?_marked h id
    generalize lastWithId? modules id = found at hfound ⊢
    generalize lastWithId? modules' id = found' at hfound ⊢
    cases hfound with
    | none => rfl
    | some hm => simp only [hm.required_eq]
  unfold loadOrder
  dsimp only
  rw [hrequired, hids]
  refine List.rel_filterMap ?_ (List.forall₂_same.2 fun _ _ => rfl)
  rintro id _ rfl
  exact lastWithId?_marked h id

/-- Modules that may be marked make the same program as the modules themselves. -/
theorem emit_marked (options : Options) :
    EndsLike Eq (emit modules options) (emit modules' options) :=
  emit_endsLike (h.imp fun _ _ hm => ⟨hm.id_eq, fun _ => Emission.moduleLines_marked hm⟩)

end Order

/-! ## Linking -/

section Linking

variable {inputs inputs' : List ModuleInput}

theorem loadModules_marked [Script.ParserWording]
    (h : List.Forall₂ ModuleInput.MayBeMarked inputs inputs') :
    EndsLike (List.Forall₂ Module.MayBeMarked) (loadModules inputs) (loadModules inputs') := by
  have hnames : inputs'.map (·.id.name) = inputs.map (·.id.name) :=
    map_eq_map_of_forall₂ (h.flip.imp fun _ _ hinput => congrArg ModuleId.name hinput.id_eq)
  unfold loadModules
  rw [hnames]
  apply EndsLike.mapM h
  intro input input' hinput
  show EndsLike _ (Module.classify _ input >>= fun m => .ok m.analyze)
    (Module.classify _ input' >>= fun m => .ok m.analyze)
  exact (hinput.classify _).bind fun m m' hm => .ok hm.analyze

/-- Byte order marks in front of texts that do not begin with one change nothing: the inputs link to
the same program with the same mapping, or are refused with the same error. -/
theorem link_marked [Script.ParserWording] (h : List.Forall₂ ModuleInput.MayBeMarked inputs inputs')
    (options : Options) :
    link inputs' options = link inputs options := by
  have hids : inputs'.map (·.id) = inputs.map (·.id) :=
    map_eq_map_of_forall₂ (h.flip.imp fun _ _ hinput => hinput.id_eq)
  have hlink : EndsLike Eq (link inputs options) (link inputs' options) := by
    unfold link
    rw [hids]
    apply (EndsLike.refl _).bind
    rintro entries _ rfl
    -- what is live is read off the definitions, which are the same for both
    apply (loadModules_marked h).bind
    intro modules modules' hmodules
    dsimp only
    rw [definitions_of_mayBeMarked hmodules]
    exact emit_marked (loadOrder_marked (eliminate_marked hmodules _)) options
  exact hlink.eq_of_delivers (delivers_link inputs options)

/-- A module with a comment, a literal that runs over two lines, and a comment behind it. -/
def commented : ModuleInput :=
  ⟨.regular "A", some "A/index.js", "// a\nexports.f = `x\n  y`; // b\n"⟩

/-- A module that requires the commented one. -/
def requiring : ModuleInput :=
  ⟨.regular "B", some "B/index.js", "var a = require(\"../A\");\nexports.g = a.f;\n"⟩

/-- The program of both modules, and the lines that it was copied from. -/
def commentedBundle : Bundle where
  code := "var PS = \x7b\x7d;\n(function(exports) \x7b\n  // a\n  exports.f = `x\n  y`;\n" ++
    "  // b\n\x7d)(PS[\"A\"] = PS[\"A\"] || \x7b\x7d);\n(function(exports) \x7b\n" ++
    "  var a = PS[\"A\"];\n  exports.g = a.f;\n\x7d)(PS[\"B\"] = PS[\"B\"] || \x7b\x7d);\n" ++
    "//# sourceMappingURL=a.js.map\n"
  sourceMap := some ⟨"a.js", [⟨2, 0, "A/index.js", 0, 0⟩, ⟨3, 0, "A/index.js", 1, 0⟩,
    ⟨4, 0, "A/index.js", 2, 0⟩, ⟨5, 0, "A/index.js", 2, 0⟩, ⟨8, 0, "B/index.js", 0, 0⟩,
    ⟨9, 0, "B/index.js", 1, 0⟩]⟩

/-- A mark in front of the commented module changes neither the program nor its mapping. -/
theorem marked_comment_leaves_no_trace :
    commented.marked.text = "\uFEFF// a\nexports.f = `x\n  y`; // b\n" ∧
      List.Forall₂ ModuleInput.MayBeMarked [commented, requiring] [commented.marked, requiring] ∧
      link [commented.marked, requiring]
        { entryPoints := [.regular "B"], outputFile := some "a.js" } = .ok commentedBundle := by
  have hmarked : List.Forall₂ ModuleInput.MayBeMarked [commented, requiring]
      [commented.marked, requiring] :=
    .cons (.marked (by decide)) (.cons (.same requiring) .nil)
  have hplain : link [commented, requiring]
      { entryPoints := [.regular "B"], outputFile := some "a.js" } = .ok commentedBundle :=
    eq_ok_of_toOption (by decide +kernel)
  exact ⟨by decide, hmarked, (link_marked hmarked _).trans hplain⟩

end Linking

end ModuleLinker
