/-
# ModuleLinker.Proofs.VisibleText -- nothing of a module is lost or written twice

The elements of a module and the gaps between them cover its text like tiles (`text_eq_tiles`).
What is written of the module goes through the tiles in their order and writes the gap of each,
unless its element is skipped, and then the element: the piece of text under it, a rewritten
require, the assignments of its exports, or nothing. Lines are indented and trimmed on the way, so
that blanks and byte order marks come and go. All other characters are visible, and of these only a
first line that names an interpreter is left out besides (`visible_text_kept`).
-/

import Mathlib.Data.List.TakeWhile
import ModuleLinker.Proofs.OriginalLines

namespace ModuleLinker

open Text

/-! ## Visible characters -/

namespace Text

/-- The text without its blanks and byte order marks. -/
def visible (text : List Char) : List Char :=
  text.filter fun c => !isBlank c && c ≠ byteOrderMark

@[simp] theorem visible_nil : visible [] = [] := rfl

@[simp] theorem visible_append (a b : List Char) : visible (a ++ b) = visible a ++ visible b :=
  List.filter_append ..

theorem visible_cons_of_isBlank {c : Char} (h : isBlank c) (text : List Char) :
    visible (c :: text) = visible text := by
  simp [visible, h]

theorem visible_eq_nil {text : List Char} (h : ∀ c ∈ text, isBlank c ∨ c = byteOrderMark) :
    visible text = [] := by
  rw [visible, List.filter_eq_nil_iff]
  intro c hc
  rcases h c hc with hblank | rfl
  · simp [hblank]
  · simp

/-- Taking off characters that are not visible at the beginning leaves the visible text. -/
theorem visible_dropWhile {p : Char → Bool} (h : ∀ c, p c → isBlank c ∨ c = byteOrderMark)
    (text : List Char) : visible (text.dropWhile p) = visible text := by
  have htaken : visible (text.takeWhile p) = [] :=
    visible_eq_nil fun c hc => h c (List.mem_takeWhile_imp hc)
  calc visible (text.dropWhile p)
      = visible (text.takeWhile p) ++ visible (text.dropWhile p) := by rw [htaken, List.nil_append]
    _ = visible text := by rw [← visible_append, List.takeWhile_append_dropWhile]

theorem visible_reverse (text : List Char) : visible text.reverse = (visible text).reverse :=
  List.filter_reverse ..

@[simp] theorem visible_trimEnd (text : List Char) : visible (trimEnd text) = visible text := by
  rw [trimEnd, visible_reverse, visible_dropWhile fun _ => .inl, visible_reverse,
    List.reverse_reverse]

@[simp] theorem visible_trim (text : List Char) : visible (trim text) = visible text := by
  rw [trim, visible_trimEnd, trimStart, visible_dropWhile fun _ => .inl]

/-- A text is as visible as its lines. -/
theorem visible_eq_flatMap_splitLines (text : List Char) :
    visible text = (splitLines text).flatMap visible := by
  induction text with
  | nil => rfl
  | cons c text ih =>
      unfold splitLines
      split
      · next hc => rw [hc, visible_cons_of_isBlank rfl, ih, List.flatMap_cons, visible_nil,
          List.nil_append]
      · split
        · next hnone => exact absurd hnone (splitLines_ne_nil text)
        · next first lines hsplit =>
          rw [hsplit, List.flatMap_cons] at ih
          rw [List.flatMap_cons, ← List.singleton_append, visible_append, ih,
            ← List.singleton_append (l := first), visible_append, List.append_assoc]

end Text

namespace Emission

/-- What is visible of lines. -/
def visibleLines (lines : List Line) : List Char :=
  lines.flatMap fun line => visible line.text.toList

theorem visible_joined (lines : List Line) :
    visible (joined lines).toList = visibleLines lines := by
  induction lines with
  | nil => rfl
  | cons line lines ih =>
      rw [joined, String.toList_append, String.toList_append, visible_append, visible_append, ih]
      have hnewline : visible "\n".toList = [] := rfl
      rw [hnewline, List.append_nil]
      rfl

@[simp] theorem visible_indent (line : List Char) :
    visible (indent line).toList = visible line := by
  have hblank : isBlank ' ' = true := rfl
  simp [indent, visible_cons_of_isBlank hblank]

theorem visible_margin (text : String) : visible ("  " ++ text).toList = visible text.toList := by
  rw [String.toList_append, visible_append]
  rfl

@[simp] theorem visibleLines_append (a b : List Line) :
    visibleLines (a ++ b) = visibleLines a ++ visibleLines b := List.flatMap_append

/-! ## Gaps -/

/-- Whether a text begins with the name of an interpreter, byte order marks apart. -/
def namesInterpreter (text : List Char) : Bool :=
  (text.dropWhile (· = byteOrderMark)).take 2 = ['#', '!']

/-- What there is to see of a gap that begins at an offset: all of it, but for a first line of the
text that names an interpreter. -/
def gapContent (offset : Nat) (gap : List Char) : List Char :=
  visible (if offset = 0 ∧ namesInterpreter gap then gap.dropWhile (· ≠ '\n') else gap)

/-- What there is to see of a line of a gap. -/
def lineContent (line : Nat × List Char) : List Char :=
  if line.1 = 0 ∧ namesInterpreter line.2 then [] else visible line.2

/-- The first line alone tells whether a text names an interpreter. -/
theorem namesInterpreter_append (line below : List Char) :
    namesInterpreter (line ++ '\n' :: below) = namesInterpreter line := by
  induction line with
  | nil => simp [namesInterpreter, byteOrderMark]
  | cons c line ih =>
      by_cases hc : c = byteOrderMark
      · simpa [namesInterpreter, hc] using ih
      · cases line <;> simp [namesInterpreter, hc]

/-- Whether a text names an interpreter is a matter of its first line, and what is visible behind
that line is what is visible of the other lines. -/
theorem namesInterpreter_first {text first : List Char} {lines : List (List Char)}
    (h : splitLines text = first :: lines) :
    namesInterpreter text = namesInterpreter first ∧
      visible (text.dropWhile (· ≠ '\n')) = lines.flatMap visible := by
  have hfirst : '\n' ∉ first := newline_notMem_of_mem_splitLines (h ▸ List.mem_cons_self)
  have hdrop : ∀ below, (first ++ below).dropWhile (· ≠ '\n') = below.dropWhile (· ≠ '\n') := by
    intro below
    apply List.dropWhile_append_of_pos
    intro c hc
    exact decide_eq_true fun hnewline => hfirst (hnewline ▸ hc)
  -- the first line ends with the text or at a newline
  rcases splitLines_eq_cons h with ⟨rfl, rfl⟩ | ⟨below, rfl, rfl⟩
  · refine ⟨rfl, ?_⟩
    have hnone := hdrop []
    rw [List.append_nil] at hnone
    rw [hnone]
    rfl
  · refine ⟨namesInterpreter_append first below, ?_⟩
    rw [hdrop, List.dropWhile_cons_of_neg (by simp), visible_cons_of_isBlank rfl,
      visible_eq_flatMap_splitLines]

/-- Lines that are not the first of the text are not left out. -/
theorem flatMap_lineContent {offset : Nat} (hoffset : 0 < offset) (lines : List (List Char)) :
    (numberedLines offset lines).flatMap lineContent = lines.flatMap visible := by
  induction lines generalizing offset with
  | nil => rfl
  | cons line lines ih =>
      rw [numberedLines, List.flatMap_cons, List.flatMap_cons, ih (by omega), lineContent,
        if_neg fun h => hoffset.ne' h.1]

theorem gapContent_eq_flatMap (offset : Nat) (gap : List Char) :
    gapContent offset gap = (numberedLines offset (splitLines gap)).flatMap lineContent := by
  obtain ⟨first, lines, hlines⟩ := List.exists_cons_of_ne_nil (splitLines_ne_nil gap)
  have hgap : visible gap = visible first ++ lines.flatMap visible := by
    rw [visible_eq_flatMap_splitLines, hlines, List.flatMap_cons]
  obtain ⟨hnames, hbehind⟩ := namesInterpreter_first hlines
  rw [hlines, numberedLines, List.flatMap_cons, flatMap_lineContent (by omega)]
  unfold gapContent lineContent
  rw [hnames]
  dsimp only
  split
  · rw [hbehind, List.nil_append]
  · exact hgap

/-- A line of a gap is written as it is but for what is not visible, or left out. -/
theorem visible_commentText? (start : Nat) (opens : Bool) (line : List Char) :
    ((commentText? start opens line).map visible).getD [] = lineContent (start, line) := by
  have hmarks : visible (line.dropWhile (· = byteOrderMark)) = visible line :=
    visible_dropWhile (fun c hc => .inr (by simpa using hc)) line
  unfold commentText? lineContent
  dsimp only
  split
  · next hnone =>
    split
    · rfl
    · next hkept =>
      -- nothing is visible on the line
      rw [Bool.or_eq_true, Bool.and_eq_true, decide_eq_true_eq] at hnone
      have hempty : trim (line.dropWhile (· = byteOrderMark)) = [] := by
        rcases hnone with hempty | hinterpreter
        · exact List.isEmpty_iff.1 hempty
        · exact absurd hinterpreter hkept
      rw [← hmarks, ← visible_trim, hempty]
      rfl
  · next hsome =>
    rw [Bool.or_eq_true, not_or, Bool.and_eq_true, decide_eq_true_eq] at hsome
    have hkept : ¬ (start = 0 ∧ namesInterpreter line) := hsome.2
    rw [if_neg hkept]
    split
    · rw [Option.map_some, Option.getD_some, visible_trim, hmarks]
    · rw [Option.map_some, Option.getD_some, visible_trimEnd, hmarks]

variable {file : Option String} {source : Source}

/-- Of the gap between two statements is written what there is to see of it. -/
theorem visibleLines_comments {gap : Span} {piece : List Char}
    (h : source.slice? gap = some piece) :
    visibleLines (comments file source gap) = gapContent gap.start piece := by
  rw [gapContent_eq_flatMap]
  unfold comments
  rw [h]
  dsimp only
  generalize numberedLines gap.start (splitLines piece) = lines
  induction lines with
  | nil => rfl
  | cons line lines ih =>
      rw [List.flatMap_cons, ← ih, List.filterMap_cons, ← visible_commentText? line.1
        (line.1 = gap.start && 0 < line.1) line.2]
      cases commentText? line.1 (line.1 = gap.start && 0 < line.1) line.2 with
      | none => rfl
      | some text =>
          show visible (indent text).toList ++ _ = visible text ++ _
          rw [visible_indent]
          rfl

/-! ## Elements -/

variable {setting : Setting} {m : Module} {element : Element}

/-- The piece of the text under a span. -/
def pieceUnder (source : Source) (span : Span) : List Char := (source.slice? span).getD []

theorem pieceUnder_eq {span : Span} {piece : List Char} (h : source.slice? span = some piece) :
    pieceUnder source span = piece := by
  rw [pieceUnder, h, Option.getD_some]

/-- The text that the export is bound to. -/
def boundValue (source : Source) (entry : ExportEntry) : String :=
  match entry.binding with
  | .expression text => text
  | .foreign => String.ofList (pieceUnder source entry.span.toSpan)

/-- The assignment of an export. -/
def assignment (source : Source) (entry : ExportEntry) : String :=
  "exports[" ++ quoted entry.name ++ "] = " ++ boundValue source entry ++ ";"

/-- The declaration that a require becomes. -/
def slotDeclaration (setting : Setting) (binder : String) (id : ModuleId) : String :=
  "var " ++ binder ++ " = " ++ slot setting.globalObject id.name ++ ";"

/-- What there is to see of an element that covers a piece of the text. -/
def elementContent (setting : Setting) (m : Module) (piece : List Char) : Element → List Char
  | .skipped _ => []
  | .exports _ entries => entries.flatMap fun entry => visible (assignment m.source entry).toList
  | .require _ binder (.resolved id) =>
    if !m.id.isForeign && setting.present.contains id then
      visible (slotDeclaration setting binder id).toList
    else visible piece
  | _ => visible piece

theorem elementContent_of_isVerbatim {piece : List Char} (h : element.IsVerbatim setting m.id) :
    elementContent setting m piece element = visible piece := by
  cases element with
  | skipped | exports => exact h.elim
  | require span binder target =>
      cases target with
      | resolved id => exact if_neg (Element.isVerbatim_resolved_iff.1 h)
      | unresolved path => rfl
  | member | other => rfl

theorem visibleLines_statementLines (number : Nat) (first : Bool) (lines : List (Nat × List Char)) :
    visibleLines (statementLines file source number first lines) =
      lines.flatMap fun line => visible line.2 := by
  induction lines generalizing number first with
  | nil => rfl
  | cons line lines ih =>
      have hreturn : visible (withoutReturn line.2) = visible line.2 := by
        unfold withoutReturn
        split
        · next hlast =>
          obtain ⟨front, hfront⟩ := List.getLast?_eq_some_iff.1 hlast
          rw [hfront, List.dropLast_concat, visible_append, visible_cons_of_isBlank rfl]
          simp
        · rfl
      have hline : visible (statementText source first line.1 line.2).toList = visible line.2 := by
        rcases statementText_eq_or first line.1 line.2 with htext | htext
        · rw [htext, String.toList_ofList, hreturn]
        · rw [htext, visible_indent, hreturn]
      rw [List.flatMap_cons, ← ih (number + 1) false, ← hline]
      rfl

/-- A statement that is copied is as visible as its text. -/
theorem visibleLines_verbatim {span : LineSpan} {piece : List Char} {lines : List Line}
    (hpiece : source.slice? span.toSpan = some piece)
    (h : verbatim file source span = .ok lines) : visibleLines lines = visible piece := by
  have hnumbered : ∀ (offset : Nat) (lines : List (List Char)),
      ((numberedLines offset lines).flatMap fun line => visible line.2) =
        lines.flatMap visible := by
    intro offset lines
    induction lines generalizing offset with
    | nil => rfl
    | cons line lines ih => rw [numberedLines, List.flatMap_cons, List.flatMap_cons, ih]
  unfold verbatim at h
  rw [hpiece] at h
  obtain rfl := Except.ok.inj h
  rw [visibleLines_statementLines, hnumbered, ← visible_eq_flatMap_splitLines]

/-- The text that an export is bound to, if it is copied, stands in the module. -/
theorem boundText_eq_ok {entry : ExportEntry} {value : String}
    (h : boundText source entry = .ok value) :
    value = boundValue source entry ∧
      (entry.binding = .foreign → ∃ piece, source.slice? entry.span.toSpan = some piece) := by
  unfold boundText at h
  unfold boundValue
  cases hbinding : entry.binding with
  | expression text =>
      rw [hbinding] at h
      exact ⟨(Except.ok.inj h).symm, fun hforeign => by cases hforeign⟩
  | foreign =>
      rw [hbinding] at h
      dsimp only at h ⊢
      split at h
      · next piece hpiece =>
        rw [pieceUnder_eq hpiece]
        exact ⟨(Except.ok.inj h).symm, fun _ => ⟨piece, hpiece⟩⟩
      · cases h

theorem visible_exportLine {entry : ExportEntry} {line : Line}
    (h : exportLine file source entry = .ok line) :
    visible line.text.toList = visible (assignment source entry).toList := by
  obtain ⟨value, hvalue, h⟩ := bind_except_eq_ok_iff.1 h
  obtain rfl := Except.ok.inj h
  have hmargin : "  exports[" = "  " ++ "exports[" := rfl
  have htext : "  exports[" ++ quoted entry.name ++ "] = " ++ value ++ ";" =
      "  " ++ assignment source entry := by
    rw [assignment, ← (boundText_eq_ok hvalue).1]
    simp only [hmargin, String.append_assoc]
  rw [copied, htext, visible_margin]

/-- What is visible of the lines of an element. -/
theorem visibleLines_elementLines {piece : List Char} {lines : List Line}
    (hpiece : m.source.slice? element.span.toSpan = some piece)
    (h : elementLines setting m file element = .ok lines) :
    visibleLines lines = elementContent setting m piece element := by
  cases elementLines_eq_ok_iff.1 h with
  | skipped => rfl
  | @exports span entries lines hentries =>
      show _ = entries.flatMap fun entry => visible (assignment m.source entry).toList
      -- One line for each entry: by induction on the lines of the table.
      clear h hpiece
      induction hentries with
      | nil => rfl
      | cons hline _ ih =>
          rw [List.flatMap_cons, ← ih, ← visible_exportLine hline]
          rfl
  | @rewritten span binder id hregular hpresent =>
      have hcontent : elementContent setting m piece (.require span binder (.resolved id)) =
          visible (slotDeclaration setting binder id).toList :=
        if_pos (by simp [hregular, hpresent])
      have hmargin : "  var " = "  " ++ "var " := rfl
      have htext : "  var " ++ binder ++ " = " ++ slot setting.globalObject id.name ++ ";" =
          "  " ++ slotDeclaration setting binder id := by
        rw [slotDeclaration]
        simp only [hmargin, String.append_assoc]
      rw [hcontent, copied, htext, visibleLines, List.flatMap_singleton, visible_margin]
  | kept hkept hlines =>
      rw [elementContent_of_isVerbatim hkept]
      exact visibleLines_verbatim hpiece hlines

/-! ## Tiles -/

/-- An element with the piece of the text that it covers, and the gap in front of it. -/
structure Tile where
  gap : List Char
  element : Element
  piece : List Char

def Tile.text (tile : Tile) : List Char := tile.gap ++ tile.piece

/-- The tiles stand one behind the other from an offset on, each with its element at its piece. -/
def Placed : (offset : Nat) → List Tile → Prop
  | _, [] => True
  | offset, tile :: tiles =>
    tile.element.span.start = offset + byteSize tile.gap ∧
      tile.element.span.stop = offset + byteSize tile.text ∧ Placed tile.element.span.stop tiles

/-- The tiles of elements, the first of which stands behind an offset. -/
def tilesFrom (source : Source) : (offset : Nat) → List Element → List Tile
  | _, [] => []
  | offset, element :: elements =>
    ⟨pieceUnder source ⟨offset, element.span.start⟩, element,
      pieceUnder source element.span.toSpan⟩ :: tilesFrom source element.span.stop elements

/-- The text behind the last of the elements. -/
def lastFrom (source : Source) : (offset : Nat) → List Element → List Char
  | offset, [] => pieceUnder source ⟨offset, byteSize source.text⟩
  | _, element :: elements => lastFrom source element.span.stop elements

/-- The tiles of a module. -/
def tiles (m : Module) : List Tile := tilesFrom m.source 0 m.elements

/-- The text behind the last element of a module. -/
def last (m : Module) : List Char := lastFrom m.source 0 m.elements

@[simp] theorem map_element_tilesFrom (source : Source) (offset : Nat) (elements : List Element) :
    (tilesFrom source offset elements).map (·.element) = elements := by
  induction elements generalizing offset with
  | nil => rfl
  | cons element elements ih => rw [tilesFrom, List.map_cons, ih]

/-- The statements are pieces of the text, none of which begins before the end of another one in
front of it. -/
structure IsOrdered (m : Module) : Prop where
  cut : ∀ element ∈ m.elements, ∃ piece, m.source.slice? element.span.toSpan = some piece
  ordered : m.elements.Pairwise fun a b => a.span.stop ≤ b.span.start

theorem tilesFrom_cover {elements : List Element} {above below : List Char}
    (htext : source.text = above ++ below)
    (hcut : ∀ element ∈ elements, ∃ piece, source.slice? element.span.toSpan = some piece)
    (hordered : elements.Pairwise fun a b => a.span.stop ≤ b.span.start)
    (habove : ∀ element ∈ elements, byteSize above ≤ element.span.start) :
    below = (tilesFrom source (byteSize above) elements).flatMap Tile.text ++
        lastFrom source (byteSize above) elements ∧
      Placed (byteSize above) (tilesFrom source (byteSize above) elements) := by
  -- `above` grows by a gap and a piece with every element
  induction elements generalizing above below with
  | nil =>
      have hlast : source.slice? ⟨byteSize above, byteSize source.text⟩ = some below :=
        slice?_eq_some_iff.2
          ⟨above, [], by rw [htext, List.append_nil], rfl, by rw [htext, byteSize_append]⟩
      exact ⟨(pieceUnder_eq hlast).symm, trivial⟩
  | cons element elements ih =>
      obtain ⟨⟨piece, hpiece⟩, hcuts⟩ := List.forall_mem_cons.1 hcut
      obtain ⟨hfirst, hordered⟩ := List.pairwise_cons.1 hordered
      obtain ⟨front, back, heq, hstart, hstop⟩ := slice?_eq_some_iff.1 hpiece
      have hle : byteSize above ≤ byteSize front := hstart ▸ habove element List.mem_cons_self
      rw [htext, List.append_assoc] at heq
      obtain ⟨gap, rfl, rfl⟩ := Script.exists_append_of_byteSize_le heq hle
      have hbehind : byteSize (above ++ gap ++ piece) = element.span.stop := by
        rw [byteSize_append _ piece]
        exact hstop
      have hsplit : source.text = (above ++ gap ++ piece) ++ back := by
        rw [htext]
        simp only [List.append_assoc]
      have hgap : source.slice? ⟨byteSize above, element.span.start⟩ = some gap :=
        slice?_eq_some_iff.2 ⟨above, _, hsplit.trans (List.append_assoc ..), rfl,
          (byteSize_append ..).symm.trans hstart⟩
      obtain ⟨hcover, hplaced⟩ := ih hsplit hcuts hordered
        fun other hother => hbehind ▸ hfirst other hother
      -- the tiles behind the element are those of `back`
      rw [hbehind] at hcover hplaced
      rw [tilesFrom, lastFrom, pieceUnder_eq hgap, pieceUnder_eq hpiece]
      refine ⟨?_, ?_, ?_, hplaced⟩
      · rw [hcover]
        simp only [List.flatMap_cons, Tile.text, List.append_assoc]
      · rw [← hstart, byteSize_append]
      · rw [← hbehind, List.append_assoc, byteSize_append]
        rfl

/-- The text of a module is that of its tiles and what stands behind them. -/
theorem text_eq_tiles (h : IsOrdered m) :
    m.source.text = (tiles m).flatMap Tile.text ++ last m ∧ Placed 0 (tiles m) := by
  obtain ⟨hcover, hplaced⟩ :=
    tilesFrom_cover (List.nil_append m.source.text).symm h.cut h.ordered fun _ _ => Nat.zero_le _
  exact ⟨hcover, hplaced⟩

/-- What there is to see of a module: the gaps in front of the elements that are not skipped, the
elements, and what stands behind the last one. -/
def content (setting : Setting) (m : Module) :
    (offset : Nat) → List Tile → (last : List Char) → List Char
  | offset, [], last => gapContent offset last
  | offset, tile :: tiles, last =>
    (if tile.element.isSkipped then [] else gapContent offset tile.gap) ++
      elementContent setting m tile.piece tile.element ++
        content setting m tile.element.span.stop tiles last

theorem visibleLines_bodyLines {tiles : List Tile} {above last : List Char} {body : List Line}
    (htext : m.source.text = above ++ (tiles.flatMap Tile.text ++ last))
    (hplaced : Placed (byteSize above) tiles)
    (h : bodyLines setting m file (byteSize above) (tiles.map (·.element)) = .ok body) :
    visibleLines body = content setting m (byteSize above) tiles last := by
  induction tiles generalizing above body with
  | nil =>
      obtain rfl := Except.ok.inj h
      have hslice : m.source.slice? ⟨byteSize above, byteSize m.source.text⟩ = some last :=
        slice?_eq_some_iff.2 ⟨above, [], by rw [htext]; simp, rfl, by rw [htext]; simp⟩
      exact visibleLines_comments hslice
  | cons tile tiles ih =>
      obtain ⟨gap, element, piece⟩ := tile
      obtain ⟨hstart, hstop, hplaced⟩ := hplaced
      obtain ⟨own, rest, hown, hrest, rfl⟩ := bodyLines_cons_eq_ok_iff.1 h
      have hsplit : m.source.text =
          (above ++ gap ++ piece) ++ (tiles.flatMap Tile.text ++ last) := by
        rw [htext]
        simp only [List.flatMap_cons, Tile.text, List.append_assoc]
      have hgap : m.source.slice? ⟨byteSize above, element.span.start⟩ = some gap :=
        slice?_eq_some_iff.2 ⟨above, _, hsplit.trans (List.append_assoc ..), rfl, hstart.symm⟩
      have hpiece : m.source.slice? element.span.toSpan = some piece :=
        slice?_eq_some_iff.2 ⟨above ++ gap, _, hsplit, by rw [byteSize_append]; exact hstart.symm,
          by rw [hstop, Tile.text]; simp only [byteSize_append]; omega⟩
      have hbehind : element.span.stop = byteSize (above ++ gap ++ piece) := by
        rw [hstop, Tile.text]
        simp only [byteSize_append]
        omega
      -- what is left to write stands behind the tile, as the induction needs it
      rw [hbehind] at hrest hplaced
      rw [visibleLines_append, visibleLines_append, ih hsplit hplaced hrest,
        visibleLines_elementLines hpiece hown, content, hbehind]
      congr 2
      unfold gapLines
      split
      · rfl
      · exact visibleLines_comments hgap

/-! ## Modules -/

/-- There is a piece of the text under every value that is copied for an export. -/
def CutsValues (m : Module) : Prop :=
  ∀ span entries, Element.exports span entries ∈ m.elements → ∀ entry ∈ entries,
    entry.binding = .foreign → ∃ piece, m.source.slice? entry.span.toSpan = some piece

theorem exists_piece_of_exportLine {entry : ExportEntry} {line : Line}
    (h : exportLine file source entry = .ok line) (hforeign : entry.binding = .foreign) :
    ∃ piece, source.slice? entry.span.toSpan = some piece := by
  obtain ⟨value, hvalue, -⟩ := bind_except_eq_ok_iff.1 h
  exact (boundText_eq_ok hvalue).2 hforeign

/-- Only an export that is copied from nowhere keeps a module from being written. -/
theorem exists_moduleLines_iff {outputFile : Option String} (h : IsOrdered m) :
    (∃ lines, moduleLines setting outputFile m = .ok lines) ↔ CutsValues m := by
  constructor
  · rintro ⟨lines, hlines⟩ span entries htable entry hentry hforeign
    obtain ⟨w, rfl, -⟩ := moduleLines_eq_ok_iff.1 hlines
    obtain ⟨-, own, -, hown, -⟩ := exists_elementLines_of_mem w.isBody htable
    obtain ⟨line, -, hline⟩ := (exists_mem_of_forall₂ (mapM_except_eq_ok_iff.1 hown)).1 entry hentry
    exact exists_piece_of_exportLine hline hforeign
  · intro hvalues
    have hcut : ∀ element ∈ m.elements, element.CutFrom m.source := by
      intro element helement
      refine ⟨h.cut element helement, ?_⟩
      rintro span entries rfl
      exact hvalues span entries helement
    obtain ⟨body, hbody⟩ := exists_bodyLines hcut
    exact ⟨_, moduleLines_eq_ok_iff.2 ⟨⟨m, body, hbody⟩, rfl, rfl⟩⟩

/-- The tiles of a module cover its text, and all that is visible between the first and the last
line of the module is what there is to see of its tiles, in their order. -/
theorem visible_text_kept (h : IsOrdered m) :
    (tiles m).map (·.element) = m.elements ∧
      m.source.text = (tiles m).flatMap Tile.text ++ last m ∧ Placed 0 (tiles m) ∧
      ∀ setting outputFile,
        ((∃ lines, moduleLines setting outputFile m = .ok lines) ↔ CutsValues m) ∧
        ∀ lines, moduleLines setting outputFile m = .ok lines →
          ∃ body, lines = openingLine :: body ++ [closingLine setting m.id] ∧
            visible (joined body).toList = content setting m 0 (tiles m) (last m) := by
  obtain ⟨htext, hplaced⟩ := text_eq_tiles h
  refine ⟨map_element_tilesFrom .., htext, hplaced, fun setting outputFile => ?_⟩
  refine ⟨exists_moduleLines_iff h, fun lines hlines => ?_⟩
  obtain ⟨w, rfl, rfl⟩ := moduleLines_eq_ok_iff.1 hlines
  refine ⟨w.body, rfl, ?_⟩
  have hbody := w.isBody
  rw [← map_element_tilesFrom w.content.source 0 w.content.elements] at hbody
  have habove : w.content.source.text =
      [] ++ ((tiles w.content).flatMap Tile.text ++ last w.content) := htext
  rw [visible_joined]
  exact visibleLines_bodyLines habove hplaced hbody

/-- A text with a mark and an interpreter in front, comments between its statements, a statement
that is dead, and a table of exports. -/
def commentedText : List Char :=
  "\uFEFF#!/bin/node\n// Sums\nvar $foreign = require(\"./foreign.js\"); // dead\n".toList ++
    "var unused = 0; /* next */ var two = 1 +\n    1;\n".toList ++
    "module.exports = \x7b\n  two: two,\n  sum: $foreign.sum\n\x7d;\n// end\n".toList

/-- The table that the text exports. -/
def commentedExports : List ExportEntry :=
  [⟨"two", .expression "two", .name ⟨145, 148⟩ "two", ⟨⟨145, 148⟩, 6, 6⟩, []⟩,
    ⟨"sum", .foreign, .member ⟨157, 169⟩ (.name ⟨157, 165⟩ "$foreign") (.name "sum"),
      ⟨⟨157, 169⟩, 7, 7⟩, []⟩]

/-- The module of the text. -/
def commented : Module where
  id := .regular "Sums"
  filePath := none
  source := .ofText commentedText []
  elements :=
    [.require ⟨⟨23, 62⟩, 2, 2⟩ "$foreign" (.resolved (.foreign "Sums")),
      .skipped ⟨⟨71, 86⟩, 3, 3⟩,
      .member ⟨⟨98, 118⟩, 3, 4⟩ .internal "two" (.leaf ⟨108, 117⟩ .literal) [],
      .exports ⟨⟨119, 172⟩, 5, 8⟩ commentedExports]

/-- The interpreter is not written, nor is the dead statement with the comment in front of it. The
require and the exports become what the program needs, and all else stays where it is. -/
theorem commented_text_kept :
    IsOrdered commented ∧ ∃ body,
      moduleLines ⟨"PS", [.foreign "Sums", .regular "Sums"]⟩ none commented =
        .ok (openingLine :: body ++
          [closingLine ⟨"PS", [.foreign "Sums", .regular "Sums"]⟩ commented.id]) ∧
      visible (joined body).toList =
        "//Sums".toList ++ "var$foreign=PS[\"Sums\"];".toList ++ "/*next*/".toList ++
          "vartwo=1+1;".toList ++ "exports[\"two\"]=two;".toList ++
          "exports[\"sum\"]=$foreign.sum;".toList ++ "//end".toList := by
  have hcuts : (∀ element ∈ commented.elements,
        (commented.source.slice? element.span.toSpan).isSome) ∧
      ∀ entry ∈ commentedExports, (commented.source.slice? entry.span.toSpan).isSome := by
    decide +kernel
  have hordered : IsOrdered commented :=
    ⟨fun element helement => Option.isSome_iff_exists.1 (hcuts.1 element helement), by decide⟩
  have hvalues : CutsValues commented := by
    intro span entries htable entry hentry _
    obtain ⟨-, rfl⟩ : _ ∧ entries = commentedExports := by simpa [commented] using htable
    exact Option.isSome_iff_exists.1 (hcuts.2 entry hentry)
  obtain ⟨-, -, -, hwritten⟩ := visible_text_kept hordered
  obtain ⟨hwrites, hkept⟩ := hwritten ⟨"PS", [.foreign "Sums", .regular "Sums"]⟩ none
  obtain ⟨lines, hlines⟩ := hwrites.2 hvalues
  obtain ⟨body, rfl, hvisible⟩ := hkept lines hlines
  refine ⟨hordered, body, hlines, hvisible.trans ?_⟩
  decide +kernel

end Emission

end ModuleLinker
