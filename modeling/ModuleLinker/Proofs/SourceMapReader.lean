/-
# ModuleLinker.Proofs.SourceMapReader -- source maps are read back

`SourceMap.read` reads the text of a source map by the rules of version 3: lines are separated by
semicolons and the segments of a line by commas, a segment is a sequence of numbers of variable
length in base 64, and every number is relative to the one before it, the generated column only on
its own line. It knows nothing of how the text was made.

The segments of a mapping are laid out on lines (`LaysOut`). The rendering is the text of that
layout (`LaysOut.render_eq`), cutting it at its separators gives the layout back
(`rowsOf_intercalate`), and reading the layout gives the mappings of the segments (`LaysOut.read`).
`read_compact_json` puts this together: the text of a source map holds its file, its sources, and
all its mappings in the order of their positions.
-/

import Mathlib.Data.List.Nodup
import Mathlib.Data.Prod.Lex
import ModuleLinker.Proofs.JsonText
import ModuleLinker.Proofs.Sorting
import ModuleLinker.SourceMap.Mapping

namespace ModuleLinker

/-! ## Numbers of variable length -/

namespace Vlq

/-- The value of a digit of base 64. -/
def value? (c : Char) : Option Nat :=
  if 'A' ≤ c ∧ c ≤ 'Z' then some (c.toNat - 65)
  else if 'a' ≤ c ∧ c ≤ 'z' then some (c.toNat - 71)
  else if '0' ≤ c ∧ c ≤ '9' then some (c.toNat + 4)
  else if c = '+' then some 62
  else if c = '/' then some 63
  else none

/-- The number whose groups of five bits stand at the start of the text, the lowest first, and what
follows them. The sixth bit of a group says that another one follows. -/
def readGroups : List Char → Option (Nat × List Char)
  | [] => none
  | c :: cs => do
    let group ← value? c
    if group < 32 then return (group, cs)
    let (upper, rest) ← readGroups cs
    return (group - 32 + 32 * upper, rest)

/-- The number with its sign in the lowest bit. -/
def signed (n : Nat) : Int := if n % 2 = 0 then (n / 2 : Nat) else -(n / 2 : Nat)

/-- The number at the start of the text, and what follows it. -/
def read (cs : List Char) : Option (Int × List Char) :=
  (readGroups cs).map fun (n, rest) => (signed n, rest)

theorem value?_digit : ∀ n < 64, value? (digit n) = some n := by decide

theorem readGroups_groups {steps n : Nat} (h : n < steps) (rest : List Char) :
    readGroups (groups steps n ++ rest) = some (n, rest) := by
  induction steps generalizing n with
  | zero => omega
  | succ steps ih =>
      unfold groups
      split
      · next hsmall =>
        show readGroups (digit n :: rest) = _
        rw [readGroups, value?_digit n (by omega)]
        simp [hsmall]
      · next hlarge =>
        have hupper : n / 32 < steps := by omega
        show readGroups (digit (n % 32 + 32) :: (groups steps (n / 32) ++ rest)) = _
        rw [readGroups, value?_digit (n % 32 + 32) (by omega), ih hupper]
        have hmore : ¬ n % 32 + 32 < 32 := by omega
        have hsum : n % 32 + 32 * (n / 32) = n := Nat.mod_add_div n 32
        simp [hmore, hsum]

theorem signed_zigzag (n : Int) : signed (zigzag n) = n := by
  unfold signed zigzag
  split <;> omega

/-- A number is read back, whatever follows it. -/
@[simp] theorem read_encode (n : Int) (rest : List Char) :
    read (encode n ++ rest) = some (n, rest) := by
  rw [read, encode, readGroups_groups (Nat.lt_succ_self _)]
  exact congrArg (fun n => some (n, rest)) (signed_zigzag n)

/-- A number is read back at the end of a text. -/
@[simp] theorem read_encode_end (n : Int) : read (encode n) = some (n, []) := by
  rw [← List.append_nil (encode n), read_encode]

theorem encode_ne_nil (n : Int) : encode n ≠ [] := by
  unfold encode groups
  split <;> simp

/-- A number is written in digits. -/
theorem isSome_value?_of_mem_encode {n : Int} {c : Char} (h : c ∈ encode n) :
    (value? c).isSome := by
  have hdigit : ∀ n < 64, (value? (digit n)).isSome := by
    intro n hn
    rw [value?_digit n hn]
    rfl
  have hgroups : ∀ steps n, ∀ c ∈ groups steps n, (value? c).isSome := by
    intro steps
    induction steps with
    | zero => exact fun n c hc => absurd hc List.not_mem_nil
    | succ steps ih =>
        intro n c hc
        unfold groups at hc
        split at hc
        · next hsmall =>
          rw [List.mem_singleton] at hc
          exact hc ▸ hdigit n (by omega)
        · rcases List.mem_cons.1 hc with rfl | hc
          · exact hdigit _ (by omega)
          · exact ih _ c hc
  exact hgroups _ _ c h

end Vlq

/-! ## Positions -/

namespace LineMapping

/-- The position of the output that is mapped. -/
def position (m : LineMapping) : Nat × Nat := (m.generatedLine, m.generatedColumn)

/-- The position of one mapping is in front of that of the other. -/
def Before (a b : LineMapping) : Prop :=
  a.generatedLine < b.generatedLine ∨
    a.generatedLine = b.generatedLine ∧ a.generatedColumn < b.generatedColumn

/-- The four numbers are below the bound of 32 bits. -/
structure Fits (m : LineMapping) : Prop where
  generatedLine : m.generatedLine < 0x100000000
  generatedColumn : m.generatedColumn < 0x100000000
  sourceLine : m.sourceLine < 0x100000000
  sourceColumn : m.sourceColumn < 0x100000000

end LineMapping

/-! ## Reading source maps -/

/-- A source map as it is read. -/
structure SourceMap where
  file : String
  sources : List String
  mappings : List LineMapping
deriving DecidableEq, Repr

namespace SourceMap

/-- The numbers that the next segment counts from. -/
structure Counters where
  column : Int := 0
  source : Int := 0
  sourceLine : Int := 0
  sourceColumn : Int := 0
deriving DecidableEq, Repr

/-- A segment of four numbers on a line of the output, and the numbers to count from behind it. -/
def readSegment (sources : List String) (line : Nat) (counters : Counters) (text : List Char) :
    Option (LineMapping × Counters) := do
  let (column, text) ← Vlq.read text
  let (source, text) ← Vlq.read text
  let (sourceLine, text) ← Vlq.read text
  let (sourceColumn, text) ← Vlq.read text
  guard text.isEmpty
  let next : Counters := ⟨counters.column + column, counters.source + source,
    counters.sourceLine + sourceLine, counters.sourceColumn + sourceColumn⟩
  guard (0 ≤ next.column ∧ 0 ≤ next.source ∧ 0 ≤ next.sourceLine ∧ 0 ≤ next.sourceColumn)
  let file ← sources[next.source.toNat]?
  return (⟨line, next.column.toNat, file, next.sourceLine.toNat, next.sourceColumn.toNat⟩, next)

/-- The segments of a line. -/
def readRow (sources : List String) (line : Nat) (counters : Counters) :
    List (List Char) → Option (List LineMapping × Counters)
  | [] => some ([], counters)
  | text :: texts => do
    let (mapping, counters) ← readSegment sources line counters text
    let (mappings, counters) ← readRow sources line counters texts
    return (mapping :: mappings, counters)

/-- The segments of all lines from `line` on. -/
def readRows (sources : List String) (line : Nat) (counters : Counters) :
    List (List (List Char)) → Option (List LineMapping)
  | [] => some []
  | row :: rows => do
    let (mappings, counters) ← readRow sources line counters row
    let below ← readRows sources (line + 1) { counters with column := 0 } rows
    return mappings ++ below

/-- The segments of a line between its commas; an empty line has none. -/
def rowOf (line : List Char) : List (List Char) := if line = [] then [] else line.splitOn ','

/-- The segments of all lines. -/
def rowsOf (text : List Char) : List (List (List Char)) := (text.splitOn ';').map rowOf

/-- The value of a field that an object has once. -/
def field? (document : Json) (name : String) : Option Json :=
  match document with
  | .object fields =>
    match Json.valuesOf fields name with
    | [value] => some value
    | _ => none
  | _ => none

/-- The texts in an array of texts. -/
def texts? : Json → Option (List String)
  | .array items => items.mapM Json.text?
  | _ => none

/-- The source map of version 3 that a text spells. -/
def read (text : String) : Option SourceMap := do
  let document ← Json.ofString? text
  let .number "3" ← field? document "version" | none
  let file ← (← field? document "file").text?
  let sources ← texts? (← field? document "sources")
  let rows ← (← field? document "mappings").text?
  let mappings ← readRows sources 0 {} (rowsOf rows.toList)
  return ⟨file, sources, mappings⟩

end SourceMap

namespace SourceMapping

open SourceMap

/-! ## Segments -/

/-- The mapping that a segment stands for. -/
def Segment.mapping (sources : List String) (s : Segment) : LineMapping :=
  ⟨s.line, s.column, sources.getD s.source "", s.sourceLine, s.sourceColumn⟩

/-- The numbers to count from behind a segment. -/
def Segment.counters (s : Segment) : Counters := ⟨s.column, s.source, s.sourceLine, s.sourceColumn⟩

/-- The numbers to count from on a line, behind a segment of that line or of one above it. -/
def Segment.countersOn (previous : Segment) (line : Nat) : Counters :=
  { previous.counters with
    column := ((if line = previous.line then previous.column else 0 : Nat) : Int) }

variable {sources : List String} {previous current : Segment} {segments : List Segment}

theorem fields_eq (previous current : Segment) :
    Segment.fields previous current =
      Vlq.encode (current.column - (previous.countersOn current.line).column) ++
        (Vlq.encode (current.source - (previous.countersOn current.line).source) ++
          (Vlq.encode (current.sourceLine - (previous.countersOn current.line).sourceLine) ++
            Vlq.encode
              (current.sourceColumn - (previous.countersOn current.line).sourceColumn))) := by
  simp only [← List.append_assoc]
  rfl

theorem fields_ne_nil (previous current : Segment) : Segment.fields previous current ≠ [] := by
  rw [fields_eq]
  exact List.append_ne_nil_of_left_ne_nil (Vlq.encode_ne_nil _) _

theorem isSome_value?_of_mem_fields {c : Char} (h : c ∈ Segment.fields previous current) :
    (Vlq.value? c).isSome := by
  rw [fields_eq] at h
  simp only [List.mem_append] at h
  rcases h with h | h | h | h <;> exact Vlq.isSome_value?_of_mem_encode h

/-- A segment is read back where its numbers count from the segment in front of it. -/
theorem readSegment_fields (previous : Segment) (hsource : current.source < sources.length) :
    readSegment sources current.line (previous.countersOn current.line)
      (Segment.fields previous current) = some (current.mapping sources, current.counters) := by
  obtain ⟨file, hfile⟩ : ∃ file, sources[current.source]? = some file :=
    ⟨_, List.getElem?_eq_getElem hsource⟩
  have hmapping : current.mapping sources =
      ⟨current.line, current.column, file, current.sourceLine, current.sourceColumn⟩ := by
    rw [Segment.mapping, List.getD_eq_getElem?_getD, hfile, Option.getD_some]
  rw [fields_eq, hmapping]
  -- the numbers are differences to the counters, whatever these are
  generalize previous.countersOn current.line = counters
  have hnext : ∀ a b : Int, a + (b - a) = b := by omega
  simp [readSegment, hnext, hfile, guard, Segment.counters]

/-! ## The layout of segments -/

/-- Blank lines, and below them a line that begins with a segment. -/
def laterRows (blank : Nat) (previous current : Segment) (row : List (List Char))
    (rows : List (List (List Char))) : List (List (List Char)) :=
  List.replicate blank [] ++ (Segment.fields previous current :: row) :: rows

/-- The segments behind `previous` are laid out on the rest of its line and on the lines below: each
stands on the line of the one in front of it, or on a later line with blank lines in between. -/
inductive LaysOut : Segment → List Segment → List (List Char) → List (List (List Char)) → Prop
  | nothing {previous : Segment} : LaysOut previous [] [] []
  | sameLine {previous current : Segment} {rest : List Segment} {row : List (List Char)}
    {rows : List (List (List Char))} (hline : current.line = previous.line)
    (hcolumn : previous.column < current.column) (hrest : LaysOut current rest row rows) :
    LaysOut previous (current :: rest) (Segment.fields previous current :: row) rows
  | newLine {previous current : Segment} {rest : List Segment} {row : List (List Char)}
    {rows : List (List (List Char))} (blank : Nat)
    (hline : current.line = previous.line + 1 + blank)
    (hrest : LaysOut current rest row rows) :
    LaysOut previous (current :: rest) [] (laterRows blank previous current row rows)

variable {row : List (List Char)} {rows : List (List (List Char))}

/-- Segments in reading order can be laid out. -/
theorem exists_laysOut (h : (previous :: segments).Pairwise fun a b => a.precedes b) :
    ∃ row rows, LaysOut previous segments row rows := by
  induction segments generalizing previous with
  | nil => exact ⟨_, _, .nothing⟩
  | cons current rest ih =>
      obtain ⟨hprevious, hrest⟩ := List.pairwise_cons.1 h
      obtain ⟨row, rows, hlayout⟩ := ih hrest
      have hprecedes := hprevious current List.mem_cons_self
      simp only [Segment.precedes, Bool.or_eq_true, Bool.and_eq_true, decide_eq_true_eq]
        at hprecedes
      rcases hprecedes with hline | ⟨hline, hcolumn⟩
      · have hblank : current.line = previous.line + 1 + (current.line - (previous.line + 1)) := by
          omega
        exact ⟨_, _, .newLine _ hblank hlayout⟩
      · exact ⟨_, _, .sameLine hline.symm hcolumn hlayout⟩

/-! ### The text of a layout -/

/-- The text of a line. -/
def rowText (row : List (List Char)) : List Char := [','].intercalate row

/-- The text of a line behind a segment of it. -/
def besideText (row : List (List Char)) : List Char := row.flatMap (',' :: ·)

/-- The text of the lines below a line. -/
def belowText (rows : List (List (List Char))) : List Char :=
  rows.flatMap fun row => ';' :: rowText row

theorem intercalate_cons (c : Char) (text : List Char) (texts : List (List Char)) :
    [c].intercalate (text :: texts) = text ++ texts.flatMap (c :: ·) := by
  induction texts generalizing text with
  | nil => simp
  | cons next texts ih =>
      rw [List.flatMap_cons, List.cons_append, ← ih]
      simp

theorem rowText_cons (text : List Char) (row : List (List Char)) :
    rowText (text :: row) = text ++ besideText row := intercalate_cons ',' text row

theorem belowText_laterRows (blank : Nat) (previous current : Segment) (row : List (List Char))
    (rows : List (List (List Char))) :
    belowText (laterRows blank previous current row rows) =
      List.replicate (blank + 1) ';' ++
        (Segment.fields previous current ++ (besideText row ++ belowText rows)) := by
  rw [laterRows]
  induction blank with
  | zero => simp [belowText, rowText_cons]
  | succ blank ih =>
      rw [List.replicate_succ, List.replicate_succ, List.cons_append, List.cons_append, ← ih]
      rfl

/-- What is written behind a segment is the text of the layout. -/
theorem LaysOut.renderAfter_eq (h : LaysOut previous segments row rows) :
    renderAfter previous segments = besideText row ++ belowText rows := by
  induction h with
  | nothing => rfl
  | @sameLine previous current rest row rows hline hcolumn hrest ih =>
      have hne : current ≠ previous := by
        rintro rfl
        omega
      rw [renderAfter, if_neg hne, if_pos hline, ih]
      simp [besideText]
  | @newLine previous current rest row rows blank hline hrest ih =>
      have hne : current.line ≠ previous.line := by omega
      have hlines : current.line - previous.line = blank + 1 := by omega
      rw [renderAfter, if_neg (mt (congrArg Segment.line) hne), if_neg hne, ih, hlines,
        belowText_laterRows, List.append_assoc]
      rfl

/-! ### Cutting the text of a layout -/

/-- The text can stand between commas and semicolons. -/
structure IsSegmentText (text : List Char) : Prop where
  ne_nil : text ≠ []
  digits : ∀ c ∈ text, (Vlq.value? c).isSome

theorem isSegmentText_fields (previous current : Segment) :
    IsSegmentText (Segment.fields previous current) :=
  ⟨fields_ne_nil previous current, fun _ => isSome_value?_of_mem_fields⟩

theorem isSegmentText_laterRows (blank : Nat) (previous current : Segment)
    (h : ∀ texts ∈ row :: rows, ∀ text ∈ texts, IsSegmentText text) :
    ∀ texts ∈ laterRows blank previous current row rows, ∀ text ∈ texts, IsSegmentText text := by
  obtain ⟨hrow, hrows⟩ := List.forall_mem_cons.1 h
  refine List.forall_mem_append.2 ⟨?_, List.forall_mem_cons.2 ⟨?_, hrows⟩⟩
  · intro texts htexts
    rw [List.eq_of_mem_replicate htexts]
    exact fun text htext => absurd htext List.not_mem_nil
  · exact List.forall_mem_cons.2 ⟨isSegmentText_fields previous current, hrow⟩

theorem LaysOut.isSegmentText (h : LaysOut previous segments row rows) :
    ∀ texts ∈ row :: rows, ∀ text ∈ texts, IsSegmentText text := by
  induction h with
  | nothing => simp
  | @sameLine previous current rest row rows hline hcolumn hrest ih =>
      obtain ⟨hrow, hrows⟩ := List.forall_mem_cons.1 ih
      exact List.forall_mem_cons.2
        ⟨List.forall_mem_cons.2 ⟨isSegmentText_fields previous current, hrow⟩, hrows⟩
  | @newLine previous current rest row rows blank hline hrest ih =>
      exact List.forall_mem_cons.2
        ⟨fun text htext => absurd htext List.not_mem_nil, isSegmentText_laterRows _ _ _ ih⟩

theorem rowOf_rowText (h : ∀ text ∈ row, IsSegmentText text) : rowOf (rowText row) = row := by
  cases row with
  | nil => rfl
  | cons text row =>
      have hne : rowText (text :: row) ≠ [] := by
        rw [rowText_cons]
        exact List.append_ne_nil_of_left_ne_nil (h text List.mem_cons_self).ne_nil _
      have hcomma : ∀ text' ∈ text :: row, ',' ∉ text' :=
        fun text' htext' hmem => absurd ((h text' htext').digits ',' hmem) (by decide)
      rw [rowOf, if_neg hne, rowText, List.splitOn_intercalate ',' hcomma (List.cons_ne_nil _ _)]

theorem mem_rowText {c : Char} (h : c ∈ rowText row) : c = ',' ∨ ∃ text ∈ row, c ∈ text := by
  cases row with
  | nil => exact absurd h List.not_mem_nil
  | cons text row =>
      rw [rowText_cons, List.mem_append] at h
      rcases h with h | h
      · exact .inr ⟨text, List.mem_cons_self, h⟩
      · obtain ⟨text', htext', hc⟩ := List.mem_flatMap.1 h
        rcases List.mem_cons.1 hc with rfl | hc
        · exact .inl rfl
        · exact .inr ⟨text', List.mem_cons_of_mem _ htext', hc⟩

/-- Cutting the text of lines at its separators gives the lines. -/
theorem rowsOf_intercalate (hne : rows ≠ [])
    (h : ∀ texts ∈ rows, ∀ text ∈ texts, IsSegmentText text) :
    rowsOf ([';'].intercalate (rows.map rowText)) = rows := by
  have hsemicolon : ∀ line ∈ rows.map rowText, ';' ∉ line := by
    intro line hline hmem
    obtain ⟨row, hrow, rfl⟩ := List.mem_map.1 hline
    rcases mem_rowText hmem with hcomma | ⟨text, htext, hmem⟩
    · exact absurd hcomma (by decide)
    · exact absurd ((h row hrow text htext).digits ';' hmem) (by decide)
  have hrows : ∀ row ∈ rows, (rowOf ∘ rowText) row = row := fun row hrow =>
    rowOf_rowText (h row hrow)
  rw [rowsOf, List.splitOn_intercalate ';' hsemicolon (by simpa using hne), List.map_map,
    List.map_congr_left hrows, List.map_id']

/-! ### Reading a layout -/

/-- Blank lines are skipped, and the segment below them counts from the one above. -/
theorem readRows_laterRows {line blank : Nat} {counters after : Counters}
    {beside below : List LineMapping} (hline : current.line = line + blank)
    (hcounters : previous.countersOn current.line = { counters with column := 0 })
    (hsource : current.source < sources.length)
    (hbeside : readRow sources current.line current.counters row = some (beside, after))
    (hbelow : readRows sources (current.line + 1) { after with column := 0 } rows = some below) :
    readRows sources line { counters with column := 0 }
        (laterRows blank previous current row rows) =
      some (current.mapping sources :: (beside ++ below)) := by
  rw [laterRows]
  -- every blank line sets the column back to zero, and the first one has done so already
  induction blank generalizing line with
  | zero =>
      have hfirst := readSegment_fields previous hsource
      rw [hcounters, hline, Nat.add_zero] at hfirst
      rw [hline, Nat.add_zero] at hbeside hbelow
      simp [readRows, readRow, hfirst, hbeside, hbelow]
  | succ blank ih =>
      rw [List.replicate_succ, List.cons_append, readRows]
      have hbehind : current.line = line + 1 + blank := by omega
      have hrest := ih hbehind
      simp [readRow, hrest]

/-- Reading a layout gives the mappings of its segments. -/
theorem LaysOut.read (h : LaysOut previous segments row rows)
    (hsources : ∀ s ∈ segments, s.source < sources.length) :
    ∃ beside after below,
      readRow sources previous.line previous.counters row = some (beside, after) ∧
      readRows sources (previous.line + 1) { after with column := 0 } rows = some below ∧
      beside ++ below = segments.map (·.mapping sources) := by
  -- on its line a segment counts from the one in front of it, on a new line its column from zero
  induction h with
  | nothing => exact ⟨[], _, [], rfl, rfl, rfl⟩
  | @sameLine previous current rest row rows hline hcolumn hrest ih =>
      obtain ⟨hsource, hsources⟩ := List.forall_mem_cons.1 hsources
      obtain ⟨beside, after, below, hbeside, hbelow, hall⟩ := ih hsources
      have hcounters : previous.countersOn current.line = previous.counters := by
        rw [Segment.countersOn, if_pos hline]
        rfl
      have hfirst := readSegment_fields previous hsource
      rw [hcounters, hline] at hfirst
      rw [hline] at hbeside hbelow
      refine ⟨current.mapping sources :: beside, after, below, ?_, hbelow, ?_⟩
      · simp [readRow, hfirst, hbeside]
      · rw [List.cons_append, hall, List.map_cons]
  | @newLine previous current rest row rows blank hline hrest ih =>
      obtain ⟨hsource, hsources⟩ := List.forall_mem_cons.1 hsources
      obtain ⟨beside, after, below, hbeside, hbelow, hall⟩ := ih hsources
      have hcounters :
          previous.countersOn current.line = { previous.counters with column := 0 } := by
        rw [Segment.countersOn, if_neg (by omega)]
        rfl
      refine ⟨[], previous.counters, _, rfl,
        readRows_laterRows hline hcounters hsource hbeside hbelow, ?_⟩
      rw [List.nil_append, hall, List.map_cons]

/-! ## Whole renderings -/

/-- The segment that the first one counts from. -/
def origin : Segment := ⟨0, 0, 0, 0, 0⟩

theorem LaysOut.render_eq {first : Segment} (h : LaysOut first segments row rows) :
    render (first :: segments) =
      [';'].intercalate ((laterRows first.line origin first row rows).map rowText) := by
  -- with a semicolon in front, all lines are written alike
  have hlines : ∀ lines : List (List (List Char)), lines ≠ [] →
      belowText lines = ';' :: [';'].intercalate (lines.map rowText) := by
    intro lines hne
    obtain ⟨line, lines, rfl⟩ := List.exists_cons_of_ne_nil hne
    rw [List.map_cons, intercalate_cons, List.flatMap_map]
    rfl
  have hbelow : belowText (laterRows first.line origin first row rows) =
      ';' :: render (first :: segments) := by
    rw [belowText_laterRows, render, h.renderAfter_eq, List.replicate_succ, List.append_assoc]
    rfl
  exact (List.cons.inj (hbelow.symm.trans (hlines _ (by simp [laterRows])))).2

/-- The rendering of segments in reading order is read as their mappings. -/
theorem readRows_render (h : segments.Pairwise fun a b => a.precedes b)
    (hsources : ∀ s ∈ segments, s.source < sources.length) :
    readRows sources 0 {} (rowsOf (render segments)) = some (segments.map (·.mapping sources)) := by
  cases segments with
  | nil => rfl
  | cons first rest =>
      obtain ⟨row, rows, hlayout⟩ := exists_laysOut h
      obtain ⟨hsource, hsources⟩ := List.forall_mem_cons.1 hsources
      obtain ⟨beside, after, below, hbeside, hbelow, hall⟩ := hlayout.read hsources
      have hcounters : origin.countersOn first.line = { origin.counters with column := 0 } := by
        unfold Segment.countersOn
        split <;> rfl
      rw [hlayout.render_eq, rowsOf_intercalate (by simp [laterRows])
        (isSegmentText_laterRows _ _ _ hlayout.isSegmentText)]
      refine (readRows_laterRows (Nat.zero_add _).symm hcounters hsource hbeside hbelow).trans ?_
      rw [hall, List.map_cons]

/-! ## Source maps -/

theorem word_eq {n : Nat} (h : n < 0x100000000) : word n = n := Nat.mod_eq_of_lt h

/-- A segment stands for the mapping that it was made of. -/
theorem mapping_segment {m : LineMapping} (hfits : m.Fits) (hsource : m.sourceFile ∈ sources) :
    (segment sources m).mapping sources = m := by
  have hfile : sources.getD (sources.idxOf m.sourceFile) "" = m.sourceFile := by
    rw [List.getD_eq_getElem?_getD, List.getElem?_idxOf hsource, Option.getD_some]
  simp only [Segment.mapping, segment, word_eq hfits.generatedLine, word_eq hfits.generatedColumn,
    word_eq hfits.sourceLine, word_eq hfits.sourceColumn, hfile]

theorem precedes_iff (a b : Segment) :
    a.precedes b ↔ toLex (a.line, a.column) < toLex (b.line, b.column) := by
  simp [Segment.precedes, Prod.Lex.toLex_lt_toLex]

section Segments

variable {mapping : SourceMapping}

theorem sourceFile_mem {m : LineMapping} (h : m ∈ mapping.mappings) :
    m.sourceFile ∈ mapping.sources := mem_distinct.2 (List.mem_map_of_mem h)

theorem source_lt {s : Segment} (h : s ∈ mapping.segments) : s.source < mapping.sources.length := by
  obtain ⟨m, hm, rfl⟩ := List.mem_map.1 ((sorted_perm _ _).mem_iff.1 h)
  exact List.idxOf_lt_length_of_mem (sourceFile_mem hm)

/-- The segments stand for all mappings, in some order. -/
theorem map_mapping_segments_perm (hfits : ∀ m ∈ mapping.mappings, m.Fits) :
    (mapping.segments.map (·.mapping mapping.sources)).Perm mapping.mappings := by
  have hback : (mapping.mappings.map (segment mapping.sources)).map (·.mapping mapping.sources) =
      mapping.mappings := by
    rw [List.map_map]
    exact (List.map_congr_left fun m hm => mapping_segment (hfits m hm) (sourceFile_mem hm)).trans
      (List.map_id _)
  exact ((sorted_perm _ _).map _).trans (.of_eq hback)

/-- Where no two mappings have one position, the segments stand in the order of their positions. -/
theorem segments_pairwise (hfits : ∀ m ∈ mapping.mappings, m.Fits)
    (hapart : (mapping.mappings.map (·.position)).Nodup) :
    mapping.segments.Pairwise fun a b => a.precedes b := by
  have hpositions : ((mapping.mappings.map (segment mapping.sources)).map fun s =>
      toLex (s.line, s.column)) = (mapping.mappings.map (·.position)).map toLex := by
    rw [List.map_map, List.map_map]
    refine List.map_congr_left fun m hm => ?_
    simp [segment, word_eq (hfits m hm).generatedLine, word_eq (hfits m hm).generatedColumn,
      LineMapping.position]
  have hranks : ((mapping.mappings.map (segment mapping.sources)).map fun s =>
      toLex (s.line, s.column)).Nodup := hpositions ▸ List.Nodup.map toLex.injective hapart
  exact (sorted_pairwise_lt precedes_iff hranks).imp fun hlt => (precedes_iff _ _).2 hlt

end Segments

theorem plain_json (mapping : SourceMapping) : mapping.json.Plain := by
  apply Json.Plain.record
  intro field hfield
  simp only [List.mem_cons, List.not_mem_nil, or_false] at hfield
  rcases hfield with rfl | rfl | rfl | rfl | rfl
  · exact .ofNat 3
  · exact .text _
  · refine .array fun item hitem => ?_
    obtain ⟨source, -, rfl⟩ := List.mem_map.1 hitem
    exact .text source
  · exact .array fun item hitem => absurd hitem List.not_mem_nil
  · exact .text _

theorem texts?_array (texts : List String) : texts? (.array (texts.map .text)) = some texts := by
  show (texts.map Json.text).mapM Json.text? = some texts
  induction texts with
  | nil => rfl
  | cons text texts ih =>
      rw [List.map_cons, List.mapM_cons, ih]
      rfl

/-- The text of a source map is read as its file, its sources and the mappings of its rendering. -/
theorem read_compact (mapping : SourceMapping) :
    SourceMap.read mapping.json.compact =
      (readRows mapping.sources 0 {} (rowsOf (render mapping.segments))).map fun mappings =>
        ⟨mapping.file, mapping.sources, mappings⟩ := by
  have hversion : field? mapping.json "version" = some (.number "3") := by rfl
  have hfile : field? mapping.json "file" = some (.text mapping.file) := by rfl
  have hsources : field? mapping.json "sources" = some (.array (mapping.sources.map .text)) := by
    rfl
  have hrows : field? mapping.json "mappings" =
      some (.text (String.ofList (render mapping.segments))) := by rfl
  unfold SourceMap.read
  rw [Json.ofString?_compact (plain_json mapping)]
  simp only [Option.bind_eq_bind, Option.bind_some, hversion, hfile, hsources, hrows, Json.text,
    Json.text?, String.toList_ofList, texts?_array, Option.map_eq_bind]
  rfl

/-- The text of a source map whose mappings are at different positions is read as its file, the
files that its mappings come from, each once and in the order in which they first come, and its
mappings in the order of their positions. -/
theorem read_compact_json (mapping : SourceMapping) (hfits : ∀ m ∈ mapping.mappings, m.Fits)
    (hapart : (mapping.mappings.map (·.position)).Nodup) :
    ∃ sources mappings,
      SourceMap.read mapping.json.compact = some ⟨mapping.file, sources, mappings⟩ ∧
      mappings.Perm mapping.mappings ∧ mappings.Pairwise LineMapping.Before ∧
      sources.Nodup ∧ (∀ file, file ∈ sources ↔ ∃ m ∈ mapping.mappings, m.sourceFile = file) ∧
      sources.Pairwise fun a b => (mapping.mappings.map (·.sourceFile)).idxOf a <
        (mapping.mappings.map (·.sourceFile)).idxOf b := by
  have hsorted : mapping.segments.Pairwise fun a b => a.precedes b := segments_pairwise hfits hapart
  refine ⟨mapping.sources, mapping.segments.map (·.mapping mapping.sources), ?_,
    map_mapping_segments_perm hfits, ?_, distinct_nodup _, fun file => ?_,
    distinct_pairwise_idxOf _⟩
  · rw [read_compact, readRows_render hsorted fun s hs => source_lt hs, Option.map_some]
  · refine List.pairwise_map.2 (hsorted.imp fun hprecedes => ?_)
    simpa [Segment.precedes, LineMapping.Before, Segment.mapping] using hprecedes
  · rw [sources, mem_distinct, List.mem_map]

/-- Mappings in no order, of two files in turn, with a line in between that has none. -/
def shuffled : SourceMapping where
  file := "a.js"
  mappings := [⟨3, 0, "B/\"b\".js", 4294967295, 7⟩, ⟨0, 9, "A/index.js", 5, 0⟩,
    ⟨0, 2, "B/\"b\".js", 2, 4294967295⟩, ⟨3, 70000, "A/index.js", 1, 1⟩]

/-- The same mappings in the order of their positions. -/
def unshuffled : SourceMap where
  file := "a.js"
  sources := ["B/\"b\".js", "A/index.js"]
  mappings := [⟨0, 2, "B/\"b\".js", 2, 4294967295⟩, ⟨0, 9, "A/index.js", 5, 0⟩,
    ⟨3, 0, "B/\"b\".js", 4294967295, 7⟩, ⟨3, 70000, "A/index.js", 1, 1⟩]

/-- Differences of either sign and of all 32 bits are read back, and the lines are counted. -/
theorem shuffled_read_back :
    (∀ m ∈ shuffled.mappings, m.Fits) ∧ (shuffled.mappings.map (·.position)).Nodup ∧
      SourceMap.read shuffled.json.compact = some unshuffled ∧
      unshuffled.mappings.Perm shuffled.mappings ∧
      unshuffled.mappings.Pairwise LineMapping.Before := by
  have hfits : ∀ m ∈ shuffled.mappings, m.Fits := by
    simp only [shuffled, List.forall_mem_cons]
    refine ⟨?_, ?_, ?_, ?_, fun m hm => absurd hm List.not_mem_nil⟩ <;> constructor <;> decide
  have hapart : (shuffled.mappings.map (·.position)).Nodup := by decide
  have hrun : SourceMap.read shuffled.json.compact = some unshuffled := by
    rw [read_compact]
    decide +kernel
  obtain ⟨sources, mappings, hread, hperm, hbefore, -⟩ := read_compact_json shuffled hfits hapart
  have hsame : unshuffled = ⟨shuffled.file, sources, mappings⟩ :=
    Option.some.inj (hrun.symm.trans hread)
  rw [hsame]
  exact ⟨hfits, hapart, hsame ▸ hrun, hperm, hbefore⟩

end SourceMapping

end ModuleLinker
