/-
# ModuleLinker.Proofs.GeneratedLines -- the lines that the source mapping speaks of

The mappings of a program count its lines as they were written, one by one. In the text of the
program a line begins behind all newlines in front of it, so that the count is right as long as no
line was written that is several: as long as no export has a value with a newline in it.

`mappings_inside_iff` makes this exact. The mapped lines are those between the first and the last
line of the modules that come from a file, and each mapping gives the place of its line, if and only
if such an export stands neither in a module with lines from a file nor in front of one.
-/

import ModuleLinker.Proofs.LineBreaks

namespace ModuleLinker.Emission

/-! ## Newlines in front of a line -/

/-- The number of newlines in a text, which is the number of the line that begins behind it. -/
def lineCount (text : String) : Nat := text.toList.count '\n'

theorem lineCount_joined_cons (line : Line) (lines : List Line) :
    lineCount (joined (line :: lines)) = lineCount line.text + 1 + lineCount (joined lines) := by
  simp only [lineCount, joined, String.toList_append, List.count_append]
  rfl

theorem lineCount_joined_append (a b : List Line) :
    lineCount (joined (a ++ b)) = lineCount (joined a) + lineCount (joined b) := by
  simp only [lineCount, joined_append, String.toList_append, List.count_append]

theorem length_le_lineCount (lines : List Line) : lines.length ≤ lineCount (joined lines) := by
  induction lines with
  | nil => exact Nat.zero_le _
  | cons line lines ih =>
      rw [lineCount_joined_cons, List.length_cons]
      omega

/-- Lines are as many as their newlines unless one of them is several. -/
theorem lineCount_joined_eq_length_iff (lines : List Line) :
    lineCount (joined lines) = lines.length ↔ ∀ line ∈ lines, ¬ line.Breaks := by
  induction lines with
  | nil => simp [joined, lineCount]
  | cons line lines ih =>
      have hle := length_le_lineCount lines
      have hline : lineCount line.text = 0 ↔ ¬ line.Breaks := List.count_eq_zero
      rw [lineCount_joined_cons, List.length_cons, List.forall_mem_cons, ← ih, ← hline]
      omega

/-! ## Mappings -/

/-- The mapping of a line that was copied from a file. -/
def mappingAt (number : Nat) (origin : Origin) : LineMapping where
  generatedLine := number
  generatedColumn := 0
  sourceFile := origin.file
  sourceLine := origin.line
  sourceColumn := 0

/-- The mappings of lines that stand behind the lines `before`, by their places in the text. -/
def placedMappings (before : List Line) : List Line → List LineMapping
  | [] => []
  | line :: lines =>
    (line.origin.map (mappingAt (lineCount (joined before)))).toList ++
      placedMappings (before ++ [line]) lines

theorem mappings_cons (number : Nat) (line : Line) (lines : List Line) :
    mappings number (line :: lines) =
      (line.origin.map (mappingAt number)).toList ++ mappings (number + 1) lines := by
  obtain ⟨text, origin⟩ := line
  cases origin <;> rfl

theorem mem_mappings_iff {number : Nat} {lines : List Line} {mapping : LineMapping} :
    mapping ∈ mappings number lines ↔ ∃ front line back origin, lines = front ++ line :: back ∧
      line.origin = some origin ∧ mapping = mappingAt (number + front.length) origin := by
  induction lines generalizing number with
  | nil => simp [mappings]
  | cons first lines ih =>
      rw [mappings_cons, List.mem_append, ih, Option.mem_toList,
        Option.map_eq_some_iff]
      constructor
      · rintro (⟨origin, horigin, rfl⟩ | ⟨front, line, back, origin, rfl, horigin, rfl⟩)
        · exact ⟨[], first, lines, origin, rfl, horigin, rfl⟩
        · refine ⟨first :: front, line, back, origin, rfl, horigin, ?_⟩
          rw [List.length_cons, Nat.add_right_comm, Nat.add_assoc]
      · rintro ⟨front, line, back, origin, heq, horigin, rfl⟩
        cases front with
        | nil =>
            obtain ⟨rfl, rfl⟩ := List.cons.inj heq
            exact .inl ⟨origin, horigin, rfl⟩
        | cons _ front =>
            obtain ⟨rfl, rfl⟩ := List.cons.inj heq
            refine .inr ⟨front, line, back, origin, rfl, horigin, ?_⟩
            rw [List.length_cons, Nat.add_right_comm, Nat.add_assoc]

/-- The mapped lines come in increasing order, each once. -/
theorem pairwise_mappings (number : Nat) (lines : List Line) :
    ((mappings number lines).map (·.generatedLine)).Pairwise (· < ·) := by
  induction lines generalizing number with
  | nil => exact .nil
  | cons line lines ih =>
      rw [mappings_cons]
      cases line.origin with
      | none => exact ih (number + 1)
      | some origin =>
          refine List.pairwise_cons.2 ⟨fun later hlater => ?_, ih (number + 1)⟩
          obtain ⟨mapping, hmapping, rfl⟩ := List.mem_map.1 hlater
          obtain ⟨front, _, _, _, -, -, rfl⟩ := mem_mappings_iff.1 hmapping
          show number < number + 1 + front.length
          omega

/-- The count of lines is the place in the text for all lines that are mapped if and only if it is
so for each of them. -/
theorem mappings_eq_placedMappings_iff {before lines : List Line} {number : Nat} :
    mappings number lines = placedMappings before lines ↔
      ∀ front line back, lines = front ++ line :: back → line.origin.isSome →
        lineCount (joined (before ++ front)) = number + front.length := by
  induction lines generalizing before number with
  | nil => simp [mappings, placedMappings]
  | cons first lines ih =>
      rw [mappings_cons, placedMappings]
      -- The first line has as many mappings on both sides, so the lists agree line by line.
      have hlength : ∀ option : Option Origin, (option.map (mappingAt number)).toList.length =
          (option.map (mappingAt (lineCount (joined before)))).toList.length := by
        intro option
        cases option <;> rfl
      constructor
      · intro h front line back heq horigin
        obtain ⟨hfirst, hrest⟩ := List.append_inj h (hlength _)
        cases front with
        | nil =>
            obtain ⟨rfl, rfl⟩ := List.cons.inj heq
            obtain ⟨origin, horigin⟩ := Option.isSome_iff_exists.1 horigin
            rw [horigin] at hfirst
            have hnumber := congrArg LineMapping.generatedLine (List.singleton_inj.1 hfirst)
            rw [List.append_nil]
            exact hnumber.symm
        | cons _ front =>
            obtain ⟨rfl, rfl⟩ := List.cons.inj heq
            have hplace := ih.1 hrest front line back rfl horigin
            rw [List.append_assoc] at hplace
            rw [List.length_cons, ← Nat.add_assoc, Nat.add_right_comm]
            exact hplace
      · intro h
        have hrest : mappings (number + 1) lines = placedMappings (before ++ [first]) lines := by
          apply ih.2
          rintro front line back rfl horigin
          have hplace := h (first :: front) line back rfl horigin
          rw [List.append_assoc]
          rw [List.length_cons, ← Nat.add_assoc, Nat.add_right_comm] at hplace
          exact hplace
        rw [hrest]
        cases horigin : first.origin with
        | none => rfl
        | some origin =>
            have hplace := h [] first lines rfl (by rw [horigin]; rfl)
            rw [List.append_nil] at hplace
            rw [hplace]
            rfl

/-! ## The lines of the wrappers -/

section Wrappers

variable {setting : Setting} {outputFile : Option String} {options : Options}

/-- The lines of the program in front of the wrappers behind these ones. -/
def linesBefore (options : Options) (before : List (Wrapper setting options.outputFile)) :
    List Line := startLine options :: (before.map (·.lines)).flatten

theorem assembled_append (options : Options)
    (before : List (Wrapper setting options.outputFile)) (w : Wrapper setting options.outputFile)
    (after : List (Wrapper setting options.outputFile)) :
    assembled options (before ++ w :: after) =
      linesBefore options before ++ openingLine :: (w.body ++
        closingLine setting w.content.id ::
          ((after.map (·.lines)).flatten ++ endLines options)) := by
  simp [assembled, linesBefore, Wrapper.lines]

theorem origin_eq_none_of_mem_endLines {line : Line} (h : line ∈ endLines options) :
    line.origin = none := by
  rcases List.mem_append.1 h with h | h
  · obtain ⟨name, -, rfl⟩ := List.mem_map.1 h
    rfl
  · obtain ⟨name, -, rfl⟩ := List.mem_map.1 h
    rfl

/-- A line of wrappers that was copied from a file stands in the body of one of them. -/
theorem exists_body_of_flatten {wrappers : List (Wrapper setting outputFile)}
    {tail front back : List Line} {line : Line}
    (h : (wrappers.map (·.lines)).flatten ++ tail = front ++ line :: back)
    (htail : ∀ line ∈ tail, line.origin = none) (horigin : line.origin.isSome) :
    ∃ before w after x y, wrappers = before ++ w :: after ∧ w.body = x ++ line :: y ∧
      front = (before.map (·.lines)).flatten ++ openingLine :: x := by
  have hcopied : ∀ other : Line, other.origin = none → other ≠ line := by
    rintro other hnone rfl
    rw [hnone] at horigin
    cases horigin
  induction wrappers generalizing front with
  | nil =>
      have hmem : line ∈ tail := by
        rw [List.map_nil, List.flatten_nil, List.nil_append] at h
        rw [h]
        exact List.mem_append_right _ List.mem_cons_self
      exact absurd rfl (hcopied line (htail line hmem))
  | cons w wrappers ih =>
      rw [List.map_cons, List.flatten_cons, List.append_assoc] at h
      -- The line stands behind the first wrapper, or in it.
      have hlater : ∀ rest, front = w.lines ++ rest →
          (wrappers.map (·.lines)).flatten ++ tail = rest ++ line :: back →
          ∃ before w' after x y, w :: wrappers = before ++ w' :: after ∧
            w'.body = x ++ line :: y ∧
            front = (before.map (·.lines)).flatten ++ openingLine :: x := by
        rintro rest rfl hrest
        obtain ⟨before, w', after, x, y, rfl, hbody, rfl⟩ := ih hrest
        exact ⟨w :: before, w', after, x, y, rfl, hbody, by simp⟩
      rcases List.append_eq_append_iff.1 h with ⟨rest, hfront, hrest⟩ | ⟨c, hlines, hrest⟩
      · exact hlater rest hfront hrest
      · rcases c with _ | ⟨first, c⟩
        · exact hlater [] (by rw [hlines, List.append_nil, List.append_nil]) hrest.symm
        · obtain ⟨rfl, -⟩ := List.cons.inj hrest
          rcases front with _ | ⟨opening, x⟩
          · exact absurd (List.cons.inj hlines).1 (hcopied _ rfl)
          · obtain ⟨rfl, hbody⟩ := List.cons.inj hlines
            rcases List.eq_nil_or_concat c with rfl | ⟨y, last, rfl⟩
            · obtain ⟨-, hlast⟩ := List.append_inj' hbody rfl
              exact absurd (List.cons.inj hlast).1 (hcopied _ rfl)
            · refine ⟨[], w, wrappers, x, y, rfl, ?_, rfl⟩
              have hsplit : w.body ++ [closingLine setting w.content.id] =
                  (x ++ line :: y) ++ [last] := by simpa using hbody
              exact (List.append_inj' hsplit rfl).1

theorem exists_body_of_assembled {wrappers : List (Wrapper setting options.outputFile)}
    {front back : List Line} {line : Line} (h : assembled options wrappers = front ++ line :: back)
    (horigin : line.origin.isSome) :
    ∃ before w after x y, wrappers = before ++ w :: after ∧ w.body = x ++ line :: y ∧
      front = linesBefore options before ++ openingLine :: x := by
  rcases front with _ | ⟨start, front⟩
  · have hstart : startLine options = line := (List.cons.inj h).1
    rw [← hstart] at horigin
    cases horigin
  · obtain ⟨rfl, hrest⟩ := List.cons.inj h
    obtain ⟨before, w, after, x, y, hwrappers, hbody, rfl⟩ :=
      exists_body_of_flatten hrest (fun _ => origin_eq_none_of_mem_endLines) horigin
    exact ⟨before, w, after, x, y, hwrappers, hbody, rfl⟩

/-- Where a line of the body of a wrapper stands in the program. -/
theorem exists_assembled_eq {wrappers before after : List (Wrapper setting options.outputFile)}
    {w : Wrapper setting options.outputFile} (hsplit : wrappers = before ++ w :: after)
    {x y : List Line} {line : Line} (hbody : w.body = x ++ line :: y) :
    ∃ back, assembled options wrappers =
      (linesBefore options before ++ openingLine :: x) ++ line :: back := by
  refine ⟨y ++ closingLine setting w.content.id ::
    ((after.map (·.lines)).flatten ++ endLines options), ?_⟩
  rw [hsplit, assembled_append, hbody]
  simp only [List.append_assoc, List.cons_append]

/-! ## Mappings and wrappers -/

/-- The line of the program with this number stands between the first and the last line of a module
that comes from a file. -/
def InsideWrapper (options : Options) (wrappers : List (Wrapper setting options.outputFile))
    (number : Nat) : Prop :=
  ∃ before w after, wrappers = before ++ w :: after ∧ w.content.filePath.isSome ∧
    lineCount (joined (linesBefore options before)) < number ∧
    number < lineCount (joined (linesBefore options before)) + 1 + lineCount (joined w.body)

/-- The mappings are those of the lines inside of modules that come from files, and each says where
its line stands. -/
structure MapsInside (options : Options) (wrappers : List (Wrapper setting options.outputFile))
    (maps : List LineMapping) : Prop where
  inside : ∀ number, (∃ mapping ∈ maps, mapping.generatedLine = number) ↔
    InsideWrapper options wrappers number
  placed : maps = placedMappings [] (assembled options wrappers)

/-- No export whose value has a newline in it stands in a module with lines from a file, or in front
of one. -/
def SpreadsNowhere (wrappers : List (Wrapper setting options.outputFile)) : Prop :=
  ∀ before w after, wrappers = before ++ w :: after → w.content.filePath.isSome → w.body ≠ [] →
    ∀ w' ∈ before ++ [w], ¬ w'.content.SpreadsExport

theorem not_breaks_openingLine : ¬ openingLine.Breaks := by
  simp [Line.Breaks, openingLine]

section Newlines

variable (hglobal : '\n' ∉ options.globalObject.toList) {modules : List Module}

include hglobal

theorem not_breaks_startLine : ¬ (startLine options).Breaks := by
  simp [Line.Breaks, startLine, hglobal]

theorem not_breaks_closingLine (id : ModuleId) :
    ¬ (closingLine (settingOf modules options) id).Breaks := by
  have hslot : '\n' ∉ (slot options.globalObject id.name).toList := newline_notMem_slot hglobal
  simp [Line.Breaks, closingLine, settingOf, hslot]

variable (w : Wrapper (settingOf modules options) options.outputFile)

theorem Wrapper.exists_breaks_body_iff [Script.ParserWording] (hclassified : w.content.Classified) :
    (∃ line ∈ w.body, line.Breaks) ↔ w.content.SpreadsExport :=
  exists_breaks_iff hglobal hclassified.bindsOnLine w.isBody

theorem Wrapper.exists_breaks_lines_iff [Script.ParserWording]
    (hclassified : w.content.Classified) :
    (∃ line ∈ w.lines, line.Breaks) ↔ w.content.SpreadsExport := by
  have hclosing : ¬ (closingLine (settingOf modules options) w.content.id).Breaks :=
    not_breaks_closingLine hglobal w.content.id
  rw [← w.exists_breaks_body_iff hglobal hclassified]
  simp [Wrapper.lines, not_breaks_openingLine, hclosing, or_and_right, exists_or]

theorem forall_not_breaks_linesBefore_iff [Script.ParserWording]
    {before : List (Wrapper (settingOf modules options) options.outputFile)}
    (hclassified : ∀ w ∈ before, w.content.Classified) :
    (∀ line ∈ linesBefore options before, ¬ line.Breaks) ↔
      ∀ w ∈ before, ¬ w.content.SpreadsExport := by
  rw [linesBefore, List.forall_mem_cons, and_iff_right (not_breaks_startLine hglobal)]
  constructor
  · intro h w hw hspreads
    obtain ⟨line, hline, hbreaks⟩ :=
      (w.exists_breaks_lines_iff hglobal (hclassified w hw)).2 hspreads
    exact h line (List.mem_flatten.2 ⟨w.lines, List.mem_map_of_mem hw, hline⟩) hbreaks
  · intro h line hline hbreaks
    obtain ⟨_, hlines, hline⟩ := List.mem_flatten.1 hline
    obtain ⟨w, hw, rfl⟩ := List.mem_map.1 hlines
    exact h w hw ((w.exists_breaks_lines_iff hglobal (hclassified w hw)).1 ⟨line, hline, hbreaks⟩)

end Newlines

/-! ## When the mappings are right -/

section Exact

theorem placed_iff {lines : List Line} :
    mappings 0 lines = placedMappings [] lines ↔
      ∀ front line back, lines = front ++ line :: back → line.origin.isSome →
        ∀ other ∈ front, ¬ other.Breaks := by
  rw [mappings_eq_placedMappings_iff]
  simp only [List.nil_append, Nat.zero_add, lineCount_joined_eq_length_iff]

variable {modules : List Module}
  {wrappers : List (Wrapper (settingOf modules options) options.outputFile)}
  (hglobal : '\n' ∉ options.globalObject.toList) (houtput : options.outputFile.isSome)

theorem isSome_sourceFile {outputFile : Option String} (h : outputFile.isSome) (m : Module) :
    (sourceFile outputFile m).isSome = m.filePath.isSome := by
  obtain ⟨output, rfl⟩ := Option.isSome_iff_exists.1 h
  exact Option.isSome_map

include houtput in
theorem Wrapper.isSome_origin (w : Wrapper setting options.outputFile) :
    ∀ line ∈ w.body, line.origin.isSome = w.content.filePath.isSome := by
  rw [← isSome_sourceFile houtput]
  exact isSome_origin_of_mem_bodyLines w.isBody

variable [Script.ParserWording] (hclassified : ∀ w ∈ wrappers, w.content.Classified)

include hglobal hclassified

/-- Up to the end of such a module, no line is several. -/
theorem SpreadsNowhere.not_breaks (h : SpreadsNowhere wrappers)
    {before after : List (Wrapper (settingOf modules options) options.outputFile)}
    {w : Wrapper (settingOf modules options) options.outputFile}
    (hsplit : wrappers = before ++ w :: after) (hpath : w.content.filePath.isSome)
    (hbody : w.body ≠ []) :
    (∀ line ∈ linesBefore options before, ¬ line.Breaks) ∧ ∀ line ∈ w.body, ¬ line.Breaks := by
  have hnone := h before w after hsplit hpath hbody
  have hin : ∀ w' ∈ before ++ [w], w' ∈ wrappers := by
    intro w' hw'
    rw [hsplit]
    exact (List.append_sublist_append_left _).2 (List.singleton_sublist.2 (.head _)) |>.subset hw'
  constructor
  · apply (forall_not_breaks_linesBefore_iff hglobal fun w' hw' =>
      hclassified w' (hin w' (List.mem_append_left _ hw'))).2
    exact fun w' hw' => hnone w' (List.mem_append_left _ hw')
  · intro line hline hbreaks
    have hw : w ∈ before ++ [w] := List.mem_concat_self
    exact hnone w hw ((w.exists_breaks_body_iff hglobal (hclassified w (hin w hw))).1
      ⟨line, hline, hbreaks⟩)

include houtput

theorem SpreadsNowhere.placed (h : SpreadsNowhere wrappers) :
    mappings 0 (assembled options wrappers) = placedMappings [] (assembled options wrappers) := by
  apply placed_iff.2
  intro front line back hlines horigin other hother
  obtain ⟨before, w, after, x, y, hsplit, hbody, rfl⟩ := exists_body_of_assembled hlines horigin
  have hline : line ∈ w.body := hbody ▸ List.mem_append_cons_self
  have hpath : w.content.filePath.isSome := (w.isSome_origin houtput line hline).symm.trans horigin
  obtain ⟨hbefore, hown⟩ :=
    h.not_breaks hglobal hclassified hsplit hpath (List.ne_nil_of_mem hline)
  rcases List.mem_append.1 hother with hother | hother
  · exact hbefore other hother
  · rcases List.mem_cons.1 hother with rfl | hother
    · exact not_breaks_openingLine
    · exact hown other (hbody ▸ List.mem_append_left _ hother)

theorem SpreadsNowhere.inside (h : SpreadsNowhere wrappers) (number : Nat) :
    (∃ mapping ∈ mappings 0 (assembled options wrappers), mapping.generatedLine = number) ↔
      InsideWrapper options wrappers number := by
  constructor
  · rintro ⟨mapping, hmapping, rfl⟩
    obtain ⟨front, line, back, origin, hlines, horigin, rfl⟩ := mem_mappings_iff.1 hmapping
    have hcopied : line.origin.isSome := by
      rw [horigin]
      rfl
    obtain ⟨before, w, after, x, y, hsplit, hbody, rfl⟩ := exists_body_of_assembled hlines hcopied
    have hline : line ∈ w.body := hbody ▸ List.mem_append_cons_self
    have hpath : w.content.filePath.isSome :=
      (w.isSome_origin houtput line hline).symm.trans hcopied
    obtain ⟨hbefore, -⟩ := h.not_breaks hglobal hclassified hsplit hpath (List.ne_nil_of_mem hline)
    have hcount := (lineCount_joined_eq_length_iff _).2 hbefore
    have hlength := length_le_lineCount w.body
    refine ⟨before, w, after, hsplit, hpath, ?_, ?_⟩
    · simp only [mappingAt, hcount, List.length_append, List.length_cons]
      omega
    · rw [hbody] at hlength ⊢
      simp only [mappingAt, hcount, List.length_append, List.length_cons] at hlength ⊢
      omega
  · rintro ⟨before, w, after, hsplit, hpath, hafter, hbefore⟩
    have hnonempty : w.body ≠ [] := by
      intro hnil
      have hnone : lineCount (joined w.body) = 0 := by
        rw [hnil]
        rfl
      omega
    obtain ⟨hlines, hown⟩ := h.not_breaks hglobal hclassified hsplit hpath hnonempty
    have hcount := (lineCount_joined_eq_length_iff _).2 hlines
    have hlength := (lineCount_joined_eq_length_iff _).2 hown
    rw [hcount] at hafter hbefore
    rw [hlength] at hbefore
    -- The line of the body with this number.
    obtain ⟨k, rfl⟩ : ∃ k, number = (linesBefore options before).length + 1 + k :=
      ⟨number - ((linesBefore options before).length + 1), by omega⟩
    have hk : k < w.body.length := by omega
    obtain ⟨x, line, y, hbody, rfl⟩ : ∃ x line y, w.body = x ++ line :: y ∧ x.length = k := by
      refine ⟨w.body.take k, w.body[k], w.body.drop (k + 1), ?_, by rw [List.length_take]; omega⟩
      rw [List.getElem_cons_drop, List.take_append_drop]
    have hline : line ∈ w.body := hbody ▸ List.mem_append_cons_self
    obtain ⟨origin, horigin⟩ :=
      Option.isSome_iff_exists.1 ((w.isSome_origin houtput line hline).trans hpath)
    obtain ⟨back, hassembled⟩ := exists_assembled_eq hsplit hbody
    refine ⟨_, mem_mappings_iff.2 ⟨_, line, back, origin, hassembled, horigin, rfl⟩, ?_⟩
    simp only [mappingAt, List.length_append, List.length_cons]
    omega

omit [Script.ParserWording] hglobal hclassified in
/-- If the mappings are right, no line in front of a line of a mapped body is several. -/
theorem MapsInside.not_breaks_front
    (h : MapsInside options wrappers (mappings 0 (assembled options wrappers)))
    {before after : List (Wrapper (settingOf modules options) options.outputFile)}
    {w : Wrapper (settingOf modules options) options.outputFile}
    (hsplit : wrappers = before ++ w :: after) (hpath : w.content.filePath.isSome)
    {x y : List Line} {line : Line} (hbody : w.body = x ++ line :: y) :
    ∀ other ∈ linesBefore options before ++ openingLine :: x, ¬ other.Breaks := by
  have hline : line ∈ w.body := hbody ▸ List.mem_append_cons_self
  obtain ⟨back, hassembled⟩ := exists_assembled_eq hsplit hbody
  exact placed_iff.1 h.placed _ line back hassembled
    ((w.isSome_origin houtput line hline).trans hpath)

omit [Script.ParserWording] hglobal hclassified in
/-- If the mappings are right, no line of a mapped body is several. -/
theorem MapsInside.not_breaks_body
    (h : MapsInside options wrappers (mappings 0 (assembled options wrappers)))
    {before after : List (Wrapper (settingOf modules options) options.outputFile)}
    {w : Wrapper (settingOf modules options) options.outputFile}
    (hsplit : wrappers = before ++ w :: after) (hpath : w.content.filePath.isSome) :
    ∀ line ∈ w.body, ¬ line.Breaks := by
  intro line hline hbreaks
  obtain ⟨x, y, hbody⟩ := List.append_of_mem hline
  have hcount := (lineCount_joined_eq_length_iff _).2
    (h.not_breaks_front houtput hsplit hpath hbody)
  obtain ⟨back, hassembled⟩ := exists_assembled_eq hsplit hbody
  -- The second line of the export stands inside of the module, and is mapped therefore.
  have hinside : InsideWrapper options wrappers
      ((linesBefore options before ++ openingLine :: x).length + 1) := by
    have hlines : 0 < lineCount line.text := List.count_pos_iff.2 hbreaks
    refine ⟨before, w, after, hsplit, hpath, ?_, ?_⟩
    · rw [← hcount, lineCount_joined_append]
      omega
    · rw [← hcount, hbody]
      have hopening : lineCount openingLine.text = 0 :=
        List.count_eq_zero.2 not_breaks_openingLine
      simp only [lineCount_joined_append, lineCount_joined_cons]
      omega
  obtain ⟨mapping, hmapping, hnumber⟩ := (h.inside _).2 hinside
  obtain ⟨front, line', back', origin, hassembled', horigin, rfl⟩ := mem_mappings_iff.1 hmapping
  -- So the line that was written after the export has that export in front of it.
  have hfront : front = (linesBefore options before ++ openingLine :: x) ++ [line] := by
    have hsame : front ++ line' :: back' =
        (linesBefore options before ++ openingLine :: x) ++ [line] ++ back := by
      rw [← hassembled', hassembled]
      simp only [List.append_assoc, List.cons_append, List.nil_append]
    refine List.append_inj_left hsame ?_
    rw [List.length_append, List.length_singleton, ← hnumber]
    simp only [mappingAt, Nat.zero_add]
  have hsome : line'.origin.isSome := by
    rw [horigin]
    rfl
  refine placed_iff.1 h.placed front line' back' hassembled' hsome line ?_ hbreaks
  rw [hfront]
  exact List.mem_concat_self

/-- The mappings are right only if no export with a newline in its value stands in front of a mapped
line. -/
theorem MapsInside.spreadsNowhere
    (h : MapsInside options wrappers (mappings 0 (assembled options wrappers))) :
    SpreadsNowhere wrappers := by
  intro before w after hsplit hpath hnonempty w' hw' hspreads
  have hin : ∀ w' ∈ before ++ [w], w'.content.Classified := by
    intro w' hw'
    apply hclassified
    rw [hsplit]
    simp only [List.mem_append, List.mem_cons] at hw' ⊢
    tauto
  rcases List.mem_append.1 hw' with hw' | hw'
  · obtain ⟨first, rest, hbody⟩ := List.exists_cons_of_ne_nil hnonempty
    have hfirst : w.body = [] ++ first :: rest := hbody
    have hbefore : ∀ line ∈ linesBefore options before, ¬ line.Breaks := fun line hline =>
      h.not_breaks_front houtput hsplit hpath hfirst line (List.mem_append_left _ hline)
    exact (forall_not_breaks_linesBefore_iff hglobal fun w hw =>
      hin w (List.mem_append_left _ hw)).1 hbefore w' hw' hspreads
  · obtain rfl := List.mem_singleton.1 hw'
    obtain ⟨line, hline, hbreaks⟩ :=
      (w'.exists_breaks_body_iff hglobal (hin w' List.mem_concat_self)).2 hspreads
    exact h.not_breaks_body houtput hsplit hpath line hline hbreaks

end Exact

end Wrappers

/-- The mappings of a program come line by line. They are those of the lines inside of the modules
that come from files, each at the place of its line, if and only if no export whose value has a
newline in it stands in a module with lines from a file or in front of one. -/
theorem mappings_inside_iff [Script.ParserWording] {modules : List Module} {options : Options}
    {bundle : Bundle} (hclassified : ∀ m ∈ modules, m.Classified)
    (hglobal : '\n' ∉ options.globalObject.toList) (houtput : options.outputFile.isSome)
    (hemit : emit modules options = .ok bundle) :
    ∃ (wrappers : List (Wrapper (settingOf modules options) options.outputFile))
      (maps : List LineMapping), wrappers.map (·.content) = modules ∧
      bundle.code = joined (assembled options wrappers) ∧
      bundle.sourceMap = some ⟨(outputName options).getD "", maps⟩ ∧
      (maps.map (·.generatedLine)).Pairwise (· < ·) ∧
      (MapsInside options wrappers maps ↔ SpreadsNowhere wrappers) := by
  obtain ⟨wrappers, hmodules, hcode, hmap⟩ := emit_eq_ok_iff.1 hemit
  have hcontents : ∀ w ∈ wrappers, w.content.Classified := by
    have hall : ∀ m ∈ wrappers.map (·.content), m.Classified := by
      rw [hmodules]
      exact hclassified
    intro w hw
    exact hall w.content (List.mem_map_of_mem hw)
  refine ⟨wrappers, mappings 0 (assembled options wrappers), hmodules, hcode, ?_,
    pairwise_mappings 0 _, ?_⟩
  · obtain ⟨output, houtput⟩ := Option.isSome_iff_exists.1 houtput
    rw [hmap]
    exact Option.map_eq_some_iff.2 ⟨output, houtput, rfl⟩
  · constructor
    · intro h
      exact h.spreadsNowhere hglobal houtput hcontents
    · intro h
      exact ⟨h.inside hglobal houtput hcontents, h.placed hglobal houtput hcontents⟩

/-- A module with two exports, the value of the first on two lines. -/
def spreadInput : ModuleInput :=
  ⟨.regular "M", some "M/index.js", "module.exports=\x7bx:o\n.p,y:o\x7d"⟩

/-- The texts that the exports of an element are bound to. -/
def boundTexts (source : Source) : Element → List (Option String)
  | .exports _ entries => entries.map fun entry => (boundText source entry).toOption
  | _ => []

/-- The program of the module, with the mapping of the second export a line too early. -/
def spreadBundle : Bundle where
  code := "var PS = \x7b\x7d;\n(function(exports) \x7b\n  exports[\"x\"] = o\n.p;\n" ++
    "  exports[\"y\"] = o;\n\x7d)(PS[\"M\"] = PS[\"M\"] || \x7b\x7d);\n//# sourceMappingURL=a.js.map\n"
  sourceMap := some ⟨"a.js", [⟨2, 0, "M/index.js", 0, 0⟩, ⟨3, 0, "M/index.js", 1, 0⟩]⟩

/-- The line that follows the first line of the module inside of it, and the one behind the second
export, are not those that the mappings speak of. -/
theorem spread_export_unmapped :
    ∃ m, Module.classify ["M"] spreadInput = .ok m ∧ (∀ m' ∈ [m], m'.Classified) ∧
      '\n' ∉ ({ outputFile := some "a.js" } : Options).globalObject.toList ∧
      emit [m] { outputFile := some "a.js" } = .ok spreadBundle ∧
      ∃ (wrappers : List (Wrapper (settingOf [m] { outputFile := some "a.js" }) (some "a.js")))
        (maps : List LineMapping), wrappers.map (·.content) = [m] ∧
        spreadBundle.sourceMap = some ⟨"a.js", maps⟩ ∧
        ¬ MapsInside { outputFile := some "a.js" } wrappers maps := by
  have hrun : ((Module.classify ["M"] spreadInput).toOption.map fun m =>
      (m.filePath, m.elements.map (boundTexts m.source),
        (emit [m] { outputFile := some "a.js" }).toOption)) =
      some (some "M/index.js", [[some "o\n.p", some "o"]], some spreadBundle) := by
    decide +kernel
  obtain ⟨m, hm, hresult⟩ := Option.map_eq_some_iff.1 hrun
  obtain ⟨hpath, hresult⟩ := Prod.mk.inj hresult
  obtain ⟨hvalues, hemit⟩ := Prod.mk.inj hresult
  have hclassify : Module.classify ["M"] spreadInput = .ok m := eq_ok_of_toOption hm
  have hemit : emit [m] { outputFile := some "a.js" } = .ok spreadBundle := eq_ok_of_toOption hemit
  have hclassified : ∀ m' ∈ [m], m'.Classified := by
    refine List.forall_mem_singleton.2 ⟨_, _, m, hclassify, rfl, rfl, rfl, ?_⟩
    exact List.forall₂_same.2 fun element _ => .same element
  have hspreads : m.SpreadsExport := by
    obtain ⟨element, rest, helements, hentries, -⟩ := List.map_eq_cons_iff.1 hvalues
    cases element with
    | exports span entries =>
        obtain ⟨entry, others, hentry, hvalue, -⟩ := List.map_eq_cons_iff.1 hentries
        refine ⟨.exports span entries, helements ▸ .head _, span, entries, entry, "o\n.p", rfl,
          hentry ▸ .head _, eq_ok_of_toOption hvalue, by decide⟩
    | _ => cases hentries
  have hglobal : '\n' ∉ ({ outputFile := some "a.js" } : Options).globalObject.toList := by decide
  obtain ⟨wrappers, maps, hcontents, -, hmap, -, hiff⟩ :=
    mappings_inside_iff hclassified hglobal rfl hemit
  refine ⟨m, hclassify, hclassified, hglobal, hemit, wrappers, maps, hcontents, hmap, ?_⟩
  intro h
  obtain ⟨w, rest, rfl, hw, hrest⟩ := List.map_eq_cons_iff.1 hcontents
  obtain rfl := List.map_eq_nil_iff.1 hrest
  have hw' : w.content.Classified := by
    rw [hw]
    exact hclassified m (.head _)
  have hwspreads : w.content.SpreadsExport := by
    rw [hw]
    exact hspreads
  have hwpath : w.content.filePath.isSome := by
    rw [hw, hpath]
    rfl
  obtain ⟨line, hline, -⟩ := (w.exists_breaks_body_iff hglobal hw').2 hwspreads
  -- The one wrapper that there is spreads an export over two lines.
  exact hiff.1 h [] w [] rfl hwpath (List.ne_nil_of_mem hline) w (.head _) hwspreads

end ModuleLinker.Emission
