/-
# ModuleLinker.Proofs.OtherNames -- a program under other names

The text of a program depends on the names of its modules and exports in nothing but the literals in
which they stand. It is a text with holes (`Template`) that the names are put into, each in quotes.
A program whose modules, exports and main module are called otherwise is the same template with the
other names in it; it has as many lines, and the same source mapping (`emit_renamed`). Where the
text between the holes is read as tokens, the whole is read as the same tokens for all names
(`Template.ReadAs.reads`).
-/

import Mathlib.Data.List.Basic
import ModuleLinker.Proofs.GeneratedLines
import ModuleLinker.Proofs.MarkedModule
import ModuleLinker.Proofs.QuotedNames

namespace ModuleLinker

open Text

/-! ## Renamings -/

/-- Other names for modules and exports, and for the module that is called at the end. Modules with
different names keep different names. -/
structure Renaming where
  ofModule : String → String
  ofExport : String → String
  ofMain : String → String
  injective : Function.Injective ofModule

namespace Renaming

variable (ρ : Renaming)

/-- The renaming replaces the first name by the second somewhere. -/
def Replaces (name other : String) : Prop :=
  other = ρ.ofModule name ∨ other = ρ.ofExport name ∨ other = ρ.ofMain name

def id (id : ModuleId) : ModuleId := { id with name := ρ.ofModule id.name }

def target : RequireTarget → RequireTarget
  | .unresolved path => .unresolved path
  | .resolved id => .resolved (ρ.id id)

def entry (entry : ExportEntry) : ExportEntry := { entry with name := ρ.ofExport entry.name }

def element : Element → Element
  | .require span binder target => .require span binder (ρ.target target)
  | .exports span entries => .exports span (entries.map ρ.entry)
  | element => element

/-- The module of the same text under the other names. -/
def content (m : Module) : Module :=
  { m with id := ρ.id m.id, elements := m.elements.map ρ.element }

def options (options : Options) : Options :=
  { options with
    entryPoints := options.entryPoints.map ρ.id
    mainModule := options.mainModule.map ρ.ofMain }

theorem id_injective : Function.Injective ρ.id := by
  rintro ⟨name, kind⟩ ⟨other, otherKind⟩ h
  obtain ⟨hname, hkind⟩ := ModuleId.mk.inj h
  obtain rfl : name = other := ρ.injective hname
  obtain rfl : kind = otherKind := hkind
  rfl

@[simp] theorem span_element (element : Element) : (ρ.element element).span = element.span := by
  cases element <;> rfl

@[simp] theorem isSkipped_element (element : Element) :
    (ρ.element element).isSkipped = element.isSkipped := by
  cases element <;> rfl

end Renaming

/-- The second text is the first one with other names in some of its literals. -/
inductive SameButNames (ρ : Renaming) : List Char → List Char → Prop
  | nil : SameButNames ρ [] []
  | char {a b : List Char} (c : Char) : SameButNames ρ a b → SameButNames ρ (c :: a) (c :: b)
  | name {a b : List Char} {name other : String} : ρ.Replaces name other → SameButNames ρ a b →
      SameButNames ρ (quotedChars name.toList ++ a) (quotedChars other.toList ++ b)

namespace SameButNames

variable {ρ : Renaming} {a b c d : List Char}

theorem refl (cs : List Char) : SameButNames ρ cs cs := by
  induction cs with
  | nil => exact .nil
  | cons c cs ih => exact .char c ih

theorem append (hab : SameButNames ρ a b) (hcd : SameButNames ρ c d) :
    SameButNames ρ (a ++ c) (b ++ d) := by
  induction hab with
  | nil => exact hcd
  | char x _ ih => exact .char x ih
  | name hname _ ih =>
      rw [List.append_assoc, List.append_assoc]
      exact .name hname ih

theorem literal {name other : String} (h : ρ.Replaces name other) :
    SameButNames ρ (quoted name).toList (quoted other).toList := by
  have hname := SameButNames.name h .nil
  rw [List.append_nil, List.append_nil] at hname
  rwa [toList_quoted, toList_quoted]

/-- Control characters are where they were. -/
theorem count_eq (h : SameButNames ρ a b) {x : Char} (hx : x.toNat < 0x20) :
    a.count x = b.count x := by
  -- Neither of two literals has a control character in it.
  have hliteral : ∀ name : String, (quotedChars name.toList).count x = 0 := by
    intro name
    rw [List.count_eq_zero]
    intro hmem
    have hvisible := (Script.isStringLiteral_quotedChars name).visible x hmem
    omega
  induction h with
  | nil => rfl
  | char y _ ih => rw [List.count_cons, List.count_cons, ih]
  | name _ _ ih => rw [List.count_append, List.count_append, hliteral, hliteral, ih]

end SameButNames

/-! ## Texts with holes -/

/-- A text with holes for names: what stands in front of each hole, and what stands behind the
last. -/
structure Template where
  pieces : List String
  last : String

namespace Template

open Script

/-- The text with these names, quoted, in the holes. -/
def fill (template : Template) (names : List String) : List Char :=
  (List.zipWith (fun piece name => piece.toList ++ quotedChars name.toList) template.pieces
    names).flatten ++ template.last.toList

/-- The tokens of the pieces, and between them the names as strings. -/
def fillKinds (kinds : List (List TokenKind)) (last : List TokenKind) (names : List String) :
    List TokenKind :=
  (List.zipWith (fun kinds name => kinds ++ [.string name false]) kinds names).flatten ++ last

/-- The pieces are read as tokens of these kinds, each in front of a quote and the last one to the
end of the text. -/
structure ReadAs (template : Template) (kinds : List (List TokenKind)) (last : List TokenKind) :
    Prop where
  pieces : List.Forall₂ (fun piece kinds => ReadsAs piece kinds "\"") template.pieces kinds
  last : ∀ offset, Reads ⟨template.last.toList, offset⟩ last
    ⟨[], offset + byteSize template.last.toList⟩

theorem fill_piece (piece last name : String) (pieces names : List String) :
    fill ⟨piece :: pieces, last⟩ (name :: names) =
      piece.toList ++ (quotedChars name.toList ++ fill ⟨pieces, last⟩ names) := by
  simp only [fill, List.zipWith_cons_cons, List.flatten_cons, List.append_assoc]

/-- A text with holes is read as the same tokens whatever names are in the holes, but for the values
of these strings. -/
theorem ReadAs.reads {template : Template} {kinds : List (List TokenKind)} {last : List TokenKind}
    (h : template.ReadAs kinds last) {names : List String}
    (hnames : names.length = template.pieces.length) (offset : Nat) :
    Reads ⟨template.fill names, offset⟩ (fillKinds kinds last names)
      ⟨[], offset + byteSize (template.fill names)⟩ := by
  obtain ⟨pieces, lastPiece⟩ := template
  have hpieces : List.Forall₂ (fun piece kinds => ReadsAs piece kinds "\"") pieces kinds := h.pieces
  have hlast : ∀ offset, Reads ⟨lastPiece.toList, offset⟩ last
    ⟨[], offset + byteSize lastPiece.toList⟩ := h.last
  clear h
  -- A piece is read in front of the quote that opens the name behind it, the name in front of
  -- whatever comes next.
  induction hpieces generalizing names offset with
  | nil =>
      obtain rfl := List.eq_nil_of_length_eq_zero hnames
      exact hlast offset
  | @cons piece own pieces kinds hpiece _ ih =>
      obtain ⟨name, names, rfl⟩ := List.exists_cons_of_length_eq_add_one hnames
      have hliteral := isStringLiteral_quotedChars name
      have hrest := ih (offset + byteSize piece.toList + byteSize (quotedChars name.toList))
        (Nat.succ.inj hnames)
      have hfirst :=
        hpiece (name.toList.flatMap escaped ++ '"' :: fill ⟨pieces, lastPiece⟩ names) offset
      have hquoted : "\"".toList ++
          (name.toList.flatMap escaped ++ '"' :: fill ⟨pieces, lastPiece⟩ names) =
          quotedChars name.toList ++ fill ⟨pieces, lastPiece⟩ names := by
        simp [quotedChars]
      rw [hquoted] at hfirst
      have hkinds : fillKinds (own :: kinds) last (name :: names) =
          own ++ .string name false :: fillKinds kinds last names := by
        simp [fillKinds]
      rw [fill_piece, hkinds, byteSize_append, byteSize_append, ← Nat.add_assoc, ← Nat.add_assoc]
      exact hfirst.append (.cons (hliteral.readsToken _ _) hrest)

/-- The text with one more character in front. -/
def cons (c : Char) : Template → Template
  | ⟨[], last⟩ => ⟨[], String.ofList (c :: last.toList)⟩
  | ⟨piece :: pieces, last⟩ => ⟨String.ofList (c :: piece.toList) :: pieces, last⟩

theorem length_pieces_cons (c : Char) (template : Template) :
    (template.cons c).pieces.length = template.pieces.length := by
  obtain ⟨_ | ⟨piece, pieces⟩, last⟩ := template <;> rfl

theorem fill_cons (c : Char) {template : Template} {names : List String}
    (hnames : names.length = template.pieces.length) :
    (template.cons c).fill names = c :: template.fill names := by
  obtain ⟨_ | ⟨piece, pieces⟩, last⟩ := template
  · obtain rfl := List.eq_nil_of_length_eq_zero hnames
    simp [cons, fill]
  · obtain ⟨name, names, rfl⟩ := List.exists_cons_of_length_eq_add_one hnames
    simp [cons, fill]

end Template

/-- Texts that are the same but for names are one text with holes. -/
theorem SameButNames.exists_template {ρ : Renaming} {a b : List Char} (h : SameButNames ρ a b) :
    ∃ (template : Template) (names others : List String),
      names.length = template.pieces.length ∧ List.Forall₂ ρ.Replaces names others ∧
      a = template.fill names ∧ b = template.fill others := by
  induction h with
  | nil => exact ⟨⟨[], ""⟩, [], [], rfl, .nil, rfl, rfl⟩
  | char c _ ih =>
      obtain ⟨template, names, others, hlength, hreplaces, rfl, rfl⟩ := ih
      refine ⟨template.cons c, names, others, ?_, hreplaces, ?_, ?_⟩
      · rw [Template.length_pieces_cons, hlength]
      · rw [Template.fill_cons c hlength]
      · rw [Template.fill_cons c (hreplaces.length_eq.symm.trans hlength)]
  | @name a b name other hname _ ih =>
      obtain ⟨⟨pieces, last⟩, names, others, hlength, hreplaces, rfl, rfl⟩ := ih
      refine ⟨⟨"" :: pieces, last⟩, name :: names, other :: others, ?_, .cons hname hreplaces,
        ?_, ?_⟩
      · exact congrArg (· + 1) hlength
      · rw [Template.fill_piece]
        rfl
      · rw [Template.fill_piece]
        rfl

/-! ## Programs under other names -/

/-- The second line is the first one with other names in it. -/
structure Line.SameBut (ρ : Renaming) (line other : Line) : Prop where
  text : SameButNames ρ line.text.toList other.text.toList
  origin : other.origin = line.origin

/-- The second program is the first one with other names in it, on as many lines. -/
structure Bundle.SameBut (ρ : Renaming) (bundle other : Bundle) : Prop where
  code : ∃ (template : Template) (names others : List String),
    names.length = template.pieces.length ∧ List.Forall₂ ρ.Replaces names others ∧
    bundle.code.toList = template.fill names ∧ other.code.toList = template.fill others
  lineCount : Emission.lineCount other.code = Emission.lineCount bundle.code
  sourceMap : other.sourceMap = bundle.sourceMap

namespace Emission

open Script

variable (ρ : Renaming)

/-- The setting of the renamed modules. -/
def Setting.renamed (setting : Setting) : Setting :=
  { setting with present := setting.present.map ρ.id }

theorem sameButNames_slot (globalObject : String) {name other : String}
    (h : ρ.Replaces name other) :
    SameButNames ρ (slot globalObject name).toList (slot globalObject other).toList := by
  simp only [slot, String.toList_append]
  exact ((SameButNames.refl _).append (.literal h)).append (.refl _)

/-- A module of the program is required by its slot, other than in foreign code. -/
theorem elementLines_resolved (setting : Setting) (m : Module) (file : Option String)
    (span : LineSpan) (binder : String) (id : ModuleId) :
    elementLines setting m file (.require span binder (.resolved id)) =
      if !m.id.isForeign && setting.present.contains id then
        .ok [copied file ("  var " ++ binder ++ " = " ++ slot setting.globalObject id.name ++ ";")
          span.firstLine]
      else verbatim file m.source span := rfl

theorem sameBut_copied (file : Option String) {text other : String} (number : Nat)
    (h : SameButNames ρ text.toList other.toList) :
    Line.SameBut ρ (copied file text number) (copied file other number) := ⟨h, rfl⟩

theorem sameBut_refl (lines : List Line) : List.Forall₂ (Line.SameBut ρ) lines lines :=
  List.forall₂_same.2 fun _ _ => ⟨.refl _, rfl⟩

theorem exportLine_renamed (file : Option String) (source : Source) (entry : ExportEntry) :
    EndsLike (Line.SameBut ρ) (exportLine file source entry)
      (exportLine file source (ρ.entry entry)) := by
  have hbound : EndsLike Eq (boundText source entry) (boundText source (ρ.entry entry)) := .refl _
  unfold exportLine
  apply hbound.bind
  rintro value _ rfl
  apply EndsLike.ok
  apply sameBut_copied
  have hname : SameButNames ρ (quoted entry.name).toList (quoted (ρ.entry entry).name).toList :=
    .literal (.inr (.inl rfl))
  have hhead := (SameButNames.refl "  exports[".toList).append hname
  simp only [String.toList_append]
  exact ((hhead.append (.refl _)).append (.refl _)).append (.refl _)

theorem contains_renamed (present : List ModuleId) (id : ModuleId) :
    (present.map ρ.id).contains (ρ.id id) = present.contains id := by
  rw [Bool.eq_iff_iff, List.contains_iff_mem, List.contains_iff_mem,
    List.mem_map_of_injective ρ.id_injective]

theorem elementLines_renamed (setting : Setting) (m : Module) (file : Option String)
    (element : Element) :
    EndsLike (List.Forall₂ (Line.SameBut ρ)) (elementLines setting m file element)
      (elementLines (setting.renamed ρ) (ρ.content m) file (ρ.element element)) := by
  have hverbatim : ∀ span, EndsLike (List.Forall₂ (Line.SameBut ρ))
      (verbatim file m.source span) (verbatim file m.source span) := by
    intro span
    apply (EndsLike.refl _).mono
    rintro lines _ - rfl
    exact sameBut_refl ρ lines
  cases element with
  | skipped span => exact .ok .nil
  | exports span entries =>
      have hentries : List.Forall₂ (fun entry other => ρ.entry entry = other) entries
          (entries.map ρ.entry) := forall₂_eq_map_iff.2 rfl
      apply EndsLike.mapM hentries
      rintro entry _ rfl
      exact exportLine_renamed ρ file m.source entry
  | require span binder target =>
      cases target with
      | unresolved path => exact hverbatim span
      | resolved id =>
          -- A module is in the program when its namesake is: the names stay different.
          have hpresent : (!(ρ.content m).id.isForeign &&
              (setting.renamed ρ).present.contains (ρ.id id)) =
                (!m.id.isForeign && setting.present.contains id) :=
            congrArg (!m.id.isForeign && ·) (contains_renamed ρ setting.present id)
          have hslot : SameButNames ρ (slot setting.globalObject id.name).toList
              (slot setting.globalObject (ρ.id id).name).toList :=
            sameButNames_slot ρ setting.globalObject (.inl rfl)
          show EndsLike _ _ (elementLines _ _ file (.require span binder (.resolved (ρ.id id))))
          rw [elementLines_resolved, elementLines_resolved, hpresent]
          split
          · refine .ok (.cons (sameBut_copied ρ file _ ?_) .nil)
            simp only [String.toList_append]
            exact ((SameButNames.refl _).append hslot).append (.refl _)
          · exact hverbatim span
  | member span visibility name value dependencies => exact hverbatim span
  | other span => exact hverbatim span

theorem bodyLines_renamed (setting : Setting) (m : Module) (file : Option String) (previous : Nat)
    (elements : List Element) :
    EndsLike (List.Forall₂ (Line.SameBut ρ)) (bodyLines setting m file previous elements)
      (bodyLines (setting.renamed ρ) (ρ.content m) file previous (elements.map ρ.element)) := by
  induction elements generalizing previous with
  | nil => exact .ok (sameBut_refl ρ _)
  | cons element elements ih =>
      rw [List.map_cons, bodyLines, bodyLines, ρ.span_element, ρ.isSkipped_element]
      apply (elementLines_renamed ρ setting m file element).bind
      intro lines others hlines
      apply (ih element.span.stop).bind
      intro rest otherRest hrest
      exact .ok (List.rel_append (List.rel_append (sameBut_refl ρ _) hlines) hrest)

theorem sameBut_closingLine (setting : Setting) (id : ModuleId) :
    Line.SameBut ρ (closingLine setting id) (closingLine (setting.renamed ρ) (ρ.id id)) := by
  have hslot : SameButNames ρ (slot setting.globalObject id.name).toList
      (slot setting.globalObject (ρ.id id).name).toList :=
    sameButNames_slot ρ setting.globalObject (.inl rfl)
  have htarget := (SameButNames.refl "\x7d)(".toList).append hslot
  refine ⟨?_, rfl⟩
  simp only [closingLine, Setting.renamed, String.toList_append]
  exact ((htarget.append (.refl _)).append hslot).append (.refl _)

theorem moduleLines_renamed (setting : Setting) (outputFile : Option String) (m : Module) :
    EndsLike (List.Forall₂ (Line.SameBut ρ)) (moduleLines setting outputFile m)
      (moduleLines (setting.renamed ρ) outputFile (ρ.content m)) := by
  unfold moduleLines
  apply (bodyLines_renamed ρ setting m _ 0 m.elements).bind
  intro body other hbody
  have hopening : Line.SameBut ρ openingLine openingLine := ⟨.refl _, rfl⟩
  exact .ok (List.rel_append (.cons hopening hbody)
    (.cons (sameBut_closingLine ρ setting m.id) .nil))

theorem sameBut_mainLines (globalObject : String) (main : Option String) :
    List.Forall₂ (Line.SameBut ρ)
      (main.toList.map fun name => { text := slot globalObject name ++ ".main();" })
      ((main.map ρ.ofMain).toList.map fun name =>
        { text := slot globalObject name ++ ".main();" }) := by
  cases main with
  | none => exact .nil
  | some name =>
      have hslot : SameButNames ρ (slot globalObject name).toList
          (slot globalObject (ρ.ofMain name)).toList :=
        sameButNames_slot ρ globalObject (.inr (.inr rfl))
      refine .cons ⟨?_, rfl⟩ .nil
      simp only [String.toList_append]
      exact hslot.append (.refl _)

theorem settingOf_renamed (modules : List Module) (options : Options) :
    settingOf (modules.map ρ.content) (ρ.options options) =
      (settingOf modules options).renamed ρ := by
  simp only [settingOf, Setting.renamed, List.map_map]
  rfl

theorem programLines_renamed (modules : List Module) (options : Options) :
    EndsLike (List.Forall₂ (Line.SameBut ρ)) (programLines modules options)
      (programLines (modules.map ρ.content) (ρ.options options)) := by
  have hmodules : List.Forall₂ (fun m other => ρ.content m = other) modules
      (modules.map ρ.content) := forall₂_eq_map_iff.2 rfl
  have hbodies : EndsLike (List.Forall₂ (List.Forall₂ (Line.SameBut ρ)))
      (modules.mapM (moduleLines (settingOf modules options) options.outputFile))
      ((modules.map ρ.content).mapM (moduleLines
        (settingOf (modules.map ρ.content) (ρ.options options)) options.outputFile)) := by
    rw [settingOf_renamed]
    apply EndsLike.mapM hmodules
    rintro m _ rfl
    exact moduleLines_renamed ρ _ options.outputFile m
  unfold programLines
  apply hbodies.bind
  intro bodies others h
  have hstart := sameBut_refl ρ [startLine options]
  have hmain := sameBut_mainLines ρ options.globalObject options.mainModule
  exact .ok (List.rel_append (List.rel_append (List.rel_append hstart (List.rel_flatten h)) hmain)
    (sameBut_refl ρ _))

theorem sameButNames_joined {lines others : List Line}
    (h : List.Forall₂ (Line.SameBut ρ) lines others) :
    SameButNames ρ (joined lines).toList (joined others).toList := by
  induction h with
  | nil => exact .nil
  | cons hline _ ih =>
      simp only [joined, String.toList_append]
      exact (hline.text.append (.refl _)).append ih

theorem mappings_eq {lines others : List Line} (h : List.Forall₂ (Line.SameBut ρ) lines others)
    (number : Nat) : mappings number others = mappings number lines := by
  induction h generalizing number with
  | nil => rfl
  | cons hline _ ih => rw [mappings_cons, mappings_cons, hline.origin, ih]

/-- A program under other names has the same text with the other names in its literals, and the same
source mapping. -/
theorem emit_renamed (modules : List Module) (options : Options) :
    EndsLike (Bundle.SameBut ρ) (emit modules options)
      (emit (modules.map ρ.content) (ρ.options options)) := by
  unfold emit
  apply (programLines_renamed ρ modules options).bind
  intro lines others h
  have hcode := sameButNames_joined ρ h
  refine .ok ⟨hcode.exists_template, (hcode.count_eq (by decide)).symm, ?_⟩
  show (options.outputFile.map fun _ => _) = options.outputFile.map fun _ => _
  rw [mappings_eq ρ h]
  rfl

/-- The quoted form of a text is a string literal with the text as its value. Different names have
different slots therefore, an export is assigned to the property with its name, and the lines that
name something are read as the same tokens for all names, but for the value of a string. A program
under other names is the same text with other literals in its holes, on as many lines and with the
same source mapping; and where the text between the holes is read as tokens, the program is read as
the same tokens whatever the names. -/
theorem names_stay_quoted :
    (∀ name, IsStringLiteral name (quoted name).toList) ∧
    (∀ globalObject, Function.Injective (slot globalObject)) ∧
    (∀ globalObject globals, ReadsAs globalObject globals "[" → NamesRead globalObject globals) ∧
    (∀ file source entry line, exportLine file source entry = .ok line →
      ∃ value, boundText source entry = .ok value ∧
        line.text = "  exports[" ++ quoted entry.name ++ "] = " ++ value ++ ";") ∧
    (∀ name, ReadsAs ("  exports[" ++ quoted name ++ "] =") (exportKinds name) " ") ∧
    (∀ (ρ : Renaming) modules options, EndsLike (Bundle.SameBut ρ) (emit modules options)
      (emit (modules.map ρ.content) (ρ.options options))) ∧
    ∀ (template : Template) kinds last, template.ReadAs kinds last →
      ∀ names, names.length = template.pieces.length →
        Reads ⟨template.fill names, 0⟩ (Template.fillKinds kinds last names)
          ⟨[], 0 + byteSize (template.fill names)⟩ := by
  refine ⟨isStringLiteral_quoted, slot_injective, fun _ _ => namesRead, ?_, readsAs_export,
    emit_renamed, fun template kinds last h names hnames => h.reads hnames 0⟩
  intro file source entry line h
  obtain ⟨value, hvalue, hline⟩ := bind_except_eq_ok_iff.1 h
  obtain rfl := Except.ok.inj hline
  exact ⟨value, hvalue, rfl⟩

/-- A name that would end its string, the line and the statement if it were not quoted. -/
def hostileName : String := "\"]; evil();\n//"

def hostileOptions : Options := { mainModule := some hostileName }

/-- The text of a program that calls a main module, with a hole for the name of the module. -/
def callTemplate : Template := ⟨["var PS = \x7b\x7d;\nPS["], "].main();\n"⟩

/-- The tokens in front of the hole. -/
def callKinds : List TokenKind :=
  [.word "var" false, .word "PS" false, .punctuator "="] ++ marks "\x7b\x7d;" ++
    [.word "PS" false] ++ marks "["

/-- The tokens behind the hole. -/
def callEnd : List TokenKind :=
  marks "]" ++ ([.punctuator ".", .word "main" false] ++ marks "();") ++ [.endOfText]

theorem readAs_callTemplate : callTemplate.ReadAs [callKinds] callEnd where
  pieces := by
    have hvar : ReadsAs "var" [.word "var" false] (" PS" ++ (" =" ++ " ")) :=
      .token fun _ _ => .of_scan rfl rfl rfl
    have hobject : ReadsAs " PS" [.word "PS" false] (" =" ++ " ") :=
      .token fun _ _ => .of_scan rfl rfl rfl
    have hbraces : ReadsAs (" " ++ "\x7b\x7d;") (marks "\x7b\x7d;") "" :=
      (readsAs_marks (by decide)).blank (by decide)
    have hline : ReadsAs "\nPS" [.word "PS" false] "[" := .token fun _ _ => .of_scan rfl rfl rfl
    have hopen : ReadsAs "[" (marks "[") "" := readsAs_marks (by decide)
    have hassigned := (hvar.append hobject).append readsAs_assign
    have hfirst := (hassigned.before "\x7b\x7d;").last hbraces
    exact .cons ((hfirst.behind (hline.last hopen)).anywhere "\"") .nil
  last := by
    intro offset
    have hclose : ReadsAs "]" (marks "]") "" := readsAs_marks (by decide)
    have hcall := hclose.behind readsAs_call ['\n'] offset
    exact hcall.append (.cons (.of_scan rfl rfl rfl) (.nil _))

/-- The name is the value of one string in the program, which has no more tokens because of it. -/
theorem hostile_name_stays_quoted :
    (emit [] hostileOptions).toOption.map (·.code.toList) = some (callTemplate.fill [hostileName]) ∧
      NamesRead "PS" [.word "PS" false] ∧
      Reads ⟨callTemplate.fill [hostileName], 0⟩ (callKinds ++ .string hostileName false :: callEnd)
        ⟨[], 0 + byteSize (callTemplate.fill [hostileName])⟩ := by
  obtain ⟨-, -, hnames, -, -, -, hreads⟩ := names_stay_quoted
  have hglobal : ReadsAs "PS" [.word "PS" false] "[" :=
    readsAs_identifier ⟨'P', ['S'], rfl, by decide, by decide⟩
  have hkinds : Template.fillKinds [callKinds] callEnd [hostileName] =
      callKinds ++ .string hostileName false :: callEnd := by
    simp [Template.fillKinds]
  refine ⟨by decide +kernel, hnames _ _ hglobal, ?_⟩
  rw [← hkinds]
  exact hreads callTemplate [callKinds] callEnd readAs_callTemplate [hostileName] rfl

end Emission

end ModuleLinker
