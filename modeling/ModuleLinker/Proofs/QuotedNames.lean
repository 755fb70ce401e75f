/-
# ModuleLinker.Proofs.QuotedNames -- lines that name something

The names of modules and of exports stand in the text of a program as string literals, each between
the brackets behind an object. A literal is one token whatever the name is, and different names have
different literals. Modules with different names have different slots therefore, and the lines that
name something are read as the same tokens for all names, but for the value of a string
(`namesRead`, `readsAs_export`).
-/

import ModuleLinker.Proofs.WholeTokens
import ModuleLinker.Proofs.Wrapper

namespace ModuleLinker

open Text

namespace Emission

open Script

/-! ## Properties -/

/-- The brackets behind an object that select the property with this name. -/
def property (name : String) : String := "[" ++ quoted name ++ "]"

/-- The tokens of the brackets. -/
def propertyKinds (name : String) : List TokenKind :=
  marks "[" ++ [.string name false] ++ marks "]"

theorem isStringLiteral_quoted (name : String) : IsStringLiteral name (quoted name).toList := by
  rw [toList_quoted]
  exact isStringLiteral_quotedChars name

/-- A literal has one value. -/
theorem quoted_injective : Function.Injective quoted := by
  intro a b h
  have ha := (isStringLiteral_quoted a).token [] 0 false
  have hb := (isStringLiteral_quoted b).token [] 0 false
  rw [h, hb] at ha
  have hkind : TokenKind.string b false = .string a false := congrArg (fun s => s.kind) ha
  exact (TokenKind.string.inj hkind).1.symm

/-- A name in brackets is one string, whatever follows. -/
theorem readsAs_property (name : String) : ReadsAs (property name) (propertyKinds name) "" := by
  have hopen : ReadsAs "[" (marks "[") "" := readsAs_marks (by decide)
  have hclose : ReadsAs "]" (marks "]") "" := readsAs_marks (by decide)
  have hname : ReadsAs (quoted name) [.string name false] "" :=
    (isStringLiteral_quotedChars name).readsAs
  exact ((hopen.anywhere _).append (hname.anywhere _)).append hclose

/-! ## Slots -/

theorem slot_eq (globalObject name : String) :
    slot globalObject name = globalObject ++ property name := by
  simp only [slot, property, String.append_assoc]

/-- Modules with different names have different slots. -/
theorem slot_injective (globalObject : String) : Function.Injective (slot globalObject) := by
  intro a b h
  have hchars := congrArg String.toList h
  simp only [slot, String.toList_append, List.append_assoc, List.append_cancel_left_eq,
    List.append_cancel_right_eq] at hchars
  exact quoted_injective (String.toList_inj.1 hchars)

/-! ## Lines that name something -/

/-- The tokens of the last line of a module. -/
def closingKinds (globals : List TokenKind) (name : String) : List TokenKind :=
  marks "\x7d)(" ++ (globals ++ propertyKinds name) ++ [.punctuator "="] ++
    (globals ++ propertyKinds name) ++ [.punctuator "||"] ++ marks "\x7b\x7d);"

/-- The tokens of a required module, behind the alias. -/
def requireKinds (globals : List TokenKind) (name : String) : List TokenKind :=
  [.punctuator "="] ++ (globals ++ propertyKinds name) ++ marks ";"

/-- The tokens of the line that calls the main module. -/
def mainKinds (globals : List TokenKind) (name : String) : List TokenKind :=
  globals ++ propertyKinds name ++ ([.punctuator ".", .word "main" false] ++ marks "();")

/-- The tokens of the assignment of an export, in front of its value. -/
def exportKinds (name : String) : List TokenKind :=
  [.word "exports" false] ++ propertyKinds name ++ [.punctuator "="]

theorem readsAs_assign : ReadsAs " =" [.punctuator "="] " " :=
  .token fun _ _ => .of_scan rfl rfl rfl

theorem readsAs_call :
    ReadsAs ".main();" ([.punctuator ".", .word "main" false] ++ marks "();") "" := by
  have hpoint : ReadsAs "." [.punctuator "."] "main" := by
    apply ReadsAs.token
    intro rest offset
    have htext : punctuator? (".main".toList ++ rest) = some "." := rfl
    have hread : TokenKind.read ⟨".main".toList ++ rest, offset⟩ =
        (.punctuator ".", [], ⟨"main".toList ++ rest, offset + 1⟩) := by
      show (TokenKind.punctuator ((punctuator? (".main".toList ++ rest)).getD "."), [],
        Cursor.skip ((punctuator? (".main".toList ++ rest)).getD ".").length
          ⟨".main".toList ++ rest, offset⟩) = _
      rw [htext]
      rfl
    exact .at_once rfl hread
  have hword : ReadsAs "main" [.word "main" false] "();" :=
    .token fun _ _ => .of_scan rfl rfl rfl
  exact (hpoint.before "();").last (hword.last (readsAs_marks (by decide)))

theorem readsAs_export (name : String) :
    ReadsAs ("  exports[" ++ quoted name ++ "] =") (exportKinds name) " " := by
  have hword : ReadsAs "  exports" [.word "exports" false] "[" :=
    .token fun _ _ => .of_scan rfl rfl rfl
  have hobject : ReadsAs "  exports" [.word "exports" false] (property name) := by
    rw [property, String.append_assoc]
    exact hword.before _
  have htext : "  exports[" ++ quoted name ++ "] =" = "  exports" ++ property name ++ " =" := by
    show ("  exports" ++ "[") ++ quoted name ++ ("]" ++ " =") = _
    simp only [property, String.append_assoc]
  rw [htext]
  exact (hobject.last (readsAs_property name)).behind readsAs_assign

section Slots

variable {globalObject : String} {globals : List TokenKind}
  (hglobal : ReadsAs globalObject globals "[") (name : String)

include hglobal

theorem readsAs_slot : ReadsAs (slot globalObject name) (globals ++ propertyKinds name) "" := by
  have hobject : ReadsAs globalObject globals (property name) := by
    rw [property, String.append_assoc]
    exact hglobal.before _
  rw [slot_eq]
  exact hobject.last (readsAs_property name)

/-- A slot behind a blank. -/
theorem readsAs_blank_slot :
    ReadsAs (" " ++ slot globalObject name) (globals ++ propertyKinds name) "" :=
  (readsAs_slot hglobal name).blank (List.append_ne_nil_of_right_ne_nil _ (List.cons_ne_nil _ _))

theorem readsAs_require :
    ReadsAs (" = " ++ slot globalObject name ++ ";") (requireKinds globals name) "" := by
  have hassign := (readsAs_assign.before _).last (readsAs_blank_slot hglobal name)
  have htext : " = " ++ slot globalObject name ++ ";" =
      " =" ++ (" " ++ slot globalObject name) ++ ";" := by
    show (" =" ++ " ") ++ slot globalObject name ++ ";" = _
    simp only [String.append_assoc]
  rw [htext]
  exact hassign.behind (readsAs_marks (by decide))

theorem readsAs_closingLine (present : List ModuleId) (id : ModuleId) :
    ReadsAs (closingLine ⟨globalObject, present⟩ id).text (closingKinds globals id.name) "" := by
  have hopening : ReadsAs "\x7d)(" (marks "\x7d)(") "" := readsAs_marks (by decide)
  have hor : ReadsAs " ||" [.punctuator "||"] (" " ++ "\x7b\x7d);") :=
    .token fun _ _ => .of_scan rfl rfl rfl
  have hend : ReadsAs (" " ++ "\x7b\x7d);") (marks "\x7b\x7d);") "" :=
    (readsAs_marks (by decide)).blank (by decide)
  -- From the left to the right, each text as it is read in front of the next one.
  have htarget := hopening.behind (readsAs_slot hglobal id.name)
  have hassign := htarget.behind (readsAs_assign.before (slot globalObject id.name))
  have hvalue := hassign.last (readsAs_blank_slot hglobal id.name)
  have hline := (hvalue.behind hor).last hend
  have htext : (closingLine ⟨globalObject, present⟩ id).text =
      "\x7d)(" ++ slot globalObject id.name ++ " =" ++ (" " ++ slot globalObject id.name) ++
        " ||" ++ (" " ++ "\x7b\x7d);") := by
    show "\x7d)(" ++ slot globalObject id.name ++ (" =" ++ " ") ++ slot globalObject id.name ++
      (" ||" ++ (" " ++ "\x7b\x7d);")) = _
    simp only [String.append_assoc]
  rw [htext]
  exact hline

theorem readsAs_main :
    ReadsAs (slot globalObject name ++ ".main();") (mainKinds globals name) "" :=
  (readsAs_slot hglobal name).behind readsAs_call

end Slots

/-- Where the global object is read as tokens of the kinds `globals`, the lines that name a module
are read as the same tokens for all names, but for the value of a string. -/
structure NamesRead (globalObject : String) (globals : List TokenKind) : Prop where
  slot : ∀ name, ReadsAs (slot globalObject name) (globals ++ propertyKinds name) ""
  require : ∀ name, ReadsAs (" = " ++ Emission.slot globalObject name ++ ";")
    (requireKinds globals name) ""
  closing : ∀ present id, ReadsAs (closingLine ⟨globalObject, present⟩ id).text
    (closingKinds globals id.name) ""
  main : ∀ name, ReadsAs (Emission.slot globalObject name ++ ".main();") (mainKinds globals name) ""

theorem namesRead {globalObject : String} {globals : List TokenKind}
    (hglobal : ReadsAs globalObject globals "[") : NamesRead globalObject globals where
  slot := readsAs_slot hglobal
  require := readsAs_require hglobal
  closing := readsAs_closingLine hglobal
  main := readsAs_main hglobal

end Emission

end ModuleLinker
