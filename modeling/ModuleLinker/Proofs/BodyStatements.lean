/-
# ModuleLinker.Proofs.BodyStatements -- how the body of a module is read back

The lines between the first and the last line of a module are meant to be a script with one
statement for each statement that was written. Elimination brings statements side by side that were
apart in the source, and nothing is put between them, so that a statement without a semicolon may go
on in the next one. How far a statement goes is a matter of its direct neighbour only:
`body_statements_iff` says that the body is read as it was written if and only if every statement
is, where just the next one is to see behind it.
-/

import ModuleLinker.Proofs.Layout
import ModuleLinker.Proofs.Passages
import ModuleLinker.Proofs.Stages

namespace ModuleLinker

open Script Text

/-! ## The beginning of a script -/

namespace Script.Program

/-- A text that begins with neither a byte order mark nor a hash is read from its beginning. -/
theorem read_eq_ok_iff {text : List Char} {stmts : List Stmt}
    (hmark : text.head? ≠ some byteOrderMark) :
    read text = .ok ⟨stmts, 0⟩ ↔ readScript text = .ok stmts := by
  have horigin : scriptOf text = (0, text) := by
    cases text with
    | nil => rfl
    | cons c rest => exact if_neg fun h => hmark (congrArg some h)
  unfold read
  rw [horigin]
  dsimp only
  cases readScript text with
  | ok all =>
      constructor
      · intro h
        cases h
        rfl
      · intro h
        cases h
        rfl
  | error failure =>
      cases failure <;> exact iff_of_false (fun h => nomatch h) fun h => nomatch h

end Script.Program

namespace Emission

/-! ## The passages of a body -/

/-- The text of lines begins with a blank or a newline. -/
theorem head?_textOf {lines : List Line} (h : ∀ line ∈ lines.head?, Line.Opens line) :
    ∀ c ∈ (textOf lines).head?, c = ' ' ∨ c = '\n' := by
  intro c hc
  cases lines with
  | nil => cases hc
  | cons line lines =>
      rw [textOf_cons] at hc
      cases htext : line.text.toList with
      | nil =>
          rw [htext] at hc
          exact .inr (Option.some.inj hc).symm
      | cons d cs =>
          rw [htext] at hc
          exact .inl (h line rfl c (htext ▸ hc))

theorem textOf_flatMap (ps : List Passage) :
    textOf (ps.flatMap Passage.lines) = (ps.map Passage.text).flatten := by
  induction ps with
  | nil => rfl
  | cons p ps ih => rw [List.flatMap_cons, textOf_append, ih, List.map_cons, List.flatten_cons]; rfl

theorem map_stop_places (start : Nat) (ps : List Passage) :
    (places start ps).map (·.stop) = Grammar.passageStops start (ps.map Passage.text) := by
  induction ps generalizing start with
  | nil => rfl
  | cons p ps ih => exact congrArg (_ :: ·) (ih _)

theorem complete_text (p : Passage) : Complete p.text ∧ p.text ≠ [] := by
  refine ⟨complete_textOf _, fun h => ?_⟩
  have hlength := congrArg List.length h
  rw [Passage.text, Passage.lines, textOf_append, textOf_cons] at hlength
  simp at hlength

namespace Wrapper

variable {setting : Setting} {outputFile : Option String} (w : Wrapper setting outputFile)

/-- The statements of the body, and the comments. -/
def blocks : List Block :=
  (bodyBlocks setting w.content (sourceFile outputFile w.content) 0 w.content.elements).toOption.getD []

/-- The statements of the body with the comments in front of them. -/
def statements : List Passage := (passages [] w.blocks).1

/-- The comments behind the last statement. -/
def endComments : List Line := (passages [] w.blocks).2

theorem blocks_lines : w.blocks.flatMap Block.lines = w.body := by
  obtain ⟨blocks, hblocks, hlines⟩ := exists_bodyBlocks w.isBody
  rw [Wrapper.blocks, hblocks]
  exact hlines

theorem body_eq : w.body = w.statements.flatMap Passage.lines ++ w.endComments := by
  rw [statements, endComments, passages_lines, blocks_lines, List.nil_append]

theorem textOf_body :
    textOf w.body = (w.statements.map Passage.text).flatten ++ textOf w.endComments := by
  rw [w.body_eq, textOf_append, textOf_flatMap]

theorem opens_textOf_body : ∀ c ∈ (textOf w.body).head?, c = ' ' ∨ c = '\n' :=
  head?_textOf (head?_bodyLines w.isBody)

theorem head?_textOf_body {c : Char} (hblank : c ≠ ' ') (hnewline : c ≠ '\n') :
    (textOf w.body).head? ≠ some c := fun h =>
  (w.opens_textOf_body c h).elim hblank hnewline

/-! ## Reading the body back -/

/-- The body is a script with one statement for each one that was written, where it was written. -/
def ReadsBack : Prop :=
  ∃ stmts, Program.read (textOf w.body) = .ok ⟨stmts, 0⟩ ∧
    stmts.map Stmt.span = places 0 w.statements

/-- So it is where every statement has only the next one to see behind it, and the last one the
comments at the end. -/
def ReadsBackInPairs : Prop :=
  ∃ stmts, Program.ReadsPassages (textOf w.endComments) (w.statements.map Passage.text) stmts ∧
    stmts.map Stmt.span = places 0 w.statements

theorem readsBack_iff : w.ReadsBack ↔ w.ReadsBackInPairs := by
  refine exists_congr fun stmts => and_congr_left fun hspans => ?_
  have hstops : stmts.map (·.span.stop) =
      Grammar.passageStops 0 (w.statements.map Passage.text) := by
    rw [← map_stop_places, ← hspans, List.map_map]
    rfl
  have hhash : (textOf w.body).head? ≠ some '#' := w.head?_textOf_body (by decide) (by decide)
  have htexts : ∀ text ∈ w.statements.map Passage.text, Complete text ∧ text ≠ [] :=
    List.forall_mem_map.2 fun p _ => complete_text p
  rw [Program.read_eq_ok_iff (w.head?_textOf_body (by decide) (by decide))]
  rw [textOf_body] at hhash ⊢
  exact Program.readScript_iff_readsPassages (complete_textOf _) htexts hhash hstops

end Wrapper

/-! ## Programs -/

/-- Whatever is linked, the body of a module that is left is a script with one statement for each
one that was written, where it was written, if and only if every statement is read so in front of
the next one. -/
theorem body_statements_iff [ParserWording] {inputs : List ModuleInput} {options : Options}
    {bundle : Bundle} (hlink : link inputs options = .ok bundle) :
    ∃ (modules : List Module)
      (wrappers : List (Wrapper (settingOf (loadOrder modules) options) options.outputFile)),
      survivors inputs options = .ok modules ∧ wrappers.map (·.content) = loadOrder modules ∧
      bundle.code = joined (assembled options wrappers) ∧
      ∀ w ∈ wrappers, w.ReadsBack ↔ w.ReadsBackInPairs := by
  obtain ⟨modules, hmodules, hemit⟩ := link_eq_ok_iff.1 hlink
  obtain ⟨wrappers, hcontents, hcode, -⟩ := emit_eq_ok_iff.1 hemit
  exact ⟨modules, wrappers, hmodules, hcontents, hcode, fun w _ => w.readsBack_iff⟩

/-- An export without a semicolon, a dead variable, and a statement in parentheses. -/
def joinInput : ModuleInput := ⟨.regular "A", none, "exports.a = f\nvar dead = 1;\n(g)()\n"⟩

def joinOptions : Options := { entryPoints := [.regular "A"] }

/-- What is left of the module, as a program. -/
def joinBundle : Bundle where
  code := "var PS = \x7b\x7d;\n(function(exports) \x7b\n  exports.a = f\n  (g)()\n" ++
    "\x7d)(PS[\"A\"] = PS[\"A\"] || \x7b\x7d);\n"
  sourceMap := none

/-- Once the dead variable is gone, the export goes on in the statement behind it. -/
theorem dropped_variable_joins :
    link [joinInput] joinOptions = .ok joinBundle ∧
      ∃ (modules : List Module)
        (wrappers : List (Wrapper (settingOf (loadOrder modules) joinOptions) none)),
        survivors [joinInput] joinOptions = .ok modules ∧
        wrappers.map (·.content) = loadOrder modules ∧
        joinBundle.code = joined (assembled joinOptions wrappers) ∧
        ∃ w ∈ wrappers, places 0 w.statements = [⟨2, 15⟩, ⟨18, 23⟩] ∧
          ¬ w.ReadsBack ∧ ¬ w.ReadsBackInPairs := by
  have hrun : ((link [joinInput] joinOptions).toOption,
      (survivors [joinInput] joinOptions).toOption.map fun modules =>
        (loadOrder modules).map fun m =>
          (bodyBlocks (settingOf (loadOrder modules) joinOptions) m (sourceFile none m) 0
            m.elements).toOption.map fun blocks =>
              (textOf (blocks.flatMap Block.lines), places 0 (passages [] blocks).1)) =
      (some joinBundle,
        some [some ("  exports.a = f\n  (g)()\n".toList, [⟨2, 15⟩, ⟨18, 23⟩])]) := by
    decide +kernel
  have hread : ((Program.read "  exports.a = f\n  (g)()\n".toList).toOption.map fun program =>
      program.statements.map Stmt.span) = some [⟨2, 23⟩] := by
    decide +kernel
  obtain ⟨hlink, hbody⟩ := Prod.mk.inj hrun
  have hlink : link [joinInput] joinOptions = .ok joinBundle := eq_ok_of_toOption hlink
  obtain ⟨modules, wrappers, hmodules, hcontents, hcode, hiff⟩ := body_statements_iff hlink
  refine ⟨hlink, modules, wrappers, hmodules, hcontents, hcode, ?_⟩
  rw [hmodules] at hbody
  obtain ⟨m, rest, hload, hm, -⟩ := List.map_eq_cons_iff.1 (Option.some.inj hbody)
  obtain ⟨w, others, rfl, rfl, -⟩ := List.map_eq_cons_iff.1 (hcontents.trans hload)
  obtain ⟨blocks, hblocks, hlayout⟩ := Option.map_eq_some_iff.1 hm
  obtain ⟨htext, hplaces⟩ := Prod.mk.inj hlayout
  have hblocks : w.blocks = blocks := congrArg (·.getD []) hblocks
  rw [← hblocks] at htext hplaces
  rw [w.blocks_lines] at htext
  -- The two lines are read as one statement, a call, whose span is that of both.
  have hnot : ¬ w.ReadsBack := by
    rintro ⟨stmts, hstmts, hspans⟩
    rw [htext] at hstmts
    rw [hstmts] at hread
    have hone : stmts.map Stmt.span = [⟨2, 23⟩] := Option.some.inj hread
    have htwo : stmts.map Stmt.span = [⟨2, 15⟩, ⟨18, 23⟩] := hspans.trans hplaces
    exact absurd (hone.symm.trans htwo) (by decide)
  exact ⟨w, .head _, hplaces, hnot, fun h => hnot ((hiff w (.head _)).2 h)⟩

end Emission

end ModuleLinker
