/-
# ModuleLinker.Proofs.LiteralPlaces -- the text under a literal

A spot on the way through a text stands at a place of it, and moves lead further on. What a reader
passes as a literal is therefore a piece of the text, and the piece ends with a quote: the one that
closes the string, or the one that closes the last stretch of the template. `exists_piece_of_read`
says so of the literals in the statements of a program, wherever they are in a statement.
-/

import ModuleLinker.Proofs.LiteralStatement
import ModuleLinker.Proofs.Places

namespace ModuleLinker.Script

open Reader Relation Text

/-! ## Places on the way -/

namespace Cursor

variable {c d : Cursor}

theorem Before.offset_le (h : c.Before d) : c.offset ≤ d.offset := by
  obtain ⟨n, rfl⟩ := h
  rw [offset_skip]
  exact Nat.le_add_right _ _

end Cursor

namespace Spot

/-- The spot stands at a place of the text behind another place. -/
def StandsIn (c : Cursor) (a : Spot) : Prop :=
  ∃ d lineStart, c.Before d ∧ a.token = Token.scan d lineStart ∧ a.lastStop = d.offset

variable {c : Cursor} {a b d : Spot}

/-- The place where the span of the next token starts. -/
theorem StandsIn.exists_opening (h : a.StandsIn c) :
    ∃ opening, c.Before opening ∧ opening.Before a.token.place ∧
      opening.offset = a.token.span.start ∧ a.lastStop ≤ opening.offset := by
  obtain ⟨d, lineStart, hd, htoken, hstop⟩ := h
  obtain ⟨⟨opening, hopening, hplace, hstart⟩, -, -⟩ := scan_places d lineStart
  rw [htoken, hstop]
  exact ⟨opening, hd.trans hopening, hplace, hstart, hopening.offset_le⟩

theorem StandsIn.lastStop_le (h : a.StandsIn c) : a.lastStop ≤ a.token.span.start := by
  obtain ⟨opening, -, -, hstart, hstop⟩ := h.exists_opening
  exact hstop.trans_eq hstart

theorem StandsIn.place_before (h : a.StandsIn c) : a.token.place.Before a.token.next := by
  obtain ⟨d, lineStart, -, htoken, -⟩ := h
  rw [htoken]
  exact (scan_places d lineStart).2.1

/-- A move leads to the scan of a place behind the token. -/
theorem StandsIn.exists_scan (h : a.StandsIn c) (hmove : a.Move b) :
    ∃ d, b = scan d ∧ a.token.place.Before d := by
  cases hmove with
  | token => exact ⟨_, rfl, h.place_before⟩
  | regex _ hregex => exact ⟨_, rfl, asRegex_before hregex⟩
  | stretch => exact ⟨_, rfl, h.place_before.trans (chunkFrom_movesOn true 0 _)⟩

theorem StandsIn.of_scan {d : Cursor} (h : c.Before d) : (scan d).StandsIn c :=
  ⟨d, false, h, rfl, rfl⟩

/-- Moves lead further on. -/
structure Ahead (c : Cursor) (a b : Spot) : Prop where
  stands : b.StandsIn c
  place : a.token.place.Before b.token.place
  start_le : a.token.span.start ≤ b.token.span.start
  stop_le : a.lastStop ≤ b.lastStop

theorem StandsIn.path (h : a.StandsIn c) (hpath : a.Path b) : Ahead c a b := by
  induction hpath with
  | refl => exact ⟨h, .refl _, Nat.le_refl _, Nat.le_refl _⟩
  | @tail b d _ hmove ih =>
      obtain ⟨e, rfl, he⟩ := ih.stands.exists_scan hmove
      obtain ⟨opening, hopening, hplace, hstart, hstop⟩ := ih.stands.exists_opening
      obtain ⟨opening', hopening', hplace', hstart', hstop'⟩ :=
        (StandsIn.of_scan (Cursor.Before.refl e)).exists_opening
      have hbetween := (hplace.trans he).offset_le
      refine ⟨.of_scan (hopening.trans (hplace.trans he)),
        ih.place.trans (he.trans (hopening'.trans hplace')), ?_, ?_⟩
      · have := ih.start_le
        have := hopening'.offset_le
        omega
      · have := ih.stop_le
        show a.lastStop ≤ e.offset
        omega

theorem StandsIn.of_run {α : Type} {f : Reader α} [hf : Moves f] {σ τ : Progress} {v : α}
    (hσ : σ.spot.StandsIn c) (h : f σ = .ok (v, τ)) : τ.spot.StandsIn c :=
  (hσ.path (hf.path h)).stands

theorem StandsIn.route (h : a.StandsIn c) (hroute : a.Route b) : Ahead c a b :=
  h.path (ReflTransGen.mono (fun _ _ hmove => hmove.1) _ _ hroute)

/-- A way without errors leads to a token without errors. -/
theorem Route.clean (hroute : a.Route b) (h : a.token.faults = []) : b.token.faults = [] := by
  rcases ReflTransGen.cases_tail hroute with rfl | ⟨_, _, hmove⟩
  · exact h
  · exact hmove.2

/-- Behind a move, the last token ends at a place behind the start of the first one. -/
theorem StandsIn.exists_piece (h : a.StandsIn c) (h' : ∃ b, a.Move b ∧ b.Path d) :
    ∃ opening close, c.Before opening ∧ opening.Before close ∧
      opening.offset = a.token.span.start ∧ close.offset = d.lastStop := by
  obtain ⟨b, hmove, hpath⟩ := h'
  obtain ⟨opening, hopening, hplace, hstart, -⟩ := h.exists_opening
  obtain ⟨e, rfl, he⟩ := h.exists_scan hmove
  obtain ⟨close, _, hclose, -, hstop⟩ :=
    ((StandsIn.of_scan (.refl e)).path hpath).stands
  exact ⟨opening, close, hopening, (hplace.trans he).trans hclose, hstart, hstop.symm⟩

end Spot

/-! ## Literals on the way -/

/-- The characters that close a literal. -/
def IsQuote (c : Char) : Prop := c = '"' ∨ c = '\'' ∨ c = '`'

theorem IsQuote.utf8Size_eq {c : Char} (h : IsQuote c) : c.utf8Size = 1 := by
  rcases h with rfl | rfl | rfl <;> rfl

/-- A piece of a text from an offset on, up to a quote in front of another offset. -/
def QuotedIn (c : Cursor) (span : Span) : Prop :=
  ∃ opening n quote, c.Before opening ∧ opening.offset = span.start ∧
    (opening.skip (n + 1)).offset = span.stop ∧ opening.rest[n]? = some quote ∧ IsQuote quote

/-- The quote may be found from a place further on. -/
theorem QuotedIn.of_place {c opening place : Cursor} {n : Nat} {quote : Char}
    (hopening : c.Before opening) (hplace : opening.Before place)
    (hquote : place.rest[n]? = some quote) (his : IsQuote quote) :
    QuotedIn c ⟨opening.offset, (place.skip (n + 1)).offset⟩ := by
  obtain ⟨k, rfl⟩ := hplace
  rw [Cursor.skip_rest, List.getElem?_drop] at hquote
  refine ⟨opening, k + n, quote, hopening, rfl, ?_, hquote, his⟩
  rw [Cursor.skip_skip]
  rfl

namespace Spot

variable {c : Cursor} {a b : Spot} {span : Span}

/-- What is passed as a literal lies between the token in front of which a way begins and the end of
the way, and ends with a quote. -/
theorem Passes.quotedIn (h : a.Passes b span) (ha : a.StandsIn c) (hfaults : a.token.faults = []) :
    a.token.span.start ≤ span.start ∧ span.stop ≤ b.lastStop ∧ QuotedIn c span := by
  cases h with
  | @string d value legacy hbefore hkind hnext hbehind =>
      have hd := ha.route hbefore
      obtain ⟨opening, hopening, hplace, hstart, -⟩ := hd.stands.exists_opening
      have hclean := Route.clean hbefore hfaults
      obtain ⟨place, lineStart, -, htoken, -⟩ := hd.stands
      have hstop : d.token.span.stop = d.token.next.offset := by
        rw [htoken]
        exact (scan_places place lineStart).2.2
      rw [htoken] at hkind hclean
      -- a string that is not closed has an error in its token
      obtain ⟨n, quote, hquote, hlast, hend⟩ := scan_string hkind hclean
      rw [← htoken] at hlast hend
      have hquoted := QuotedIn.of_place hopening hplace hlast (hquote.imp_right .inl)
      rw [hstart, ← hend, ← hstop] at hquoted
      have hstops := ((StandsIn.of_scan (Cursor.Before.refl d.token.next)).route hbehind).stop_le
      exact ⟨hd.start_le, hstop ▸ hstops, hquoted⟩
  | @template d _ hbefore hmark hcloses hbehind =>
      have hd := ha.route hbefore
      obtain ⟨opening, hopening, hplace, hstart, -⟩ := hd.stands.exists_opening
      cases hcloses with
      | @stretch e text valid close hroute hmark' hends hnext =>
          have he := hd.stands.route hroute
          -- the last stretch was not cut off, so it ends with a backtick of the text
          have hchunk := hends
          rw [chunkFrom, Prod.mk.injEq, Prod.mk.injEq, Prod.mk.injEq] at hchunk
          obtain ⟨⟨hlast, -, hcut⟩, hclose⟩ := hchunk
          obtain ⟨n, hquote, hend⟩ := read_ends hlast hcut
          rw [hclose] at hend
          have hinside := hplace.trans (he.place.trans he.stands.place_before)
          have hquoted := QuotedIn.of_place hopening hinside hquote (.inr (.inr rfl))
          have hstops := ((StandsIn.of_scan (Cursor.Before.refl close)).route hbehind).stop_le
          refine ⟨hd.start_le, hstops, ?_⟩
          rw [hstart] at hquoted
          rw [hend] at hstops ⊢
          exact hquoted

end Spot

/-! ## Literals in statements -/

/-- A statement stands in the text, and so do its literals, inside of it. -/
structure Stmt.StandsIn (c : Cursor) (stmt : Stmt) : Prop where
  piece : ∃ opening close, c.Before opening ∧ opening.Before close ∧
    opening.offset = stmt.span.start ∧ close.offset = stmt.span.stop
  quoted : ∀ span ∈ literals stmt, stmt.span.start ≤ span.start ∧ span.stop ≤ stmt.span.stop ∧
    QuotedIn c span

variable {c : Cursor} {depth : Nat} {ctx : Context} {σ τ : Progress}

theorem standsIn_of_statement {stmt : Stmt}
    (h : (Grammar.ofDepth depth).statement ctx false σ = .ok (stmt, τ)) (hτ : τ.faults = [])
    (hσ : σ.spot.StandsIn c) (hclean : σ.token.faults = []) :
    stmt.StandsIn c ∧ σ.lastStop ≤ stmt.span.start ∧ stmt.span.stop = τ.lastStop ∧
      τ.spot.StandsIn c ∧ τ.token.faults = [] := by
  have hfinds : FindsAt ∅ σ stmt τ := Finds.run h hτ
  have hstart := start_of_statement ctx false h
  have hstop := ((Flush.statement ctx false depth).readUpTo h).stop_eq
  refine ⟨⟨?_, fun span hspan => ?_⟩, hσ.lastStop_le.trans_eq hstart.symm, hstop,
    (hσ.route hfinds.route).stands, hfinds.route.clean hclean⟩
  · rw [hstart, hstop]
    exact hσ.exists_piece (Takes.move h)
  · rcases hfinds.found span hspan with hnone | hpasses
    · cases hnone
    · obtain ⟨hbegins, hends, hquoted⟩ := hpasses.quotedIn hσ hclean
      exact ⟨hstart.trans_le hbegins, hends.trans_eq hstop.symm, hquoted⟩

/-- The statements of a list that is read without errors stand in the text, one behind the
other. -/
theorem standsIn_of_statements {opening strict : Bool} {steps : Nat} {stmts : List Stmt}
    (h : (Grammar.ofDepth depth).statements ctx opening steps σ = .ok ((strict, stmts), τ))
    (hτ : τ.faults = []) (hσ : σ.spot.StandsIn c) (hclean : σ.token.faults = []) :
    (∀ stmt ∈ stmts, stmt.StandsIn c ∧ σ.lastStop ≤ stmt.span.start) ∧
      stmts.Pairwise fun stmt later => stmt.span.stop ≤ later.span.start := by
  induction steps generalizing ctx opening σ strict stmts with
  | zero => cases h
  | succ steps ih =>
      rcases statements_succ_eq_ok h with rfl | ⟨stmt, rest, ρ', _, _, _, rfl, hstmt, hrest⟩
      · exact ⟨fun _ hmem => absurd hmem List.not_mem_nil, .nil⟩
      · obtain ⟨ρ, hrun, rfl⟩ := apart_eq_ok hstmt
        -- no error is noted behind the statement, so none was noted in it
        have hfinds : FindsAt ∅ (σ.behind ρ) (_, rest) τ := Finds.run hrest hτ
        have hρ : ρ.faults = [] := (List.append_eq_nil_iff.1 hfinds.faults).1
        obtain ⟨hfirst, hstart, hstop, hstands, htoken⟩ :=
          standsIn_of_statement hrun hρ hσ hclean
        have hpath := Moves.path hrun
        have hlast : σ.lastStop ≤ ρ.lastStop := (hσ.path hpath).stop_le
        obtain ⟨hothers, hpairs⟩ := ih hrest hstands htoken
        refine ⟨List.forall_mem_cons.2 ⟨⟨hfirst, hstart⟩, fun later hlater => ?_⟩,
          List.pairwise_cons.2 ⟨fun later hlater => ?_, hpairs⟩⟩
        · exact ⟨(hothers later hlater).1, hlast.trans (hothers later hlater).2⟩
        · exact hstop.trans_le (hothers later hlater).2

/-- What holds of every statement that is read at a place of the text holds of all the statements
of a list. -/
theorem forall_mem_of_statements {P : Stmt → Prop}
    (hstatement : ∀ {ctx : Context} {σ τ : Progress} {stmt : Stmt}, σ.spot.StandsIn c →
      (Grammar.ofDepth depth).statement ctx false σ = .ok (stmt, τ) → P stmt)
    {opening strict : Bool} {steps : Nat} {stmts : List Stmt} (hσ : σ.spot.StandsIn c)
    (h : (Grammar.ofDepth depth).statements ctx opening steps σ = .ok ((strict, stmts), τ)) :
    ∀ stmt ∈ stmts, P stmt := by
  induction steps generalizing ctx opening σ strict stmts with
  | zero => cases h
  | succ steps ih =>
      rcases statements_succ_eq_ok h with rfl | ⟨stmt, rest, _, _, _, _, rfl, hstmt, hrest⟩
      · exact fun stmt hstmt => absurd hstmt List.not_mem_nil
      · obtain ⟨ρ, hrun, rfl⟩ := apart_eq_ok hstmt
        have hfresh : σ.fresh.spot.StandsIn c := hσ
        have hρ : ρ.spot.StandsIn c := hfresh.of_run hrun
        have hbehind : (σ.behind ρ).spot.StandsIn c := hρ
        exact List.forall_mem_cons.2 ⟨hstatement hfresh hrun, ih hbehind hrest⟩

/-! ## Cuts -/

/-- Of two beginnings of a text, the longer one goes on behind the shorter one. -/
theorem exists_append_of_byteSize_le {a b c d : List Char} (h : a ++ b = c ++ d)
    (hle : byteSize a ≤ byteSize c) : ∃ e, c = a ++ e ∧ b = e ++ d := by
  rcases List.append_eq_append_iff.1 h with hlonger | ⟨e, rfl, hrest⟩
  · exact hlonger
  · rw [byteSize_append] at hle
    have hnone : e = [] := byteSize_eq_zero (by omega)
    subst hnone
    exact ⟨[], by simp, by simpa using hrest.symm⟩

/-- The parts of a piece of text that begins at an offset: what stands in front of a span, under it,
and behind it. -/
structure Cuts (start : Nat) (piece : List Char) (span : Span)
    (before under behind : List Char) : Prop where
  eq : piece = before ++ (under ++ behind)
  start_eq : start + byteSize before = span.start
  stop_eq : span.start + byteSize under = span.stop

namespace Cuts

variable {text piece under above below above' below' : List Char} {span inner : Span} {start : Nat}

/-- A span inside of another one cuts the piece that the other one cuts out. -/
theorem narrow (h : Cuts start text span above piece below)
    (h' : Cuts start text inner above' under below') (hstart : span.start ≤ inner.start)
    (hstop : inner.stop ≤ span.stop) :
    ∃ before behind, Cuts span.start piece inner before under behind := by
  have hfront : byteSize above ≤ byteSize above' := by
    rw [← h.start_eq, ← h'.start_eq] at hstart
    exact Nat.le_of_add_le_add_left hstart
  obtain ⟨before, rfl, hrest⟩ := exists_append_of_byteSize_le (h.eq.symm.trans h'.eq) hfront
  have hbefore : span.start + byteSize before = inner.start := by
    rw [← h'.start_eq, byteSize_append, ← Nat.add_assoc, h.start_eq]
  have hinner : byteSize (before ++ under) ≤ byteSize piece := by
    rw [← h.stop_eq, ← h'.stop_eq, ← hbefore, Nat.add_assoc, ← byteSize_append] at hstop
    exact Nat.le_of_add_le_add_left hstop
  rw [← List.append_assoc] at hrest
  obtain ⟨behind, rfl, -⟩ := exists_append_of_byteSize_le hrest.symm hinner
  exact ⟨before, behind, List.append_assoc _ _ _, hbefore, h'.stop_eq⟩

end Cuts

theorem Cursor.Before.exists_append {c d : Cursor} (h : c.Before d) :
    ∃ above, c.rest = above ++ d.rest ∧ d.offset = c.offset + byteSize above := by
  obtain ⟨n, rfl⟩ := h
  exact ⟨c.rest.take n, by rw [Cursor.skip_rest, List.take_append_drop], Cursor.offset_skip n c⟩

theorem QuotedIn.exists_cuts {script : List Char} {span : Span} (h : QuotedIn ⟨script, 0⟩ span) :
    ∃ above body quote below, IsQuote quote ∧
      Cuts 0 script span above (body ++ [quote]) below := by
  obtain ⟨opening, n, quote, hopening, hstart, hstop, hquote, his⟩ := h
  obtain ⟨above, hrest, hoffset⟩ := hopening.exists_append
  have hbody : opening.rest.take n ++ [quote] = opening.rest.take (n + 1) := by
    rw [List.take_add_one, hquote, Option.toList_some]
  refine ⟨above, opening.rest.take n, quote, opening.rest.drop (n + 1), his, ?_, ?_, ?_⟩
  · rw [hbody, List.take_append_drop]
    exact hrest
  · exact hoffset.symm.trans hstart
  · rw [hbody, ← hstart, ← hstop, Cursor.offset_skip]

theorem Stmt.StandsIn.exists_cuts {script : List Char} {stmt : Stmt}
    (h : stmt.StandsIn ⟨script, 0⟩) :
    ∃ above piece below, Cuts 0 script stmt.span above piece below ∧
      ∀ span ∈ literals stmt, ∃ before body quote behind, IsQuote quote ∧
        Cuts stmt.span.start piece span before (body ++ [quote]) behind := by
  obtain ⟨opening, close, hopening, hclose, hstart, hstop⟩ := h.piece
  obtain ⟨above, habove, hoffset⟩ := hopening.exists_append
  obtain ⟨piece, hpiece, hend⟩ := hclose.exists_append
  have hcuts : Cuts 0 script stmt.span above piece close.rest :=
    ⟨habove.trans (congrArg (above ++ ·) hpiece), hoffset.symm.trans hstart,
      (congrArg (· + byteSize piece) hstart.symm).trans (hend.symm.trans hstop)⟩
  refine ⟨above, piece, close.rest, hcuts, fun span hspan => ?_⟩
  obtain ⟨hbegins, hends, hquoted⟩ := h.quoted span hspan
  obtain ⟨_, body, quote, _, hquote, hliteral⟩ := hquoted.exists_cuts
  obtain ⟨before, behind, hinner⟩ := hcuts.narrow hliteral hbegins hends
  exact ⟨before, body, quote, behind, hquote, hinner⟩

/-! ## Scripts -/

namespace Program

variable {text script : List Char} {stmts : List Stmt}

theorem lineEnd_before (offset : Nat) (cs : List Char) :
    Cursor.Before ⟨cs, offset⟩ (lineEnd offset cs) := by
  fun_induction lineEnd offset cs with
  | case1 | case2 => exact .refl _
  | case3 _ _ _ _ ih => exact ih.cons rfl

theorem afterInterpreter_before (script : List Char) :
    Cursor.Before ⟨script, 0⟩ (afterInterpreter script) := by
  unfold afterInterpreter
  split
  · next rest => exact (Cursor.before_skip 2 ⟨'#' :: '!' :: rest, 0⟩).trans (lineEnd_before 2 rest)
  · exact .refl _

theorem begin_standsIn (script : List Char) : (begin script).spot.StandsIn ⟨script, 0⟩ :=
  ⟨afterInterpreter script, true, afterInterpreter_before script, rfl, rfl⟩

/-- The statements of a script stand in it, one behind the other. -/
theorem standsIn_of_readScript (h : readScript script = .ok stmts) :
    (∀ stmt ∈ stmts, stmt.StandsIn ⟨script, 0⟩) ∧
      stmts.Pairwise fun stmt later => stmt.span.stop ≤ later.span.start := by
  obtain ⟨strict, state, hrun, -, herrors, -⟩ := readScript_eq_ok_iff.1 h
  rw [grammarOf] at hrun
  -- a script that is strict as a whole also has the errors that count in strict scripts only
  have hstate : state.faults = [] := by
    simp only [errors, List.append_eq_nil_iff, List.reverse_eq_nil_iff] at herrors
    obtain ⟨⟨⟨hfaults, -⟩, -⟩, -⟩ := herrors
    cases strict with
    | false => exact hfaults
    | true => exact (List.append_eq_nil_iff.1 hfaults).2
  have hfinds : FindsAt ∅ (begin script) (strict, stmts) state := Finds.run hrun hstate
  obtain ⟨hstands, hpairs⟩ :=
    standsIn_of_statements hrun hstate (begin_standsIn script) hfinds.faults
  exact ⟨fun stmt hstmt => (hstands stmt hstmt).1, hpairs⟩

/-- A program is read from a script behind a text as long as the program's origin. -/
theorem exists_script_of_read {program : Program} (h : read text = .ok program) :
    ∃ front script, text = front ++ script ∧ byteSize front = program.origin ∧
      readScript script = .ok program.statements := by
  have hsplit : ∃ front, text = front ++ (scriptOf text).2 ∧
      byteSize front = (scriptOf text).1 := by
    unfold scriptOf
    split
    · exact ⟨[], rfl, rfl⟩
    · next c rest =>
      split
      · exact ⟨[c], rfl, rfl⟩
      · exact ⟨[], rfl, rfl⟩
  obtain ⟨front, htext, hfront⟩ := hsplit
  unfold read at h
  split at h
  next origin script hscript =>
  rw [hscript] at htext hfront
  split at h
  · next statements hread =>
    cases h
    exact ⟨front, script, htext, hfront, hread⟩
  · cases h
  · cases h

/-- A statement of a program is a piece of the text, and so is each of its literals, inside of the
piece; it ends with a quote. -/
theorem exists_piece_of_read {program : Program} (h : read text = .ok program) {stmt : Stmt}
    (hstmt : stmt ∈ program.statements) :
    ∃ piece, slice? text (stmt.span.shift program.origin) = some piece ∧
      ∀ span ∈ literals stmt, ∃ before body quote behind, IsQuote quote ∧
        Cuts stmt.span.start piece span before (body ++ [quote]) behind := by
  obtain ⟨front, script, rfl, hfront, hread⟩ := exists_script_of_read h
  obtain ⟨above, piece, below, hcuts, hliterals⟩ :=
    ((standsIn_of_readScript hread).1 stmt hstmt).exists_cuts
  refine ⟨piece, slice?_eq_some_iff.2 ⟨front ++ above, below, ?_, ?_, ?_⟩, hliterals⟩
  · rw [hcuts.eq]
    simp only [List.append_assoc]
  all_goals
    have hstart := hcuts.start_eq
    have hstop := hcuts.stop_eq
    rw [byteSize_append]
    dsimp only [Span.shift]
    omega

end Program

end ModuleLinker.Script
