/-
# ModuleLinker.Proofs.Passages -- a text that is read passage by passage

`Grammar.passages` reads a text of passages one by one: it moves to the line where a passage begins,
sees that passage and the one behind it, and takes one statement. A reader of the whole text sees
everything that is still to come. Both come to the same statements wherever these are the ones that
stand in the passages, because a statement is read locally and ends in front of the first token of
the next one. So what is right in front of its neighbour is right in the whole text.
-/

import ModuleLinker.Proofs.ReadStatement

namespace ModuleLinker.Script

open Reader Text

set_option synthInstance.maxSize 4000
set_option synthInstance.maxHeartbeats 100000

/-! ## The end of a line -/

/-- A token behind the end of a line is the first one of the next line. -/
theorem scan_newline (rest : List Char) (offset : Nat) (lineStart : Bool) :
    Token.scan ⟨'\n' :: rest, offset⟩ lineStart = Token.scan ⟨rest, offset + 1⟩ true := by
  have htrivia : Trivia.atCursor ⟨'\n' :: rest, offset⟩ lineStart =
      Trivia.atCursor ⟨rest, offset + 1⟩ true := by
    simp only [Trivia.atCursor]
    rfl
  unfold Token.scan
  rw [htrivia]

/-- The state at a line that begins at an offset, with nothing but `text` to see from there on. The
token before it ends in front of the newline. -/
def Progress.atLine (start : Nat) (text : List Char) (σ : Progress) : Progress :=
  { σ with token := Token.scan ⟨text, start⟩ true, lastStop := start - 1 }

namespace Fork

variable {F : Fork} {line below : List Char}

/-- A first line and what is below it in the common beginning. -/
theorem here_newline (hshared : F.shared = line ++ '\n' :: below) :
    F.here line.length = ⟨'\n' :: (below ++ F.left), F.offset + byteSize line⟩ := by
  rw [here_eq (by rw [hshared]; simp), hshared, List.drop_left, List.take_left, List.cons_append]

theorem here_below (hshared : F.shared = line ++ '\n' :: below) :
    F.here (line.length + 1) = ⟨below ++ F.left, F.offset + byteSize line + 1⟩ := by
  rw [← here_skip, here_newline hshared]
  rfl

theorem stop_eq (hshared : F.shared = line ++ '\n' :: below) :
    F.stop = F.offset + byteSize line + 1 + byteSize below := by
  have hnewline : byteSize ('\n' :: below) = 1 + byteSize below := rfl
  rw [stop, hshared, byteSize_append, hnewline]
  omega

end Fork

/-! ## Statements at a fork -/

section Junction

variable {f : Reader Stmt} [Takes f] [Flush f] {F : Fork} {line below : List Char}
  {σ τ : Progress} {stmt : Stmt}

/-- A statement that ends with the first line leaves the reader at the line below. It began with a
token that is the same at both sides. -/
theorem at_line_below (hshared : F.shared = line ++ '\n' :: below)
    (hσ : σ.token = Token.scan (F.here 0) true) (h : f σ = .ok (stmt, τ))
    (hstop : stmt.span.stop = F.offset + byteSize line) :
    F.Twins σ.token (Token.scan (F.there 0) true) ∧
      τ.token = Token.scan (F.here (line.length + 1)) true ∧
      τ.lastStop = F.offset + byteSize line := by
  have hlast : τ.lastStop = F.offset + byteSize line := by
    rw [← hstop, (Flush.readUpTo h).stop_eq]
  obtain ⟨b, hmove, hpath⟩ := Takes.move h
  have htwins : F.Twins σ.token (Token.scan (F.there 0) true) := by
    rw [hσ]
    -- A statement that ends at the line cannot have begun past the shared text.
    refine (Fork.scan_twins_or_past 0 true).resolve_right fun hpast => ?_
    rw [← hσ] at hpast
    have hle : F.stop ≤ τ.lastStop := Fork.Past.le_lastStop (a := σ.spot) hpast hmove hpath
    rw [Fork.stop_eq hshared] at hle
    omega
  obtain ⟨n, hn⟩ := Fork.exists_scan (a := σ.spot) (.inl ⟨_, htwins⟩) hmove hpath
  have hplace : F.here n = F.here line.length := by
    refine Cursor.eq_of_offset_eq ?_
    have hoffset : (F.here n).offset = τ.lastStop := (congrArg Spot.lastStop hn).symm
    show (F.here n).offset = (F.here line.length).offset
    rw [hoffset, hlast, Fork.here_newline hshared]
  refine ⟨htwins, ?_, hlast⟩
  have htoken : τ.token = Token.scan (F.here n) false := congrArg Spot.token hn
  rw [htoken, hplace, Fork.here_newline hshared, scan_newline, Fork.here_below hshared]

/-- Where the token behind the statement stands in the common beginning as well, the statement is
read at both sides, and the reader ends at the line below at both. -/
theorem read_at_other_side [Local f] (hshared : F.shared = line ++ '\n' :: below)
    (hσ : σ.token = Token.scan (F.here 0) true) (h : f σ = .ok (stmt, τ))
    (hstop : stmt.span.stop = F.offset + byteSize line)
    (hnext : ¬ F.Past (Token.scan (F.here (line.length + 1)) true)) :
    ∃ τ', f { σ with token := Token.scan (F.there 0) true } = .ok (stmt, τ') ∧
      τ'.token = Token.scan (F.there (line.length + 1)) true ∧
      τ' = { τ with token := τ'.token } := by
  obtain ⟨htwins, htoken, -⟩ := at_line_below hshared hσ h hstop
  have hbeside : F.Beside σ { σ with token := Token.scan (F.there 0) true } := ⟨htwins, rfl⟩
  obtain ⟨τ', h', hτ⟩ := Local.step hbeside h (by rwa [htoken])
  obtain ⟨-, htoken', -⟩ := at_line_below (F := F.swap) hshared rfl h' hstop
  exact ⟨τ', h', htoken', hτ.eq⟩

/-- If a statement is read in a text before another, its first token ends in the text whatever
follows. -/
theorem first_token_inside {text other more : List Char} {offset : Nat} (htext : Complete text)
    (hnonempty : text ≠ []) (hother : Complete other) (hmore : Complete more)
    (hσ : σ.token = Token.scan ⟨text ++ other, offset⟩ true) (h : f σ = .ok (stmt, τ))
    (hstop : stmt.span.stop < offset + byteSize text) :
    (Token.scan ⟨text ++ more, offset⟩ true).next.offset < offset + byteSize text := by
  let F : Fork := ⟨text, offset, other, more, htext, hnonempty, hother, hmore⟩
  obtain ⟨b, hmove, hpath⟩ := Takes.move h
  have htwins : F.Twins σ.token (Token.scan (F.there 0) true) := by
    rw [hσ]
    refine (Fork.scan_twins_or_past (F := F) 0 true).resolve_right fun hpast => ?_
    have hpast : F.Past σ.token := hσ ▸ hpast
    have hle : F.stop ≤ τ.lastStop := Fork.Past.le_lastStop (a := σ.spot) hpast hmove hpath
    have hlast := (Flush.readUpTo h).stop_eq
    have hend : F.stop = offset + byteSize text := rfl
    omega
  obtain ⟨token, m, n, -, hn, -, hthere⟩ := htwins
  have hnext : (Token.scan ⟨text ++ more, offset⟩ true).next = F.there n :=
    congrArg Scanned.next hthere
  rw [hnext, Fork.offset_there (Nat.le_of_lt hn)]
  exact Fork.offset_here_lt_stop hn

/-- A statement that ends with its text leaves the reader at the next text. It is read the same
whatever stands behind that, provided that the next token ends in the next text. -/
theorem read_in_front_of [Local f] {text next left right : List Char} {start : Nat}
    (htext : Complete text) (hnonempty : text ≠ []) (hnextComplete : Complete next)
    (hleft : Complete left) (hright : Complete right)
    (h : f (σ.atLine start (text ++ (next ++ left))) = .ok (stmt, τ))
    (hstop : stmt.span.stop = start + byteSize text - 1) :
    τ = τ.atLine (start + byteSize text) (next ++ left) ∧
      (Token.scan ⟨text ++ (next ++ right), start⟩ true).toToken =
        (Token.scan ⟨text ++ (next ++ left), start⟩ true).toToken ∧
      (left = right ∨ (Token.scan ⟨next ++ left, start + byteSize text⟩ true).next.offset <
          start + byteSize text + byteSize next →
        f (σ.atLine start (text ++ (next ++ right))) =
          .ok (stmt, τ.atLine (start + byteSize text) (next ++ right))) := by
  obtain ⟨line, rfl⟩ := List.getLast?_eq_some_iff.1 (htext.resolve_left hnonempty)
  -- Two texts that share the passage and the next one, and part behind it.
  let F : Fork :=
    { shared := (line ++ ['\n']) ++ next, offset := start, left, right
      shared_complete := htext.append hnextComplete
      shared_ne_nil := by simp
      left_complete := hleft
      right_complete := hright }
  have hshared : F.shared = line ++ '\n' :: next := by simp [F]
  have hsize : start + byteSize (line ++ ['\n']) = start + byteSize line + 1 := by
    rw [byteSize_append]
    rfl
  have hhere : F.here 0 = ⟨(line ++ ['\n']) ++ (next ++ left), start⟩ := by
    rw [← List.append_assoc]
    rfl
  have hthere : F.there 0 = ⟨(line ++ ['\n']) ++ (next ++ right), start⟩ := by
    rw [← List.append_assoc]
    rfl
  have hbelow : F.here (line.length + 1) = ⟨next ++ left, start + byteSize line + 1⟩ :=
    Fork.here_below hshared
  have hbelow' : F.there (line.length + 1) = ⟨next ++ right, start + byteSize line + 1⟩ :=
    Fork.here_below (F := F.swap) hshared
  rw [hsize, Nat.add_sub_cancel] at hstop
  rw [hsize]
  have hfirst : (σ.atLine start ((line ++ ['\n']) ++ (next ++ left))).token =
      Token.scan (F.here 0) true := by
    rw [hhere]
    rfl
  obtain ⟨htwins, htoken, hlast⟩ := at_line_below hshared hfirst h hstop
  rw [hthere] at htwins
  rw [hbelow] at htoken
  have hat : τ = τ.atLine (start + byteSize line + 1) (next ++ left) := by
    rw [Progress.atLine, ← htoken, Nat.add_sub_cancel]
    exact hlast ▸ rfl
  refine ⟨hat, htwins.toToken_eq, ?_⟩
  rintro (rfl | hnext)
  · rw [← hat]
    exact h
  · -- The first token of the next passage ends inside it: the statement saw no more than is shared.
    have hpast : ¬ F.Past (Token.scan (F.here (line.length + 1)) true) := by
      intro hpast
      have hle := hpast.stop_le
      rw [hbelow, Fork.stop_eq hshared] at hle
      exact Nat.not_le_of_lt hnext hle
    obtain ⟨τ', h', htoken', hτ⟩ := read_at_other_side hshared hfirst h hstop hpast
    have hat' : τ' = τ.atLine (start + byteSize line + 1) (next ++ right) := by
      rw [hτ, htoken', hbelow', Progress.atLine, Nat.add_sub_cancel]
      exact hlast ▸ rfl
    rw [hthere] at h'
    rw [← hat']
    exact h'

end Junction

/-! ## Lists of statements -/

/-- Whether no statement begins with a token, because the block or the text ends there. -/
def endsStatements (token : Token) : Bool := isPunctuator token "\x7d" || token.kind = .endOfText

/-- The context behind a directive, if a statement is one. -/
def Context.behind (ctx : Context) : (directive : Option Bool) → Context
  | some strict => { ctx with strict := ctx.strict || strict }
  | none => ctx

namespace Grammar

variable {g : Grammar} {ctx : Context} {opening : Bool} {steps : Nat} {σ τ : Progress}
  {result : Bool × List Stmt}

/-- What a statement says as a directive, where it may be one. -/
def directiveAt (opening : Bool) (stmt : Stmt) : Option Bool :=
  if opening then directive? stmt else none

theorem statements_succ : g.statements ctx opening (steps + 1) = do
    if endsStatements (← current) then return (false, [])
    else
      let stmt ← apart (g.statement ctx false)
      let directive := directiveAt opening stmt
      let (strict, stmts) ← g.statements (ctx.behind directive) directive.isSome steps
      return (directive.any (· || strict), stmt :: stmts) := by
  rw [statements]
  refine bind_congr fun token => ?_
  unfold endsStatements directiveAt
  split
  · rfl
  · refine bind_congr fun stmt => ?_
    cases (if opening = true then directive? stmt else none) <;> rfl

end Grammar

/-! ## Passages -/

/-- What is behind a passage and seen with it: the next passage, or the text behind the last. -/
def nextOf (tail : List Char) : List (List Char) → List Char
  | [] => tail
  | text :: _ => text

/-- What is seen at the first passage. -/
def firstView (tail : List Char) : List (List Char) → List Char
  | [] => tail
  | text :: texts => text ++ nextOf tail texts

/-- What is behind the next passage. -/
def beyondNext (tail : List Char) : List (List Char) → List Char
  | [] => []
  | _ :: texts => texts.flatten ++ tail

namespace Grammar

/-- Reads passages up to the end of the text, one statement in each, with the next passage to see
behind it and nothing more. -/
def passages (g : Grammar) (tail : List Char) :
    Context → (opening : Bool) → (start : Nat) → List (List Char) → Reader (Bool × List Stmt)
  | _, _, start, [] => do
    modify (Progress.atLine start tail)
    if (← current).kind = .endOfText then return (false, []) else stop
  | ctx, opening, start, text :: texts => do
    modify (Progress.atLine start (text ++ nextOf tail texts))
    if endsStatements (← current) then stop
    else
      let stmt ← apart (g.statement ctx false)
      let directive := directiveAt opening stmt
      let (strict, stmts) ← passages g tail (ctx.behind directive) directive.isSome
        (start + byteSize text) texts
      return (directive.any (· || strict), stmt :: stmts)

/-- Where the statements end if there is one in each passage and nothing else. -/
def passageStops (start : Nat) : List (List Char) → List Nat
  | [] => []
  | text :: texts => (start + byteSize text - 1) :: passageStops (start + byteSize text) texts

/-! ### Runs -/

section Runs

variable {g : Grammar} {ctx : Context} {opening : Bool} {steps start : Nat} {σ τ : Progress}
  {result : Bool × List Stmt} {tail text : List Char} {texts : List (List Char)}

/-- A statement is read, and behind it the others. -/
def TakesStatement (g : Grammar) (ctx : Context) (opening : Bool)
    (others : Context → Bool → Reader (Bool × List Stmt)) (σ τ : Progress)
    (result : Bool × List Stmt) : Prop :=
  ¬ endsStatements σ.token.toToken ∧ ∃ stmt ρ strict stmts,
    apart (g.statement ctx false) σ = .ok (stmt, ρ) ∧
    others (ctx.behind (directiveAt opening stmt)) (directiveAt opening stmt).isSome ρ =
      .ok ((strict, stmts), τ) ∧
    result = ((directiveAt opening stmt).any (· || strict), stmt :: stmts)

theorem statements_succ_eq_ok_iff :
    g.statements ctx opening (steps + 1) σ = .ok (result, τ) ↔
      (endsStatements σ.token.toToken ∧ result = (false, []) ∧ τ = σ) ∨
        g.TakesStatement ctx opening (fun ctx opening => g.statements ctx opening steps) σ τ
          result := by
  rw [statements_succ]
  constructor
  · intro h
    obtain ⟨token, ρ, hcurrent, h⟩ := bind_eq_ok h
    cases hcurrent
    split at h
    · next hends =>
      cases h
      exact .inl ⟨hends, rfl, rfl⟩
    · next hends =>
      obtain ⟨stmt, ρ, hstmt, h⟩ := bind_eq_ok h
      obtain ⟨⟨strict, stmts⟩, ρ', hothers, h⟩ := bind_eq_ok h
      cases h
      exact .inr ⟨hends, stmt, ρ, strict, stmts, hstmt, hothers, rfl⟩
  · rintro (⟨hends, rfl, rfl⟩ | ⟨hends, stmt, ρ, strict, stmts, hstmt, hothers, rfl⟩)
    · refine bind_of_ok (a := τ.token.toToken) (ρ := τ) rfl ?_
      rw [if_pos hends]
      rfl
    · refine bind_of_ok (a := σ.token.toToken) (ρ := σ) rfl ?_
      rw [if_neg hends]
      exact bind_of_ok hstmt (bind_of_ok hothers rfl)

theorem passages_nil_eq_ok_iff :
    g.passages tail ctx opening start [] σ = .ok (result, τ) ↔
      (Token.scan ⟨tail, start⟩ true).kind = .endOfText ∧ result = (false, []) ∧
        τ = σ.atLine start tail := by
  rw [passages]
  have hrun : (do
      modify (Progress.atLine start tail)
      if (← current).kind = .endOfText then return (false, []) else stop :
        Reader (Bool × List Stmt)) σ =
      (if (Token.scan ⟨tail, start⟩ true).kind = .endOfText then return (false, []) else stop :
        Reader (Bool × List Stmt)) (σ.atLine start tail) := rfl
  rw [hrun]
  split
  · next hend =>
    constructor
    · intro h
      cases h
      exact ⟨hend, rfl, rfl⟩
    · rintro ⟨-, rfl, rfl⟩
      rfl
  · next hend =>
    exact iff_of_false (fun h => nomatch h) fun h => hend h.1

theorem passages_cons_eq_ok_iff :
    g.passages tail ctx opening start (text :: texts) σ = .ok (result, τ) ↔
      g.TakesStatement ctx opening
        (fun ctx opening => g.passages tail ctx opening (start + byteSize text) texts)
        (σ.atLine start (text ++ nextOf tail texts)) τ result := by
  rw [passages]
  constructor
  · intro h
    obtain ⟨_, ρ, hmove, h⟩ := bind_eq_ok h
    cases hmove
    obtain ⟨token, ρ, hcurrent, h⟩ := bind_eq_ok h
    cases hcurrent
    split at h
    · cases h
    · next hends =>
      obtain ⟨stmt, ρ, hstmt, h⟩ := bind_eq_ok h
      obtain ⟨⟨strict, stmts⟩, ρ', hothers, h⟩ := bind_eq_ok h
      cases h
      exact ⟨hends, stmt, ρ, strict, stmts, hstmt, hothers, rfl⟩
  · rintro ⟨hends, stmt, ρ, strict, stmts, hstmt, hothers, rfl⟩
    refine bind_of_ok (a := ⟨⟩) (ρ := σ.atLine start (text ++ nextOf tail texts)) rfl ?_
    refine bind_of_ok (a := (σ.atLine start (text ++ nextOf tail texts)).token.toToken)
      (ρ := σ.atLine start (text ++ nextOf tail texts)) rfl ?_
    rw [if_neg hends]
    exact bind_of_ok hstmt (bind_of_ok hothers rfl)

/-- Where the reader stands before it moves to the first passage does not matter. -/
theorem passages_atLine :
    g.passages tail ctx opening start texts (σ.atLine steps text) =
      g.passages tail ctx opening start texts σ := by
  cases texts <;> rfl

end Runs

/-! ### The whole and its passages -/

instance Takes.apart {α : Type} {f : Reader α} [hf : Takes f] : Takes (apart f) := by
  constructor
  intro σ v τ h
  obtain ⟨ρ, hrun, rfl⟩ := apart_eq_ok h
  exact (hf.move hrun :)

section Whole

variable {g : Grammar} [g.Local] {ctx : Context} {opening : Bool} {steps start : Nat}
  {σ τ : Progress} {result : Bool × List Stmt} {tail : List Char} {texts : List (List Char)}

variable [∀ ctx, Flush (g.statement ctx false)]

theorem flatten_nextOf (texts : List (List Char)) (tail : List Char) :
    texts.flatten ++ tail = nextOf tail texts ++ beyondNext tail texts := by
  cases texts <;> simp [nextOf, beyondNext]

/-- In front of a passage stands the first token of the statement in it. -/
theorem TakesStatement.first_token_inside {others : Context → Bool → Reader (Bool × List Stmt)}
    {text other more : List Char} (h : g.TakesStatement ctx opening others
      (σ.atLine start (text ++ other)) τ result)
    (htext : Complete text) (hnonempty : text ≠ []) (hother : Complete other)
    (hmore : Complete more)
    (hstop : ∀ stop ∈ (result.2.map (·.span.stop)).head?, stop = start + byteSize text - 1) :
    (Token.scan ⟨text ++ more, start⟩ true).next.offset < start + byteSize text := by
  obtain ⟨-, stmt, ρ, strict, stmts, hstmt, -, rfl⟩ := h
  have hpos : 0 < byteSize text := Nat.pos_of_ne_zero fun h => hnonempty (byteSize_eq_zero h)
  refine Script.first_token_inside htext hnonempty hother hmore rfl hstmt ?_
  have hstop := hstop stmt.span.stop rfl
  omega

theorem complete_flatten (htail : Complete tail)
    (htexts : ∀ text ∈ texts, Complete text ∧ text ≠ []) : Complete (texts.flatten ++ tail) := by
  induction texts with
  | nil => exact htail
  | cons text texts ih =>
      obtain ⟨⟨htext, -⟩, htexts⟩ := List.forall_mem_cons.1 htexts
      rw [List.flatten_cons, List.append_assoc]
      exact htext.append (ih htexts)

theorem complete_nextOf (htail : Complete tail)
    (htexts : ∀ text ∈ texts, Complete text ∧ text ≠ []) :
    Complete (nextOf tail texts) ∧ Complete (beyondNext tail texts) := by
  cases texts with
  | nil => exact ⟨htail, .inl rfl⟩
  | cons text texts =>
      obtain ⟨⟨htext, -⟩, htexts⟩ := List.forall_mem_cons.1 htexts
      exact ⟨htext, complete_flatten htail htexts⟩

/-- Where the whole is read as one statement for each passage, the first token ends in the first
passage. -/
theorem first_token_of_statements (htail : Complete tail)
    (htexts : ∀ text ∈ texts, Complete text ∧ text ≠ [])
    (h : g.statements ctx opening steps
      (σ.atLine start (nextOf tail texts ++ beyondNext tail texts)) = .ok (result, τ))
    (hstops : result.2.map (·.span.stop) = passageStops start texts) :
    beyondNext tail texts = [] ∨
      (Token.scan ⟨nextOf tail texts ++ beyondNext tail texts, start⟩ true).next.offset <
        start + byteSize (nextOf tail texts) := by
  cases texts with
  | nil => exact .inl rfl
  | cons text texts =>
      obtain ⟨⟨htext, hnonempty⟩, htexts⟩ := List.forall_mem_cons.1 htexts
      have hbeyond := complete_flatten htail htexts
      cases steps with
      | zero => cases h
      | succ steps =>
          rcases statements_succ_eq_ok_iff.1 h with ⟨-, rfl, -⟩ | htakes
          · cases hstops
          · refine .inr (htakes.first_token_inside htext hnonempty hbeyond hbeyond ?_)
            rw [hstops]
            exact fun stop hstop => (Option.some.inj hstop).symm

/-- Where the whole is read as one statement for each passage, so are the passages one by one. The
first token is the same. -/
theorem passages_of_statements (htail : Complete tail)
    (htexts : ∀ text ∈ texts, Complete text ∧ text ≠ [])
    (h : g.statements ctx opening steps (σ.atLine start (texts.flatten ++ tail)) =
      .ok (result, τ))
    (hend : τ.token.kind = .endOfText)
    (hstops : result.2.map (·.span.stop) = passageStops start texts) :
    (Token.scan ⟨firstView tail texts, start⟩ true).toToken =
        (Token.scan ⟨texts.flatten ++ tail, start⟩ true).toToken ∧
      g.passages tail ctx opening start texts σ = .ok (result, τ) := by
  -- By induction on the passages: every statement ends at the end of its passage, and does not
  -- change when the text behind the next passage is cut off.
  induction texts generalizing ctx opening steps start σ result with
  | nil =>
      cases steps with
      | zero => cases h
      | succ steps =>
          rcases statements_succ_eq_ok_iff.1 h with ⟨-, rfl, rfl⟩ | ⟨-, _, _, _, _, -, -, rfl⟩
          · exact ⟨rfl, passages_nil_eq_ok_iff.2 ⟨hend, rfl, rfl⟩⟩
          · cases hstops
  | cons text texts ih =>
      cases steps with
      | zero => cases h
      | succ steps =>
          obtain ⟨⟨htext, hnonempty⟩, htexts⟩ := List.forall_mem_cons.1 htexts
          obtain ⟨hnext, hbeyond⟩ := complete_nextOf htail htexts
          rcases statements_succ_eq_ok_iff.1 h with
            ⟨-, rfl, rfl⟩ | ⟨hends, stmt, ρ, strict, stmts, hstmt, hothers, rfl⟩
          · cases hstops
          obtain ⟨hstop, hstops⟩ := List.cons.inj hstops
          rw [List.flatten_cons, List.append_assoc, flatten_nextOf] at hends hstmt
          obtain ⟨hat, hsame, hmove⟩ := read_in_front_of htext hnonempty hnext hbeyond
            (.inl rfl : Complete []) hstmt hstop
          rw [hat] at hothers
          have hstmt' := hmove (first_token_of_statements htail htexts hothers hstops)
          rw [List.append_nil] at hsame hstmt'
          have hothers' : g.statements (ctx.behind (directiveAt opening stmt))
              (directiveAt opening stmt).isSome steps (Progress.atLine (start + byteSize text)
                (texts.flatten ++ tail) (ρ.atLine (start + byteSize text) (nextOf tail texts))) =
              .ok ((strict, stmts), τ) := by
            rw [flatten_nextOf]
            exact hothers
          rw [List.flatten_cons, List.append_assoc, flatten_nextOf]
          refine ⟨hsame, passages_cons_eq_ok_iff.2
            ⟨?_, stmt, _, strict, stmts, hstmt', (ih htexts hothers' hstops).2, rfl⟩⟩
          show ¬ endsStatements (Token.scan ⟨_, _⟩ true).toToken
          rw [hsame]
          exact hends

/-- Where the passages are read as one statement each, the first token ends in the first passage
whatever is seen behind that. -/
theorem first_token_of_passages (htail : Complete tail)
    (htexts : ∀ text ∈ texts, Complete text ∧ text ≠ [])
    (h : g.passages tail ctx opening start texts σ = .ok (result, τ))
    (hstops : result.2.map (·.span.stop) = passageStops start texts) :
    [] = beyondNext tail texts ∨ (Token.scan ⟨nextOf tail texts ++ [], start⟩ true).next.offset <
      start + byteSize (nextOf tail texts) := by
  cases texts with
  | nil => exact .inl rfl
  | cons text texts =>
      obtain ⟨⟨htext, hnonempty⟩, htexts⟩ := List.forall_mem_cons.1 htexts
      refine .inr ((passages_cons_eq_ok_iff.1 h).first_token_inside htext hnonempty
        (complete_nextOf htail htexts).1 (.inl rfl) ?_)
      rw [hstops]
      exact fun stop hstop => (Option.some.inj hstop).symm

/-- Where the passages are read as one statement each, so is the whole, from the same token on. -/
theorem statements_of_passages (htail : Complete tail)
    (htexts : ∀ text ∈ texts, Complete text ∧ text ≠ []) (hsteps : texts.length < steps)
    (h : g.passages tail ctx opening start texts σ = .ok (result, τ))
    (hstops : result.2.map (·.span.stop) = passageStops start texts) :
    (Token.scan ⟨texts.flatten ++ tail, start⟩ true).toToken =
        (Token.scan ⟨firstView tail texts, start⟩ true).toToken ∧
      g.statements ctx opening steps (σ.atLine start (texts.flatten ++ tail)) = .ok (result, τ) ∧
      τ.token.kind = .endOfText := by
  obtain ⟨steps, rfl⟩ := Nat.exists_eq_succ_of_ne_zero (Nat.ne_zero_of_lt hsteps)
  -- As above, with the text behind the next passage put back instead of cut off.
  induction texts generalizing ctx opening steps start σ result with
  | nil =>
      obtain ⟨hend, rfl, rfl⟩ := passages_nil_eq_ok_iff.1 h
      refine ⟨rfl, statements_succ_eq_ok_iff.2 (.inl ⟨?_, rfl, rfl⟩), hend⟩
      show (isPunctuator _ "\x7d" || decide ((Token.scan ⟨tail, start⟩ true).kind = _)) = true
      rw [decide_eq_true hend, Bool.or_true]
  | cons text texts ih =>
      obtain ⟨⟨htext, hnonempty⟩, htexts⟩ := List.forall_mem_cons.1 htexts
      obtain ⟨hnext, hbeyond⟩ := complete_nextOf htail htexts
      obtain ⟨hends, stmt, ρ, strict, stmts, hstmt, hothers, rfl⟩ := passages_cons_eq_ok_iff.1 h
      obtain ⟨hstop, hstops⟩ := List.cons.inj hstops
      obtain ⟨steps, rfl⟩ := Nat.exists_eq_succ_of_ne_zero
        (Nat.ne_zero_of_lt (Nat.lt_of_succ_lt_succ hsteps))
      rw [← List.append_nil (nextOf tail texts)] at hends hstmt
      obtain ⟨-, hsame, hmove⟩ := read_in_front_of htext hnonempty hnext (.inl rfl) hbeyond
        hstmt hstop
      have hstmt' := hmove (first_token_of_passages htail htexts hothers hstops)
      obtain ⟨-, hothers', hend⟩ :=
        ih htexts hothers hstops steps (Nat.lt_of_succ_lt_succ hsteps)
      rw [flatten_nextOf] at hothers'
      rw [List.flatten_cons, List.append_assoc, flatten_nextOf]
      refine ⟨?_, statements_succ_eq_ok_iff.2
        (.inr ⟨?_, stmt, _, strict, stmts, hstmt', hothers', rfl⟩), hend⟩
      · rw [List.append_nil] at hsame
        exact hsame
      · show ¬ endsStatements (Token.scan ⟨_, _⟩ true).toToken
        rw [hsame]
        exact hends

end Whole

end Grammar

/-! ## Scripts -/

namespace Program

variable {tail : List Char} {texts : List (List Char)} {stmts : List Stmt}

/-- A script is read as the statements of its passages, each with only the next one behind it. -/
def ReadsPassages (tail : List Char) (texts : List (List Char)) (stmts : List Stmt) : Prop :=
  ∃ strict state, (grammarOf (texts.flatten ++ tail)).passages tail topContext true 0 texts
    (begin (firstView tail texts)) = .ok ((strict, stmts), state) ∧ Accepts (settled strict state)

/-- The first character is seen at the first passage. -/
theorem head?_firstView (htexts : ∀ text ∈ texts, text ≠ []) :
    (firstView tail texts).head? = (texts.flatten ++ tail).head? := by
  cases texts with
  | nil => rfl
  | cons text texts =>
      have hhead := List.head?_eq_some_head (htexts text (.head _))
      rw [firstView, List.flatten_cons, List.append_assoc, List.head?_append, List.head?_append,
        hhead]
      rfl

theorem length_le_flatten (htexts : ∀ text ∈ texts, Complete text ∧ text ≠ []) :
    texts.length ≤ (texts.flatten ++ tail).length := by
  induction texts with
  | nil => exact Nat.zero_le _
  | cons text texts ih =>
      obtain ⟨⟨-, hnonempty⟩, htexts⟩ := List.forall_mem_cons.1 htexts
      have hpos := List.length_pos_iff.2 hnonempty
      have hrest := ih htexts
      simp only [List.flatten_cons, List.length_append, List.length_cons] at hrest ⊢
      omega

theorem afterInterpreter_eq {script : List Char} (h : script.head? ≠ some '#') :
    afterInterpreter script = ⟨script, 0⟩ := by
  unfold afterInterpreter
  split
  · exact absurd rfl h
  · rfl

theorem begin_eq {script : List Char} (h : script.head? ≠ some '#') :
    begin script = Progress.atLine 0 script
      { token := default, lastStop := 0, faults := (Token.scan ⟨script, 0⟩ true).faults } := by
  unfold begin
  rw [afterInterpreter_eq h]
  rfl

/-- Which statements a script has is decided by its passages and their neighbours, as far as there
is one statement in every passage. -/
theorem readScript_iff_readsPassages (htail : Complete tail)
    (htexts : ∀ text ∈ texts, Complete text ∧ text ≠ [])
    (hhash : (texts.flatten ++ tail).head? ≠ some '#')
    (hstops : stmts.map (·.span.stop) = Grammar.passageStops 0 texts) :
    readScript (texts.flatten ++ tail) = .ok stmts ↔ ReadsPassages tail texts stmts := by
  have hgrammar : (grammarOf (texts.flatten ++ tail)).Local := Grammar.Local.ofDepth _
  have hflush : ∀ ctx, Flush ((grammarOf (texts.flatten ++ tail)).statement ctx false) :=
    fun ctx => Flush.statement ctx false _
  have hview : (firstView tail texts).head? ≠ some '#' := by
    rwa [head?_firstView fun text htext => (htexts text htext).2]
  rw [readScript_eq_ok_iff, ReadsPassages, begin_eq hhash, begin_eq hview]
  constructor
  · rintro ⟨strict, state, hall, hend, haccepts⟩
    obtain ⟨hsame, hread⟩ := Grammar.passages_of_statements htail htexts hall hend hstops
    refine ⟨strict, state, ?_, haccepts⟩
    rw [Grammar.passages_atLine, congrArg Token.faults hsame]
    exact hread
  · rintro ⟨strict, state, hread, haccepts⟩
    rw [Grammar.passages_atLine] at hread
    have hsteps : texts.length < 2 * (texts.flatten ++ tail).length + 4 := by
      have hle : texts.length ≤ (texts.flatten ++ tail).length := length_le_flatten htexts
      omega
    obtain ⟨hsame, hall, hend⟩ :=
      Grammar.statements_of_passages htail htexts hsteps hread hstops
    refine ⟨strict, state, ?_, hend, haccepts⟩
    rw [congrArg Token.faults hsame]
    exact hall

end Program

end ModuleLinker.Script
