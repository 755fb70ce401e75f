/-
# ModuleLinker.Proofs.TokenWidth -- tokens are not empty

A token that can be taken is at least one character long, so that a reader which takes one ends
behind the place where it began. The text under a statement is therefore never empty
(`Program.start_lt_stop_of_read`).
-/

import ModuleLinker.Proofs.LiteralPlaces

namespace ModuleLinker.Script

open Reader Text

/-! ## Places further on -/

namespace Cursor

variable {c d : Cursor}

theorem offset_lt_of_before {x : Char} {rest : List Char} {offset : Nat}
    (h : Before ⟨rest, offset + x.utf8Size⟩ d) : offset < d.offset := by
  have hle : offset + x.utf8Size ≤ d.offset := h.offset_le
  have hsize := x.utf8Size_pos
  omega

theorem offset_lt_skip {x : Char} {rest : List Char} {offset n : Nat} (hn : 0 < n) :
    offset < (Cursor.skip n ⟨x :: rest, offset⟩).offset := by
  obtain ⟨n, rfl⟩ := Nat.exists_eq_succ_of_ne_zero hn.ne'
  exact offset_lt_of_before (before_skip n ⟨rest, offset + x.utf8Size⟩)

end Cursor

open Cursor

/-! ## Numbers -/

/-- A number that begins with a digit has a width. -/
theorem read_lt_of_digit {offset : Nat} {x : Char} {rest : List Char} (hx : x.isDigit) :
    offset < (Number.read ⟨x :: rest, offset⟩).next.offset := by
  have hskip (n : Nat) : offset < (Cursor.skip (n + 1) ⟨x :: rest, offset⟩).offset :=
    offset_lt_skip n.succ_pos
  unfold Number.read
  split
  · split
    · exact (hskip 1).trans_le (readRadix_before utf8Size_of_hexValue? _).offset_le
    split
    · exact (hskip 1).trans_le (readRadix_before utf8Size_of_isOctal _).offset_le
    split
    · exact (hskip 1).trans_le (readRadix_before utf8Size_of_isBit _).offset_le
    split
    · dsimp only
      split
      · exact hskip _
      split
      · exact hskip _
      · exact (hskip _).trans_le (readTail_before _ _ _).offset_le
    split
    · exact hskip 0
    · exact (hskip 0).trans_le (readTail_before _ _ _).offset_le
  · next hpoint =>
    obtain ⟨rfl, -⟩ := List.cons.inj hpoint
    cases hx
  · have hdigits : offset < (readDigits Char.isDigit false offset (x :: rest)).2.offset := by
      rw [readDigits, if_pos hx]
      exact (Nat.lt_succ_self _).trans_le (readDigits_before utf8Size_of_isDigit _ _ _).offset_le
    exact hdigits.trans_le (readTail_before _ _ _).offset_le

/-- A number that begins with a point has a width. -/
theorem read_lt_of_point {offset : Nat} {x : Char} {rest : List Char} (hx : x.isDigit) :
    offset < (Number.read ⟨'.' :: x :: rest, offset⟩).next.offset := by
  have hskip : offset < (Cursor.skip 1 ⟨'.' :: x :: rest, offset⟩).offset :=
    offset_lt_skip Nat.one_pos
  have hread : Number.read ⟨'.' :: x :: rest, offset⟩ =
      Number.readTail true false ⟨'.' :: x :: rest, offset⟩ := rfl
  rw [hread]
  simp only [Number.readTail, hx, true_or, if_true]
  exact hskip.trans_le ((readDecimals_before _).trans (readExponent_before _ _)).offset_le

/-! ## Words and punctuators -/

/-- A word with a character in it has a width. -/
theorem readWord_lt {first : Bool} {offset : Nat} {cs name : List Char} {x : Char} {escaped : Bool}
    {next : Cursor} (h : readWord first 0 offset cs = some (x :: name, escaped, next)) :
    offset < next.offset := by
  rcases cs with _ | ⟨c, rest⟩
  · cases h
  obtain ⟨hname, -⟩ | ⟨_, _, _, _, -, -, hinner⟩ := readWord_cases h
  · cases hname
  · exact offset_lt_of_before (readWord_before hinner)

theorem length_punctuator?_pos {cs : List Char} {text : String} (h : punctuator? cs = some text) :
    0 < text.length := by
  have hall : ∀ c, ∀ t ∈ punctuatorsFrom c, 0 < t.length := by
    intro c
    unfold punctuatorsFrom
    split <;> decide
  rcases cs with _ | ⟨c, cs⟩
  · cases h
  · exact hall c text (List.mem_of_find?_eq_some h)

/-! ## Tokens -/

/-- A token that is read has a width, unless it cannot be taken. -/
def HasWidth (c : Cursor) (read : TokenKind × List Nat × Cursor) : Prop :=
  read.1.IsTakeable → c.offset < read.2.2.offset

theorem hasWidth_illegal (c : Cursor) (offset : Nat) (faults : List Nat) (next : Cursor) :
    HasWidth c (.illegal offset, faults, next) := fun h => absurd rfl (h.2 offset)

theorem hasWidth_read (c : Cursor) : HasWidth c (TokenKind.read c) := by
  have hnumber (hread : c.offset < (Number.read c).next.offset) : HasWidth c
      (if (Number.read c).valid && endsNumber (Number.read c).next then
        (.number (Number.read c).legacy, [], (Number.read c).next)
        else (.illegal c.offset, [], c)) := by
    split
    · exact fun _ => hread
    · exact hasWidth_illegal c _ _ _
  obtain ⟨cs, offset⟩ := c
  unfold TokenKind.read
  dsimp only at hnumber ⊢
  split
  · exact fun h => absurd rfl h.1
  · split
    · next h => exact fun _ => offset_lt_of_before (x := '#') (readWord_before h)
    · exact hasWidth_illegal _ _ _ _
  · next x rest =>
    split
    · next hdigit => exact hnumber (read_lt_of_point hdigit)
    · have hlength : 0 < ((punctuator? ('.' :: x :: rest)).getD ".").length := by
        cases htext : punctuator? ('.' :: x :: rest) with
        | none => decide
        | some text => exact length_punctuator?_pos htext
      exact fun _ => offset_lt_skip hlength
  · next x rest hmark hpoint =>
    split
    · next hquote =>
      have hbody : offset < (StringBody.read x 0 (offset + 1) rest).next.offset :=
        (Nat.lt_succ_self offset).trans_le
          (Before.offset_le (stringFrom_movesOn x 0 ⟨rest, offset + 1⟩))
      split
      · exact fun _ => hbody
      · exact fun _ => hbody
      · exact hasWidth_illegal _ _ _ _
    · split
      · next hdigit => exact hnumber (read_lt_of_digit hdigit)
      · split
        · next text htext => exact fun _ => offset_lt_skip (length_punctuator?_pos htext)
        · split
          · next h => exact fun _ => readWord_lt h
          · exact hasWidth_illegal _ _ _ _

theorem Spot.StandsIn.place_lt {c : Cursor} {a : Spot} (h : a.StandsIn c)
    (htakeable : a.token.kind.IsTakeable) : a.token.place.offset < a.token.next.offset := by
  obtain ⟨d, lineStart, -, htoken, -⟩ := h
  rw [htoken] at htakeable ⊢
  exact hasWidth_read _ htakeable

theorem asRegex_lt {t : Scanned} (h : t.asRegex.kind = .regex) :
    t.place.offset < t.asRegex.next.offset := by
  obtain ⟨close, hclose, hnext⟩ := exists_close_of_asRegex h
  have hplace : t.place.offset < close.offset := by
    unfold regexClose? at hclose
    split at hclose
    · exact (Nat.lt_succ_self _).trans_le (regexEnd_before hclose).offset_le
    · cases hclose
  exact hplace.trans_le hnext.offset_le

/-- A move leads behind the place where the token begins. -/
theorem Spot.StandsIn.lt_of_move {c : Cursor} {a b : Spot} (h : a.StandsIn c) (hmove : a.Move b) :
    a.token.span.start < b.lastStop := by
  obtain ⟨opening, -, hplace, hstart, -⟩ := h.exists_opening
  have hle : a.token.span.start ≤ a.token.place.offset := hstart ▸ hplace.offset_le
  have hpunctuator {text : String} (hkind : a.token.kind = .punctuator text) :
      a.token.kind.IsTakeable := by
    rw [hkind]
    exact ⟨nofun, nofun⟩
  cases hmove with
  | token htakeable => exact hle.trans_lt (h.place_lt htakeable)
  | regex hslash hregex => exact hle.trans_lt (asRegex_lt hregex)
  | stretch hmark =>
      have hchunk : Before a.token.next (chunkFrom true 0 a.token.next).2 :=
        chunkFrom_movesOn true 0 _
      exact hle.trans_lt ((h.place_lt (hpunctuator hmark)).trans_le hchunk.offset_le)

/-! ## Statements -/

variable {c : Cursor} {depth : Nat} {ctx : Context} {σ τ : Progress}

theorem start_lt_stop_of_statement {stmt : Stmt} (hσ : σ.spot.StandsIn c)
    (h : (Grammar.ofDepth depth).statement ctx false σ = .ok (stmt, τ)) :
    stmt.span.start < stmt.span.stop := by
  obtain ⟨b, hmove, hpath⟩ := Takes.move h
  have hb : b.StandsIn c := (hσ.path (.single hmove)).stands
  calc stmt.span.start
      = σ.token.span.start := start_of_statement ctx false h
    _ < b.lastStop := hσ.lt_of_move hmove
    _ ≤ τ.lastStop := (hb.path hpath).stop_le
    _ = stmt.span.stop := ((Flush.statement ctx false depth).readUpTo h).stop_eq.symm

/-- There is a text under every statement of a program. -/
theorem Program.start_lt_stop_of_read {text : List Char} {program : Program}
    (h : Program.read text = .ok program) :
    ∀ stmt ∈ program.statements, stmt.span.start < stmt.span.stop := by
  obtain ⟨front, script, rfl, -, hread⟩ := Program.exists_script_of_read h
  obtain ⟨strict, state, hrun, -, -⟩ := readScript_eq_ok_iff.1 hread
  exact forall_mem_of_statements start_lt_stop_of_statement (begin_standsIn script) hrun

end ModuleLinker.Script
