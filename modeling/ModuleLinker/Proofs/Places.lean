/-
# ModuleLinker.Proofs.Places -- scanners move on through any text

The scanners of trivia, strings, templates, numbers, words and regular expressions all stop at a
place further on in the text they were started in. From this follows where a token stands:
`scan_places` gives the places of its first character and behind it, and the place that its span
starts at, which is that of a comment with an HTML mark if there is one in front of it.

A string that is closed, and the last stretch of a template, end with the quote that closes them.
-/

import ModuleLinker.Proofs.TokenScan

namespace ModuleLinker.Script

open Text

variable {α : Type}

/-! ## Places further on -/

/-- The second place is the first, or further on in the same text. -/
def Cursor.Before (c d : Cursor) : Prop := ∃ n, d = c.skip n

namespace Cursor

variable {c d e : Cursor}

theorem Before.refl (c : Cursor) : c.Before c := ⟨0, rfl⟩

theorem before_skip (n : Nat) (c : Cursor) : c.Before (c.skip n) := ⟨n, rfl⟩

theorem Before.trans (h : c.Before d) (h' : d.Before e) : c.Before e := by
  obtain ⟨m, rfl⟩ := h
  obtain ⟨n, rfl⟩ := h'
  exact ⟨m + n, skip_skip m n c⟩

/-- Nothing is further on than what stands behind a character. -/
theorem Before.cons {x : Char} {rest : List Char} {offset next : Nat}
    (h : Before ⟨rest, next⟩ d) (hnext : next = offset + x.utf8Size) :
    Before ⟨x :: rest, offset⟩ d := by
  subst hnext
  exact (before_skip 1 ⟨x :: rest, offset⟩).trans h

end Cursor

open Cursor

/-! ## Numbers -/

theorem readDigits_before {isDigit : Char → Bool} (hsize : ∀ c, isDigit c → c.utf8Size = 1)
    (afterDigit : Bool) (offset : Nat) (cs : List Char) :
    Before ⟨cs, offset⟩ (readDigits isDigit afterDigit offset cs).2 := by
  fun_induction readDigits isDigit afterDigit offset cs with
  | case2 _ offset c rest hdigit ih => exact ih.cons (by rw [hsize c hdigit])
  | case3 _ _ _ ih => exact ih.cons rfl
  | _ => exact .refl _

theorem readRadix_before {isDigit : Char → Bool} (hsize : ∀ c, isDigit c → c.utf8Size = 1)
    (c : Cursor) : c.Before (Number.readRadix isDigit c).next := by
  have hdigits := readDigits_before hsize false c.offset c.rest
  unfold Number.readRadix
  dsimp only
  split
  · exact hdigits.trans (before_skip 1 _)
  · exact hdigits

theorem readDecimals_before (c : Cursor) :
    c.Before (readDigits Char.isDigit false c.offset c.rest).2 :=
  readDigits_before utf8Size_of_isDigit false c.offset c.rest

theorem readExponent_before (valid : Bool) (c : Cursor) :
    c.Before (Number.readExponent valid c).2 := by
  unfold Number.readExponent
  split
  · split
    · exact (before_skip _ c).trans (readDecimals_before _)
    · exact .refl c
  · exact .refl c

theorem readTail_before (valid legacy : Bool) (c : Cursor) :
    c.Before (Number.readTail valid legacy c).next := by
  unfold Number.readTail
  split
  · exact before_skip 1 c
  · dsimp only
    split
    · exact (before_skip 1 c).trans ((readDecimals_before _).trans (readExponent_before _ _))
    · exact (before_skip 1 c).trans (readExponent_before _ _)
  · exact before_skip 1 c
  · exact readExponent_before valid c

theorem read_before (c : Cursor) : c.Before (Number.read c).next := by
  have hskip (n : Nat) : c.Before (c.skip n) := before_skip n c
  unfold Number.read
  split
  · split
    · exact (hskip 2).trans (readRadix_before utf8Size_of_hexValue? _)
    split
    · exact (hskip 2).trans (readRadix_before utf8Size_of_isOctal _)
    split
    · exact (hskip 2).trans (readRadix_before utf8Size_of_isBit _)
    split
    · dsimp only
      split
      · exact hskip _
      split
      · exact hskip _
      · exact (hskip _).trans (readTail_before _ _ _)
    split
    · exact hskip 1
    · exact (hskip 1).trans (readTail_before _ _ _)
  · exact readTail_before _ _ c
  · exact (readDecimals_before c).trans (readTail_before _ _ _)

/-! ## Words and regular expressions -/

theorem readWord_before {first : Bool} {pending offset : Nat} {cs name : List Char}
    {escaped : Bool} {next : Cursor}
    (h : readWord first pending offset cs = some (name, escaped, next)) :
    Before ⟨cs, offset⟩ next := by
  induction cs generalizing first pending offset name escaped next with
  | nil =>
      obtain rfl : ⟨[], offset⟩ = next := by
        cases pending <;> simpa [readWord] using congrArg (Option.map (·.2.2)) h
      exact .refl _
  | cons c rest ih =>
      rcases pending with _ | pending
      · obtain ⟨-, rfl⟩ | ⟨_, _, _, _, -, -, hinner⟩ := readWord_cases h
        · exact .refl _
        · exact (ih hinner).cons rfl
      · exact (ih h).cons rfl

theorem regexEnd_before {inBrackets : Bool} {offset : Nat} {cs : List Char} {close : Cursor}
    (h : regexEnd inBrackets offset cs = some close) : Before ⟨cs, offset⟩ close := by
  fun_induction regexEnd inBrackets offset cs
  case case3 ih => exact ((ih h).cons rfl).cons rfl
  case case5 hslash =>
    cases h
    exact (Before.refl _).cons (by rw [hslash.1]; rfl)
  case case6 ih | case7 ih | case8 ih => exact (ih h).cons rfl
  all_goals cases h

/-! ## Trivia -/

theorem triviaFrom_before (mode : TriviaMode) (lineBreak : Bool) (mark : Option Nat) (c : Cursor) :
    c.Before (triviaFrom mode lineBreak mark c).2 := triviaFrom_movesOn mode lineBreak mark c

/-- The offset is the given one, or that of a place between two others. -/
def Marks (mark : Option Nat) (c d : Cursor) (offset : Nat) : Prop :=
  mark = some offset ∨ ∃ e, c.Before e ∧ e.Before d ∧ e.offset = offset

namespace Marks

variable {mark : Option Nat} {d : Cursor} {rest : List Char} {x : Char} {start next offset : Nat}

theorem cons (h : Marks mark ⟨rest, next⟩ d offset) (hnext : next = start + x.utf8Size) :
    Marks mark ⟨x :: rest, start⟩ d offset := by
  refine h.imp_right ?_
  rintro ⟨e, hce, hed, hoffset⟩
  exact ⟨e, hce.cons hnext, hed, hoffset⟩

/-- A mark is only set at the place of the scan. -/
theorem set {c : Cursor} (h : Marks (mark.or (some c.offset)) c d offset) (hcd : c.Before d) :
    Marks mark c d offset := by
  rcases h with h | h
  · cases mark with
    | none => exact .inr ⟨c, .refl c, hcd, Option.some.inj h⟩
    | some => exact .inl h
  · exact .inr h

end Marks

theorem marks_scan {mode : TriviaMode} {lineBreak : Bool} {mark : Option Nat} {start offset : Nat}
    {cs : List Char} (h : (Trivia.scan mode lineBreak mark start cs).mark = some offset) :
    Marks mark ⟨cs, start⟩ (Trivia.scan mode lineBreak mark start cs).cursor offset := by
  fun_induction Trivia.scan mode lineBreak mark start cs
  -- all cases move on, and the two that open a comment with an HTML mark set the mark as well
  case case3 ih | case4 ih | case6 ih | case12 ih | case13 ih => exact (ih h).cons rfl
  case case5 ih | case7 ih | case8 ih => exact ((ih h).cons rfl).cons rfl
  case case9 lineBreak mark start rest ih =>
    have hbefore :=
      triviaFrom_before .lineComment lineBreak (mark.or (some start)) ⟨rest, start + 4⟩
    exact Marks.set ((((ih h).cons rfl).cons rfl).cons rfl |>.cons rfl)
      ((((hbefore.cons rfl).cons rfl).cons rfl).cons rfl)
  case case10 mark start rest ih =>
    have hbefore := triviaFrom_before .lineComment true (mark.or (some start)) ⟨rest, start + 3⟩
    exact Marks.set ((((ih h).cons rfl).cons rfl).cons rfl) (((hbefore.cons rfl).cons rfl).cons rfl)
  all_goals exact .inl h

/-! ## Literals -/

/-- A closed string ends with its quote. -/
theorem read_closed {quote : Char} {pending offset : Nat} {cs : List Char}
    (h : (StringBody.read quote pending offset cs).ending = .closed) :
    ∃ n, cs[n]? = some quote ∧
      (StringBody.read quote pending offset cs).next = Cursor.skip (n + 1) ⟨cs, offset⟩ := by
  fun_induction StringBody.read quote pending offset cs
  case case2 ih | case6 ih =>
    obtain ⟨n, hn, hnext⟩ := ih h
    exact ⟨n + 1, hn, hnext⟩
  case case5 ih | case9 ih =>
    obtain ⟨n, hn, hnext⟩ := ih h
    exact ⟨n + 1, hn, hnext⟩
  case case3 => exact ⟨0, by simp_all, rfl⟩
  all_goals cases h

/-- The last stretch of a template ends with a backtick, unless the text ends first. -/
theorem read_ends {valid : Bool} {pending offset : Nat} {cs : List Char}
    (hends : (Chunk.read valid pending offset cs).ends)
    (hcut : (Chunk.read valid pending offset cs).cutOff = false) :
    ∃ n, cs[n]? = some '`' ∧
      (Chunk.read valid pending offset cs).next = Cursor.skip (n + 1) ⟨cs, offset⟩ := by
  fun_induction Chunk.read valid pending offset cs
  case case2 ih | case5 ih | case6 ih | case7 ih | case9 ih =>
    obtain ⟨n, hn, hnext⟩ := ih hends hcut
    exact ⟨n + 1, hn, hnext⟩
  case case4 => exact ⟨0, by simp_all, rfl⟩
  case case3 => cases hends
  all_goals cases hcut

/-! ## Tokens -/

theorem kindFrom_before (c : Cursor) : c.Before (kindFrom c).2 := by
  have hskip (n : Nat) : c.Before (c.skip n) := before_skip n c
  -- A digit and a point in front of one begin a number, in two branches of the reader.
  have hnumber {r : TokenKind × List Nat × Cursor}
      (hr : (if (Number.read c).valid && endsNumber (Number.read c).next then
        (.number (Number.read c).legacy, [], (Number.read c).next)
        else (.illegal c.offset, [], c)) = r) : c.Before r.2.2 := by
    subst hr
    split
    · exact read_before c
    · exact .refl c
  obtain ⟨cs, offset⟩ := c
  unfold kindFrom TokenKind.read
  dsimp only at hnumber ⊢
  split
  · exact .refl _
  · split
    · next h => exact (readWord_before h).cons rfl
    · exact .refl _
  · split
    · exact hnumber rfl
    · exact hskip _
  · next c rest _ _ =>
    split
    · next hquote =>
      have hstring : Before ⟨c :: rest, offset⟩ (StringBody.read c 0 (offset + 1) rest).next :=
        Before.cons (stringFrom_movesOn c 0 ⟨rest, offset + 1⟩)
          (by rcases hquote with rfl | rfl <;> rfl)
      split <;> exact hstring
    · split
      · exact hnumber rfl
      · split
        · exact hskip _
        · split
          · next h => exact readWord_before h
          · exact .refl _

/-- The places of a token: that of its first character, that behind it, and that where its span
starts. -/
theorem scan_places (c : Cursor) (lineStart : Bool) :
    let t := Token.scan c lineStart
    (∃ opening, c.Before opening ∧ opening.Before t.place ∧ opening.offset = t.span.start) ∧
      t.place.Before t.next ∧ t.span.stop = t.next.offset := by
  have htrivia := triviaFrom_before .between lineStart none c
  rw [scan_eq]
  refine ⟨?_, kindFrom_before _, rfl⟩
  dsimp only [tokenOf]
  cases hmark : (triviaFrom .between lineStart none c).1.2.1 with
  | none => exact ⟨_, htrivia, .refl _, rfl⟩
  | some offset =>
      rcases marks_scan hmark with hnone | hopening
      · cases hnone
      · exact hopening

/-- A regular expression is closed, and its flags follow. -/
theorem exists_close_of_asRegex {t : Scanned} (h : t.asRegex.kind = .regex) :
    ∃ close, regexClose? t.place = some close ∧ close.Before t.asRegex.next := by
  unfold Scanned.asRegex at h ⊢
  cases hclose : regexClose? t.place with
  | none =>
      rw [hclose] at h
      cases h
  | some close =>
      rw [hclose] at h
      refine ⟨close, rfl, ?_⟩
      dsimp only at h ⊢
      split
      · next hflags => exact readWord_before hflags
      · next hflags =>
        rw [hflags] at h
        cases h

theorem asRegex_before {t : Scanned} (h : t.asRegex.kind = .regex) :
    t.place.Before t.asRegex.next := by
  obtain ⟨close, hclose, hnext⟩ := exists_close_of_asRegex h
  have hplace : t.place.Before close := by
    unfold regexClose? at hclose
    split at hclose
    · next body hslash =>
      obtain ⟨⟨_, _⟩, ⟨cs, offset⟩, _⟩ := t
      dsimp only at hslash
      subst hslash
      exact (regexEnd_before hclose).cons rfl
    · cases hclose
  exact hplace.trans hnext

/-- A string begins with a quote. -/
theorem exists_quote_of_read {c : Cursor} {value : String} {legacy : Bool}
    (h : (TokenKind.read c).1 = .string value legacy) :
    ∃ quote rest, (quote = '"' ∨ quote = '\'') ∧ c.rest = quote :: rest := by
  unfold TokenKind.read at h
  dsimp only at h
  split at h
  · cases h
  · split at h <;> cases h
  · split at h
    · split at h <;> cases h
    · cases h
  · next quote rest _ _ hrest =>
    split at h
    · next hquote => exact ⟨quote, rest, hquote, hrest⟩
    · split at h
      · split at h <;> cases h
      · split at h
        · cases h
        · split at h <;> cases h

/-- A string without an error in it ends with a quote. -/
theorem read_string_closed {c : Cursor} {value : String} {legacy : Bool}
    (hkind : (TokenKind.read c).1 = .string value legacy) (hfaults : (TokenKind.read c).2.1 = []) :
    ∃ n quote, (quote = '"' ∨ quote = '\'') ∧ c.rest[n]? = some quote ∧
      (TokenKind.read c).2.2 = c.skip (n + 1) := by
  obtain ⟨quote, rest, hquote, hrest⟩ := exists_quote_of_read hkind
  obtain ⟨cs, offset⟩ := c
  obtain rfl : cs = quote :: rest := hrest
  have hsize : offset + 1 = offset + quote.utf8Size := by rcases hquote with rfl | rfl <;> rfl
  rw [read_string hquote] at hkind hfaults ⊢
  dsimp only at hkind hfaults ⊢
  cases hending : (StringBody.read quote 0 (offset + 1) rest).ending with
  | closed =>
      obtain ⟨n, hn, hnext⟩ := read_closed hending
      refine ⟨n + 1, quote, hquote, hn, ?_⟩
      rw [hsize] at hnext ⊢
      exact hnext
  | unterminated =>
      rw [hending] at hfaults
      cases hfaults
  | malformed =>
      rw [hending] at hkind
      cases hkind

theorem scan_string {c : Cursor} {lineStart : Bool} {value : String} {legacy : Bool}
    (hkind : (Token.scan c lineStart).kind = .string value legacy)
    (hfaults : (Token.scan c lineStart).faults = []) :
    ∃ n quote, (quote = '"' ∨ quote = '\'') ∧
      (Token.scan c lineStart).place.rest[n]? = some quote ∧
      (Token.scan c lineStart).next = (Token.scan c lineStart).place.skip (n + 1) :=
  read_string_closed hkind (List.append_eq_nil_iff.1 hfaults).2

end ModuleLinker.Script
