/-
# ModuleLinker.Proofs.LineScan -- scanners that stay on a line

Numbers, words, punctuators and regular expressions never contain the end of a line. What is read
of them is therefore the same whatever stands on the lines behind.
-/

import Mathlib.Data.Option.Basic
import ModuleLinker.Script.Token

namespace ModuleLinker.Script

open Text

variable {α : Type}

/-! ## Places in a text -/

theorem Cursor.skip_skip (n m : Nat) (c : Cursor) : (c.skip n).skip m = c.skip (n + m) := by
  induction n generalizing c with
  | zero => rw [Nat.zero_add]; rfl
  | succ n ih =>
      rw [Nat.succ_add]
      obtain ⟨rest, offset⟩ := c
      cases rest with
      | nil =>
          show Cursor.skip m ⟨[], offset⟩ = Cursor.skip (n + m + 1) ⟨[], offset⟩
          cases m <;> rfl
      | cons x rest => exact ih _

theorem Cursor.skip_rest (n : Nat) (c : Cursor) : (c.skip n).rest = c.rest.drop n := by
  induction n generalizing c with
  | zero => rfl
  | succ n ih =>
      obtain ⟨rest, offset⟩ := c
      cases rest with
      | nil => rfl
      | cons x rest => exact ih _

theorem Cursor.skip_append (n offset : Nat) (s rest : List Char) (h : n ≤ s.length) :
    Cursor.skip n ⟨s ++ rest, offset⟩ = ⟨s.drop n ++ rest, offset + byteSize (s.take n)⟩ := by
  induction n generalizing s offset with
  | zero => rfl
  | succ n ih =>
      cases s with
      | nil => simp at h
      | cons x s =>
          show Cursor.skip n ⟨s ++ rest, offset + x.utf8Size⟩ = _
          rw [ih _ s (Nat.le_of_succ_le_succ h)]
          simp [byteSize, Nat.add_assoc]

/-! ## Scanners that stay on a line -/

/-- The place in front of the rest of a line. -/
abbrev Cursor.line (w : List Char) (offset : Nat) (rest : List Char) : Cursor :=
  ⟨w ++ '\n' :: rest, offset⟩

/-- What a scanner reads on a line does not depend on the lines behind it. -/
def StaysOnLine (scan : Cursor → α × Cursor) : Prop :=
  ∀ w offset, '\n' ∉ w → ∃ a n, n ≤ w.length ∧
    ∀ rest, scan (.line w offset rest) = (a, (Cursor.line w offset rest).skip n)

theorem StaysOnLine.skip {scan : Cursor → α × Cursor} (h : StaysOnLine scan) {w : List Char}
    {n : Nat} (offset : Nat) (hw : '\n' ∉ w) (hn : n ≤ w.length) :
    ∃ a m, n ≤ m ∧ m ≤ w.length ∧
      ∀ rest, scan ((Cursor.line w offset rest).skip n) =
        (a, (Cursor.line w offset rest).skip m) := by
  obtain ⟨a, m, hm, hscan⟩ := h (w.drop n) (offset + byteSize (w.take n))
    (fun hmem => hw (List.mem_of_mem_drop hmem))
  rw [List.length_drop] at hm
  refine ⟨a, n + m, by omega, by omega, fun rest => ?_⟩
  rw [Cursor.skip_append _ _ _ _ hn, hscan, ← Cursor.skip_skip, Cursor.skip_append _ _ _ _ hn]

theorem head?_skip_line (n offset : Nat) (w rest : List Char) (hn : n ≤ w.length) :
    ((Cursor.line w offset rest).skip n).rest.head? = some ((w.drop n).headD '\n') := by
  rw [Cursor.skip_append _ _ _ _ hn]
  cases w.drop n <;> rfl

theorem lt_length_of_headD {n : Nat} {w : List Char} {c d : Char} (h : (w.drop n).headD d = c)
    (hcd : d ≠ c) : n < w.length := by
  refine Nat.lt_of_not_le fun hle => hcd ?_
  rw [← h, List.drop_eq_nil_of_le hle]
  rfl

/-! ### Digits -/

theorem readDigits_staysOnLine {isDigit : Char → Bool} (afterDigit : Bool)
    (hsize : ∀ c, isDigit c → c.utf8Size = 1) (hnewline : isDigit '\n' = false) :
    StaysOnLine fun c => readDigits isDigit afterDigit c.offset c.rest := by
  intro w offset hw
  induction w generalizing afterDigit offset with
  | nil => exact ⟨afterDigit, 0, Nat.le_refl _, fun rest => by simp [readDigits, hnewline]; rfl⟩
  | cons c w ih =>
      rw [List.mem_cons, not_or] at hw
      dsimp only [Cursor.line, List.cons_append, readDigits]
      split
      · next hdigit =>
        obtain ⟨a, n, hn, hscan⟩ := ih true (offset + 1) hw.2
        refine ⟨a, n + 1, Nat.succ_le_succ hn, fun rest => (hscan rest).trans ?_⟩
        show _ = (a, Cursor.skip n ⟨w ++ '\n' :: rest, offset + c.utf8Size⟩)
        rw [hsize c hdigit]
      · split
        · next hunder =>
          split
          · obtain ⟨a, n, hn, hscan⟩ := ih false (offset + 1) hw.2
            refine ⟨a, n + 1, Nat.succ_le_succ hn, fun rest => (hscan rest).trans ?_⟩
            subst hunder
            rfl
          · exact ⟨false, 0, Nat.zero_le _, fun rest => rfl⟩
        · exact ⟨afterDigit, 0, Nat.zero_le _, fun rest => rfl⟩

/-! ### Numbers -/

theorem utf8Size_eq_one_of_lt {c : Char} (h : c.toNat < 0x80) : c.utf8Size = 1 := by
  rw [Char.utf8Size_eq_one_iff, UInt32.le_iff_toNat_le]
  exact Nat.le_of_lt_succ h

theorem utf8Size_of_isDigit (c : Char) (h : c.isDigit) : c.utf8Size = 1 := by
  refine utf8Size_eq_one_of_lt ?_
  simp only [Char.isDigit, Bool.and_eq_true, decide_eq_true_eq] at h
  have := UInt32.le_iff_toNat_le.1 h.2
  exact Nat.lt_of_le_of_lt this (by decide)

/-- Decimal digits behind a sign or a point. -/
theorem decimals_staysOnLine :
    StaysOnLine fun c => readDigits Char.isDigit false c.offset c.rest :=
  readDigits_staysOnLine false utf8Size_of_isDigit rfl

theorem readExponent_staysOnLine (valid : Bool) : StaysOnLine (Number.readExponent valid) := by
  intro w offset hw
  rcases w with _ | ⟨e, w⟩
  · exact ⟨valid, 0, Nat.le_refl _, fun rest => rfl⟩
  by_cases he : e = 'e' ∨ e = 'E'
  · -- The digits begin behind the letter, or behind the sign that follows it.
    have hread (n : Nat) (hn : n ≤ (e :: w).length)
        (hsign : ∀ rest, (if (w ++ '\n' :: rest).head? = some '+' ∨
          (w ++ '\n' :: rest).head? = some '-' then 2 else 1) = n) :
        ∃ a m, m ≤ (e :: w).length ∧ ∀ rest,
          Number.readExponent valid (.line (e :: w) offset rest) =
            (a, (Cursor.line (e :: w) offset rest).skip m) := by
      obtain ⟨ok, m, -, hm, hscan⟩ := decimals_staysOnLine.skip offset hw hn
      refine ⟨valid && ok, m, hm, fun rest => ?_⟩
      have hdigits := hscan rest
      simp only [Number.readExponent, List.cons_append, he, if_true, hsign, hdigits]
    rcases w with _ | ⟨d, w⟩
    · exact hread 1 (Nat.le_refl _) fun rest => rfl
    · by_cases hd : d = '+' ∨ d = '-'
      · exact hread 2 (by simp) fun rest => by simp [hd]
      · exact hread 1 (by simp) fun rest => by simp [hd]
  · refine ⟨valid, 0, Nat.zero_le _, fun rest => ?_⟩
    simp only [Number.readExponent, List.cons_append, he, if_false]
    rfl

/-- The results of a scanner of numbers in the order of scanners. -/
def Number.parts (number : Number) : (Bool × Bool) × Cursor :=
  ((number.valid, number.legacy), number.next)

theorem readRadix_staysOnLine {isDigit : Char → Bool} (hsize : ∀ c, isDigit c → c.utf8Size = 1)
    (hnewline : isDigit '\n' = false) :
    StaysOnLine fun c => (Number.readRadix isDigit c).parts := by
  intro w offset hw
  obtain ⟨valid, n, hn, hscan⟩ := readDigits_staysOnLine false hsize hnewline w offset hw
  have hhead (rest : List Char) := head?_skip_line n offset w rest hn
  by_cases hmark : (w.drop n).headD '\n' = 'n'
  · refine ⟨(valid, false), n + 1, lt_length_of_headD hmark (by decide), fun rest => ?_⟩
    have hdigits := hscan rest
    simp only [Number.readRadix, Number.parts, hdigits, hhead, hmark, if_true, Cursor.skip_skip]
  · refine ⟨(valid, false), n, hn, fun rest => ?_⟩
    have hdigits := hscan rest
    simp only [Number.readRadix, Number.parts, hdigits, hhead, Option.some.injEq, hmark, if_false]

theorem readTail_staysOnLine (valid legacy : Bool) :
    StaysOnLine fun c => (Number.readTail valid legacy c).parts := by
  intro w offset hw
  have hexponent (ok : Bool) (n : Nat) (hn : n ≤ w.length) :=
    (readExponent_staysOnLine ok).skip offset hw hn
  rcases w with _ | ⟨c, w⟩
  · exact ⟨(valid, legacy), 0, Nat.le_refl _, fun rest => rfl⟩
  by_cases hmark : c = 'n'
  · subst hmark
    exact ⟨(valid && !legacy, legacy), 1, by simp, fun rest => rfl⟩
  by_cases hpoint : c = '.'
  · subst hpoint
    -- A point that no digits follow, as at the end of the line.
    have hplain (hhead : ∀ rest, ∃ d tail, w ++ '\n' :: rest = d :: tail ∧
        ¬ (d.isDigit ∨ d = '_')) : ∃ a n, n ≤ ('.' :: w).length ∧ ∀ rest,
          (Number.readTail valid legacy (.line ('.' :: w) offset rest)).parts =
            (a, (Cursor.line ('.' :: w) offset rest).skip n) := by
      obtain ⟨ok, m, -, hm, hscan⟩ := hexponent valid 1 (by simp)
      refine ⟨(ok, legacy), m, hm, fun rest => ?_⟩
      obtain ⟨d, tail, htail, hd⟩ := hhead rest
      have hexp := hscan rest
      simp only [Number.readTail, Number.parts, List.cons_append, htail, hd, if_false, hexp]
    rcases w with _ | ⟨d, w⟩
    · exact hplain fun rest => ⟨'\n', rest, rfl, by decide⟩
    by_cases hd : d.isDigit ∨ d = '_'
    · obtain ⟨ok, m, -, hm, hscan⟩ := decimals_staysOnLine.skip offset hw
        (show 1 ≤ ('.' :: d :: w).length by simp)
      obtain ⟨ok', k, -, hk, hscan'⟩ := hexponent (valid && ok) m hm
      refine ⟨(ok', legacy), k, hk, fun rest => ?_⟩
      have hdigits := hscan rest
      have hexp := hscan' rest
      simp only [Number.readTail, Number.parts, List.cons_append, hd, if_true, hdigits, hexp]
    · exact hplain fun rest => ⟨d, w ++ '\n' :: rest, rfl, hd⟩
  · obtain ⟨ok, m, -, hm, hscan⟩ := hexponent valid 0 (Nat.zero_le _)
    refine ⟨(ok, legacy), m, hm, fun rest => ?_⟩
    have hexp := hscan rest
    simp only [Cursor.skip] at hexp ⊢
    unfold Number.readTail
    split
    · next heq => exact absurd (List.cons.inj heq).1 hmark
    · next heq => exact absurd (List.cons.inj heq).1 hpoint
    · next heq => exact absurd (List.cons.inj heq).1 hpoint
    · simp only [Number.parts, hexp]

theorem utf8Size_of_isOctal (c : Char) (h : isOctal c) : c.utf8Size = 1 := by
  simp only [isOctal, Bool.and_eq_true, decide_eq_true_eq] at h
  have := UInt32.le_iff_toNat_le.1 h.2
  exact utf8Size_eq_one_of_lt (Nat.lt_of_le_of_lt this (by decide))

theorem utf8Size_of_isBit (c : Char) (h : (c = '0' || c = '1') = true) : c.utf8Size = 1 := by
  simp only [Bool.or_eq_true, decide_eq_true_eq] at h
  rcases h with rfl | rfl <;> rfl

theorem utf8Size_of_hexValue? (c : Char) (h : (hexValue? c).isSome) : c.utf8Size = 1 := by
  have hle : c ≤ '9' ∨ c ≤ 'f' ∨ c ≤ 'F' := by
    unfold hexValue? at h
    split at h
    · next hdigit => exact .inl hdigit.2
    · split at h
      · next hlower => exact .inr (.inl hlower.2)
      · split at h
        · next hupper => exact .inr (.inr hupper.2)
        · cases h
  rcases hle with h | h | h <;>
    exact utf8Size_eq_one_of_lt (Nat.lt_of_le_of_lt (UInt32.le_iff_toNat_le.1 h) (by decide))

theorem takeWhile_line {p : Char → Bool} (hp : p '\n' = false) (w rest : List Char) :
    (w ++ '\n' :: rest).takeWhile p = w.takeWhile p := by
  induction w with
  | nil => simp [hp]
  | cons c w ih => simp only [List.cons_append, List.takeWhile_cons, ih]

theorem read_staysOnLine : StaysOnLine fun c => (Number.read c).parts := by
  intro w offset hw
  have htail (ok legacy : Bool) (n : Nat) (hn : n ≤ w.length) :=
    (readTail_staysOnLine ok legacy).skip offset hw hn
  -- a whole part in decimal digits
  have hplain (hzero : ∀ rest d tail, w ++ '\n' :: rest ≠ '0' :: d :: tail)
      (hpoint : ∀ rest tail, w ++ '\n' :: rest ≠ '.' :: tail) : ∃ a n, n ≤ w.length ∧ ∀ rest,
        (Number.read (.line w offset rest)).parts = (a, (Cursor.line w offset rest).skip n) := by
    obtain ⟨ok, m, -, hm, hscan⟩ := decimals_staysOnLine.skip offset hw (Nat.zero_le _)
    obtain ⟨a, k, -, hk, hscan'⟩ := htail ok false m hm
    refine ⟨a, k, hk, fun rest => ?_⟩
    have hdigits := hscan rest
    unfold Number.read
    split
    · next heq => exact absurd heq (hzero _ _ _)
    · next heq => exact absurd heq (hpoint _ _)
    · simp only [Cursor.skip] at hdigits
      simp only [hdigits]
      exact hscan' rest
  rcases w with _ | ⟨c, w⟩
  · exact hplain (fun rest d tail h => absurd (List.cons.inj h).1 (by decide))
      fun rest tail h => absurd (List.cons.inj h).1 (by decide)
  by_cases hpoint : c = '.'
  · subst hpoint
    obtain ⟨a, k, -, hk, hscan⟩ := htail true false 0 (Nat.zero_le _)
    exact ⟨a, k, hk, hscan⟩
  by_cases hzero : c = '0'
  · subst hzero
    rcases w with _ | ⟨d, w⟩
    · obtain ⟨a, k, -, hk, hscan⟩ := htail true false 1 (by simp)
      exact ⟨a, k, hk, hscan⟩
    have hradix {isDigit : Char → Bool} (hsize : ∀ c, isDigit c → c.utf8Size = 1)
        (hnewline : isDigit '\n' = false) :=
      (readRadix_staysOnLine hsize hnewline).skip offset hw
        (show 2 ≤ ('0' :: d :: w).length by simp)
    simp only [Number.read, List.cons_append]
    split
    · obtain ⟨a, k, -, hk, hscan⟩ := hradix utf8Size_of_hexValue? (by decide)
      exact ⟨a, k, hk, hscan⟩
    split
    · obtain ⟨a, k, -, hk, hscan⟩ := hradix utf8Size_of_isOctal (by decide)
      exact ⟨a, k, hk, hscan⟩
    split
    · obtain ⟨a, k, -, hk, hscan⟩ :=
        @hradix (fun c => c = '0' || c = '1') utf8Size_of_isBit (by decide)
      exact ⟨a, k, hk, hscan⟩
    split
    · have hrun (rest : List Char) : (d :: (w ++ '\n' :: rest)).takeWhile Char.isDigit =
          (d :: w).takeWhile Char.isDigit := takeWhile_line rfl (d :: w) rest
      have hn : ((d :: w).takeWhile Char.isDigit).length + 1 ≤ ('0' :: d :: w).length :=
        Nat.succ_le_succ (List.takeWhile_sublist _).length_le
      have hhead (rest : List Char) := head?_skip_line _ offset _ rest hn
      simp only [hrun, hhead, Option.some.injEq]
      split
      · exact ⟨(false, true), _, hn, fun rest => rfl⟩
      split
      · exact ⟨(true, true), _, hn, fun rest => rfl⟩
      · obtain ⟨a, k, -, hk, hscan⟩ := htail true true _ hn
        exact ⟨a, k, hk, hscan⟩
    split
    · exact ⟨(false, false), 1, by simp, fun rest => rfl⟩
    · obtain ⟨a, k, -, hk, hscan⟩ := htail true false 1 (by simp)
      exact ⟨a, k, hk, hscan⟩
  · exact hplain (fun rest d tail h => hzero (List.cons.inj h).1)
      fun rest tail h => hpoint (List.cons.inj h).1

/-! ### Words -/

theorem hexRun_line (w : List Char) : ∃ digits tail, w = digits ++ tail ∧
    ∀ rest, hexRun (w ++ '\n' :: rest) = (digits, tail ++ '\n' :: rest) := by
  induction w with
  | nil => exact ⟨[], [], rfl, fun rest => rfl⟩
  | cons c w ih =>
      obtain ⟨digits, tail, hsplit, hrun⟩ := ih
      by_cases hc : (hexValue? c).isSome
      · refine ⟨c :: digits, tail, congrArg (c :: ·) hsplit, fun rest => ?_⟩
        simp only [List.cons_append, hexRun, hc, hrun, if_true]
      · refine ⟨[], c :: w, rfl, fun rest => ?_⟩
        simp only [List.cons_append, hexRun, hc]
        rfl

theorem hexNumber?_newline (before behind : List Char) :
    hexNumber? (before ++ '\n' :: behind) = none := by
  unfold hexNumber?
  rw [List.foldlM_append]
  cases List.foldlM (fun n c => (hexValue? c).map (n * 16 + ·)) 0 before <;> rfl

theorem unicodeEscape?_plain {cs : List Char} (hcs : cs.head? ≠ some '\x7b') :
    unicodeEscape? cs =
      if 4 ≤ cs.length then (hexNumber? (cs.take 4)).map fun n => (n, 4) else none := by
  rcases cs with _ | ⟨a, _ | ⟨b, _ | ⟨c, _ | ⟨d, cs⟩⟩⟩⟩
  case cons.cons.cons.cons =>
    rw [unicodeEscape?.eq_2 _ _ _ _ _ fun ha => hcs (congrArg some ha)]
    simp
  all_goals
    rw [unicodeEscape?.eq_3 _ (fun rest h => hcs (by rw [h]; rfl)) (by simp)]
    simp

/-- An escape by number does not leave the line, and nor does its length. -/
theorem unicodeEscape?_line (w : List Char) : ∃ escape,
    (∀ rest, unicodeEscape? (w ++ '\n' :: rest) = escape) ∧
      ∀ n length, escape = some (n, length) → length ≤ w.length := by
  -- An escape in braces ends at the closing brace, the other kind after four digits. The newline is
  -- neither, so the line decides on its own.
  by_cases hbrace : w.head? = some '\x7b'
  · rcases w with _ | ⟨a, w⟩
    · cases hbrace
    obtain rfl := Option.some.inj hbrace
    obtain ⟨digits, tail, rfl, hrun⟩ := hexRun_line w
    simp only [List.cons_append, unicodeEscape?.eq_1, hrun]
    rcases tail with _ | ⟨c, tail⟩
    · exact ⟨none, fun rest => rfl, by simp⟩
    · by_cases hc : c = '\x7d'
      · subst hc
        refine ⟨_, fun rest => rfl, fun n length h => ?_⟩
        have hlength : length = digits.length + 2 := by
          cases hnumber : hexNumber? digits <;> by_cases hnil : digits = [] <;>
            simp_all [guard]
          split at h
          · simp_all
          · cases h
        rw [hlength]
        simp
      · refine ⟨none, fun rest => ?_, by simp⟩
        simp only [List.cons_append]
        split
        · next heq => exact absurd (List.cons.inj (Prod.mk.inj heq).2).1 hc
        · rfl
  · have hhead (rest : List Char) : (w ++ '\n' :: rest).head? ≠ some '\x7b' := by
      rcases w with _ | ⟨a, w⟩
      · simp
      · simpa using hbrace
    simp only [unicodeEscape?_plain (hhead _)]
    by_cases hlength : 4 ≤ w.length
    · refine ⟨(hexNumber? (w.take 4)).map fun n => (n, 4), fun rest => ?_, ?_⟩
      · rw [if_pos (by simp; omega), List.take_append_of_le_length hlength]
      · simp only [Option.map_eq_some_iff, Prod.mk.injEq]
        rintro n length ⟨_, -, -, rfl⟩
        exact hlength
    · refine ⟨none, fun rest => ?_, by simp⟩
      split
      · obtain ⟨k, hk⟩ : ∃ k, 4 - w.length = k + 1 := ⟨3 - w.length, by omega⟩
        rw [List.take_append, List.take_of_length_le (by omega), hk, List.take_succ_cons,
          hexNumber?_newline]
        rfl
      · rfl

/-- Whether a character may stand at a place in a word. -/
def fitsWord (first : Bool) (c : Char) : Bool :=
  if first then isIdentifierStart c else isIdentifierPart c

theorem readWord_escape (first : Bool) (offset : Nat) {rest : List Char} {n length : Nat}
    (hescape : unicodeEscape? rest = some (n, length)) :
    readWord first 0 offset ('\\' :: 'u' :: rest) =
      if fitsWord first (Char.ofNat n) then
        (readWord false (length + 1) (offset + 1) ('u' :: rest)).map
          fun word => (Char.ofNat n :: word.1, true, word.2.2)
      else none := by
  rw [readWord.eq_3, if_pos rfl, hescape]
  show ((guard (fitsWord first (Char.ofNat n) = true) : Option Unit) >>= fun _ => _) = _
  by_cases hfits : fitsWord first (Char.ofNat n)
  · rw [if_pos hfits, guard, if_pos hfits]
    cases readWord false (length + 1) (offset + 1) ('u' :: rest) <;> rfl
  · rw [if_neg hfits, guard, if_neg hfits]
    rfl

theorem readWord_plain (first : Bool) (offset : Nat) {c : Char} (rest : List Char)
    (hc : c ≠ '\\') :
    readWord first 0 offset (c :: rest) =
      if fitsWord first c then
        (readWord false 0 (offset + c.utf8Size) rest).map
          fun word => (c :: word.1, word.2.1, word.2.2)
      else some ([], false, ⟨c :: rest, offset⟩) := by
  by_cases hu : ∃ after, rest = 'u' :: after
  · obtain ⟨after, rfl⟩ := hu
    rw [readWord.eq_3, if_neg hc]
    show (if fitsWord first c then _ else _) = _
    split
    · cases readWord false 0 (offset + c.utf8Size) ('u' :: after) <;> rfl
    · rfl
  · rw [readWord.eq_4 _ _ _ _ fun after h => hu ⟨after, h⟩, if_neg hc]
    show (if fitsWord first c then _ else _) = _
    split
    · cases readWord false 0 (offset + c.utf8Size) rest <;> rfl
    · rfl

/-- A word ends in front of the character, or has one more character, which may stand there: the
character itself, or the one of the escape that begins with it. -/
theorem readWord_cases {first : Bool} {offset : Nat} {c : Char} {rest name : List Char}
    {escaped : Bool} {next : Cursor}
    (h : readWord first 0 offset (c :: rest) = some (name, escaped, next)) :
    (name = [] ∧ next = ⟨c :: rest, offset⟩) ∨
      ∃ x inner pending escapedLater, name = x :: inner ∧ fitsWord first x ∧
        readWord false pending (offset + c.utf8Size) rest = some (inner, escapedLater, next) := by
  -- A word goes on with the character itself or with the one that an escape stands for.
  by_cases hescape : c = '\\'
  · subst hescape
    rcases rest with _ | ⟨d, after⟩
    · cases h
    by_cases hu : d = 'u'
    · subst hu
      cases hnumber : unicodeEscape? after with
      | none => simp [readWord, hnumber] at h
      | some number =>
          obtain ⟨n, length⟩ := number
          rw [readWord_escape first offset hnumber] at h
          split at h
          · next hfits =>
            obtain ⟨⟨inner, escapedLater, _⟩, hinner, heq⟩ := Option.map_eq_some_iff.1 h
            cases heq
            exact .inr ⟨Char.ofNat n, inner, length + 1, escapedLater, rfl, hfits, hinner⟩
          · cases h
    · simp [readWord, hu] at h
  · rw [readWord_plain first offset rest hescape] at h
    split at h
    · next hfits =>
      obtain ⟨⟨inner, escapedLater, _⟩, hinner, heq⟩ := Option.map_eq_some_iff.1 h
      cases heq
      exact .inr ⟨c, inner, 0, escapedLater, rfl, hfits, hinner⟩
    · cases h
      exact .inl ⟨rfl, rfl⟩

theorem readWord_line {w : List Char} (hw : '\n' ∉ w) (first : Bool) (pending offset : Nat)
    (hpending : pending ≤ w.length) :
    (∀ rest, readWord first pending offset (w ++ '\n' :: rest) = none) ∨
      ∃ name escaped n, n ≤ w.length ∧ ∀ rest,
        readWord first pending offset (w ++ '\n' :: rest) =
          some (name, escaped, (Cursor.line w offset rest).skip n) := by
  -- By induction on the line; `pending` counts the characters of an escape that was read already.
  induction w generalizing first pending offset with
  | nil =>
      obtain rfl : pending = 0 := Nat.le_zero.1 hpending
      refine .inr ⟨[], false, 0, Nat.le_refl _, fun rest => ?_⟩
      cases first <;> rfl
  | cons c w ih =>
      rw [List.mem_cons, not_or] at hw
      rcases pending with _ | pending
      · by_cases hescape : c = '\\'
        · subst hescape
          rcases w with _ | ⟨d, w⟩
          · exact .inl fun rest => rfl
          by_cases hu : d = 'u'
          · subst hu
            obtain ⟨escape, hescape, hlength⟩ := unicodeEscape?_line w
            rcases escape with _ | ⟨n, length⟩
            · exact .inl fun rest => by simp [readWord, hescape]
            simp only [List.cons_append, readWord_escape _ _ (hescape _)]
            split
            · rcases ih hw.2 false (length + 1) (offset + 1)
                (Nat.succ_le_succ (hlength _ _ rfl)) with hnone | ⟨name, escaped, k, hk, hread⟩
              · exact .inl fun rest => congrArg (Option.map _) (hnone rest)
              · exact .inr ⟨Char.ofNat n :: name, true, k + 1, Nat.succ_le_succ hk,
                  fun rest => congrArg (Option.map _) (hread rest)⟩
            · exact .inl fun rest => rfl
          · exact .inl fun rest => by simp [readWord, hu]
        · simp only [List.cons_append, readWord_plain _ _ _ hescape]
          split
          · rcases ih hw.2 false 0 (offset + c.utf8Size) (Nat.zero_le _) with
              hnone | ⟨name, escaped, n, hn, hread⟩
            · exact .inl fun rest => congrArg (Option.map _) (hnone rest)
            · exact .inr ⟨c :: name, escaped, n + 1, Nat.succ_le_succ hn,
                fun rest => congrArg (Option.map _) (hread rest)⟩
          · exact .inr ⟨[], false, 0, Nat.zero_le _, fun rest => rfl⟩
      · rcases ih hw.2 first pending (offset + c.utf8Size) (Nat.le_of_succ_le_succ hpending) with
          hnone | ⟨name, escaped, n, hn, hread⟩
        · exact .inl hnone
        · exact .inr ⟨name, escaped, n + 1, Nat.succ_le_succ hn, hread⟩

/-! ### Punctuators -/

theorem isPrefixOf_line {text : List Char} (htext : '\n' ∉ text) (w rest : List Char) :
    text.isPrefixOf (w ++ '\n' :: rest) = text.isPrefixOf w := by
  induction text generalizing w with
  | nil => rfl
  | cons c text ih =>
      rw [List.mem_cons, not_or] at htext
      rcases w with _ | ⟨d, w⟩
      · simp only [List.nil_append, List.isPrefixOf, Bool.and_eq_false_imp, beq_iff_eq]
        exact fun h => absurd h.symm htext.1
      · simp only [List.cons_append, List.isPrefixOf, ih htext.2]

theorem startsWith_line {text : String} (htext : '\n' ∉ text.toList) (w rest : List Char) :
    startsWith (w ++ '\n' :: rest) text = startsWith w text := by
  have hdigit : text.toList.isPrefixOf w → text = "?." →
      (((w ++ '\n' :: rest).drop 2).head?.any Char.isDigit) =
        ((w.drop 2).head?.any Char.isDigit) := by
    rintro hbegins rfl
    have hlength : 2 ≤ w.length := (List.isPrefixOf_iff_prefix.1 hbegins).length_le
    rw [List.drop_append_of_le_length hlength]
    cases w.drop 2 <;> rfl
  unfold startsWith
  rw [isPrefixOf_line htext]
  by_cases hbegins : text.toList.isPrefixOf w
  · by_cases hpoint : text = "?."
    · rw [hdigit hbegins hpoint]
    · simp [hpoint]
  · simp [hbegins]

theorem newline_notMem_punctuatorsFrom (c : Char) :
    ∀ text ∈ punctuatorsFrom c, '\n' ∉ text.toList := by
  unfold punctuatorsFrom
  split <;> decide

theorem punctuator?_line (w rest : List Char) :
    punctuator? (w ++ '\n' :: rest) = punctuator? w := by
  rcases w with _ | ⟨c, w⟩
  · rfl
  · have hstarts := newline_notMem_punctuatorsFrom c
    simp only [List.cons_append, punctuator?]
    generalize punctuatorsFrom c = texts at hstarts ⊢
    induction texts with
    | nil => rfl
    | cons text texts ih =>
        have hmatch := startsWith_line (hstarts text (.head _)) (c :: w) rest
        rw [List.cons_append] at hmatch
        simp only [List.find?_cons, hmatch, ih fun t ht => hstarts t (.tail _ ht)]

theorem length_le_of_punctuator? {cs : List Char} {text : String} (h : punctuator? cs = some text) :
    text.length ≤ cs.length := by
  rcases cs with _ | ⟨c, cs⟩
  · cases h
  · have hbegins := List.find?_some h
    unfold startsWith at hbegins
    rw [Bool.and_eq_true] at hbegins
    exact (List.isPrefixOf_iff_prefix.1 hbegins.1).length_le

/-! ### Regular expressions -/

theorem regexEnd_line {w : List Char} (hw : '\n' ∉ w) (inBrackets : Bool) (offset : Nat) :
    (∀ rest, regexEnd inBrackets offset (w ++ '\n' :: rest) = none) ∨
      ∃ n, n ≤ w.length ∧ ∀ rest, regexEnd inBrackets offset (w ++ '\n' :: rest) =
        some ((Cursor.line w offset rest).skip n) := by
  induction hlength : w.length using Nat.strongRecOn generalizing w inBrackets offset with
  | _ length ih =>
    subst hlength
    -- the expression goes on behind the first `k` characters
    have hon (k : Nat) (inside : Bool) (hk : 0 < k) (hle : k ≤ w.length)
        (hread : ∀ rest, regexEnd inBrackets offset (w ++ '\n' :: rest) =
          regexEnd inside (offset + byteSize (w.take k)) (w.drop k ++ '\n' :: rest)) :
        (∀ rest, regexEnd inBrackets offset (w ++ '\n' :: rest) = none) ∨
          ∃ n, n ≤ w.length ∧ ∀ rest, regexEnd inBrackets offset (w ++ '\n' :: rest) =
            some ((Cursor.line w offset rest).skip n) := by
      have hdrop : (w.drop k).length = w.length - k := List.length_drop
      rcases ih (w.drop k).length (by omega) (fun hmem => hw (List.mem_of_mem_drop hmem)) inside
        (offset + byteSize (w.take k)) rfl with hnone | ⟨n, hn, hend⟩
      · exact .inl fun rest => (hread rest).trans (hnone rest)
      · refine .inr ⟨k + n, by omega, fun rest => ?_⟩
        rw [hread, hend, ← Cursor.skip_skip, Cursor.skip_append _ _ _ _ hle]
    rcases w with _ | ⟨c, w⟩
    · exact .inl fun rest => rfl
    rw [List.mem_cons, not_or] at hw
    by_cases hescape : c = '\\'
    · subst hescape
      rcases w with _ | ⟨d, w⟩
      · exact .inl fun rest => rfl
      by_cases hend : isLineEnd d
      · exact .inl fun rest => by simp [regexEnd, hend]
      · refine hon 2 inBrackets (by decide) (by simp) fun rest => ?_
        have hsize : byteSize (('\\' :: d :: w).take 2) = 1 + d.utf8Size := rfl
        rw [hsize, ← Nat.add_assoc]
        exact (regexEnd.eq_2 ..).trans (if_neg hend)
    · have hread (rest : List Char) : regexEnd inBrackets offset (c :: (w ++ '\n' :: rest)) =
          if isLineEnd c then none
          else if c = '/' ∧ ¬ inBrackets then some ⟨w ++ '\n' :: rest, offset + 1⟩
          else if c = '[' then regexEnd true (offset + 1) (w ++ '\n' :: rest)
          else if c = ']' then regexEnd false (offset + 1) (w ++ '\n' :: rest)
          else regexEnd inBrackets (offset + c.utf8Size) (w ++ '\n' :: rest) :=
        regexEnd.eq_3 _ _ _ _ fun _ _ h _ => hescape h
      by_cases hend : isLineEnd c
      · exact .inl fun rest => by simp [hread, hend]
      by_cases hclose : c = '/' ∧ ¬ inBrackets
      · refine .inr ⟨1, by simp, fun rest => ?_⟩
        simp only [List.cons_append, hread, hend, if_pos hclose]
        rw [hclose.1]
        rfl
      by_cases hopen : c = '['
      · refine hon 1 true (by decide) (by simp) fun rest => ?_
        subst hopen
        exact hread rest
      by_cases hshut : c = ']'
      · refine hon 1 false (by decide) (by simp) fun rest => ?_
        subst hshut
        exact hread rest
      · refine hon 1 inBrackets (by decide) (by simp) fun rest => ?_
        simp only [List.cons_append, hread, hend, if_neg hclose, if_neg hopen, if_neg hshut]
        rfl

end ModuleLinker.Script
