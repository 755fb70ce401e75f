/-
# ModuleLinker.Proofs.TextScan -- scanners that pass the ends of lines

Trivia, strings and templates may go over several lines. In a text whose lines all have their end,
reading them either stops inside of the text, and then nothing behind the text matters, or goes on
behind it.
-/

import ModuleLinker.Proofs.LineScan

namespace ModuleLinker.Script

open Text

variable {α : Type}

/-! ## Complete texts -/

/-- A text in which every line has its end. -/
def Complete (s : List Char) : Prop := s = [] ∨ s.getLast? = some '\n'

theorem Complete.drop {s : List Char} (hs : Complete s) (n : Nat) : Complete (s.drop n) := by
  by_cases hn : s.drop n = []
  · exact .inl hn
  · refine .inr ?_
    rcases hs with rfl | hlast
    · simp at hn
    · rw [List.getLast?_drop, if_neg (by simpa using hn), hlast]

theorem Complete.append {s t : List Char} (hs : Complete s) (ht : Complete t) :
    Complete (s ++ t) := by
  rcases ht with rfl | ht
  · rwa [List.append_nil]
  · refine .inr ?_
    rw [List.getLast?_append, ht]
    rfl

theorem Complete.exists_line {s : List Char} (hs : Complete s) (hne : s ≠ []) :
    ∃ w tail, '\n' ∉ w ∧ s = w ++ '\n' :: tail := by
  have hmem : '\n' ∈ s := List.mem_of_getLast? (hs.resolve_left hne)
  obtain ⟨w, tail, hsplit, hw⟩ := List.eq_append_cons_of_mem hmem
  exact ⟨w, tail, hw, hsplit⟩

/-- What is read at the start of `s` either does not depend on what follows, or goes on there. -/
def ReadsLocally (scan : Cursor → α × Cursor) (s : List Char) (offset : Nat) : Prop :=
  (∃ a n, n < s.length ∧
    ∀ rest, scan ⟨s ++ rest, offset⟩ = (a, Cursor.skip n ⟨s ++ rest, offset⟩)) ∨
  ∀ rest, Complete rest →
    ∃ n, s.length ≤ n ∧ (scan ⟨s ++ rest, offset⟩).2 = Cursor.skip n ⟨s ++ rest, offset⟩

/-- A scanner only moves forward. -/
def MovesOn (scan : Cursor → α × Cursor) : Prop := ∀ c, ∃ n, (scan c).2 = c.skip n

theorem MovesOn.readsLocally_nil {scan : Cursor → α × Cursor} (h : MovesOn scan) (offset : Nat) :
    ReadsLocally scan [] offset :=
  .inr fun rest _ => (h ⟨rest, offset⟩).imp fun _ hn => ⟨Nat.zero_le _, hn⟩

theorem ReadsLocally.of_eq {scan : Cursor → α × Cursor} {s : List Char} {offset n : Nat} (a : α)
    (h : ∀ rest, scan ⟨s ++ rest, offset⟩ = (a, Cursor.skip n ⟨s ++ rest, offset⟩)) :
    ReadsLocally scan s offset := by
  rcases Nat.lt_or_ge n s.length with hn | hn
  · exact .inl ⟨a, n, hn, h⟩
  · exact .inr fun rest _ => ⟨n, hn, congrArg Prod.snd (h rest)⟩

/-- Reading goes on behind the first `k` characters. -/
theorem ReadsLocally.skip {scan : Cursor → α × Cursor} {s : List Char} {k offset : Nat}
    (scan' : Cursor → α × Cursor) (f : α → α) (hk : k ≤ s.length)
    (hscan : ∀ rest, scan ⟨s ++ rest, offset⟩ =
      Prod.map f id (scan' (Cursor.skip k ⟨s ++ rest, offset⟩)))
    (hrest : ReadsLocally scan' (s.drop k) (offset + byteSize (s.take k))) :
    ReadsLocally scan s offset := by
  have hlength : (s.drop k).length = s.length - k := List.length_drop
  rcases hrest with ⟨a, n, hn, hread⟩ | hpast
  · refine .inl ⟨f a, k + n, by omega, fun rest => ?_⟩
    rw [hscan, Cursor.skip_append _ _ _ _ hk, hread, ← Cursor.skip_skip,
      Cursor.skip_append _ _ _ _ hk]
    rfl
  · refine .inr fun rest hcomplete => ?_
    obtain ⟨n, hn, hread⟩ := hpast rest hcomplete
    refine ⟨k + n, by omega, ?_⟩
    rw [hscan, ← Cursor.skip_skip, Cursor.skip_append _ _ _ _ hk]
    exact hread

theorem Complete.isPrefixOf_append {s text : List Char} (hs : Complete s) (hne : s ≠ [])
    (htext : '\n' ∉ text) (rest : List Char) :
    text.isPrefixOf (s ++ rest) = text.isPrefixOf s := by
  obtain ⟨w, tail, -, rfl⟩ := hs.exists_line hne
  rw [List.append_assoc, List.cons_append, isPrefixOf_line htext, isPrefixOf_line htext]

/-- Whether a mark stands at the start of a text does not depend on what follows the text. -/
theorem Complete.begins_or_not {c : Char} {s text : List Char} (hs : Complete (c :: s))
    (htext : '\n' ∉ text) :
    (∃ tail, c :: s = text ++ tail) ∨ ∀ rest, text.isPrefixOf (c :: (s ++ rest)) = false := by
  by_cases hbegins : text.isPrefixOf (c :: s)
  · obtain ⟨tail, htail⟩ := List.isPrefixOf_iff_prefix.1 hbegins
    exact .inl ⟨tail, htail.symm⟩
  · refine .inr fun rest => ?_
    rw [← List.cons_append, hs.isPrefixOf_append (List.cons_ne_nil c s) htext]
    exact Bool.eq_false_iff.2 hbegins

/-! ### Trivia -/

/-- The scan of trivia with its results in the order of scanners. -/
def triviaFrom (mode : TriviaMode) (lineBreak : Bool) (mark : Option Nat) (c : Cursor) :
    (Bool × Option Nat × Option Nat) × Cursor :=
  let trivia := Trivia.scan mode lineBreak mark c.offset c.rest
  ((trivia.lineBreak, trivia.mark, trivia.unclosed), trivia.cursor)

theorem scan_between (lineBreak : Bool) (mark : Option Nat) (offset : Nat) (c : Char)
    (cs : List Char) :
    Trivia.scan .between lineBreak mark offset (c :: cs) =
      if ['/', '/'].isPrefixOf (c :: cs) then
        Trivia.scan .lineComment lineBreak mark (offset + 2) (cs.drop 1)
      else if ['/', '*'].isPrefixOf (c :: cs) then
        Trivia.scan (.blockComment offset) lineBreak mark (offset + 2) (cs.drop 1)
      else if ['<', '!', '-', '-'].isPrefixOf (c :: cs) then
        Trivia.scan .lineComment lineBreak (mark.or (some offset)) (offset + 4) (cs.drop 3)
      else if ['-', '-', '>'].isPrefixOf (c :: cs) then
        if lineBreak then
          Trivia.scan .lineComment lineBreak (mark.or (some offset)) (offset + 3) (cs.drop 2)
        else ⟨⟨c :: cs, offset⟩, lineBreak, mark, none⟩
      else if isLineEnd c then Trivia.scan .between true mark (offset + c.utf8Size) cs
      else if isSpace c then Trivia.scan .between lineBreak mark (offset + c.utf8Size) cs
      else ⟨⟨c :: cs, offset⟩, lineBreak, mark, none⟩ := by
  have hno {d : Char} {text : List Char} (h : ∀ tail, c = d → cs = text ++ tail → False) :
      ¬ (d :: text).isPrefixOf (c :: cs) = true := by
    intro hbegins
    obtain ⟨tail, htail⟩ := List.isPrefixOf_iff_prefix.1 hbegins
    rw [List.cons_append, List.cons.injEq] at htail
    exact h tail htail.1.symm htail.2.symm
  rw [Trivia.scan.eq_def]
  split
  case h_1 heq _ => cases heq
  case h_2 heq _ => cases heq
  case h_3 hmode _ => cases hmode
  case h_4 heq _ => cases heq
  case h_5 heq _ => cases heq
  case h_6 heq => cases heq; rfl
  case h_7 heq => cases heq; rfl
  case h_8 heq => cases heq; rfl
  case h_9 heq => cases heq; rfl
  case h_10 hline hblock hopen hclose _ heq =>
    cases heq
    rw [if_neg (hno hline), if_neg (hno hblock), if_neg (hno hopen), if_neg (hno hclose)]

theorem scan_blockComment (start : Nat) (lineBreak : Bool) (mark : Option Nat) (offset : Nat)
    (c : Char) (cs : List Char) :
    Trivia.scan (.blockComment start) lineBreak mark offset (c :: cs) =
      if ['*', '/'].isPrefixOf (c :: cs) then
        Trivia.scan .between lineBreak mark (offset + 2) (cs.drop 1)
      else
        Trivia.scan (.blockComment start) (lineBreak || isLineEnd c) mark (offset + c.utf8Size)
          cs := by
  by_cases hclose : ['*', '/'].isPrefixOf (c :: cs)
  · obtain ⟨tail, htail⟩ := List.isPrefixOf_iff_prefix.1 hclose
    rw [List.cons_append, List.cons_append, List.cons.injEq] at htail
    obtain ⟨rfl, rfl⟩ := htail
    rfl
  · rw [if_neg hclose, Trivia.scan.eq_5]
    rintro rest rfl rfl
    exact hclose rfl

theorem triviaFrom_movesOn (mode : TriviaMode) (lineBreak : Bool) (mark : Option Nat) :
    MovesOn (triviaFrom mode lineBreak mark) := by
  rintro ⟨cs, offset⟩
  unfold triviaFrom
  dsimp only
  fun_induction Trivia.scan mode lineBreak mark offset cs
  case case3 ih | case4 ih | case6 ih | case12 ih | case13 ih =>
    obtain ⟨n, hn⟩ := ih
    exact ⟨n + 1, hn⟩
  case case5 ih | case7 ih | case8 ih =>
    obtain ⟨n, hn⟩ := ih
    exact ⟨n + 2, hn⟩
  case case9 ih =>
    obtain ⟨n, hn⟩ := ih
    exact ⟨n + 4, hn⟩
  case case10 ih =>
    obtain ⟨n, hn⟩ := ih
    exact ⟨n + 3, hn⟩
  all_goals exact ⟨0, rfl⟩

theorem triviaFrom_readsLocally (mode : TriviaMode) (lineBreak : Bool) (mark : Option Nat)
    {s : List Char} (hs : Complete s) (offset : Nat) :
    ReadsLocally (triviaFrom mode lineBreak mark) s offset := by
  induction hlength : s.length using Nat.strongRecOn
    generalizing mode lineBreak mark s offset with
  | _ length ih =>
    subst hlength
    rcases s with _ | ⟨c, s⟩
    · exact (triviaFrom_movesOn mode lineBreak mark).readsLocally_nil offset
    -- the scan goes on behind a stretch of the text, in some mode
    have hon (k : Nat) (hk : 0 < k) (hle : k ≤ (c :: s).length) (mode' : TriviaMode)
        (lineBreak' : Bool) (mark' : Option Nat)
        (hscan : ∀ rest, triviaFrom mode lineBreak mark ⟨c :: s ++ rest, offset⟩ =
          triviaFrom mode' lineBreak' mark' (Cursor.skip k ⟨c :: s ++ rest, offset⟩)) :
        ReadsLocally (triviaFrom mode lineBreak mark) (c :: s) offset := by
      refine ReadsLocally.skip _ id hle (fun rest => (hscan rest).trans rfl)
        (ih _ ?_ _ _ _ (hs.drop k) _ rfl)
      rw [List.length_drop]
      omega
    have hmark (text : List Char) (htext : '\n' ∉ text) := hs.begins_or_not htext
    rcases mode with _ | _ | start
    · rcases hmark ['/', '/'] (by decide) with ⟨tail, h⟩ | hline
      · cases h
        exact hon 2 Nat.two_pos (by simp) .lineComment lineBreak mark fun rest => rfl
      rcases hmark ['/', '*'] (by decide) with ⟨tail, h⟩ | hblock
      · cases h
        exact hon 2 Nat.two_pos (by simp) (.blockComment offset) lineBreak mark fun rest => rfl
      rcases hmark ['<', '!', '-', '-'] (by decide) with ⟨tail, h⟩ | hopen
      · cases h
        exact hon 4 (by decide) (by simp) .lineComment lineBreak (mark.or (some offset))
          fun rest => rfl
      rcases hmark ['-', '-', '>'] (by decide) with ⟨tail, h⟩ | hclose
      · cases h
        by_cases hbreak : lineBreak
        · subst hbreak
          exact hon 3 (by decide) (by simp) .lineComment true (mark.or (some offset))
            fun rest => rfl
        · obtain rfl := Bool.eq_false_iff.2 hbreak
          exact .inl ⟨(false, mark, none), 0, by simp, fun rest => rfl⟩
      by_cases hend : isLineEnd c
      · refine hon 1 Nat.one_pos (by simp) .between true mark fun rest => ?_
        simp [triviaFrom, scan_between, hline, hblock, hopen, hclose, hend, Cursor.skip]
      by_cases hspace : isSpace c
      · refine hon 1 Nat.one_pos (by simp) .between lineBreak mark fun rest => ?_
        simp [triviaFrom, scan_between, hline, hblock, hopen, hclose, hend, hspace, Cursor.skip]
      · refine .inl ⟨(lineBreak, mark, none), 0, by simp, fun rest => ?_⟩
        simp [triviaFrom, scan_between, hline, hblock, hopen, hclose, hend, hspace, Cursor.skip]
    · by_cases hend : isLineEnd c
      · refine hon 1 Nat.one_pos (by simp) .between true mark fun rest => ?_
        simp [triviaFrom, Trivia.scan, hend, Cursor.skip]
      · refine hon 1 Nat.one_pos (by simp) .lineComment lineBreak mark fun rest => ?_
        simp [triviaFrom, Trivia.scan, hend, Cursor.skip]
    · rcases hmark ['*', '/'] (by decide) with ⟨tail, h⟩ | hclose
      · cases h
        exact hon 2 Nat.two_pos (by simp) .between lineBreak mark fun rest => rfl
      · refine hon 1 Nat.one_pos (by simp) (.blockComment start) (lineBreak || isLineEnd c) mark
          fun rest => ?_
        simp [triviaFrom, scan_blockComment, hclose, Cursor.skip]

/-! ### Strings -/

theorem Complete.tail {c : Char} {s : List Char} (hs : Complete (c :: s)) : Complete s :=
  hs.drop 1

theorem Complete.ne_nil {c : Char} {s : List Char} (hs : Complete (c :: s)) (hc : c ≠ '\n') :
    s ≠ [] := by
  rintro rfl
  rcases hs with h | h
  · cases h
  · exact hc (Option.some.inj h)

theorem head?_append {s : List Char} (hne : s ≠ []) (rest : List Char) :
    (s ++ rest).head? = s.head? := by
  rcases s with _ | ⟨c, s⟩
  · exact absurd rfl hne
  · rfl

theorem takeWhile_take_append {p : Char → Bool} (hp : p '\n' = false) {s : List Char}
    (hs : Complete s) (hne : s ≠ []) (n : Nat) (rest : List Char) :
    ((s ++ rest).take n).takeWhile p = (s.take n).takeWhile p := by
  obtain ⟨w, tail, -, rfl⟩ := hs.exists_line hne
  clear hs hne
  induction w generalizing n with
  | nil => cases n <;> simp [hp]
  | cons c w ih =>
      cases n with
      | zero => rfl
      | succ n =>
          simp only [List.cons_append, List.take_succ_cons, List.takeWhile_cons] at ih ⊢
          rw [ih n]

theorem unicodeEscape?_append {s : List Char} (hs : Complete s) (hne : s ≠ [])
    (rest : List Char) : unicodeEscape? (s ++ rest) = unicodeEscape? s ∧
      ∀ n length, unicodeEscape? s = some (n, length) → length ≤ s.length := by
  obtain ⟨w, tail, -, rfl⟩ := hs.exists_line hne
  obtain ⟨escape, hescape, hlength⟩ := unicodeEscape?_line w
  rw [List.append_assoc, List.cons_append, hescape, hescape]
  refine ⟨rfl, fun n length h => Nat.le_trans (hlength n length h) ?_⟩
  rw [List.length_append]
  exact Nat.le_add_right ..

theorem Escape.read_plain {c : Char} {cs : List Char} (hu : c ≠ 'u') (hx : c ≠ 'x')
    (hreturn : c = '\r' → cs.head? ≠ some '\n') :
    Escape.read (c :: cs) =
      if isLineEnd c then .lineContinuation 1
      else if c = '0' ∧ (cs.head?.map Char.isDigit) ≠ some true then .chars ['\x00'] false 1
      else if isOctal c then
        .chars [Char.ofNat (octalNumber (octalRun (c :: cs)))] true (octalRun (c :: cs)).length
      else if c = '8' ∨ c = '9' then .chars [c] true 1
      else .chars [plainEscape c] false 1 := by
  rw [Escape.read.eq_def]
  split
  case h_1 heq => cases heq
  case h_2 heq =>
    cases heq
    exact absurd rfl (hreturn rfl)
  case h_3 heq => exact absurd (List.cons.inj heq).1 hu
  case h_4 heq => exact absurd (List.cons.inj heq).1 hx
  case h_5 heq => exact absurd (List.cons.inj heq).1 hx
  case h_6 heq =>
    cases heq
    rfl

theorem Escape.read_append {s : List Char} (hs : Complete s) (hne : s ≠ []) (rest : List Char) :
    Escape.read (s ++ rest) = Escape.read s := by
  rcases s with _ | ⟨c, s⟩
  · exact absurd rfl hne
  by_cases hend : c = '\n'
  · subst hend
    rfl
  have htail := hs.tail
  have hmore := hs.ne_nil hend
  rw [List.cons_append]
  -- Some escapes look further than one character, for a number or a run of digits. A complete text
  -- ends with a newline, which stops each of them.
  by_cases hu : c = 'u'
  · subst hu
    obtain ⟨hescape, hlength⟩ := unicodeEscape?_append htail hmore rest
    rw [Escape.read.eq_3, Escape.read.eq_3, hescape]
    cases h : unicodeEscape? s with
    | none => rfl
    | some escape =>
        simp only [List.take_append_of_le_length (hlength _ _ h)]
  by_cases hx : c = 'x'
  · subst hx
    rcases s with _ | ⟨a, _ | ⟨b, s⟩⟩
    · exact absurd rfl hmore
    · obtain rfl : a = '\n' := by
        rcases htail with h | h
        · cases h
        · exact Option.some.inj h
      rcases rest with _ | ⟨b, rest⟩
      · rfl
      · have hnumber : hexNumber? ['\n', b] = none := hexNumber?_newline [] [b]
        simp only [List.cons_append, List.nil_append, Escape.read, hnumber]
    · rfl
  have hhead := head?_append hmore rest
  by_cases hreturn : c = '\r' ∧ s.head? = some '\n'
  · obtain ⟨rfl, hnewline⟩ := hreturn
    rcases s with _ | ⟨d, s⟩
    · cases hnewline
    · obtain rfl := Option.some.inj hnewline
      rfl
  · have hr : c = '\r' → s.head? ≠ some '\n' := fun h h' => hreturn ⟨h, h'⟩
    have hoctal : octalRun (c :: (s ++ rest)) = octalRun (c :: s) :=
      congrArg (c :: ·) (takeWhile_take_append rfl htail hmore _ rest)
    rw [Escape.read_plain hu hx hr, Escape.read_plain hu hx (by rwa [hhead]), hhead, hoctal]

/-- The inside of a string with its results in the order of scanners. -/
def stringFrom (quote : Char) (pending : Nat) (c : Cursor) :
    (List Char × Bool × StringEnd) × Cursor :=
  let body := StringBody.read quote pending c.offset c.rest
  ((body.value, body.legacy, body.ending), body.next)

theorem stringFrom_movesOn (quote : Char) (pending : Nat) : MovesOn (stringFrom quote pending) := by
  rintro ⟨cs, offset⟩
  unfold stringFrom
  dsimp only
  fun_induction StringBody.read quote pending offset cs
  case case2 ih | case5 ih | case6 ih | case9 ih =>
    obtain ⟨n, hn⟩ := ih
    exact ⟨n + 1, hn⟩
  case case3 | case8 => exact ⟨1, rfl⟩
  all_goals exact ⟨0, rfl⟩

theorem stringFrom_readsLocally (quote : Char) (pending : Nat) {s : List Char} (hs : Complete s)
    (offset : Nat) : ReadsLocally (stringFrom quote pending) s offset := by
  induction s generalizing pending offset with
  | nil => exact (stringFrom_movesOn quote pending).readsLocally_nil offset
  | cons c s ih =>
      -- the string goes on behind the character
      have hon (pending' : Nat) (chars : List Char) (legacy : Bool)
          (hread : ∀ rest, StringBody.read quote pending offset (c :: (s ++ rest)) =
            (StringBody.read quote pending' (offset + c.utf8Size) (s ++ rest)).prepend chars
              legacy) :
          ReadsLocally (stringFrom quote pending) (c :: s) offset := by
        refine ReadsLocally.skip (stringFrom quote pending')
          (fun a => (chars ++ a.1, legacy || a.2.1, a.2.2)) (k := 1) (by simp) (fun rest => ?_)
          (ih pending' hs.tail _)
        simp only [stringFrom, List.cons_append, hread]
        rfl
      rcases pending with _ | pending
      · by_cases hquote : c = quote
        · refine .of_eq ([], false, .closed) (n := 1) fun rest => ?_
          simp [stringFrom, StringBody.read, hquote, Cursor.skip]
        by_cases hend : c = '\n' ∨ c = '\r'
        · refine .of_eq ([], false, .unterminated) (n := 0) fun rest => ?_
          simp [stringFrom, StringBody.read, hquote, hend, Cursor.skip]
        by_cases hescape : c = '\\'
        · have hne := hs.ne_nil fun h => hend (.inl h)
          have hread (rest : List Char) := Escape.read_append hs.tail hne rest
          cases he : Escape.read s with
          | chars chars legacy length =>
              refine hon length chars legacy fun rest => ?_
              rw [StringBody.read.eq_3, if_neg hquote, if_neg hend, if_pos hescape, hread, he]
          | lineContinuation length =>
              refine hon length [] false fun rest => ?_
              rw [StringBody.read.eq_3, if_neg hquote, if_neg hend, if_pos hescape, hread, he]
              rfl
          | malformed =>
              refine .of_eq ([], false, .malformed) (n := 0) fun rest => ?_
              simp only [stringFrom, List.cons_append, StringBody.read.eq_3, if_neg hquote,
                if_neg hend, if_pos hescape, hread, he]
              rfl
          | cutOff =>
              refine .of_eq ([], false, .unterminated) (n := 1) fun rest => ?_
              simp only [stringFrom, List.cons_append, StringBody.read.eq_3, if_neg hquote,
                if_neg hend, if_pos hescape, hread, he]
              rfl
        · refine hon 0 [c] false fun rest => ?_
          rw [StringBody.read.eq_3, if_neg hquote, if_neg hend, if_neg hescape]
      · exact hon pending [] false fun rest => rfl

/-! ### Templates -/

/-- A stretch of a template with its results in the order of scanners. -/
def chunkFrom (valid : Bool) (pending : Nat) (c : Cursor) : (Bool × Bool × Bool) × Cursor :=
  let chunk := Chunk.read valid pending c.offset c.rest
  ((chunk.ends, chunk.valid, chunk.cutOff), chunk.next)

theorem chunkFrom_movesOn (valid : Bool) (pending : Nat) : MovesOn (chunkFrom valid pending) := by
  rintro ⟨cs, offset⟩
  unfold chunkFrom
  dsimp only
  fun_induction Chunk.read valid pending offset cs
  case case2 ih | case5 ih | case6 ih | case7 ih | case9 ih =>
    obtain ⟨n, hn⟩ := ih
    exact ⟨n + 1, hn⟩
  case case3 => exact ⟨2, rfl⟩
  case case4 | case8 => exact ⟨1, rfl⟩
  case case1 => exact ⟨0, rfl⟩

theorem chunkFrom_readsLocally (valid : Bool) (pending : Nat) {s : List Char} (hs : Complete s)
    (offset : Nat) : ReadsLocally (chunkFrom valid pending) s offset := by
  induction s generalizing valid pending offset with
  | nil => exact (chunkFrom_movesOn valid pending).readsLocally_nil offset
  | cons c s ih =>
      -- the template goes on behind the character
      have hon (valid' : Bool) (pending' : Nat)
          (hread : ∀ rest, Chunk.read valid pending offset (c :: (s ++ rest)) =
            Chunk.read valid' pending' (offset + c.utf8Size) (s ++ rest)) :
          ReadsLocally (chunkFrom valid pending) (c :: s) offset := by
        refine ReadsLocally.skip (chunkFrom valid' pending') id (k := 1) (by simp)
          (fun rest => ?_) (ih valid' pending' hs.tail _)
        simp only [chunkFrom, List.cons_append, hread]
        rfl
      rcases pending with _ | pending
      · by_cases hhole : c = '$' ∧ s.head? = some '\x7b'
        · obtain ⟨rfl, hbrace⟩ := hhole
          rcases s with _ | ⟨d, s⟩
          · cases hbrace
          · obtain rfl := Option.some.inj hbrace
            exact .of_eq (false, valid, false) (n := 2) fun rest => rfl
        have hread (rest : List Char) : Chunk.read valid 0 offset (c :: (s ++ rest)) = _ :=
          Chunk.read.eq_4 valid offset c (s ++ rest) fun tail hc htail => by
            have hne := hs.ne_nil (hc ▸ by decide)
            exact hhole ⟨hc, by rw [← head?_append hne rest, htail]; rfl⟩
        by_cases hclose : c = '`'
        · refine .of_eq (true, valid, false) (n := 1) fun rest => ?_
          simp only [chunkFrom, List.cons_append, hread, if_pos hclose]
          rfl
        by_cases hescape : c = '\\'
        · have hne := hs.ne_nil (hescape ▸ by decide)
          have he (rest : List Char) := Escape.read_append hs.tail hne rest
          simp only [if_neg hclose, if_pos hescape, he] at hread
          cases h : Escape.read s with
          | chars chars legacy length =>
              rw [h] at hread
              exact hon _ _ hread
          | lineContinuation length =>
              rw [h] at hread
              exact hon _ _ hread
          | malformed =>
              rw [h] at hread
              exact hon _ _ hread
          | cutOff =>
              rw [h] at hread
              refine .of_eq (true, valid, true) (n := 1) fun rest => ?_
              simp only [chunkFrom, List.cons_append, hread]
              rfl
        · simp only [if_neg hclose, if_neg hescape] at hread
          exact hon _ _ hread
      · exact hon valid pending fun rest => rfl

end ModuleLinker.Script
