/-
# ModuleLinker.Proofs.WholeTokens -- texts that are read as whole tokens

In a script the quoted form of a text is a string literal. Between its quotes every character is
spelled in one of three ways (`spelling_escaped`), none of them with a control character or an open
quote in it, and the reader of strings takes each spelling back to its character, whatever follows.
Wherever it stands, a quoted text is one token, a string whose value is the text
(`isStringLiteral_quotedChars`).

Other texts are one token only in front of certain others: a word goes on where a letter follows it.
`ReadsAs` says of a text that it is read as a row of tokens in front of another text, and such texts
can be put together.
-/

import ModuleLinker.Proofs.Fork
import ModuleLinker.Proofs.JsonText

namespace ModuleLinker.Script

open Text

/-! ## Spellings -/

/-- A hexadecimal digit is neither a control character nor a mark that strings know. -/
theorem hexDigit_ordinary : ∀ n < 16,
    0x20 ≤ (hexDigit n).toNat ∧ hexDigit n ≠ '"' ∧ hexDigit n ≠ '\\' := by
  decide

/-- No spelling has a control character in it. -/
theorem visible_of_spelling {c : Char} {spelling : List Char} (h : Spelling c spelling) :
    ∀ x ∈ spelling, 0x20 ≤ x.toNat := by
  cases h with
  | plain _ _ hc => exact List.forall_mem_singleton.2 hc
  | short hmem =>
      have hletters : ∀ short ∈ shortEscapes, 0x20 ≤ short.1.toNat := by decide
      simpa using hletters _ hmem
  | number hc =>
      have hhigh := (hexDigit_ordinary (c.toNat / 16) (by omega)).1
      have hlow := (hexDigit_ordinary (c.toNat % 16) (by omega)).1
      simp [hhigh, hlow]

/-! ## Escaped quotes -/

/-- What follows a text is escaped: the text ends in a backslash that is not escaped itself. -/
def Escapes (text : List Char) : Bool :=
  text.foldl (fun escaped c => !escaped && c = '\\') false

theorem Escapes.append {a : List Char} (ha : Escapes a = false) (b : List Char) :
    Escapes (a ++ b) = Escapes b := by
  unfold Escapes at ha ⊢
  rw [List.foldl_append, ha]

/-- A spelling is complete, and a quote in it is escaped. -/
theorem escapes_of_spelling {c : Char} {spelling : List Char} (h : Spelling c spelling) :
    Escapes spelling = false ∧
      ∀ before after, spelling = before ++ '"' :: after → Escapes before = true := by
  cases h with
  | plain hquote hslash _ =>
      refine ⟨by simp [Escapes, hslash], fun before after heq => ?_⟩
      have hmem : '"' ∈ [c] := heq ▸ List.mem_append_right _ (.head _)
      exact absurd (List.mem_singleton.1 hmem).symm hquote
  | short hmem =>
      refine ⟨by simp [Escapes], fun before after heq => ?_⟩
      -- The quote is the letter, so that the backslash alone stands in front of it.
      rcases before with _ | ⟨slash, _ | ⟨letter, before⟩⟩
      · exact absurd (List.cons.inj heq).1 (by decide)
      · obtain rfl : '\\' = slash := (List.cons.inj heq).1
        rfl
      · exact absurd (congrArg List.length heq) (by simp)
  | number hc =>
      obtain ⟨-, hhigh, hhigh'⟩ := hexDigit_ordinary (c.toNat / 16) (by omega)
      obtain ⟨-, hlow, hlow'⟩ := hexDigit_ordinary (c.toNat % 16) (by omega)
      refine ⟨by simp [Escapes, hlow'], fun before after heq => ?_⟩
      have hnone :
          '"' ∉ ['\\', 'u', '0', '0', hexDigit (c.toNat / 16), hexDigit (c.toNat % 16)] := by
        simp [hhigh.symm, hlow.symm]
      exact absurd (heq ▸ List.mem_append_right _ (.head _)) hnone

theorem escapes_flatMap_escaped (cs : List Char) :
    Escapes (cs.flatMap escaped) = false ∧
      ∀ before after, cs.flatMap escaped = before ++ '"' :: after → Escapes before = true := by
  induction cs with
  | nil => exact ⟨rfl, fun before after heq => absurd heq (by simp)⟩
  | cons c cs ih =>
      obtain ⟨hcomplete, hquotes⟩ := escapes_of_spelling (spelling_escaped c)
      rw [List.flatMap_cons]
      refine ⟨(Escapes.append hcomplete _).trans ih.1, fun before after heq => ?_⟩
      -- The quote stands in the spelling of the first character, or behind it.
      rcases List.append_eq_append_iff.1 heq with ⟨front, rfl, hrest⟩ | ⟨back, hspelling, hrest⟩
      · rw [Escapes.append hcomplete]
        exact ih.2 front after hrest
      · rcases back with _ | ⟨quote, back⟩
        · obtain rfl : escaped c = before := by simpa using hspelling
          exact absurd (ih.2 [] after hrest.symm) (by decide)
        · obtain rfl : '"' = quote := (List.cons.inj hrest).1
          exact hquotes before back hspelling

/-! ## Reading a string -/

/-- The characters of an escape that was read already are passed over. -/
theorem read_pending (quote : Char) (cs rest : List Char) (offset : Nat) :
    StringBody.read quote cs.length offset (cs ++ rest) =
      StringBody.read quote 0 (offset + byteSize cs) rest := by
  induction cs generalizing offset with
  | nil => rfl
  | cons c cs ih =>
      show StringBody.read quote (cs.length + 1) offset (c :: (cs ++ rest)) = _
      rw [StringBody.read, ih, byteSize, Nat.add_assoc]

/-- An escape is read as the characters it stands for. -/
theorem read_escape {chars : List Char} {legacy : Bool} (cs rest : List Char) (offset : Nat)
    (h : Escape.read (cs ++ rest) = .chars chars legacy cs.length) :
    StringBody.read '"' 0 offset ('\\' :: (cs ++ rest)) =
      (StringBody.read '"' 0 (offset + byteSize ('\\' :: cs)) rest).prepend chars legacy := by
  have hsize : offset + 1 + byteSize cs = offset + byteSize ('\\' :: cs) := Nat.add_assoc ..
  rw [StringBody.read, if_neg (by decide), if_neg (by decide), if_pos rfl, h]
  show (StringBody.read '"' cs.length (offset + 1) (cs ++ rest)).prepend chars legacy = _
  rw [read_pending, hsize]

theorem escape_short {letter c : Char} (h : (letter, c) ∈ shortEscapes) (rest : List Char) :
    Escape.read (letter :: rest) = .chars [c] false 1 := by
  have hplain : ∀ short ∈ shortEscapes, short.1 ≠ 'u' ∧ short.1 ≠ 'x' ∧ short.1 ≠ '\r' ∧
      isLineEnd short.1 = false ∧ short.1 ≠ '0' ∧ isOctal short.1 = false ∧
      ¬ (short.1 = '8' ∨ short.1 = '9') ∧ plainEscape short.1 = short.2 := by
    decide
  obtain ⟨hu, hx, hreturn, hend, hzero, hoctal, hdigit, hvalue⟩ := hplain _ h
  rw [Escape.read_plain hu hx fun hr => absurd hr hreturn]
  simp [hend, hzero, hoctal, hdigit, hvalue]

theorem escape_number {c : Char} (hc : c.toNat < 0x20) (rest : List Char) :
    Escape.read ('u' :: '0' :: '0' :: hexDigit (c.toNat / 16) :: hexDigit (c.toNat % 16) :: rest) =
      .chars [c] false 5 := by
  have hnumber : unicodeEscape?
      ('0' :: '0' :: hexDigit (c.toNat / 16) :: hexDigit (c.toNat % 16) :: rest) =
        some (c.toNat, 4) := by
    rw [unicodeEscape?_plain (by simp), if_pos (by simp)]
    show (hexNumber? ['0', '0', hexDigit (c.toNat / 16), hexDigit (c.toNat % 16)]).map _ = _
    rw [hexNumber?_hexDigits (by omega)]
    rfl
  have hsurrogate : isSurrogate c.toNat = false := by
    simp [isSurrogate, isHighSurrogate, isLowSurrogate]
    omega
  rw [Escape.read]
  simp [hnumber, escapedChars, hsurrogate]

/-- Between quotes the escaped form of a character is read as the character, whatever follows. -/
theorem read_escaped (c : Char) (rest : List Char) (offset : Nat) :
    StringBody.read '"' 0 offset (escaped c ++ rest) =
      (StringBody.read '"' 0 (offset + byteSize (escaped c)) rest).prepend [c] false := by
  have hspelling := spelling_escaped c
  generalize escaped c = spelling at hspelling ⊢
  cases hspelling with
  | plain hquote hslash hc =>
      have hend : ¬ (c = '\n' ∨ c = '\r') := by
        rintro (rfl | rfl) <;> exact absurd hc (by decide)
      show StringBody.read '"' 0 offset (c :: rest) = _
      rw [StringBody.read, if_neg hquote, if_neg hend, if_neg hslash]
      rfl
  | short hmem => exact read_escape [_] rest offset (escape_short hmem rest)
  | number hc =>
      exact read_escape ['u', '0', '0', _, _] rest offset (escape_number hc rest)

theorem read_flatMap_escaped (cs rest : List Char) (offset : Nat) :
    StringBody.read '"' 0 offset (cs.flatMap escaped ++ '"' :: rest) =
      ⟨cs, false, .closed, ⟨rest, offset + byteSize (cs.flatMap escaped) + 1⟩⟩ := by
  induction cs generalizing offset with
  | nil => rfl
  | cons c cs ih =>
      rw [List.flatMap_cons, List.append_assoc, read_escaped, ih, byteSize_append, ← Nat.add_assoc]
      rfl

/-! ## Literals -/

/-- Where no trivia stands in front of it, a token begins at once. -/
theorem scan_at_once {c next : Cursor} {lineStart : Bool} {kind : TokenKind} {faults : List Nat}
    (htrivia : Trivia.atCursor c lineStart = ⟨c, lineStart, none, none⟩)
    (hread : TokenKind.read c = (kind, faults, next)) :
    Token.scan c lineStart =
      { kind, span := ⟨c.offset, next.offset⟩, lineBreak := lineStart, faults, place := c
        next } := by
  unfold Token.scan
  rw [htrivia]
  dsimp only
  rw [hread]
  rfl

/-- The characters are a string literal with this value. -/
structure IsStringLiteral (value : String) (literal : List Char) : Prop where
  /-- They stand between two quotes. -/
  quoted : ∃ body, literal = '"' :: (body ++ ['"'])
  /-- None of them is a control character. -/
  visible : ∀ c ∈ literal, 0x20 ≤ c.toNat
  /-- A quote behind the first is escaped unless it is the last character. -/
  closed : ∀ before after, literal = '"' :: (before ++ '"' :: after) →
    (Escapes before = false ↔ after = [])
  /-- Wherever they stand they are one token, and nothing is wrong with it. -/
  token : ∀ rest offset lineStart, Token.scan ⟨literal ++ rest, offset⟩ lineStart =
    { kind := .string value false
      span := ⟨offset, offset + byteSize literal⟩
      lineBreak := lineStart
      faults := []
      place := ⟨literal ++ rest, offset⟩
      next := ⟨rest, offset + byteSize literal⟩ }

/-- The quoted form of a text is a string literal whose value is the text. -/
theorem isStringLiteral_quotedChars (text : String) :
    IsStringLiteral text (quotedChars text.toList) where
  quoted := ⟨text.toList.flatMap escaped, rfl⟩
  visible := by
    have hspelled : ∀ c ∈ text.toList.flatMap escaped, 0x20 ≤ c.toNat := by
      intro c hc
      obtain ⟨x, -, hc⟩ := List.mem_flatMap.1 hc
      exact visible_of_spelling (spelling_escaped x) c hc
    intro c hc
    simp only [quotedChars, List.mem_cons, List.mem_append, List.not_mem_nil, or_false] at hc
    rcases hc with rfl | hc | rfl
    · decide
    · exact hspelled c hc
    · decide
  closed := by
    intro before after heq
    obtain ⟨hcomplete, hquotes⟩ := escapes_flatMap_escaped text.toList
    have hbody : text.toList.flatMap escaped ++ ['"'] = before ++ '"' :: after :=
      (List.cons.inj heq).2
    rcases List.eq_nil_or_concat after with rfl | ⟨front, last, rfl⟩
    · obtain ⟨rfl, -⟩ := List.append_inj' hbody rfl
      exact iff_of_true hcomplete rfl
    · -- The quote stands in front of the last one, between the two of the literal.
      have hsplit : text.toList.flatMap escaped ++ ['"'] = (before ++ '"' :: front) ++ [last] := by
        simpa using hbody
      have hescaped := hquotes before front (List.append_inj' hsplit rfl).1
      exact iff_of_false (by simp [hescaped]) (by simp)
  token := by
    intro rest offset lineStart
    have hsize : byteSize (quotedChars text.toList) =
        1 + (byteSize (text.toList.flatMap escaped) + 1) := by
      rw [quotedChars, byteSize, byteSize_append]
      rfl
    have hread : TokenKind.read ⟨'"' :: (text.toList.flatMap escaped ++ '"' :: rest), offset⟩ =
        (.string text false, [], ⟨rest, offset + byteSize (quotedChars text.toList)⟩) := by
      rw [read_string (.inl rfl), read_flatMap_escaped, hsize]
      simp only [String.ofList_toList, Nat.add_assoc]
    have htext : quotedChars text.toList ++ rest =
        '"' :: (text.toList.flatMap escaped ++ '"' :: rest) := by
      simp [quotedChars]
    rw [htext]
    exact scan_at_once rfl hread

/-! ## Tokens in a row -/

/-- A reader at the first place takes a token of this kind, with nothing wrong in it, and goes on at
the second place. It may take a slash as the beginning of a regular expression, and behind a mark
the stretch of a template. -/
inductive ReadsToken (c : Cursor) : TokenKind → Cursor → Prop
  | token (hfaults : (Token.scan c false).faults = []) :
      ReadsToken c (Token.scan c false).kind (Token.scan c false).next
  | regex {text : String} (hslash : (Token.scan c false).kind = .punctuator text)
      (hregex : (Token.scan c false).asRegex.kind = .regex)
      (hfaults : (Token.scan c false).asRegex.faults = []) :
      ReadsToken c .regex (Token.scan c false).asRegex.next
  | stretch {text : String} (hmark : (Token.scan c false).kind = .punctuator text) :
      ReadsToken c (.punctuator text) (chunkFrom true 0 (Token.scan c false).next).2

namespace ReadsToken

variable {c d : Cursor} {kind : TokenKind}

theorem of_scan (hkind : (Token.scan c false).kind = kind)
    (hfaults : (Token.scan c false).faults = []) (hnext : (Token.scan c false).next = d) :
    ReadsToken c kind d := by
  subst hkind hnext
  exact .token hfaults

theorem at_once (htrivia : Trivia.atCursor c false = ⟨c, false, none, none⟩)
    (hread : TokenKind.read c = (kind, [], d)) : ReadsToken c kind d := by
  have hscan := scan_at_once htrivia hread
  apply of_scan <;> rw [hscan]

/-- A blank in front of a token belongs to it. -/
theorem blank {rest : List Char} {offset : Nat} (h : ReadsToken ⟨rest, offset + 1⟩ kind d) :
    ReadsToken ⟨' ' :: rest, offset⟩ kind d := by
  have hscan : Token.scan ⟨' ' :: rest, offset⟩ false = Token.scan ⟨rest, offset + 1⟩ false := rfl
  cases h with
  | token hfaults => exact hscan ▸ .token hfaults
  | regex hslash hregex hfaults => exact hscan ▸ .regex hslash hregex hfaults
  | stretch hmark => exact hscan ▸ .stretch hmark

end ReadsToken

/-- Between the two places stand tokens of these kinds. -/
inductive Reads : Cursor → List TokenKind → Cursor → Prop
  | nil (c : Cursor) : Reads c [] c
  | cons {c d e : Cursor} {kind : TokenKind} {kinds : List TokenKind} :
      ReadsToken c kind d → Reads d kinds e → Reads c (kind :: kinds) e

namespace Reads

variable {c d e : Cursor} {kinds others : List TokenKind}

theorem append (h : Reads c kinds d) (hothers : Reads d others e) :
    Reads c (kinds ++ others) e := by
  induction h with
  | nil => exact hothers
  | cons htoken _ ih => exact .cons htoken (ih hothers)

theorem blank {rest : List Char} {offset : Nat} (h : Reads ⟨rest, offset + 1⟩ kinds d)
    (hne : kinds ≠ []) : Reads ⟨' ' :: rest, offset⟩ kinds d := by
  cases h with
  | nil => exact absurd rfl hne
  | cons htoken hrest => exact .cons htoken.blank hrest

end Reads

/-- In front of the text `next` the text is read as tokens of these kinds, wherever it stands. -/
def ReadsAs (text : String) (kinds : List TokenKind) (next : String) : Prop :=
  ∀ rest offset, Reads ⟨text.toList ++ (next.toList ++ rest), offset⟩ kinds
    ⟨next.toList ++ rest, offset + byteSize text.toList⟩

namespace ReadsAs

variable {a b next : String} {kind : TokenKind} {kinds others : List TokenKind}

theorem token (h : ∀ rest offset, ReadsToken ⟨a.toList ++ (next.toList ++ rest), offset⟩ kind
    ⟨next.toList ++ rest, offset + byteSize a.toList⟩) : ReadsAs a [kind] next :=
  fun rest offset => .cons (h rest offset) (.nil _)

theorem append (ha : ReadsAs a kinds (b ++ next)) (hb : ReadsAs b others next) :
    ReadsAs (a ++ b) (kinds ++ others) next := by
  intro rest offset
  have hfirst := ha rest offset
  have hsecond := hb rest (offset + byteSize a.toList)
  simp only [String.toList_append, List.append_assoc] at hfirst ⊢
  rw [byteSize_append, ← Nat.add_assoc]
  exact hfirst.append hsecond

/-- More may be known of what follows. -/
theorem before (h : ReadsAs a kinds next) (more : String) : ReadsAs a kinds (next ++ more) := by
  intro rest offset
  rw [String.toList_append, List.append_assoc]
  exact h _ offset

/-- Tokens that end whatever follows are read in front of every text. -/
theorem anywhere (h : ReadsAs a kinds "") (next : String) : ReadsAs a kinds next := by
  have hbefore := h.before next
  rwa [String.empty_append] at hbefore

/-- Texts in a row are read one after the other where the first ends whatever follows. -/
theorem behind (ha : ReadsAs a kinds "") (hb : ReadsAs b others next) :
    ReadsAs (a ++ b) (kinds ++ others) next :=
  (ha.anywhere _).append hb

/-- Texts in a row are read one after the other where the last ends whatever follows. -/
theorem last (ha : ReadsAs a kinds b) (hb : ReadsAs b others "") :
    ReadsAs (a ++ b) (kinds ++ others) "" := by
  apply ReadsAs.append _ hb
  rwa [String.append_empty]

theorem blank (h : ReadsAs a kinds next) (hne : kinds ≠ []) : ReadsAs (" " ++ a) kinds next := by
  intro rest offset
  have hsize : offset + byteSize (" " ++ a).toList = offset + 1 + byteSize a.toList := by
    rw [String.toList_append, byteSize_append, ← Nat.add_assoc]
    rfl
  rw [hsize, String.toList_append]
  exact (h rest (offset + 1)).blank hne

end ReadsAs

section Literal

variable {value : String} {literal : List Char} (h : IsStringLiteral value literal)

include h

/-- A string literal is read as a string, whatever follows. -/
theorem IsStringLiteral.readsToken (rest : List Char) (offset : Nat) :
    ReadsToken ⟨literal ++ rest, offset⟩ (.string value false)
      ⟨rest, offset + byteSize literal⟩ := by
  have hscan := h.token rest offset false
  apply ReadsToken.of_scan <;> rw [hscan]

theorem IsStringLiteral.readsAs : ReadsAs (String.ofList literal) [.string value false] "" := by
  apply ReadsAs.token
  rw [String.toList_ofList]
  exact h.readsToken

end Literal

/-- The kinds of the characters of a text, each a punctuator. -/
def marks (text : String) : List TokenKind :=
  text.toList.map fun c => .punctuator (String.ofList [c])

/-- Brackets, braces and semicolons are punctuators each for itself, whatever follows. -/
theorem readsAs_marks {text : String}
    (h : text.toList ⊆ ['[', ']', '(', ')', '\x7b', '\x7d', ';']) :
    ReadsAs text (marks text) "" := by
  have hmark : ∀ c ∈ ['[', ']', '(', ')', '\x7b', '\x7d', ';'], ∀ rest offset,
      ReadsToken ⟨c :: rest, offset⟩ (.punctuator (String.ofList [c])) ⟨rest, offset + 1⟩ ∧
        c.utf8Size = 1 := by
    simp only [List.forall_mem_cons]
    refine ⟨?_, ?_, ?_, ?_, ?_, ?_, ?_, by simp⟩
    all_goals exact fun _ _ => ⟨.of_scan rfl rfl rfl, rfl⟩
  intro rest offset
  show Reads ⟨text.toList ++ rest, offset⟩ (text.toList.map _) ⟨rest, _⟩
  generalize text.toList = cs at h
  induction cs generalizing offset with
  | nil => exact .nil _
  | cons c cs ih =>
      obtain ⟨hc, hcs⟩ := List.cons_subset.1 h
      obtain ⟨htoken, hsize⟩ := hmark c hc (cs ++ rest) offset
      rw [byteSize, hsize, ← Nat.add_assoc]
      exact .cons htoken (ih (offset + 1) hcs)

/-! ## Identifiers -/

/-- The text is an identifier that is written without escapes. -/
def IsIdentifier (name : String) : Prop :=
  ∃ c cs, name.toList = c :: cs ∧ isIdentifierStart c ∧ cs.all isIdentifierPart

/-- The code points of digits, of blank characters and of the byte order mark. -/
def otherCodes : List Nat :=
  [48, 49, 50, 51, 52, 53, 54, 55, 56, 57, 9, 10, 11, 12, 13, 0x20, 0x85, 0xA0, 0x1680, 0x2000,
    0x2001, 0x2002, 0x2003, 0x2004, 0x2005, 0x2006, 0x2007, 0x2008, 0x2009, 0x200A, 0x2028, 0x2029,
    0x202F, 0x205F, 0x3000, 0xFEFF]

/-- The characters that mean something else than a word where a token may begin. -/
def otherStarts : List Char :=
  ['"', '\'', '#', '\\', '>', '<', '=', '!', '+', '-', '*', '/', '%', '&', '|', '^', '~', '?', '.',
    '\x7b', '\x7d', '(', ')', '[', ']', ';', ',', ':', '`'] ++ otherCodes.map Char.ofNat

theorem isIdentifierStart_eq (c : Char) :
    isIdentifierStart c = if c.toNat < 0x80 then c.isAlpha || c = '$' || c = '_'
      else identifierStarts.toList.any fun range => range.1 ≤ c.toNat && c.toNat ≤ range.2 := by
  unfold isIdentifierStart inRanges
  rw [Array.any_toList]

theorem notMem_otherStarts {c : Char} (hc : isIdentifierStart c) : c ∉ otherStarts := by
  have hothers : otherStarts.all fun x => !isIdentifierStart x := by
    simp only [isIdentifierStart_eq]
    decide +kernel
  intro hmem
  have hnone := List.all_eq_true.1 hothers c hmem
  rw [hc] at hnone
  cases hnone

section Starts

variable {c : Char} (hc : c ∉ otherStarts)

include hc

theorem ne_of_notMem_otherStarts {other : Char} (h : other ∈ otherStarts) : c ≠ other :=
  fun heq => hc (heq ▸ h)

theorem toNat_notMem_otherCodes : c.toNat ∉ otherCodes := by
  intro hmem
  have hstart : c ∈ otherCodes.map Char.ofNat := Char.ofNat_toNat c ▸ List.mem_map_of_mem hmem
  exact hc (List.mem_append_right _ hstart)

theorem punctuatorsFrom_eq_nil : punctuatorsFrom c = [] := by
  unfold punctuatorsFrom
  split
  all_goals first
    | rfl
    | exact absurd (by decide) hc

theorem isDigit_eq_false : c.isDigit = false := by
  by_contra hdigit
  have hcode : 48 ≤ c.toNat ∧ c.toNat ≤ 57 := by
    simpa [Char.isDigit, UInt32.le_iff_toNat_le] using hdigit
  apply toNat_notMem_otherCodes hc
  simp [otherCodes]
  omega

theorem isSpace_eq_false : isLineEnd c = false ∧ isSpace c = false := by
  have hblank : isBlank c = false := by
    by_contra hblank
    apply toNat_notMem_otherCodes hc
    simp [isBlank] at hblank
    simp [otherCodes]
    omega
  have hends : ['\n', '\r', '\u2028', '\u2029', byteOrderMark] ⊆ otherStarts := by decide
  have hend : ∀ other ∈ ['\n', '\r', '\u2028', '\u2029', byteOrderMark], c ≠ other :=
    fun other hother => ne_of_notMem_otherStarts hc (hends hother)
  constructor
  · simp [isLineEnd, hend]
  · simp [isSpace, hblank, hend]

/-- Nothing is passed over in front of the character. -/
theorem atCursor_eq (cs : List Char) (offset : Nat) (lineStart : Bool) :
    Trivia.atCursor ⟨c :: cs, offset⟩ lineStart = ⟨⟨c :: cs, offset⟩, lineStart, none, none⟩ := by
  have hslash : c ≠ '/' := ne_of_notMem_otherStarts hc (by decide)
  have hless : c ≠ '<' := ne_of_notMem_otherStarts hc (by decide)
  have hminus : c ≠ '-' := ne_of_notMem_otherStarts hc (by decide)
  obtain ⟨hend, hspace⟩ := isSpace_eq_false hc
  unfold Trivia.atCursor
  rw [scan_between]
  simp [List.isPrefixOf, hslash.symm, hless.symm, hminus.symm, hend, hspace]

end Starts

theorem readWord_parts {cs : List Char} (hcs : ∀ x ∈ cs, isIdentifierPart x)
    (rest : List Char) (offset : Nat) :
    readWord false 0 offset (cs ++ '[' :: rest) =
      some (cs, false, ⟨'[' :: rest, offset + byteSize cs⟩) := by
  induction cs generalizing offset with
  | nil => exact readWord_plain false offset rest (by decide)
  | cons c cs ih =>
      obtain ⟨hc, hcs⟩ := List.forall_mem_cons.1 hcs
      have hfits : fitsWord false c := hc
      have hslash : c ≠ '\\' := by
        rintro rfl
        exact absurd hc (by decide)
      rw [List.cons_append, readWord_plain false offset _ hslash, if_pos hfits, ih hcs, byteSize,
        Nat.add_assoc]
      rfl

/-- An identifier is read as one word in front of a bracket. -/
theorem readsAs_identifier {name : String} (h : IsIdentifier name) :
    ReadsAs name [.word name false] "[" := by
  obtain ⟨c, cs, hname, hc, hcs⟩ := h
  have hother := notMem_otherStarts hc
  have hne : ∀ other ∈ otherStarts, c ≠ other := fun other => ne_of_notMem_otherStarts hother
  have hread : ∀ rest offset, TokenKind.read ⟨c :: (cs ++ '[' :: rest), offset⟩ =
      (.word name false, [], ⟨'[' :: rest, offset + byteSize (c :: cs)⟩) := by
    intro rest offset
    -- The first character begins no other token, so that the reader comes to its last branch.
    have hpunctuator : punctuator? (c :: (cs ++ '[' :: rest)) = none := by
      rw [punctuator?, punctuatorsFrom_eq_nil hother]
      rfl
    have hfits : fitsWord true c := hc
    have hword : readWord true 0 offset (c :: (cs ++ '[' :: rest)) =
        some (c :: cs, false, ⟨'[' :: rest, offset + byteSize (c :: cs)⟩) := by
      rw [readWord_plain true offset _ (hne _ (by decide)), if_pos hfits,
        readWord_parts (List.all_eq_true.1 hcs), byteSize, Nat.add_assoc]
      rfl
    have hquote : ¬ (c = '"' ∨ c = '\'') := not_or.2 ⟨hne _ (by decide), hne _ (by decide)⟩
    have hdigit : ¬ c.isDigit = true := by simp [isDigit_eq_false hother]
    unfold TokenKind.read
    split
    · next heq => cases heq
    · next heq => exact absurd (List.cons.inj heq).1 (hne _ (by decide))
    · next heq => exact absurd (List.cons.inj heq).1 (hne _ (by decide))
    · next heq =>
      obtain ⟨rfl, rfl⟩ := List.cons.inj heq
      dsimp only
      rw [if_neg hquote, if_neg hdigit, hpunctuator]
      dsimp only
      rw [hword]
      show (TokenKind.word (String.ofList (c :: cs)) false, _, _) = _
      rw [← hname, String.ofList_toList]
  apply ReadsAs.token
  intro rest offset
  rw [hname]
  exact .at_once (atCursor_eq hother _ offset false) (hread rest offset)

end ModuleLinker.Script
