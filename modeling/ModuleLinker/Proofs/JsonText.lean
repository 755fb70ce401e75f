/-
# ModuleLinker.Proofs.JsonText -- compact documents are read back

A document is written without blanks and read by recursive descent. Between quotes every character
is spelled in one of three ways (`spelling_escaped`), so that it alone is read back
(`standsFor_of_spelling`), a numeral ends where a character follows that does not go on with it, and
a document inside another one is followed by a comma, a bracket or a brace. Reading what was written
for a document therefore gives the document and leaves what follows (`readsBack_of_plain`), with
steps for as many nested documents as there are characters.
-/

import Mathlib.Data.List.Basic
import Mathlib.Data.Option.Basic
import ModuleLinker.Json.Reader

namespace ModuleLinker

open Text

/-! ## Quoted text -/

namespace Text

theorem hexValue?_hexDigit : ∀ n < 16, hexValue? (hexDigit n) = some n := by decide

/-- The two digits of a number are read as the number. -/
theorem hexNumber?_hexDigits {n : Nat} (h : n < 256) :
    hexNumber? ['0', '0', hexDigit (n / 16), hexDigit (n % 16)] = some n := by
  have hzero : hexValue? '0' = some 0 := by decide
  have hhigh := hexValue?_hexDigit (n / 16) (by omega)
  have hlow := hexValue?_hexDigit (n % 16) (by omega)
  simp only [hexNumber?, List.foldlM_cons, List.foldlM_nil, hzero, hhigh, hlow, Option.map_some,
    Option.bind_eq_bind, Option.bind_some]
  congr 1
  omega

/-- A number that is no half of a surrogate pair is a character. -/
theorem charsOf_unit {n : Nat} (h : isSurrogate n = false) (pieces : List Piece) :
    charsOf (.unit n :: pieces) = (charsOf pieces).map (Char.ofNat n :: ·) := by
  have hhigh : isHighSurrogate n = false := by
    rw [isSurrogate, Bool.or_eq_false_iff] at h
    exact h.1
  cases pieces with
  | nil => simp [charsOf, h]
  | cons piece pieces => cases piece <;> simp [charsOf, h, hhigh]

/-- The letters behind a backslash that stand for another character or would end the string. -/
def shortEscapes : List (Char × Char) :=
  [('"', '"'), ('\\', '\\'), ('b', '\x08'), ('t', '\t'), ('n', '\n'), ('f', '\x0c'), ('r', '\r')]

/-- The ways in which a character is spelled between quotes. -/
inductive Spelling (c : Char) : List Char → Prop
  | plain : c ≠ '"' → c ≠ '\\' → 0x20 ≤ c.toNat → Spelling c [c]
  | short {letter : Char} : (letter, c) ∈ shortEscapes → Spelling c ['\\', letter]
  | number : c.toNat < 0x20 →
      Spelling c ['\\', 'u', '0', '0', hexDigit (c.toNat / 16), hexDigit (c.toNat % 16)]

theorem spelling_escaped (c : Char) : Spelling c (escaped c) := by
  have hshort : ∀ letter value, (letter, value) ∈ shortEscapes → c = value →
      Spelling c ['\\', letter] := by
    rintro letter value hmem rfl
    exact .short hmem
  have hnumber : ∀ n, c.toNat = n → c = Char.ofNat n := by
    rintro n rfl
    exact (Char.ofNat_toNat c).symm
  unfold escaped
  split_ifs with hquote hslash hcontrol hback htab hnewline hfeed hreturn
  · exact hshort '"' _ (by decide) hquote
  · exact hshort '\\' _ (by decide) hslash
  · exact hshort 'b' _ (by decide) (hnumber _ hback)
  · exact hshort 't' _ (by decide) htab
  · exact hshort 'n' _ (by decide) hnewline
  · exact hshort 'f' _ (by decide) (hnumber _ hfeed)
  · exact hshort 'r' _ (by decide) hreturn
  · exact .number hcontrol
  · exact .plain hquote hslash (by omega)

end Text

namespace Json

/-- Between quotes the spelling stands for the character, whatever follows. -/
def StandsFor (spelling : List Char) (c : Char) : Prop :=
  ∃ piece, (∀ rest, readPieces (spelling ++ rest) =
      (readPieces rest).map fun found => (piece :: found.1, found.2)) ∧
    ∀ pieces, charsOf (piece :: pieces) = (charsOf pieces).map (c :: ·)

theorem standsFor_short {letter c : Char} (hletter : letter ≠ 'u')
    (h : shortEscape? letter = some c) :
    StandsFor ['\\', letter] c := by
  refine ⟨.char c, fun rest => ?_, fun _ => rfl⟩
  show readPieces ('\\' :: letter :: rest) = _
  rw [readPieces, h]
  · cases readPieces rest <;> rfl
  · intro _ _ _ _ _ hu
    exact absurd hu hletter

theorem standsFor_number {n : Nat} (h : n < 256) :
    StandsFor ['\\', 'u', '0', '0', hexDigit (n / 16), hexDigit (n % 16)] (Char.ofNat n) := by
  have hsurrogate : isSurrogate n = false := by
    simp [isSurrogate, isHighSurrogate, isLowSurrogate]
    omega
  refine ⟨.unit n, fun rest => ?_, charsOf_unit hsurrogate⟩
  show readPieces ('\\' :: 'u' :: '0' :: '0' :: hexDigit (n / 16) :: hexDigit (n % 16) :: rest) = _
  rw [readPieces, hexNumber?_hexDigits h]
  cases readPieces rest <;> rfl

theorem standsFor_plain {c : Char} (hquote : c ≠ '"') (hslash : c ≠ '\\') (h : 0x20 ≤ c.toNat) :
    StandsFor [c] c := by
  refine ⟨.char c, fun rest => ?_, fun _ => rfl⟩
  show readPieces (c :: rest) = _
  rw [readPieces]
  · have hguard : (guard (c ≠ '\\' ∧ 0x20 ≤ c.toNat) : Option Unit) = some () :=
      if_pos ⟨hslash, h⟩
    rw [hguard]
    cases readPieces rest <;> rfl
  · exact hquote
  · intro _ _ _ _ _ hc
    exact absurd hc hslash
  · intro _ _ hc
    exact absurd hc hslash

theorem standsFor_of_spelling {c : Char} {spelling : List Char} (h : Spelling c spelling) :
    StandsFor spelling c := by
  cases h with
  | plain hquote hslash hc => exact standsFor_plain hquote hslash hc
  | short hmem =>
      have hshort : ∀ short ∈ shortEscapes,
          short.1 ≠ 'u' ∧ shortEscape? short.1 = some short.2 := by
        decide
      obtain ⟨hletter, hvalue⟩ := hshort _ hmem
      exact standsFor_short hletter hvalue
  | number hc =>
      have hstands := standsFor_number (show c.toNat < 256 by omega)
      rwa [Char.ofNat_toNat] at hstands

/-- What stands between the quotes of a text is read as the text. -/
theorem readString_escaped (cs rest : List Char) :
    readString (cs.flatMap escaped ++ '"' :: rest) = some (some (String.ofList cs), rest) := by
  have hpieces : ∃ pieces, readPieces (cs.flatMap escaped ++ '"' :: rest) = some (pieces, rest) ∧
      charsOf pieces = some cs := by
    induction cs with
    | nil => exact ⟨[], by simp [readPieces], rfl⟩
    | cons c cs ih =>
        obtain ⟨pieces, hread, hchars⟩ := ih
        obtain ⟨piece, hpiece, hchar⟩ := standsFor_of_spelling (spelling_escaped c)
        refine ⟨piece :: pieces, ?_, ?_⟩
        · rw [List.flatMap_cons, List.append_assoc, hpiece, hread, Option.map_some]
        · rw [hchar, hchars, Option.map_some]
  obtain ⟨pieces, hread, hchars⟩ := hpieces
  rw [readString, hread]
  show some ((charsOf pieces).map String.ofList, rest) = _
  rw [hchars, Option.map_some]

/-! ## Numerals -/

/-- The characters do not go on with a number. -/
def EndsNumber (rest : List Char) : Prop :=
  ∀ c ∈ rest.head?, c.isDigit = false ∧ c ≠ '.' ∧ c ≠ 'e' ∧ c ≠ 'E'

/-- A zero, or digits that do not begin with one. -/
inductive IsNumeral : List Char → Prop
  | zero : IsNumeral ['0']
  | digits {d : Char} {ds : List Char} (hzero : d ≠ '0') (h : ∀ c ∈ d :: ds, c.isDigit) :
    IsNumeral (d :: ds)

theorem IsNumeral.exists_head {ds : List Char} (h : IsNumeral ds) :
    ∃ d tail, ds = d :: tail ∧ d.isDigit := by
  cases h with
  | zero => exact ⟨'0', [], rfl, by decide⟩
  | digits hzero h => exact ⟨_, _, rfl, h _ List.mem_cons_self⟩

theorem isNumeral_toDigits (n : Nat) : IsNumeral (Nat.toDigits 10 n) := by
  have hdigits : ∀ n, ∀ c ∈ Nat.toDigits 10 n, c.isDigit :=
    fun n c hc => Nat.isDigit_of_mem_toDigits (by decide) (by decide) hc
  -- the first digit is that of a number below ten that is not zero
  have hfirst : ∀ n, 0 < n → ∃ d ds, Nat.toDigits 10 n = d :: ds ∧ d ≠ '0' := by
    intro n
    induction n using Nat.strongRecOn with
    | ind n ih =>
        intro hpos
        by_cases hsmall : n < 10
        · refine ⟨_, _, Nat.toDigits_of_lt_base hsmall, ?_⟩
          have hdigit : ∀ n < 10, 0 < n → Nat.digitChar n ≠ '0' := by decide
          exact hdigit n hsmall hpos
        · obtain ⟨d, ds, hds, hd⟩ := ih (n / 10) (by omega) (by omega)
          refine ⟨d, ds ++ [Nat.digitChar (n % 10)], ?_, hd⟩
          rw [Nat.toDigits_of_base_le (by decide) (by omega), hds, List.cons_append]
  rcases Nat.eq_zero_or_pos n with rfl | hpos
  · exact .zero
  · obtain ⟨d, ds, hds, hd⟩ := hfirst n hpos
    rw [hds]
    exact .digits hd (hds ▸ hdigits n)

theorem readDigits_append {d : Char} {ds rest : List Char} (h : ∀ c ∈ d :: ds, c.isDigit)
    (hrest : EndsNumber rest) : readDigits (d :: ds ++ rest) = some (d :: ds, rest) := by
  have hstop : rest.takeWhile Char.isDigit = [] ∧ rest.dropWhile Char.isDigit = rest := by
    cases rest with
    | nil => exact ⟨rfl, rfl⟩
    | cons c rest =>
        have hc : c.isDigit = false := (hrest c rfl).1
        simp [hc]
  rw [readDigits, List.takeWhile_append_of_pos h, List.dropWhile_append_of_pos h, hstop.1, hstop.2,
    List.append_nil]
  rfl

theorem readNumber_numeral {ds rest : List Char} (h : IsNumeral ds) (hrest : EndsNumber rest) :
    readNumber (ds ++ rest) = some (ds, rest) := by
  -- The digits are the whole part. What follows begins neither a fraction nor an exponent, and a
  -- numeral has no sign.
  have hwhole : readWhole (ds ++ rest) = some (ds, rest) := by
    cases h with
    | zero =>
        cases rest with
        | nil => rfl
        | cons c rest =>
            have hc : c.isDigit = false := (hrest c rfl).1
            simp [readWhole, hc]
    | @digits d ds hzero h =>
        show readWhole (d :: (ds ++ rest)) = _
        rw [readWhole]
        · exact readDigits_append h hrest
        · intro tail heq
          exact hzero (List.cons.inj heq).1
  have hfraction : readFraction rest = some ([], rest) := by
    cases rest with
    | nil => rfl
    | cons c rest =>
        rw [readFraction]
        intro tail heq
        exact (hrest c rfl).2.1 (List.cons.inj heq).1
  have hexponent : readExponent rest = some ([], rest) := by
    cases rest with
    | nil => rfl
    | cons c rest =>
        have hletter : ¬ (c = 'e' ∨ c = 'E') := not_or.2 (hrest c rfl).2.2
        simp [readExponent, hletter]
  have hunsigned : readUnsigned (ds ++ rest) = some (ds, rest) := by
    simp [readUnsigned, hwhole, hfraction, hexponent]
  have hsign : ∀ tail, ds ++ rest ≠ '-' :: tail := by
    intro tail heq
    cases h with
    | zero => cases heq
    | digits hzero h =>
        cases heq
        exact absurd (h '-' List.mem_cons_self) (by decide)
  unfold readNumber
  split
  · next heq => exact absurd heq (hsign _)
  · exact hunsigned

/-! ## Documents -/

/-- A document that can be written: its numbers are numerals, and its strings have texts. -/
inductive Plain : Json → Prop
  | null : Plain .null
  | bool (value : Bool) : Plain (.bool value)
  | ofNat (n : Nat) : Plain (.ofNat n)
  | text (value : String) : Plain (.text value)
  | array {items : List Json} (h : ∀ item ∈ items, Plain item) : Plain (.array items)
  | record {fields : List (String × Json)} (h : ∀ field ∈ fields, Plain field.2) :
    Plain (.record fields)

/-- The text that is written for the document is read as the document, and what follows is left. -/
def ReadsBack (document : Json) : Prop :=
  ∀ steps rest, (compact document).toList.length < steps → EndsNumber rest →
    readValue steps ((compact document).toList ++ rest) = some (document, rest)

/-- It is enough that the document is read in more steps than it has characters. -/
theorem ReadsBack.of_step {document : Json}
    (h : ∀ steps rest, (compact document).toList.length ≤ steps → EndsNumber rest →
      readValue (steps + 1) ((compact document).toList ++ rest) = some (document, rest)) :
    document.ReadsBack := by
  intro steps rest hsteps hrest
  obtain ⟨steps, rfl⟩ := Nat.exists_eq_add_one_of_ne_zero (Nat.ne_zero_of_lt hsteps)
  exact h steps rest (Nat.le_of_lt_succ hsteps) hrest

/-- The reader skips the character in front of a document. -/
def isSkipped (c : Char) : Bool := c = ' ' || c = '\n' || c = '\t' || c = '\r'

theorem skipBlanks_cons {c : Char} (h : isSkipped c = false) (cs : List Char) :
    skipBlanks (c :: cs) = c :: cs :=
  List.dropWhile_cons_of_neg (Bool.eq_false_iff.1 h)

theorem toList_compact_ofNat (n : Nat) : (compact (.ofNat n)).toList = Nat.toDigits 10 n := by
  rw [ofNat, compact, Nat.toString_eq_ofList_toDigits, String.toList_ofList]

theorem toList_compact_array (items : List Json) :
    (compact (.array items)).toList = '[' :: ((compactItems items).toList ++ [']']) := by
  rw [compact, String.toList_append, String.toList_append]
  rfl

/-- The field of a record as it is kept in a document. -/
def fieldOf (field : String × Json) : Option String × Json := (some field.1, field.2)

theorem toList_compact_record (fields : List (String × Json)) :
    (compact (.record fields)).toList =
      '\x7b' :: ((compactFields (fields.map fieldOf)).toList ++ ['\x7d']) := by
  rw [record, compact, String.toList_append, String.toList_append]
  rfl

theorem isSkipped_of_isDigit {d : Char} (h : d.isDigit) : isSkipped d = false := by
  simp only [isSkipped, Bool.or_eq_false_iff, decide_eq_false_iff_not]
  refine ⟨⟨⟨?_, ?_⟩, ?_⟩, ?_⟩ <;> rintro rfl <;> exact absurd h (by decide)

/-- A document begins with a character that neither is skipped nor ends an array. -/
theorem exists_head_compact {document : Json} (h : document.Plain) :
    ∃ c cs, (compact document).toList = c :: cs ∧ isSkipped c = false ∧ c ≠ ']' := by
  cases h with
  | null => exact ⟨'n', _, rfl, by decide, by decide⟩
  | bool value => cases value <;> exact ⟨_, _, rfl, by decide, by decide⟩
  | ofNat n =>
      rw [toList_compact_ofNat]
      obtain ⟨d, ds, hds, hd⟩ := (isNumeral_toDigits n).exists_head
      refine ⟨d, ds, hds, isSkipped_of_isDigit hd, ?_⟩
      rintro rfl
      exact absurd hd (by decide)
  | text value => exact ⟨'"', _, toList_quoted _, by decide, by decide⟩
  | array h => exact ⟨'[', _, toList_compact_array _, by decide, by decide⟩
  | record h => exact ⟨'\x7b', _, toList_compact_record _, by decide, by decide⟩

theorem endsNumber_cons {c : Char} (h : c = ',' ∨ c = ']' ∨ c = '\x7d') (rest : List Char) :
    EndsNumber (c :: rest) := by
  rintro d ⟨⟩
  rcases h with rfl | rfl | rfl <;> decide

/-! ### Arrays -/

section Items

variable {steps : Nat} {cs rest : List Char} {item : Json}

theorem readItems_last (h : readValue steps cs = some (item, ']' :: rest)) :
    readItems (steps + 1) cs = some ([item], rest) := by
  rw [readItems, h]
  rfl

theorem readItems_more (h : readValue steps cs = some (item, ',' :: rest)) :
    readItems (steps + 1) cs =
      (readItems steps rest).map fun (items, after) => (item :: items, after) := by
  rw [readItems, h]
  rfl

end Items

theorem toList_compactItems_cons (item next : Json) (items : List Json) :
    (compactItems (item :: next :: items)).toList =
      (compact item).toList ++ ',' :: (compactItems (next :: items)).toList := by
  rw [compactItems, String.toList_append, String.toList_append, List.append_assoc]
  · rfl
  · exact List.cons_ne_nil next items

theorem readItems_compact {items : List Json} (hne : items ≠ [])
    (h : ∀ item ∈ items, item.ReadsBack) :
    ∀ steps rest, (compactItems items).toList.length + 1 < steps →
      readItems steps ((compactItems items).toList ++ ']' :: rest) = some (items, rest) := by
  induction items with
  | nil => exact absurd rfl hne
  | cons item items ih =>
      intro steps rest hsteps
      obtain ⟨hitem, hitems⟩ := List.forall_mem_cons.1 h
      obtain ⟨steps, rfl⟩ := Nat.exists_eq_add_one_of_ne_zero (Nat.ne_zero_of_lt hsteps)
      -- a step for the item, and one less for the items behind it, which are shorter by a comma
      cases items with
      | nil =>
          rw [compactItems] at hsteps ⊢
          exact readItems_last (hitem steps _ (by omega) (endsNumber_cons (by decide) rest))
      | cons next items =>
          rw [toList_compactItems_cons] at hsteps ⊢
          rw [List.length_append, List.length_cons] at hsteps
          have hrest := ih (List.cons_ne_nil _ _) hitems steps rest (by omega)
          rw [List.append_assoc, List.cons_append, readItems_more (hitem steps _ (by omega)
            (endsNumber_cons (by decide) _)), hrest]
          rfl

/-! ### Objects -/

section Fields

variable {steps : Nat} {cs tail rest : List Char} {name : Option String} {value : Json}

theorem readFields_last (hname : readString cs = some (name, ':' :: tail))
    (hvalue : readValue steps tail = some (value, '\x7d' :: rest)) :
    readFields (steps + 1) ('"' :: cs) = some ([(name, value)], rest) := by
  simp (disch := decide) only [readFields, skipBlanks_cons, hname, hvalue]

theorem readFields_more (hname : readString cs = some (name, ':' :: tail))
    (hvalue : readValue steps tail = some (value, ',' :: rest)) :
    readFields (steps + 1) ('"' :: cs) =
      (readFields steps rest).map fun (fields, after) => ((name, value) :: fields, after) := by
  simp (disch := decide) only [readFields, skipBlanks_cons, hname, hvalue]

end Fields

/-- The name of a field and the colon behind it. -/
theorem toList_label (name : String) (cs : List Char) :
    (quoted name ++ ":").toList ++ cs =
      '"' :: (name.toList.flatMap escaped ++ '"' :: ':' :: cs) := by
  simp [quotedChars]

theorem toList_compactFields_singleton (name : String) (value : Json) :
    (compactFields [fieldOf (name, value)]).toList =
      '"' :: (name.toList.flatMap escaped ++ '"' :: ':' :: (compact value).toList) := by
  rw [fieldOf, compactFields, String.toList_append]
  exact toList_label name _

theorem toList_compactFields_cons (name : String) (value : Json) (next : Option String × Json)
    (fields : List (Option String × Json)) :
    (compactFields (fieldOf (name, value) :: next :: fields)).toList =
      '"' :: (name.toList.flatMap escaped ++ '"' :: ':' :: ((compact value).toList ++
        ',' :: (compactFields (next :: fields)).toList)) := by
  rw [fieldOf, compactFields, String.toList_append, String.toList_append, String.toList_append,
    List.append_assoc, List.append_assoc]
  · exact toList_label name _
  · exact List.cons_ne_nil next fields

theorem readFields_compact {fields : List (String × Json)} (hne : fields ≠ [])
    (h : ∀ field ∈ fields, field.2.ReadsBack) :
    ∀ steps rest, (compactFields (fields.map fieldOf)).toList.length + 1 < steps →
      readFields steps ((compactFields (fields.map fieldOf)).toList ++ '\x7d' :: rest) =
        some (fields.map fieldOf, rest) := by
  induction fields with
  | nil => exact absurd rfl hne
  | cons field fields ih =>
      intro steps rest hsteps
      obtain ⟨name, value⟩ := field
      obtain ⟨hfield, hfields⟩ := List.forall_mem_cons.1 h
      have hvalue : value.ReadsBack := hfield
      obtain ⟨steps, rfl⟩ := Nat.exists_eq_add_one_of_ne_zero (Nat.ne_zero_of_lt hsteps)
      have hname : ∀ tail, readString (name.toList.flatMap escaped ++ '"' :: tail) =
          some (some name, tail) := by
        intro tail
        rw [readString_escaped, String.ofList_toList]
      cases fields with
      | nil =>
          rw [List.map_singleton, toList_compactFields_singleton] at hsteps ⊢
          -- The fuel left for a value exceeds its length: the name and the marks took some of the
          -- text.
          simp only [List.length_cons, List.length_append] at hsteps
          simp only [List.cons_append, List.append_assoc]
          exact readFields_last (hname _)
            (hvalue steps _ (by omega) (endsNumber_cons (by decide) rest))
      | cons next fields =>
          rw [List.map_cons, List.map_cons, toList_compactFields_cons] at hsteps ⊢
          simp only [List.length_cons, List.length_append] at hsteps
          simp only [List.cons_append, List.append_assoc]
          rw [readFields_more (hname _)
            (hvalue steps _ (by omega) (endsNumber_cons (by decide) _))]
          have hrest := ih (List.cons_ne_nil _ _) hfields steps rest
          rw [List.map_cons] at hrest
          rw [hrest (by omega)]
          rfl

/-! ### All documents -/

theorem readValue_number {steps : Nat} {ds rest : List Char} (h : IsNumeral ds)
    (hrest : EndsNumber rest) :
    readValue (steps + 1) (ds ++ rest) = some (.number (String.ofList ds), rest) := by
  obtain ⟨d, tail, rfl, hd⟩ := h.exists_head
  have hnumber := readNumber_numeral h hrest
  have hne : ∀ {c cs}, c.isDigit = false → d :: tail ++ rest ≠ c :: cs := by
    intro c cs hc heq
    rw [(List.cons.inj heq).1, hc] at hd
    exact Bool.false_ne_true hd
  have hskip : skipBlanks (d :: tail ++ rest) = d :: tail ++ rest :=
    skipBlanks_cons (isSkipped_of_isDigit hd) (tail ++ rest)
  -- no other document begins with a digit
  rw [readValue, hskip]
  split
  case h_7 => rw [hnumber, Option.map_some]
  all_goals next heq => exact absurd heq (hne (by decide))

theorem readValue_items {steps : Nat} {c : Char} {cs : List Char} (hskipped : isSkipped c = false)
    (hbracket : c ≠ ']') :
    readValue (steps + 1) ('[' :: c :: cs) =
      (readItems steps (c :: cs)).map fun (items, after) => (.array items, after) := by
  have hskip : skipBlanks (c :: cs) = c :: cs := skipBlanks_cons hskipped cs
  simp (disch := decide) only [readValue, skipBlanks_cons, hskip]
  split
  · next heq => exact absurd (List.cons.inj heq).1 hbracket
  · rfl

theorem readValue_fields (steps : Nat) (cs : List Char) :
    readValue (steps + 1) ('\x7b' :: '"' :: cs) =
      (readFields steps ('"' :: cs)).map fun (fields, after) => (.object fields, after) := by
  simp (disch := decide) only [readValue, skipBlanks_cons]
  split
  · next heq => exact absurd (List.cons.inj heq).1 (by decide)
  · rfl

theorem readsBack_array {items : List Json} (hplain : ∀ item ∈ items, item.Plain)
    (h : ∀ item ∈ items, item.ReadsBack) : (Json.array items).ReadsBack := by
  refine .of_step fun steps rest hsteps _ => ?_
  rw [toList_compact_array, List.length_cons, List.length_append, List.length_singleton] at hsteps
  rw [toList_compact_array, List.cons_append, List.append_assoc, List.singleton_append]
  cases items with
  | nil =>
      simp (disch := decide) only [readValue, skipBlanks_cons, compactItems, String.toList_empty,
        List.nil_append]
  | cons item items =>
      obtain ⟨c, cs, hhead, hskipped, hbracket⟩ :=
        exists_head_compact (hplain item List.mem_cons_self)
      have hread := readItems_compact (List.cons_ne_nil item items) h steps rest (by omega)
      -- the array does not end where its first item begins
      have hopens : ∃ cs, (compactItems (item :: items)).toList ++ ']' :: rest = c :: cs := by
        cases items with
        | nil => exact ⟨cs ++ ']' :: rest, by rw [compactItems, hhead]; rfl⟩
        | cons next items => exact ⟨_, by rw [toList_compactItems_cons, hhead]; rfl⟩
      obtain ⟨cs, hcs⟩ := hopens
      rw [hcs, readValue_items hskipped hbracket, ← hcs, hread, Option.map_some]

theorem readsBack_record {fields : List (String × Json)} (h : ∀ field ∈ fields, field.2.ReadsBack) :
    (Json.record fields).ReadsBack := by
  refine .of_step fun steps rest hsteps _ => ?_
  rw [toList_compact_record, List.length_cons, List.length_append, List.length_singleton] at hsteps
  rw [toList_compact_record, List.cons_append, List.append_assoc, List.singleton_append]
  cases fields with
  | nil =>
      simp (disch := decide) only [readValue, skipBlanks_cons, compactFields, List.map_nil,
        String.toList_empty, List.nil_append, record]
  | cons field fields =>
      have hread := readFields_compact (List.cons_ne_nil field fields) h steps rest (by omega)
      have hopens : ∃ cs, (compactFields ((field :: fields).map fieldOf)).toList ++ '\x7d' :: rest =
          '"' :: cs := by
        cases fields with
        | nil => exact ⟨_, by rw [List.map_singleton, toList_compactFields_singleton]; rfl⟩
        | cons next fields =>
            exact ⟨_, by rw [List.map_cons, List.map_cons, toList_compactFields_cons]; rfl⟩
      obtain ⟨cs, hcs⟩ := hopens
      rw [hcs, readValue_fields, ← hcs, hread]
      rfl

/-- Every document that can be written is read back. -/
theorem readsBack_of_plain {document : Json} (h : document.Plain) : document.ReadsBack := by
  induction h with
  | null => exact .of_step fun _ _ _ _ => rfl
  | bool value =>
      refine .of_step fun _ _ _ _ => ?_
      cases value <;> rfl
  | ofNat n =>
      refine .of_step fun _ _ _ hrest => ?_
      rw [toList_compact_ofNat, readValue_number (isNumeral_toDigits n) hrest, ofNat,
        Nat.toString_eq_ofList_toDigits]
  | text value =>
      refine .of_step fun _ rest _ _ => ?_
      have htext : (compact (.text value)).toList ++ rest =
          '"' :: (value.toList.flatMap escaped ++ '"' :: rest) := by
        simp [text, compact, quotedChars]
      rw [htext]
      simp (disch := decide) only [readValue, skipBlanks_cons, readString_escaped,
        String.ofList_toList, Option.map_some]
      rfl
  | array hplain ih => exact readsBack_array hplain ih
  | record _ ih => exact readsBack_record ih

/-- The compact form of a document spells that document and nothing else. -/
theorem ofString?_compact {document : Json} (h : document.Plain) :
    ofString? (compact document) = some document := by
  have hread := readsBack_of_plain h ((compact document).toList.length + 1) [] (by omega)
    (by rintro c ⟨⟩)
  rw [List.append_nil] at hread
  unfold ofString?
  dsimp only
  rw [hread]
  rfl

end Json

end ModuleLinker
