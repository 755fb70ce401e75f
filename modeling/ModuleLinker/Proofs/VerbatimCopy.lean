/-
# ModuleLinker.Proofs.VerbatimCopy -- what is written of a statement

A statement that is copied is cut into lines, and the lines are written one by one. `copyOf` says
character by character what becomes of it: a carriage return in front of a newline is left out, two
blanks stand behind a newline unless the next line is blank or begins inside a literal, and all
other characters stay as they are. `toList_joined_statementLines` says that this is what is written.

A copy is made of the copies of its parts, and a part all of whose lines begin inside a literal is
written as it is but for its carriage returns.
-/

import ModuleLinker.Proofs.LineBreaks

namespace ModuleLinker

open Text

/-! ## Lines of a text -/

namespace Text

theorem splitLines_ne_nil (text : List Char) : splitLines text ≠ [] := by
  unfold splitLines
  split
  · exact List.cons_ne_nil _ _
  · split
    · exact List.cons_ne_nil _ _
    · split <;> exact List.cons_ne_nil _ _

/-- The first line is the whole text, or a newline stands behind it. -/
theorem splitLines_eq_cons {text line : List Char} {lines : List (List Char)}
    (h : splitLines text = line :: lines) :
    (lines = [] ∧ text = line) ∨ ∃ rest, text = line ++ '\n' :: rest ∧ splitLines rest = lines := by
  induction text generalizing line with
  | nil =>
      obtain ⟨rfl, rfl⟩ := List.cons.inj h
      exact .inl ⟨rfl, rfl⟩
  | cons c cs ih =>
      unfold splitLines at h
      split at h
      · next hc =>
        obtain ⟨rfl, rfl⟩ := List.cons.inj h
        exact .inr ⟨cs, by rw [hc, List.nil_append], rfl⟩
      · split at h
        · next hnone => exact absurd hnone (splitLines_ne_nil cs)
        · next first rest hsplit =>
          obtain ⟨rfl, rfl⟩ := List.cons.inj h
          rcases ih hsplit with ⟨rfl, rfl⟩ | ⟨below, rfl, hbelow⟩
          · exact .inl ⟨rfl, rfl⟩
          · exact .inr ⟨below, rfl, hbelow⟩

end Text

namespace Emission

/-! ## Copies -/

/-- The text without the carriage returns that stand in front of newlines. -/
def withoutReturns : List Char → List Char
  | [] => []
  | c :: rest =>
    if c = '\r' ∧ rest.head? = some '\n' then withoutReturns rest else c :: withoutReturns rest

/-- Whether nothing stands on the line that a text begins with. -/
def isBlankLine : List Char → Bool
  | '\n' :: _ => true
  | '\r' :: '\n' :: _ => true
  | _ => false

section Copies

variable (inside : Nat → Prop) [DecidablePred inside]

/-- What is written in front of a line that begins at an offset. -/
def margin (offset : Nat) (line : List Char) : List Char :=
  if isBlankLine line || inside offset then [] else [' ', ' ']

/-- What is written of a character, given what stands behind it. -/
def copyOfChar (offset : Nat) (c : Char) (behind : List Char) : List Char :=
  if c = '\r' ∧ behind.head? = some '\n' then []
  else if c = '\n' then '\n' :: margin inside (offset + 1) behind
  else [c]

/-- What is written of a part of a text that begins at an offset, given what stands behind it. The
offsets in `inside` are those inside of literals. -/
def copyOf (behind : List Char) (offset : Nat) : List Char → List Char
  | [] => []
  | c :: rest =>
    copyOfChar inside offset c (rest ++ behind) ++ copyOf behind (offset + c.utf8Size) rest

/-- What is written of a statement whose text begins at an offset. -/
def writtenOf (offset : Nat) (text : List Char) : List Char :=
  margin inside offset (text ++ ['\n']) ++ copyOf inside ['\n'] offset text ++ ['\n']

variable {inside}

/-- A copy is made of the copies of its parts. -/
theorem copyOf_append (behind : List Char) (offset : Nat) (a b : List Char) :
    copyOf inside behind offset (a ++ b) =
      copyOf inside (b ++ behind) offset a ++ copyOf inside behind (offset + byteSize a) b := by
  induction a generalizing offset with
  | nil => rfl
  | cons c a ih =>
      simp only [List.cons_append, copyOf, ih, byteSize, List.append_assoc, Nat.add_assoc]

theorem margin_congr {inside' : Nat → Prop} [DecidablePred inside'] {offset offset' : Nat}
    (h : inside offset ↔ inside' offset') (line : List Char) :
    margin inside offset line = margin inside' offset' line := by
  simp only [margin, h]

/-- Two accounts of what lies inside of literals give the same copy if they agree on where the lines
begin; they may count from different origins. -/
theorem copyOf_congr {inside' : Nat → Prop} [DecidablePred inside'] {behind text : List Char}
    {origin offset : Nat} (h : ∀ above below, text = above ++ '\n' :: below →
      (inside (offset + byteSize above + 1 + origin) ↔ inside' (offset + byteSize above + 1))) :
    copyOf inside behind (offset + origin) text = copyOf inside' behind offset text := by
  -- Only the margin of a line asks whether the place is inside, and only behind a newline.
  induction text generalizing offset with
  | nil => rfl
  | cons c text ih =>
      have hchar : copyOfChar inside (offset + origin) c (text ++ behind) =
          copyOfChar inside' offset c (text ++ behind) := by
        unfold copyOfChar
        split
        · rfl
        split
        · next hc =>
          have hstart := h [] text (by rw [hc, List.nil_append])
          rw [byteSize, Nat.add_zero] at hstart
          rw [Nat.add_right_comm, margin_congr hstart]
        · rfl
      have hrest : copyOf inside behind (offset + c.utf8Size + origin) text =
          copyOf inside' behind (offset + c.utf8Size) text := by
        apply ih
        rintro above below rfl
        have hstart := h (c :: above) below rfl
        rwa [byteSize, ← Nat.add_assoc] at hstart
      rw [copyOf, copyOf, hchar, Nat.add_right_comm, hrest]

/-- A part of a text is written without its carriage returns if all its lines begin inside of
literals and it does not end with a carriage return. -/
theorem copyOf_eq_withoutReturns {behind text : List Char} {offset : Nat}
    (hinside : ∀ above below, text = above ++ '\n' :: below →
      inside (offset + byteSize above + 1)) (hlast : text.getLast? ≠ some '\r') :
    copyOf inside behind offset text = withoutReturns text := by
  induction text generalizing offset with
  | nil => rfl
  | cons c text ih =>
      have hrest : copyOf inside behind (offset + c.utf8Size) text = withoutReturns text := by
        apply ih
        · rintro above below rfl
          have hstart := hinside (c :: above) below rfl
          rwa [byteSize, ← Nat.add_assoc] at hstart
        · intro hreturn
          apply hlast
          rw [List.getLast?_cons, hreturn, Option.getD_some]
      -- only at the end of the part does what stands behind it matter
      have hreturns : (c = '\r' ∧ (text ++ behind).head? = some '\n') ↔
          (c = '\r' ∧ text.head? = some '\n') := by
        cases text with
        | nil =>
            refine iff_of_false ?_ (fun h => by cases h.2)
            rintro ⟨rfl, -⟩
            exact hlast rfl
        | cons => rfl
      rw [copyOf, withoutReturns, copyOfChar, hrest]
      simp only [hreturns]
      split
      · rfl
      split
      · next hc =>
        have hstart := hinside [] text (by rw [hc, List.nil_append])
        rw [byteSize, Nat.add_zero] at hstart
        simp [margin, hstart, hc]
      · rfl

end Copies

/-! ## Lines as they are written -/

section Lines

variable {inside : Nat → Prop} [DecidablePred inside] {line : List Char}

theorem copyOf_line (h : '\n' ∉ line) (below : List Char) (offset : Nat) :
    copyOf inside ('\n' :: below) offset line = withoutReturn line := by
  induction line generalizing offset with
  | nil => rfl
  | cons c line ih =>
      obtain ⟨hc, hline⟩ := not_or.1 (mt List.mem_cons.2 h)
      rw [copyOf, ih hline, copyOfChar, if_neg (Ne.symm hc)]
      cases line with
      | nil =>
          by_cases hreturn : c = '\r'
          · simp [hreturn, withoutReturn]
          · simp [hreturn, withoutReturn]
      | cons d line =>
          have hd : d ≠ '\n' := fun hd => hline (hd ▸ List.mem_cons_self)
          rw [if_neg (fun h => hd (Option.some.inj h.2))]
          unfold withoutReturn
          rw [List.getLast?_cons_cons]
          split <;> rfl

theorem isBlankLine_line (h : '\n' ∉ line) (below : List Char) :
    isBlankLine (line ++ '\n' :: below) = (withoutReturn line).isEmpty := by
  rcases line with _ | ⟨c, _ | ⟨d, line⟩⟩
  · rfl
  · by_cases hreturn : c = '\r'
    · subst hreturn
      rfl
    · have hc : c ≠ '\n' := fun hc => h (hc ▸ List.mem_cons_self)
      simp [isBlankLine, withoutReturn, hreturn, hc]
  · have hc : c ≠ '\n' := fun hc => h (hc ▸ List.mem_cons_self)
    have hd : d ≠ '\n' := fun hd => h (hd ▸ List.mem_cons_of_mem _ List.mem_cons_self)
    have hright : (withoutReturn (c :: d :: line)).isEmpty = false := by
      unfold withoutReturn
      split <;> rfl
    rw [hright]
    simp [isBlankLine, hc, hd]

end Lines

variable {source : Source} {file : Option String}

/-- The offsets that the source takes to be inside of literals. -/
abbrev InsideLiteral (source : Source) (offset : Nat) : Prop := source.insideLiteral offset = true

theorem toList_statementText {first : Bool} {offset : Nat} {line : List Char}
    (hfirst : first = true → ¬ InsideLiteral source offset) (h : '\n' ∉ line) (below : List Char) :
    (statementText source first offset line).toList =
      margin (InsideLiteral source) offset (line ++ '\n' :: below) ++
        copyOf (InsideLiteral source) ('\n' :: below) offset line := by
  have hinside : (!first && source.insideLiteral offset) =
      decide (InsideLiteral source offset) := by
    cases first with
    | false => simp [InsideLiteral]
    | true => simpa using hfirst rfl
  rw [copyOf_line h, margin, isBlankLine_line h, statementText, hinside]
  split <;> simp [indent]

/-- The lines of a statement are what is written of it. -/
theorem toList_joined_statementLines {text : List Char} {lines : List (List Char)}
    {number offset : Nat} {first : Bool} (hlines : splitLines text = lines)
    (hfirst : first = true → ¬ InsideLiteral source offset) :
    (joined (statementLines file source number first (numberedLines offset lines))).toList =
      writtenOf (InsideLiteral source) offset text := by
  unfold writtenOf
  induction lines generalizing text number offset first with
  | nil => exact absurd hlines (splitLines_ne_nil text)
  | cons line lines ih =>
      have hline : '\n' ∉ line := newline_notMem_of_mem_splitLines (hlines ▸ List.mem_cons_self)
      rw [numberedLines, statementLines, joined, String.toList_append, String.toList_append]
      -- the margin of the next line is written by the newline in front of it
      rcases splitLines_eq_cons hlines with ⟨rfl, rfl⟩ | ⟨rest, rfl, hrest⟩
      · rw [copied, toList_statementText hfirst hline []]
        simp [numberedLines, statementLines, joined]
      · rw [copied, toList_statementText hfirst hline (rest ++ ['\n']), ih hrest, copyOf_append]
        · have hsize : Char.utf8Size '\n' = 1 := rfl
          simp [copyOf, copyOfChar, hsize]
        · exact fun hnever => absurd hnever Bool.false_ne_true

end Emission

end ModuleLinker
