/-
# ModuleLinker.Proofs.TokenScan -- a token does not depend on what follows its text

`scan_append` puts the scanners together: the token at the start of a text whose lines all have
their end is the same whatever follows the text, unless it ends behind the text.
-/

import ModuleLinker.Proofs.TextScan

namespace ModuleLinker.Script

open Text

/-! ## Tokens -/

/-- The end of a number only depends on the character behind it. -/
theorem endsNumber_eq {c d : Cursor} (h : c.rest.head? = d.rest.head?) :
    endsNumber c = endsNumber d := by
  obtain ⟨cs, m⟩ := c
  obtain ⟨ds, n⟩ := d
  rcases cs with _ | ⟨a, cs⟩ <;> rcases ds with _ | ⟨b, ds⟩
  · rfl
  · cases h
  · cases h
  · obtain rfl := Option.some.inj h
    rfl

/-- A number as a token. -/
def numberKind (c : Cursor) : (TokenKind × List Nat) × Cursor :=
  let number := Number.read c
  if number.valid && endsNumber number.next then ((.number number.legacy, []), number.next)
  else ((.illegal c.offset, []), c)

theorem numberKind_staysOnLine : StaysOnLine numberKind := by
  intro w offset hw
  obtain ⟨⟨valid, legacy⟩, n, hn, hread⟩ := read_staysOnLine w offset hw
  have hends (rest : List Char) : endsNumber ((Cursor.line w offset rest).skip n) =
      endsNumber ((Cursor.line w offset []).skip n) := by
    refine endsNumber_eq ?_
    rw [head?_skip_line _ _ _ _ hn, head?_skip_line _ _ _ _ hn]
  simp only [Number.parts, Prod.mk.injEq] at hread
  by_cases hvalid : valid && endsNumber ((Cursor.line w offset []).skip n)
  · refine ⟨(.number legacy, []), n, hn, fun rest => ?_⟩
    obtain ⟨⟨hok, hlegacy⟩, hnext⟩ := hread rest
    simp only [numberKind, hok, hlegacy, hnext, hends, hvalid, if_true]
  · refine ⟨(.illegal offset, []), 0, Nat.zero_le _, fun rest => ?_⟩
    obtain ⟨⟨hok, hlegacy⟩, hnext⟩ := hread rest
    simp only [numberKind, hok, hlegacy, hnext, hends, hvalid]
    rfl

/-- A word as a token. -/
def wordKind (c : Cursor) : (TokenKind × List Nat) × Cursor :=
  match readWord true 0 c.offset c.rest with
  | some (first :: name, escaped, next) =>
    ((.word (String.ofList (first :: name)) escaped, []), next)
  | _ => ((.illegal c.offset, []), c)

theorem wordKind_staysOnLine : StaysOnLine wordKind := by
  intro w offset hw
  rcases readWord_line hw true 0 offset (Nat.zero_le _) with hnone | ⟨name, escaped, n, hn, hread⟩
  · refine ⟨(.illegal offset, []), 0, Nat.zero_le _, fun rest => ?_⟩
    simp only [wordKind, hnone]
    rfl
  · rcases name with _ | ⟨first, name⟩
    · refine ⟨(.illegal offset, []), 0, Nat.zero_le _, fun rest => ?_⟩
      simp only [wordKind, hread]
      rfl
    · refine ⟨(.word (String.ofList (first :: name)) escaped, []), n, hn, fun rest => ?_⟩
      simp only [wordKind, hread]

/-- The scan of a token behind its trivia, with its results in the order of scanners. -/
def kindFrom (c : Cursor) : (TokenKind × List Nat) × Cursor :=
  (((TokenKind.read c).1, (TokenKind.read c).2.1), (TokenKind.read c).2.2)

/-- The token of a line that begins with a number, a punctuator or a word. -/
def plainKind (c : Char) (w : List Char) (offset : Nat) (rest : List Char) :
    TokenKind × List Nat × Cursor :=
  if c.isDigit then
    let number := Number.read (.line (c :: w) offset rest)
    if number.valid && endsNumber number.next then
      (.number number.legacy, [], number.next)
    else (.illegal offset, [], .line (c :: w) offset rest)
  else
    match punctuator? (c :: w) with
    | some text =>
      (.punctuator text, [], (Cursor.line (c :: w) offset rest).skip text.length)
    | none =>
      match readWord true 0 offset (c :: (w ++ '\n' :: rest)) with
      | some (c :: name, escaped, next) =>
        (.word (String.ofList (c :: name)) escaped, [], next)
      | _ => (.illegal offset, [], .line (c :: w) offset rest)

/-- A token on a line ends there and is the same whatever follows the line. -/
def KindStays (w : List Char) (offset : Nat) : Prop :=
  ∃ a n, n ≤ w.length ∧ ∀ rest,
    kindFrom (.line w offset rest) = (a, (Cursor.line w offset rest).skip n)

/-- A private name stays on its line. -/
theorem kindStays_hash {w : List Char} (hw : '\n' ∉ w) (offset : Nat) :
    KindStays ('#' :: w) offset := by
  rcases readWord_line hw true 0 (offset + 1) (Nat.zero_le _) with
    hnone | ⟨name, escaped, n, hn, hread⟩
  · refine ⟨(.illegal offset, []), 0, Nat.zero_le _, fun rest => ?_⟩
    simp only [kindFrom, TokenKind.read, List.cons_append, hnone]
    rfl
  · rcases name with _ | ⟨first, name⟩
    · refine ⟨(.illegal offset, []), 0, Nat.zero_le _, fun rest => ?_⟩
      simp only [kindFrom, TokenKind.read, List.cons_append, hread]
      rfl
    · refine ⟨(.privateWord (String.ofList (first :: name)), []), n + 1, Nat.succ_le_succ hn,
        fun rest => ?_⟩
      simp only [kindFrom, TokenKind.read, List.cons_append, hread]
      rfl

theorem kindStays_of_number {w : List Char} (hw : '\n' ∉ w) {offset : Nat}
    (hread : ∀ rest, kindFrom (.line w offset rest) = numberKind (.line w offset rest)) :
    KindStays w offset := by
  obtain ⟨a, n, hn, hkind⟩ := numberKind_staysOnLine w offset hw
  exact ⟨a, n, hn, fun rest => (hread rest).trans (hkind rest)⟩

/-- A point that no digit follows is a punctuator, or the first character of one. -/
theorem kindStays_point {w : List Char}
    (hhead : ∀ rest, ∃ d tail, w ++ '\n' :: rest = d :: tail ∧ ¬ d.isDigit) (offset : Nat) :
    KindStays ('.' :: w) offset := by
  refine ⟨(.punctuator ((punctuator? ('.' :: w)).getD "."), []),
    ((punctuator? ('.' :: w)).getD ".").length, ?_, fun rest => ?_⟩
  · cases htext : punctuator? ('.' :: w) with
    | none => exact Nat.succ_le_succ (Nat.zero_le _)
    | some text => exact length_le_of_punctuator? htext
  · obtain ⟨d, tail, htail, hd⟩ := hhead rest
    have hpunct : punctuator? ('.' :: (w ++ '\n' :: rest)) = punctuator? ('.' :: w) :=
      punctuator?_line ('.' :: w) rest
    rw [htail] at hpunct
    simp only [kindFrom, TokenKind.read, List.cons_append, htail, hd, hpunct]
    rfl

/-- A point begins a number or a punctuator. -/
theorem kindStays_point_or_number {w : List Char} (hw : '\n' ∉ w) (offset : Nat) :
    KindStays ('.' :: w) offset := by
  rcases w with _ | ⟨d, w⟩
  · exact kindStays_point (fun rest => ⟨'\n', rest, rfl, by decide⟩) offset
  by_cases hd : d.isDigit
  · refine kindStays_of_number (by simpa using hw) fun rest => ?_
    simp only [kindFrom, TokenKind.read, numberKind, List.cons_append, hd, if_true]
    split <;> rfl
  · exact kindStays_point (fun rest => ⟨d, w ++ '\n' :: rest, rfl, hd⟩) offset

theorem read_plain {c : Char} (hhash : c ≠ '#') (hpoint : c ≠ '.')
    (hquotes : ¬ (c = '"' ∨ c = '\'')) (w : List Char) (offset : Nat) (rest : List Char) :
    TokenKind.read (.line (c :: w) offset rest) = plainKind c w offset rest := by
  unfold plainKind
  rw [← punctuator?_line (c :: w) rest]
  unfold TokenKind.read
  split
  · next heq => cases heq
  · next heq => exact absurd (List.cons.inj heq).1 hhash
  · next heq => exact absurd (List.cons.inj heq).1 hpoint
  · next heq =>
      obtain ⟨rfl, rfl⟩ := List.cons.inj heq
      rw [if_neg hquotes]
      rfl

/-- A number, a punctuator or a word stays on its line. -/
theorem kindStays_plain {c : Char} {w : List Char} (hw : '\n' ∉ c :: w) {offset : Nat}
    (hread : ∀ rest, TokenKind.read (.line (c :: w) offset rest) = plainKind c w offset rest) :
    KindStays (c :: w) offset := by
  by_cases hdigit : c.isDigit
  · refine kindStays_of_number hw fun rest => ?_
    simp only [kindFrom, hread, plainKind, hdigit, if_true, numberKind]
    split <;> rfl
  cases htext : punctuator? (c :: w) with
  | some text =>
      refine ⟨(.punctuator text, []), text.length, length_le_of_punctuator? htext,
        fun rest => ?_⟩
      simp only [kindFrom, hread, plainKind, hdigit, htext]
      rfl
  | none =>
      obtain ⟨a, n, hn, hkind⟩ := wordKind_staysOnLine (c :: w) offset hw
      refine ⟨a, n, hn, fun rest => ?_⟩
      rw [← hkind rest]
      simp only [kindFrom, hread, plainKind, if_neg hdigit, htext, wordKind, List.cons_append]
      rcases readWord true 0 offset (c :: (w ++ '\n' :: rest)) with _ | ⟨_ | ⟨_, _⟩, _, _⟩ <;> rfl

/-- A token other than a string stays on its line. -/
theorem kindFrom_line {w : List Char} (hw : '\n' ∉ w) (hquote : w.head? ≠ some '"')
    (happostrophe : w.head? ≠ some '\'') (offset : Nat) : KindStays w offset := by
  rcases w with _ | ⟨c, w⟩
  · exact ⟨(.illegal offset, []), 0, Nat.le_refl _, fun rest => rfl⟩
  have hw' : '\n' ∉ w := fun hmem => hw (.tail _ hmem)
  by_cases hhash : c = '#'
  · subst hhash
    exact kindStays_hash hw' offset
  by_cases hpoint : c = '.'
  · subst hpoint
    exact kindStays_point_or_number hw' offset
  · have hquotes : ¬ (c = '"' ∨ c = '\'') := by
      rintro (rfl | rfl)
      · exact hquote rfl
      · exact happostrophe rfl
    exact kindStays_plain hw (read_plain hhash hpoint hquotes w offset)

/-- A string as a token, given how its inside was read. -/
def stringKind (offset : Nat) (body : (List Char × Bool × StringEnd) × Cursor) :
    (TokenKind × List Nat) × Cursor :=
  match body with
  | ((value, legacy, .closed), next) => ((.string (String.ofList value) legacy, []), next)
  | ((value, legacy, .unterminated), next) =>
    ((.string (String.ofList value) legacy, [offset]), next)
  | ((_, _, .malformed), next) => ((.illegal next.offset, []), next)

theorem stringKind_ne_punctuator (offset : Nat) (body : (List Char × Bool × StringEnd) × Cursor)
    (text : String) : (stringKind offset body).1.1 ≠ .punctuator text := by
  obtain ⟨⟨value, legacy, ending⟩, next⟩ := body
  cases ending <;> exact fun h => nomatch h

theorem stringKind_snd (offset : Nat) (body : (List Char × Bool × StringEnd) × Cursor) :
    (stringKind offset body).2 = body.2 := by
  obtain ⟨⟨value, legacy, ending⟩, next⟩ := body
  cases ending <;> rfl

theorem read_string {c : Char} (hc : c = '"' ∨ c = '\'') (offset : Nat) (rest : List Char) :
    TokenKind.read ⟨c :: rest, offset⟩ =
      let body := StringBody.read c 0 (offset + 1) rest
      let kind := .string (String.ofList body.value) body.legacy
      match body.ending with
      | .closed => (kind, [], body.next)
      | .unterminated => (kind, [offset], body.next)
      | .malformed => (.illegal body.next.offset, [], body.next) := by
  rcases hc with rfl | rfl <;> rfl

theorem kindFrom_string {c : Char} (hc : c = '"' ∨ c = '\'') (offset : Nat) (rest : List Char) :
    kindFrom ⟨c :: rest, offset⟩ =
      stringKind offset (stringFrom c 0 (Cursor.skip 1 ⟨c :: rest, offset⟩)) := by
  have hinside : Cursor.skip 1 ⟨c :: rest, offset⟩ = ⟨rest, offset + 1⟩ := by
    rcases hc with rfl | rfl <;> rfl
  rw [hinside]
  simp only [kindFrom, read_string hc, stringFrom, stringKind]
  cases (StringBody.read c 0 (offset + 1) rest).ending <;> rfl

/-- Only a string goes on behind a complete text. -/
theorem kindFrom_append {s : List Char} (hs : Complete s) (hne : s ≠ []) (offset : Nat) :
    (∃ a n, n < s.length ∧ ∀ rest,
      kindFrom ⟨s ++ rest, offset⟩ = (a, Cursor.skip n ⟨s ++ rest, offset⟩)) ∨
    ∀ rest, Complete rest →
      (∀ text, (kindFrom ⟨s ++ rest, offset⟩).1.1 ≠ .punctuator text) ∧
      ∃ n, s.length ≤ n ∧
        (kindFrom ⟨s ++ rest, offset⟩).2 = Cursor.skip n ⟨s ++ rest, offset⟩ := by
  obtain ⟨w, tail, hw, hsplit⟩ := hs.exists_line hne
  -- Only a string can go beyond the line that it begins on, by an escaped newline.
  by_cases hquote : w.head? = some '"' ∨ w.head? = some '\''
  · obtain ⟨c, w, rfl⟩ : ∃ c w', w = c :: w' := by
      rcases w with _ | ⟨c, w⟩
      · simp at hquote
      · exact ⟨c, w, rfl⟩
    simp only [List.head?_cons, Option.some.injEq] at hquote
    have hread (rest : List Char) : kindFrom ⟨s ++ rest, offset⟩ =
        stringKind offset (stringFrom c 0 (Cursor.skip 1 ⟨s ++ rest, offset⟩)) := by
      rw [hsplit]
      exact kindFrom_string hquote offset _
    have hlength : 1 ≤ s.length := List.length_pos_iff.2 hne
    have hdrop : (s.drop 1).length = s.length - 1 := List.length_drop
    rcases stringFrom_readsLocally c 0 (hs.drop 1) (offset + byteSize (s.take 1)) with
      ⟨⟨value, legacy, ending⟩, n, hn, hbody⟩ | hpast
    · refine .inl ⟨(stringKind offset ((value, legacy, ending),
        Cursor.skip (1 + n) ⟨s ++ [], offset⟩)).1, 1 + n, by omega, fun rest => ?_⟩
      rw [hread, Cursor.skip_append _ _ _ _ hlength, hbody, ← Cursor.skip_append _ _ _ _ hlength,
        Cursor.skip_skip, Cursor.skip_append (1 + n) offset s rest (by omega),
        Cursor.skip_append (1 + n) offset s [] (by omega)]
      cases ending <;> rfl
    · refine .inr fun rest hrest => ?_
      obtain ⟨n, hn, hbody⟩ := hpast rest hrest
      rw [hread]
      refine ⟨stringKind_ne_punctuator _ _, 1 + n, by omega, ?_⟩
      rw [stringKind_snd, ← Cursor.skip_skip, Cursor.skip_append _ _ _ _ hlength]
      exact hbody
  · rw [not_or] at hquote
    obtain ⟨a, n, hn, hkind⟩ := kindFrom_line hw hquote.1 hquote.2 offset
    rw [hsplit]
    refine .inl ⟨a, n, ?_, fun rest => ?_⟩
    · rw [List.length_append, List.length_cons]
      omega
    · rw [List.append_assoc]
      exact hkind (tail ++ rest)

/-- What stands behind trivia in a complete text ends there as well. -/
theorem kindFrom_skip {s : List Char} (hs : Complete s) (offset : Nat) :
    ∃ n, (kindFrom ⟨s, offset⟩).2 = Cursor.skip n ⟨s, offset⟩ := by
  by_cases hne : s = []
  · subst hne
    exact ⟨0, rfl⟩
  rcases kindFrom_append hs hne offset with ⟨a, n, -, hkind⟩ | hpast
  · exact ⟨n, by simpa using congrArg Prod.snd (hkind [])⟩
  · obtain ⟨-, n, -, hkind⟩ := hpast [] (.inl rfl)
    exact ⟨n, by simpa using hkind⟩

/-- The token behind trivia, given what was read of both. -/
def tokenOf (trivia : (Bool × Option Nat × Option Nat) × Cursor)
    (kind : (TokenKind × List Nat) × Cursor) : Token where
  kind := kind.1.1
  span := ⟨trivia.1.2.1.getD trivia.2.offset, kind.2.offset⟩
  lineBreak := trivia.1.1
  faults := trivia.1.2.2.toList ++ kind.1.2

theorem scan_eq (c : Cursor) (lineStart : Bool) :
    Token.scan c lineStart =
      let trivia := triviaFrom .between lineStart none c
      let kind := kindFrom trivia.2
      ⟨tokenOf trivia kind, trivia.2, kind.2⟩ := rfl

/-- A token at the start of a complete text either does not depend on what follows that text, or
ends behind it, and only a string begins in the text then. -/
theorem scan_append {s : List Char} (hs : Complete s) (offset : Nat) (lineStart : Bool) :
    (∃ token m n, m ≤ n ∧ n < s.length ∧ ∀ rest, Token.scan ⟨s ++ rest, offset⟩ lineStart =
      ⟨token, Cursor.skip m ⟨s ++ rest, offset⟩, Cursor.skip n ⟨s ++ rest, offset⟩⟩) ∨
    ∀ rest, Complete rest →
      let scanned := Token.scan ⟨s ++ rest, offset⟩ lineStart
      ∃ m n, m ≤ n ∧ s.length ≤ n ∧ (∀ text, scanned.kind = .punctuator text → s.length ≤ m) ∧
        scanned.place = Cursor.skip m ⟨s ++ rest, offset⟩ ∧
        scanned.next = Cursor.skip n ⟨s ++ rest, offset⟩ := by
  simp only [scan_eq]
  -- Spaces and comments are read first. They end inside `s`, and then the token does so or not, or
  -- they go past the end of `s`, and then so does the token.
  rcases triviaFrom_readsLocally .between lineStart none hs offset with
    ⟨a, m, hm, htrivia⟩ | hpast
  · have hdrop : (s.drop m).length = s.length - m := List.length_drop
    have hplace (rest : List Char) := Cursor.skip_append m offset s rest (Nat.le_of_lt hm)
    rcases kindFrom_append (hs.drop m) (by simpa using hm)
      (offset + byteSize (s.take m)) with ⟨b, n, hn, hkind⟩ | hpast
    · refine .inl ⟨tokenOf (a, Cursor.skip m ⟨s ++ [], offset⟩)
        (b, Cursor.skip (m + n) ⟨s ++ [], offset⟩), m, m + n, by omega, by omega, fun rest => ?_⟩
      simp only [htrivia, hplace, hkind, ← Cursor.skip_skip]
      simp only [Cursor.skip_append n _ (s.drop m) _ (Nat.le_of_lt hn)]
      rfl
    · refine .inr fun rest hrest => ?_
      obtain ⟨hpunct, n, hn, hkind⟩ := hpast rest hrest
      rw [← hplace] at hpunct hkind
      rw [htrivia]
      refine ⟨m, m + n, Nat.le_add_right _ _, by omega, fun text htext => ?_, rfl, ?_⟩
      · exact absurd htext (hpunct text)
      · rw [← Cursor.skip_skip]
        exact hkind
  · refine .inr fun rest hrest => ?_
    obtain ⟨k, hk, htrivia⟩ := hpast rest hrest
    rw [htrivia]
    obtain ⟨n, hkind⟩ := kindFrom_skip ((hs.append hrest).drop k)
      (Cursor.skip k ⟨s ++ rest, offset⟩).offset
    have hplace : Cursor.skip k ⟨s ++ rest, offset⟩ =
        ⟨(s ++ rest).drop k, (Cursor.skip k ⟨s ++ rest, offset⟩).offset⟩ := by
      rw [← Cursor.skip_rest k ⟨s ++ rest, offset⟩]
    rw [← hplace] at hkind
    refine ⟨k, k + n, Nat.le_add_right _ _, by omega, fun _ _ => hk, rfl, ?_⟩
    rw [← Cursor.skip_skip]
    exact hkind

/-! ## Regular expressions as tokens -/

theorem regexClose?_append {s : List Char} (hs : Complete s) (hne : s ≠ []) (offset : Nat) :
    (∀ rest, regexClose? ⟨s ++ rest, offset⟩ = none) ∨
      ∃ n, n < s.length ∧ ∀ rest,
        regexClose? ⟨s ++ rest, offset⟩ = some (Cursor.skip n ⟨s ++ rest, offset⟩) := by
  obtain ⟨w, tail, hw, rfl⟩ := hs.exists_line hne
  simp only [List.append_assoc, List.cons_append]
  rcases w with _ | ⟨c, w⟩
  · exact .inl fun rest => rfl
  rw [List.mem_cons, not_or] at hw
  by_cases hc : c = '/'
  · subst hc
    rcases regexEnd_line hw.2 false (offset + 1) with hnone | ⟨n, hn, hend⟩
    · exact .inl fun rest => hnone (tail ++ rest)
    · refine .inr ⟨n + 1, ?_, fun rest => hend (tail ++ rest)⟩
      simp only [List.length_append, List.length_cons]
      omega
  · exact .inl fun rest => by simp [regexClose?, hc]

theorem readWord_append {s : List Char} (hs : Complete s) (hne : s ≠ []) (first : Bool)
    (offset : Nat) :
    (∀ rest, readWord first 0 offset (s ++ rest) = none) ∨
      ∃ name escaped n, n < s.length ∧ ∀ rest, readWord first 0 offset (s ++ rest) =
        some (name, escaped, Cursor.skip n ⟨s ++ rest, offset⟩) := by
  obtain ⟨w, tail, hw, rfl⟩ := hs.exists_line hne
  simp only [List.append_assoc, List.cons_append]
  rcases readWord_line hw first 0 offset (Nat.zero_le _) with
    hnone | ⟨name, escaped, n, hn, hread⟩
  · exact .inl fun rest => hnone (tail ++ rest)
  · refine .inr ⟨name, escaped, n, ?_, fun rest => hread (tail ++ rest)⟩
    simp only [List.length_append, List.length_cons]
    omega

/-- A regular expression in a complete text does not depend on what follows that text. -/
theorem asRegex_append {s : List Char} (hs : Complete s) (hne : s ≠ []) (token : Token)
    (offset : Nat) :
    (∀ rest next, ∃ n, (Scanned.asRegex ⟨token, ⟨s ++ rest, offset⟩, next⟩).kind = .illegal n) ∨
      ∃ regex n, n < s.length ∧ ∀ rest next,
        Scanned.asRegex ⟨token, ⟨s ++ rest, offset⟩, next⟩ =
          ⟨regex, ⟨s ++ rest, offset⟩, Cursor.skip n ⟨s ++ rest, offset⟩⟩ := by
  rcases regexClose?_append hs hne offset with hnone | ⟨m, hm, hclose⟩
  · refine .inl fun rest next => ⟨token.span.start, ?_⟩
    simp only [Scanned.asRegex, hnone]
  have hdrop : (s.drop m).length = s.length - m := List.length_drop
  have hplace (rest : List Char) := Cursor.skip_append m offset s rest (Nat.le_of_lt hm)
  rcases readWord_append (hs.drop m) (by simpa using hm) false
    (offset + byteSize (s.take m)) with hnone | ⟨flags, escaped, n, hn, hread⟩
  · refine .inl fun rest next => ⟨offset + byteSize (s.take m), ?_⟩
    simp only [Scanned.asRegex, hclose, hplace, hnone]
  · refine .inr ⟨{ token with
      kind := .regex
      span := ⟨token.span.start, (Cursor.skip (m + n) ⟨s ++ [], offset⟩).offset⟩
      faults := if regexFlagsValid flags && !escaped then [] else [token.span.start] },
      m + n, by omega, fun rest next => ?_⟩
    simp only [Scanned.asRegex, hclose, hplace, hread]
    simp only [← Cursor.skip_append m offset s _ (Nat.le_of_lt hm), Cursor.skip_skip]
    simp only [Cursor.skip_append (m + n) offset s _ (show m + n ≤ s.length by omega)]

end ModuleLinker.Script
