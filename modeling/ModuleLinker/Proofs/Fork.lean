/-
# ModuleLinker.Proofs.Fork -- two texts with a common beginning

A reader that goes over two such texts meets the same tokens until one of them ends behind the
common beginning. `Fork.Twins` relates a token of one text to that of the other, and `Fork.Past`
says that a token ends behind; a move of a reader leads from twins to twins or past the beginning,
and from past the beginning there is no way back.
-/

import ModuleLinker.Proofs.Places
import ModuleLinker.Script.Program
import Mathlib.Logic.Relation
import Mathlib.Tactic.WLOG

namespace ModuleLinker.Script

open Relation Text

/-! ## The moves of a reader -/

/-- Where a reader stands, without what it noted. -/
structure Spot where
  token : Scanned
  lastStop : Nat

def Progress.spot (σ : Progress) : Spot := ⟨σ.token, σ.lastStop⟩

/-- The spot of a reader that goes on at a place. -/
def Spot.scan (c : Cursor) : Spot := ⟨Token.scan c false, c.offset⟩

/-- Whether a token can be taken. -/
def TokenKind.IsTakeable (kind : TokenKind) : Prop := kind ≠ .endOfText ∧ ∀ n, kind ≠ .illegal n

/-- A reader takes a token, the regular expression that it opens, or the stretch of a template
behind it. -/
inductive Spot.Move : Spot → Spot → Prop
  | token (a : Spot) (htakeable : a.token.kind.IsTakeable) : Move a (scan a.token.next)
  | regex (a : Spot) {text : String} (hslash : a.token.kind = .punctuator text)
      (hregex : a.token.asRegex.kind = .regex) : Move a (scan a.token.asRegex.next)
  | stretch (a : Spot) {text : String} (hmark : a.token.kind = .punctuator text) :
      Move a (scan (chunkFrom true 0 a.token.next).2)

/-- Any number of moves. -/
abbrev Spot.Path : Spot → Spot → Prop := ReflTransGen Spot.Move

/-- Only one move leads past a word. -/
theorem Spot.Move.of_word {a b : Spot} {name : String} {escaped : Bool} (h : a.Move b)
    (hword : a.token.kind = .word name escaped) : b = .scan a.token.next := by
  cases h with
  | token => rfl
  | regex hslash _ => rw [hword] at hslash; cases hslash
  | stretch hmark => rw [hword] at hmark; cases hmark

/-! ## Places on the way through a text -/

theorem Cursor.skip_of_length_le {n : Nat} {c : Cursor} (h : c.rest.length ≤ n) :
    c.skip n = ⟨[], c.offset + byteSize c.rest⟩ := by
  obtain ⟨rest, offset⟩ := c
  have hall : Cursor.skip rest.length ⟨rest ++ [], offset⟩ = ⟨[], offset + byteSize rest⟩ := by
    rw [Cursor.skip_append _ _ _ _ (Nat.le_refl _), List.drop_length, List.take_length]
    rfl
  rw [List.append_nil] at hall
  obtain ⟨k, rfl⟩ := Nat.exists_eq_add_of_le h
  rw [← Cursor.skip_skip, hall]
  cases k <;> rfl

theorem Cursor.offset_skip (n : Nat) (c : Cursor) :
    (c.skip n).offset = c.offset + byteSize (c.rest.take n) := by
  rcases Nat.le_total n c.rest.length with hle | hle
  · obtain ⟨rest, offset⟩ := c
    have hskip := Cursor.skip_append n offset rest [] hle
    rw [List.append_nil, List.append_nil] at hskip
    rw [hskip]
  · rw [Cursor.skip_of_length_le hle, List.take_of_length_le hle]

theorem Cursor.skip_eq_self {k : Nat} {c : Cursor} (h : c.rest.take k = []) : c.skip k = c := by
  obtain ⟨rest, offset⟩ := c
  cases k with
  | zero => rfl
  | succ k =>
      cases rest with
      | nil => rfl
      | cons a rest => cases h

theorem byteSize_eq_zero {cs : List Char} (h : byteSize cs = 0) : cs = [] := by
  cases cs with
  | nil => rfl
  | cons c cs =>
      have := c.utf8Size_pos
      simp only [byteSize] at h
      omega

/-- There is only one place at an offset. -/
theorem Cursor.eq_of_offset_eq {c : Cursor} {m n : Nat}
    (h : (c.skip m).offset = (c.skip n).offset) : c.skip m = c.skip n := by
  wlog hmn : m ≤ n generalizing m n
  · exact (this h.symm (Nat.le_of_not_le hmn)).symm
  obtain ⟨k, rfl⟩ := Nat.exists_eq_add_of_le hmn
  rw [← Cursor.skip_skip] at h ⊢
  rw [Cursor.offset_skip k] at h
  exact (Cursor.skip_eq_self (byteSize_eq_zero (by omega))).symm

/-! ## Forks -/

/-- Two complete texts with a common beginning. -/
structure Fork where
  shared : List Char
  offset : Nat
  left : List Char
  right : List Char
  shared_complete : Complete shared
  shared_ne_nil : shared ≠ []
  left_complete : Complete left
  right_complete : Complete right

namespace Fork

variable (F : Fork)

/-- The place behind `n` characters of the left text. -/
def here (n : Nat) : Cursor := Cursor.skip n ⟨F.shared ++ F.left, F.offset⟩

/-- The place behind `n` characters of the right text. -/
def there (n : Nat) : Cursor := Cursor.skip n ⟨F.shared ++ F.right, F.offset⟩

/-- The offset at which the texts part. -/
def stop : Nat := F.offset + byteSize F.shared

/-- The fork with its sides exchanged. -/
def swap : Fork where
  shared := F.shared
  offset := F.offset
  left := F.right
  right := F.left
  shared_complete := F.shared_complete
  shared_ne_nil := F.shared_ne_nil
  left_complete := F.right_complete
  right_complete := F.left_complete

/-- Tokens at the same place of the common beginning that do not differ. -/
def Twins (t t' : Scanned) : Prop :=
  ∃ token m n, m ≤ n ∧ n < F.shared.length ∧ t = ⟨token, F.here m, F.here n⟩ ∧
    t' = ⟨token, F.there m, F.there n⟩

/-- The token ends behind the common beginning. A punctuator begins there, too. -/
def Past (t : Scanned) : Prop :=
  ∃ m n, m ≤ n ∧ F.shared.length ≤ n ∧
    (∀ text, t.kind = .punctuator text → F.shared.length ≤ m) ∧
    t.place = F.here m ∧ t.next = F.here n

variable {F}

theorem Twins.toToken_eq {t t' : Scanned} (h : F.Twins t t') : t'.toToken = t.toToken := by
  obtain ⟨token, m, n, -, -, rfl, rfl⟩ := h
  rfl

theorem here_eq {n : Nat} (hn : n ≤ F.shared.length) :
    F.here n = ⟨F.shared.drop n ++ F.left, F.offset + byteSize (F.shared.take n)⟩ :=
  Cursor.skip_append n F.offset F.shared F.left hn

theorem there_eq {n : Nat} (hn : n ≤ F.shared.length) :
    F.there n = ⟨F.shared.drop n ++ F.right, F.offset + byteSize (F.shared.take n)⟩ :=
  Cursor.skip_append n F.offset F.shared F.right hn

theorem here_skip (m n : Nat) : (F.here m).skip n = F.here (m + n) := Cursor.skip_skip m n _

theorem there_skip (m n : Nat) : (F.there m).skip n = F.there (m + n) := Cursor.skip_skip m n _

theorem offset_there {n : Nat} (hn : n ≤ F.shared.length) :
    (F.there n).offset = (F.here n).offset := by
  rw [here_eq hn, there_eq hn]

theorem stop_le_offset_here {n : Nat} (hn : F.shared.length ≤ n) : F.stop ≤ (F.here n).offset := by
  obtain ⟨k, rfl⟩ := Nat.exists_eq_add_of_le hn
  rw [← here_skip, Cursor.offset_skip, here_eq (Nat.le_refl _), List.take_length]
  exact Nat.le_add_right _ _

theorem offset_here_lt_stop {n : Nat} (hn : n < F.shared.length) :
    (F.here n).offset < F.stop := by
  have hsplit : byteSize (F.shared.take n) + byteSize (F.shared.drop n) = byteSize F.shared := by
    rw [← byteSize_append, List.take_append_drop]
  have hdrop : byteSize (F.shared.drop n) ≠ 0 := fun h => by
    have := congrArg List.length (byteSize_eq_zero h)
    rw [List.length_drop, List.length_nil] at this
    omega
  rw [here_eq (Nat.le_of_lt hn), stop]
  show F.offset + byteSize (F.shared.take n) < _
  omega

theorem complete_here (n : Nat) : Complete (F.here n).rest := by
  rw [here, Cursor.skip_rest]
  exact (F.shared_complete.append F.left_complete).drop n

theorem Past.stop_le {t : Scanned} (h : F.Past t) : F.stop ≤ t.next.offset := by
  obtain ⟨m, n, -, hn, -, -, hnext⟩ := h
  rw [hnext]
  exact stop_le_offset_here hn

/-! ## Moves at a fork -/

theorem past_scan {n : Nat} (hn : F.shared.length ≤ n) (lineStart : Bool) :
    F.Past (Token.scan (F.here n) lineStart) := by
  obtain ⟨⟨_, hopening, hplace, -⟩, hnext, -⟩ := scan_places (F.here n) lineStart
  obtain ⟨m, hplace⟩ := hopening.trans hplace
  obtain ⟨k, hnext⟩ := hnext
  rw [here_skip] at hplace
  rw [hplace, here_skip] at hnext
  exact ⟨n + m, n + m + k, by omega, by omega, fun _ _ => by omega, hplace, hnext⟩

/-- Scanning the same place of the two texts gives twins, unless the token ends behind. -/
theorem scan_twins_or_past (n : Nat) (lineStart : Bool) :
    F.Twins (Token.scan (F.here n) lineStart) (Token.scan (F.there n) lineStart) ∨
      F.Past (Token.scan (F.here n) lineStart) := by
  rcases Nat.lt_or_ge n F.shared.length with hn | hn
  · have hdrop : (F.shared.drop n).length = F.shared.length - n := List.length_drop
    have hhere := here_eq (Nat.le_of_lt hn)
    have hthere := there_eq (Nat.le_of_lt hn)
    rcases scan_append (F.shared_complete.drop n) (F.offset + byteSize (F.shared.take n))
      lineStart with ⟨token, m, k, hmk, hk, hscan⟩ | hpast
    · refine .inl ⟨token, n + m, n + k, by omega, by omega, ?_, ?_⟩
      · rw [← here_skip, ← here_skip, hhere, hscan]
      · rw [← there_skip, ← there_skip, hthere, hscan]
    · obtain ⟨m, k, hmk, hk, hpunct, hplace, hnext⟩ := hpast F.left F.left_complete
      rw [← hhere] at hpunct hplace hnext
      rw [here_skip] at hplace hnext
      refine .inr ⟨n + m, n + k, by omega, by omega, fun text htext => ?_, hplace, hnext⟩
      have := hpunct text htext
      omega
  · exact .inr (past_scan hn lineStart)

theorem asRegex_twins {t t' : Scanned} (h : F.Twins t t') (hregex : t.asRegex.kind = .regex) :
    ∃ token m n, m ≤ n ∧ n < F.shared.length ∧ t.asRegex = ⟨token, F.here m, F.here n⟩ ∧
      t'.asRegex = ⟨token, F.there m, F.there n⟩ := by
  obtain ⟨token, m, n, hmn, hn, rfl, rfl⟩ := h
  have hm : m < F.shared.length := Nat.lt_of_le_of_lt hmn hn
  have hdrop : (F.shared.drop m).length = F.shared.length - m := List.length_drop
  have hhere := here_eq (Nat.le_of_lt hm)
  have hthere := there_eq (Nat.le_of_lt hm)
  rcases asRegex_append (F.shared_complete.drop m) (by simpa using hm) token
    (F.offset + byteSize (F.shared.take m)) with hillegal | ⟨regex, k, hk, hread⟩
  · obtain ⟨j, hj⟩ := hillegal F.left (F.here n)
    rw [hhere, hj] at hregex
    cases hregex
  · refine ⟨regex, m, m + k, Nat.le_add_right _ _, by omega, ?_, ?_⟩
    · rw [← here_skip, hhere, hread]
    · rw [← there_skip, hthere, hread]

/-- The stretch of a template behind a place of the common beginning ends there, or goes on
behind. -/
theorem chunkFrom_here {n : Nat} (hn : n ≤ F.shared.length) :
    (∃ a k, k < F.shared.length ∧ chunkFrom true 0 (F.here n) = (a, F.here k) ∧
      chunkFrom true 0 (F.there n) = (a, F.there k)) ∨
    ∃ k, F.shared.length ≤ k ∧ (chunkFrom true 0 (F.here n)).2 = F.here k := by
  have hdrop : (F.shared.drop n).length = F.shared.length - n := List.length_drop
  have hhere := here_eq hn
  have hthere := there_eq hn
  rcases chunkFrom_readsLocally true 0 (F.shared_complete.drop n)
    (F.offset + byteSize (F.shared.take n)) with ⟨a, k, hk, hread⟩ | hpast
  · refine .inl ⟨a, n + k, by omega, ?_, ?_⟩
    · rw [← here_skip, hhere, hread]
    · rw [← there_skip, hthere, hread]
  · obtain ⟨k, hk, hread⟩ := hpast F.left F.left_complete
    rw [← hhere, here_skip] at hread
    exact .inr ⟨n + k, by omega, hread⟩

theorem Twins.move {a b : Spot} {t' : Scanned} (h : F.Twins a.token t') (hmove : a.Move b) :
    ∃ n, b = .scan (F.here n) := by
  obtain ⟨token, m, n, hmn, hn, ht, ht'⟩ := id h
  cases hmove with
  | token => exact ⟨n, by rw [ht]⟩
  | regex hslash hregex =>
      obtain ⟨_, _, k, _, _, hread, _⟩ := asRegex_twins h hregex
      exact ⟨k, by rw [hread]⟩
  | stretch =>
      rw [ht]
      rcases chunkFrom_here (Nat.le_of_lt hn) with ⟨a, k, -, hread, -⟩ | ⟨k, -, hread⟩
      · exact ⟨k, by rw [hread]⟩
      · exact ⟨k, by rw [hread]⟩

theorem Past.move {a b : Spot} (h : F.Past a.token) (hmove : a.Move b) :
    ∃ n, F.shared.length ≤ n ∧ b = .scan (F.here n) := by
  obtain ⟨m, n, hmn, hn, hpunct, hplace, hnext⟩ := h
  -- A step goes on from the end of the token, or from its beginning if that is a slash: both stand
  -- behind the shared text.
  cases hmove with
  | token => exact ⟨n, hn, by rw [hnext]⟩
  | regex hslash hregex =>
      have hm := hpunct _ hslash
      have hskip : ∃ k, a.token.asRegex.next = (F.here m).skip k := by
        have hne : (F.here m).rest ≠ [] := by
          intro hnil
          rw [← hplace] at hnil
          simp [Scanned.asRegex, regexClose?, hnil] at hregex
        have hrest : a.token = ⟨a.token.toToken, ⟨(F.here m).rest ++ [], (F.here m).offset⟩,
            a.token.next⟩ := by
          rw [List.append_nil, ← hplace]
        rcases asRegex_append (F.complete_here m) hne a.token.toToken (F.here m).offset with
          hillegal | ⟨regex, k, -, hread⟩
        · obtain ⟨j, hj⟩ := hillegal [] a.token.next
          rw [← hrest, hregex] at hj
          cases hj
        · refine ⟨k, ?_⟩
          rw [hrest, hread, List.append_nil]
      obtain ⟨k, hk⟩ := hskip
      exact ⟨m + k, by omega, by rw [hk, here_skip]⟩
  | stretch =>
      obtain ⟨k, hk⟩ := chunkFrom_movesOn true 0 a.token.next
      rw [hnext, here_skip] at hk
      exact ⟨n + k, by omega, by rw [hnext, hk]⟩

theorem Past.path {a b : Spot} (h : F.Past a.token) (hpath : a.Path b) : F.Past b.token := by
  induction hpath with
  | refl => exact h
  | tail _ hmove ih =>
      obtain ⟨n, hn, rfl⟩ := ih.move hmove
      exact past_scan hn false

theorem Twins.path {a b : Spot} {t' : Scanned} (h : F.Twins a.token t') (hpath : a.Path b) :
    (∃ u', F.Twins b.token u') ∨ F.Past b.token := by
  induction hpath with
  | refl => exact .inl ⟨t', h⟩
  | tail _ hmove ih =>
      rcases ih with ⟨u', hu⟩ | hpast
      · obtain ⟨n, rfl⟩ := hu.move hmove
        exact (scan_twins_or_past n false).imp_left fun htwins => ⟨_, htwins⟩
      · obtain ⟨n, hn, rfl⟩ := hpast.move hmove
        exact .inr (past_scan hn false)

/-- Who moves behind the common beginning ends behind it. -/
theorem Past.le_lastStop {a b c : Spot} (h : F.Past a.token) (hmove : a.Move b)
    (hpath : b.Path c) : F.stop ≤ c.lastStop := by
  have hmoved {a b : Spot} (h : F.Past a.token) (hmove : a.Move b) : F.stop ≤ b.lastStop := by
    obtain ⟨n, hn, rfl⟩ := h.move hmove
    exact stop_le_offset_here hn
  rcases ReflTransGen.cases_tail hpath with rfl | ⟨d, hpath', hmove'⟩
  · exact hmoved h hmove
  · exact hmoved (h.path (.head hmove hpath')) hmove'

/-- Every move leads to the scan of a place. -/
theorem exists_scan {a b c : Spot} (h : (∃ t', F.Twins a.token t') ∨ F.Past a.token)
    (hmove : a.Move b) (hpath : b.Path c) : ∃ n, c = .scan (F.here n) := by
  have hmoved {a b : Spot} (h : (∃ t', F.Twins a.token t') ∨ F.Past a.token)
      (hmove : a.Move b) : ∃ n, b = .scan (F.here n) := by
    rcases h with ⟨t', htwins⟩ | hpast
    · exact htwins.move hmove
    · obtain ⟨n, -, hb⟩ := hpast.move hmove
      exact ⟨n, hb⟩
  rcases ReflTransGen.cases_tail hpath with rfl | ⟨d, hpath', hmove'⟩
  · exact hmoved h hmove
  · have hd : (∃ t', F.Twins d.token t') ∨ F.Past d.token := by
      rcases h with ⟨t', htwins⟩ | hpast
      · exact htwins.path (.head hmove hpath')
      · exact .inr (hpast.path (.head hmove hpath'))
    exact hmoved hd hmove'

end Fork

end ModuleLinker.Script
