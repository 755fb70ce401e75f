/-
# ModuleLinker.Text.Slice -- cutting a text at byte offsets

Positions in a text count the bytes of its UTF-8 encoding, while the text itself is a list of
characters. A cut exists only where a character begins or the text ends; `slice?` therefore has
no answer for a span that leaves the text, runs backwards, or splits a character. The main
statement is `slice?_eq_some_iff`: a slice is exactly a middle part of the text whose ends lie at
the span's offsets.
-/

namespace ModuleLinker

/-- The half-open range of bytes from `start` up to `stop`. -/
structure Span where
  start : Nat
  stop : Nat
deriving DecidableEq, Repr, Inhabited

/-- The range as it is counted from `n` bytes further to the front. -/
def Span.shift (span : Span) (n : Nat) : Span := ⟨span.start + n, span.stop + n⟩

namespace Text

/-! ## Sizes -/

/-- The number of bytes of a piece of text. -/
def byteSize : List Char → Nat
  | [] => 0
  | c :: cs => c.utf8Size + byteSize cs

@[simp] theorem byteSize_append (a b : List Char) :
    byteSize (a ++ b) = byteSize a + byteSize b := by
  induction a with
  | nil => simp [byteSize]
  | cons c a ih => simp [byteSize, ih, Nat.add_assoc]

/-! ## Cuts -/

/-- The text after its first `n` bytes, if a character ends there. -/
def dropBytes? : List Char → Nat → Option (List Char)
  | cs, 0 => some cs
  | [], _ + 1 => none
  | c :: cs, n + 1 =>
    if c.utf8Size ≤ n + 1 then dropBytes? cs (n + 1 - c.utf8Size) else none

/-- The first `n` bytes of the text, if a character ends there. -/
def takeBytes? : List Char → Nat → Option (List Char)
  | _, 0 => some []
  | [], _ + 1 => none
  | c :: cs, n + 1 =>
    if c.utf8Size ≤ n + 1 then (takeBytes? cs (n + 1 - c.utf8Size)).map (c :: ·) else none

/-- The piece of `text` that `span` covers. -/
def slice? (text : List Char) (span : Span) : Option (List Char) :=
  if span.start ≤ span.stop then
    (dropBytes? text span.start).bind (takeBytes? · (span.stop - span.start))
  else
    none

/-! ## What the cuts return -/

theorem dropBytes?_eq_some_iff {text rest : List Char} {n : Nat} :
    dropBytes? text n = some rest ↔ ∃ pre, text = pre ++ rest ∧ byteSize pre = n := by
  fun_induction dropBytes? text n with
  | case1 cs =>
    constructor
    · intro h
      exact ⟨[], by simpa using h, rfl⟩
    · rintro ⟨pre, rfl, hpre⟩
      cases pre with
      | nil => rfl
      | cons c pre =>
        have := c.utf8Size_pos
        simp only [byteSize] at hpre
        omega
  | case2 n =>
    simp only [reduceCtorEq, false_iff, not_exists, not_and]
    rintro pre h
    have : pre = [] := (List.append_eq_nil_iff.1 h.symm).1
    simp [this, byteSize]
  | case3 c cs n hc ih =>
    rw [ih]
    clear ih
    constructor
    · rintro ⟨pre, rfl, hpre⟩
      refine ⟨c :: pre, rfl, ?_⟩
      simp only [byteSize, hpre]
      omega
    · rintro ⟨pre, h, hpre⟩
      cases pre with
      | nil => simp [byteSize] at hpre
      | cons d pre =>
        obtain ⟨rfl, rfl⟩ := List.cons.inj h
        refine ⟨pre, rfl, ?_⟩
        simp only [byteSize] at hpre
        omega
  | case4 c cs n hc =>
    simp only [reduceCtorEq, false_iff, not_exists, not_and]
    rintro pre h
    cases pre with
    | nil => simp [byteSize]
    | cons d pre =>
      obtain ⟨rfl, rfl⟩ := List.cons.inj h
      simp only [byteSize]
      omega

theorem takeBytes?_eq_some_iff {text piece : List Char} {n : Nat} :
    takeBytes? text n = some piece ↔ ∃ post, text = piece ++ post ∧ byteSize piece = n := by
  fun_induction takeBytes? text n generalizing piece with
  | case1 cs =>
    constructor
    · intro h
      obtain rfl : [] = piece := by simpa using h
      exact ⟨cs, rfl, rfl⟩
    · rintro ⟨post, rfl, hpiece⟩
      cases piece with
      | nil => rfl
      | cons c piece =>
        have := c.utf8Size_pos
        simp only [byteSize] at hpiece
        omega
  | case2 n =>
    simp only [reduceCtorEq, false_iff, not_exists, not_and]
    rintro post h
    have : piece = [] := (List.append_eq_nil_iff.1 h.symm).1
    simp [this, byteSize]
  | case3 c cs n hc ih =>
    rw [Option.map_eq_some_iff]
    constructor
    · rintro ⟨piece, hp, rfl⟩
      obtain ⟨post, rfl, hsize⟩ := ih.1 hp
      clear ih
      refine ⟨post, rfl, ?_⟩
      simp only [byteSize, hsize]
      omega
    · rintro ⟨post, h, hsize⟩
      cases piece with
      | nil => simp [byteSize] at hsize
      | cons d piece =>
        obtain ⟨rfl, rfl⟩ := List.cons.inj h
        refine ⟨piece, ih.2 ⟨post, rfl, ?_⟩, rfl⟩
        clear ih
        simp only [byteSize] at hsize
        omega
  | case4 c cs n hc =>
    simp only [reduceCtorEq, false_iff, not_exists, not_and]
    rintro post h
    cases piece with
    | nil => simp [byteSize]
    | cons d piece =>
      obtain ⟨rfl, rfl⟩ := List.cons.inj h
      simp only [byteSize]
      omega

/-- A slice is a middle part of the text whose two ends lie at the offsets of the span. -/
theorem slice?_eq_some_iff {text piece : List Char} {span : Span} :
    slice? text span = some piece ↔
      ∃ pre post, text = pre ++ piece ++ post ∧ byteSize pre = span.start ∧
        byteSize pre + byteSize piece = span.stop := by
  unfold slice?
  split
  · next hle =>
    rw [Option.bind_eq_some_iff]
    constructor
    · rintro ⟨rest, hdrop, htake⟩
      obtain ⟨pre, rfl, hpre⟩ := dropBytes?_eq_some_iff.1 hdrop
      obtain ⟨post, rfl, hpiece⟩ := takeBytes?_eq_some_iff.1 htake
      exact ⟨pre, post, by simp, hpre, by omega⟩
    · rintro ⟨pre, post, rfl, hpre, hpiece⟩
      exact ⟨piece ++ post, dropBytes?_eq_some_iff.2 ⟨pre, by simp, hpre⟩,
        takeBytes?_eq_some_iff.2 ⟨post, rfl, by omega⟩⟩
  · next hle =>
    simp only [reduceCtorEq, false_iff, not_exists, not_and]
    rintro pre post _ hpre
    omega

end Text

end ModuleLinker
