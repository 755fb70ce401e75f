/-
# ModuleLinker.Proofs.DeadText -- the text of a dead statement leaves no trace

A dead statement keeps its place in the text of a module, and nothing else. Other text can stand
there if it has as many newlines: whatever is behind it is moved by the difference of the lengths,
and stays on its line (`Patch`).

Of a text only pieces outside of the patch are written, with the number of the line on which each
begins; some of their lines are asked whether they begin in a literal. All of this is the same in
both texts (`slice?_move`, `lineOf_move`, `insideLiteral_move`). The two modules are therefore
written alike, together with any others (`emit_patched`).
-/

import ModuleLinker.Proofs.MarkedProgram
import ModuleLinker.Proofs.OriginalLines

namespace ModuleLinker

open Text

/-- A range that is part of another one. -/
def Span.Within (span outer : Span) : Prop := outer.start ≤ span.start ∧ span.stop ≤ outer.stop

instance (span outer : Span) : Decidable (span.Within outer) := inferInstanceAs (Decidable (_ ∧ _))

/-! ## Patches -/

/-- A piece of a text, and another one with as many newlines that can stand in its place. -/
structure Patch where
  above : List Char
  dead : List Char
  fresh : List Char
  below : List Char
  dead_ne_nil : dead ≠ []
  fresh_ne_nil : fresh ≠ []
  count_eq : fresh.count '\n' = dead.count '\n'

namespace Patch

variable (p : Patch)

/-- The text before the piece is replaced. -/
def before : List Char := p.above ++ p.dead ++ p.below

/-- The text after the piece is replaced. -/
def after : List Char := p.above ++ p.fresh ++ p.below

/-- The range of the piece that is replaced. -/
def deadSpan : Span := ⟨byteSize p.above, byteSize p.above + byteSize p.dead⟩

/-- The range of the piece that replaces it. -/
def freshSpan : Span := ⟨byteSize p.above, byteSize p.above + byteSize p.fresh⟩

/-- The range in the text after, of what has a range outside of the piece in the text before: behind
the piece it is moved by the difference of the lengths. -/
def move (span : Span) : Span :=
  if p.deadSpan.stop ≤ span.start then
    ⟨span.start + byteSize p.fresh - byteSize p.dead,
      span.stop + byteSize p.fresh - byteSize p.dead⟩
  else span

/-- The range after, on the same lines. -/
def moveLines (span : LineSpan) : LineSpan := { span with toSpan := p.move span.toSpan }

/-- A range that has no part in the piece. -/
def Outside (span : Span) : Prop := span.stop ≤ p.deadSpan.start ∨ p.deadSpan.stop ≤ span.start

instance (span : Span) : Decidable (p.Outside span) := inferInstanceAs (Decidable (_ ∨ _))

/-- The patch that is undone. -/
def undo : Patch :=
  ⟨p.above, p.fresh, p.dead, p.below, p.fresh_ne_nil, p.dead_ne_nil, p.count_eq.symm⟩

theorem dead_pos : 0 < byteSize p.dead :=
  Nat.pos_of_ne_zero fun h => p.dead_ne_nil (Script.byteSize_eq_zero h)

theorem fresh_pos : 0 < byteSize p.fresh := p.undo.dead_pos

variable {p} {span : Span}

theorem move_of_lt (h : span.start < p.deadSpan.stop) : p.move span = span :=
  if_neg (Nat.not_le.2 h)

theorem move_above (h : span.stop ≤ p.deadSpan.start) (hle : span.start ≤ span.stop) :
    p.move span = span := by
  have hpos := p.dead_pos
  apply move_of_lt
  simp only [deadSpan] at h ⊢
  omega

theorem move_below (h : p.deadSpan.stop ≤ span.start) :
    p.move span = ⟨span.start + byteSize p.fresh - byteSize p.dead,
      span.stop + byteSize p.fresh - byteSize p.dead⟩ :=
  if_pos h

theorem le_of_move_le (h : (p.move span).start ≤ (p.move span).stop) : span.start ≤ span.stop := by
  have hfresh := p.fresh_pos
  unfold move at h
  split at h
  · next hbelow =>
    simp only [deadSpan] at hbelow h
    omega
  · exact h

/-- A piece outside of the patch stands in both texts, behind as many newlines. It begins with the
one text if it begins with the other. -/
theorem exists_twin {piece : List Char} (hout : p.Outside span)
    (h : slice? p.before span = some piece) :
    ∃ front back front' back', p.before = front ++ piece ++ back ∧
      p.after = front' ++ piece ++ back' ∧ byteSize front = span.start ∧
      byteSize front' = (p.move span).start ∧
      byteSize front' + byteSize piece = (p.move span).stop ∧
      front'.count '\n' = front.count '\n' ∧ (byteSize front' = 0 ↔ byteSize front = 0) := by
  obtain ⟨front, back, htext, hstart, hstop⟩ := slice?_eq_some_iff.1 h
  have hle : span.start ≤ span.stop := by omega
  rcases hout with habove | hbelow
  · -- the piece and all in front of it stand above the patch
    have hprefix : front ++ piece ++ back = p.above ++ (p.dead ++ p.below) := by
      rw [← htext, before, List.append_assoc]
    have hsize : byteSize (front ++ piece) ≤ byteSize p.above := by
      rw [byteSize_append, hstop]
      exact habove
    obtain ⟨rest, hrest, -⟩ := Script.exists_append_of_byteSize_le hprefix hsize
    refine ⟨front, back, front, rest ++ p.fresh ++ p.below, htext, ?_, hstart, ?_, ?_, rfl, Iff.rfl⟩
    · rw [after, hrest]
      simp only [List.append_assoc]
    · rw [move_above habove hle, hstart]
    · rw [move_above habove hle, hstop]
  · -- all of the patch stands in front of the piece
    have hprefix : p.above ++ p.dead ++ p.below = front ++ (piece ++ back) := by
      rw [← List.append_assoc, ← htext, before]
    have hsize : byteSize (p.above ++ p.dead) ≤ byteSize front := by
      rw [byteSize_append, hstart]
      exact hbelow
    obtain ⟨rest, rfl, hrest⟩ := Script.exists_append_of_byteSize_le hprefix hsize
    have hfresh := p.fresh_pos
    have hdead := p.dead_pos
    simp only [byteSize_append] at hstart hstop
    refine ⟨_, back, p.above ++ p.fresh ++ rest, back, htext, ?_, ?_, ?_, ?_, ?_, ?_⟩
    · rw [after, hrest]
      simp only [List.append_assoc]
    · simpa only [byteSize_append] using hstart
    · simp only [move_below hbelow, byteSize_append]
      omega
    · simp only [move_below hbelow, byteSize_append]
      omega
    · simp only [List.count_append, p.count_eq]
    · simp only [byteSize_append]
      omega

theorem outside_undo (hout : p.Outside span) (hle : span.start ≤ span.stop) :
    p.undo.Outside (p.move span) ∧ p.undo.move (p.move span) = span := by
  have hdead := p.dead_pos
  have hfresh := p.fresh_pos
  rcases hout with habove | hbelow
  · have hsame : p.undo.Outside span := .inl habove
    rw [move_above habove hle]
    exact ⟨hsame, move_above habove hle⟩
  · simp only [deadSpan] at hbelow
    have hstart : p.undo.deadSpan.stop ≤ (p.move span).start := by
      simp only [move_below hbelow, undo, deadSpan]
      omega
    refine ⟨.inr hstart, ?_⟩
    rw [move_below hstart, move_below hbelow, undo]
    dsimp only
    congr 1 <;> omega

/-- An offset in a range outside of the patch stays on its side of it. -/
theorem ends_of_outside {n : Nat} (hout : p.Outside span) (hn : span.start + n ≤ span.stop) :
    (span.start + n ≤ p.deadSpan.start ∨ p.deadSpan.stop ≤ span.start + n) ∧
      ((p.move span).start + n ≤ p.freshSpan.start ∨
        p.freshSpan.stop ≤ (p.move span).start + n) := by
  rcases hout with habove | hbelow
  · rw [move_above habove (by omega)]
    exact ⟨.inl (hn.trans habove), .inl (hn.trans habove)⟩
  · rw [move_below hbelow]
    simp only [deadSpan, freshSpan] at hbelow ⊢
    omega

/-- An offset in a range outside of the patch is inside of another such range if it is so after both
are moved. -/
theorem inside_move_iff {other : Span} {n : Nat} (hother : p.Outside other) (hout : p.Outside span)
    (hn : span.start + n ≤ span.stop) :
    ((p.move other).start < (p.move span).start + n ∧
        (p.move span).start + n < (p.move other).stop) ↔
      other.start < span.start + n ∧ span.start + n < other.stop := by
  have hfresh := p.fresh_pos
  have hdead := p.dead_pos
  unfold Outside at hother hout
  -- either range is moved or stays
  rcases Nat.lt_or_ge span.start p.deadSpan.stop with hspan | hspan <;>
    rcases Nat.lt_or_ge other.start p.deadSpan.stop with hstart | hstart
  · rw [move_of_lt hspan, move_of_lt hstart]
  · rw [move_of_lt hspan, move_below hstart]
    simp only [deadSpan] at *
    omega
  · rw [move_below hspan, move_of_lt hstart]
    simp only [deadSpan] at *
    omega
  · rw [move_below hspan, move_below hstart]
    simp only [deadSpan] at *
    omega

/-- The same piece is cut out of both texts. -/
theorem slice?_move (hout : p.Outside span) :
    slice? p.after (p.move span) = slice? p.before span := by
  cases h : slice? p.before span with
  | some piece =>
      obtain ⟨_, _, front', back', _, hafter, _, hstart, hstop, _⟩ := exists_twin hout h
      exact slice?_eq_some_iff.2 ⟨front', back', hafter, hstart, hstop⟩
  | none =>
      by_contra hsome
      obtain ⟨piece, hpiece⟩ := Option.ne_none_iff_exists'.1 hsome
      obtain ⟨_, _, _, hstart, hstop⟩ := slice?_eq_some_iff.1 hpiece
      have hle : span.start ≤ span.stop := le_of_move_le (p := p) (by omega)
      -- the patch undone leads back to the text before
      obtain ⟨hback, hspan⟩ := outside_undo hout hle
      obtain ⟨_, _, front, back, _, hbefore, _, hfront, hend, _⟩ :=
        exists_twin (p := p.undo) hback hpiece
      rw [hspan] at hfront hend
      have hcut : slice? p.before span = some piece :=
        slice?_eq_some_iff.2 ⟨front, back, hbefore, hfront, hend⟩
      rw [h] at hcut
      cases hcut

/-! ## What is moved -/

variable (p)

/-- A source whose text is patched. Its literals outside of the patch are moved, and there may be
any others inside. -/
structure MovesSource (source source' : Source) : Prop where
  before : source.text = p.before
  after : source'.text = p.after
  literals : ∀ literal ∈ source.literals, literal.Within p.deadSpan ∨
    (p.Outside literal ∧ p.move literal ∈ source'.literals)
  literals' : ∀ literal ∈ source'.literals, literal.Within p.freshSpan ∨
    ∃ literal' ∈ source.literals, p.Outside literal' ∧ literal = p.move literal'

/-- An entry of a table that is moved. If it is bound to a piece of the text, then to one outside of
the patch, as an entry is part of its own statement. -/
structure MovesEntry (entry entry' : ExportEntry) : Prop where
  name : entry'.name = entry.name
  binding : entry'.binding = entry.binding
  span : entry'.span = p.moveLines entry.span
  outside : entry.binding = .foreign → p.Outside entry.span.toSpan

/-- An element that is moved. -/
inductive MovesElement : Element → Element → Prop
  | require (span : LineSpan) (binder : String) (target : RequireTarget) :
      MovesElement (.require span binder target) (.require (p.moveLines span) binder target)
  | member (span : LineSpan) (visibility : Visibility) (name : String) (value value' : Script.Expr)
      (dependencies dependencies' : List Key) :
      MovesElement (.member span visibility name value dependencies)
        (.member (p.moveLines span) visibility name value' dependencies')
  | exports (span : LineSpan) {entries entries' : List ExportEntry}
      (hentries : List.Forall₂ p.MovesEntry entries entries') :
      MovesElement (.exports span entries) (.exports (p.moveLines span) entries')
  | other (span : LineSpan) : MovesElement (.other span) (.other (p.moveLines span))
  | skipped (span : LineSpan) : MovesElement (.skipped span) (.skipped (p.moveLines span))

theorem MovesElement.span_eq {p : Patch} {element element' : Element}
    (h : p.MovesElement element element') : element'.span = p.moveLines element.span := by
  cases h <;> rfl

theorem MovesElement.isSkipped_eq {p : Patch} {element element' : Element}
    (h : p.MovesElement element element') : element'.isSkipped = element.isSkipped := by
  cases h <;> rfl

/-- A module in which the text of a skipped element is replaced, and all that is behind it moved. -/
structure MovesModule (m m' : Module) : Prop where
  id : m'.id = m.id
  filePath : m'.filePath = m.filePath
  source : p.MovesSource m.source m'.source
  elements : ∃ front back front' back' span span',
    m.elements = front ++ .skipped span :: back ∧ span.toSpan = p.deadSpan ∧
      m'.elements = front' ++ .skipped span' :: back' ∧ span'.toSpan = p.freshSpan ∧
      List.Forall₂ p.MovesElement front front' ∧ List.Forall₂ p.MovesElement back back'

end Patch

/-- The spans of the elements are parts of the text that begin one behind the other. -/
structure Module.InOrder (m : Module) : Prop where
  inside : ∀ element ∈ m.elements,
    element.span.start ≤ element.span.stop ∧ element.span.stop ≤ byteSize m.source.text
  ordered : m.elements.Pairwise fun a b => a.span.stop ≤ b.span.start

/-! ## Writing a module -/

namespace Emission

open Patch

section Source

variable {p : Patch} {source source' : Source} {span : Span} {file : Option String}
  (h : p.MovesSource source source')

include h

/-- An offset outside of the patch is inside of a literal in both texts, or in none. -/
theorem insideLiteral_move {n : Nat} (hout : p.Outside span) (hn : span.start + n ≤ span.stop) :
    source'.insideLiteral ((p.move span).start + n) = source.insideLiteral (span.start + n) := by
  rw [Bool.eq_iff_iff, Source.insideLiteral, Source.insideLiteral]
  simp only [List.any_eq_true, Bool.and_eq_true, decide_eq_true_eq]
  have hends := p.ends_of_outside hout hn
  constructor
  · rintro ⟨literal, hliteral, hinside⟩
    rcases h.literals' literal hliteral with ⟨hlow, hhigh⟩ | ⟨moved, hmem, hother, rfl⟩
    · omega
    · exact ⟨moved, hmem, (inside_move_iff hother hout hn).1 hinside⟩
  · rintro ⟨literal, hliteral, hinside⟩
    rcases h.literals literal hliteral with ⟨hlow, hhigh⟩ | ⟨hother, hmem⟩
    · omega
    · exact ⟨_, hmem, (inside_move_iff hother hout hn).2 hinside⟩

theorem slice?_moved (hout : p.Outside span) :
    source'.slice? (p.move span) = source.slice? span := by
  rw [Source.slice?, Source.slice?, h.before, h.after]
  exact slice?_move hout

/-- A place in a piece outside of the patch is on the same line. -/
theorem lineOf_move {piece left right : List Char} (hout : p.Outside span)
    (hpiece : source.slice? span = some piece) (hsplit : piece = left ++ right) :
    source'.lines.lineOf ((p.move span).start + byteSize left) =
      source.lines.lineOf (span.start + byteSize left) := by
  rw [Source.slice?, h.before] at hpiece
  obtain ⟨front, back, front', back', hbefore, hafter, hstart, hstart', -, hcount, -⟩ :=
    exists_twin hout hpiece
  have htext : source.text = (front ++ left) ++ (right ++ back) := by
    rw [h.before, hbefore, hsplit]
    simp only [List.append_assoc]
  have htext' : source'.text = (front' ++ left) ++ (right ++ back') := by
    rw [h.after, hafter, hsplit]
    simp only [List.append_assoc]
  rw [← hstart, ← hstart', ← byteSize_append, ← byteSize_append, lineOf_eq htext, lineOf_eq htext',
    List.count_append, List.count_append, hcount]

/-- The beginning of the text is in front of the patch. -/
theorem start_eq_zero_iff {piece : List Char} (hout : p.Outside span)
    (hpiece : source.slice? span = some piece) : (p.move span).start = 0 ↔ span.start = 0 := by
  rw [Source.slice?, h.before] at hpiece
  obtain ⟨front, _, front', _, _, _, hstart, hstart', -, -, hzero⟩ := exists_twin hout hpiece
  rw [← hstart, ← hstart']
  exact hzero

/-! ### Lines -/

omit h in
theorem numberedLines_eq_map (offset : Nat) (lines : List (List Char)) :
    numberedLines offset lines =
      (numberedLines 0 lines).map fun line => (offset + line.1, line.2) := by
  have hadd := numberedLines_add 0 offset lines
  simpa only [Nat.zero_add, Nat.add_zero, Nat.add_comm] using hadd

omit h in
theorem exists_split_of_mem {piece : List Char} {line : Nat × List Char}
    (hline : line ∈ numberedLines 0 (splitLines piece)) :
    ∃ left right, piece = left ++ right ∧ line.1 = byteSize left := by
  obtain ⟨index, hindex⟩ := List.mem_iff_getElem?.1 hline
  obtain ⟨left, right, hpiece, hstart, -⟩ := exists_split_of_numberedLines hindex
  exact ⟨left, _, hpiece, by rwa [Nat.zero_add] at hstart⟩

omit h in
/-- Lines are copied alike if they begin in a literal of one source when they do so in the other. -/
theorem statementLines_congr (start start' number : Nat) (first : Bool)
    (lines : List (Nat × List Char))
    (hinside : ∀ line ∈ lines, source'.insideLiteral (start' + line.1) =
      source.insideLiteral (start + line.1)) :
    statementLines file source' number first (lines.map fun line => (start' + line.1, line.2)) =
      statementLines file source number first
        (lines.map fun line => (start + line.1, line.2)) := by
  induction lines generalizing number first with
  | nil => rfl
  | cons line lines ih =>
      obtain ⟨hfirst, hothers⟩ := List.forall_mem_cons.1 hinside
      simp only [List.map_cons, statementLines, statementText, hfirst, ih _ _ hothers]

theorem verbatim_move {span : LineSpan} (hout : p.Outside span.toSpan) :
    EndsLike Eq (verbatim file source span) (verbatim file source' (p.moveLines span)) := by
  have hslice : source'.slice? (p.moveLines span).toSpan = source.slice? span.toSpan :=
    slice?_moved h hout
  unfold verbatim
  rw [hslice]
  cases hpiece : source.slice? span.toSpan with
  | none => exact .outOfText _ _
  | some piece =>
      obtain ⟨_, _, -, hstart, hstop⟩ := slice?_eq_some_iff.1 hpiece
      -- The lines begin inside the same literals, moved with the text around them.
      have hlines : statementLines file source' span.firstLine true
          (numberedLines (p.move span.toSpan).start (splitLines piece)) =
          statementLines file source span.firstLine true
            (numberedLines span.start (splitLines piece)) := by
        rw [numberedLines_eq_map (p.move _).start, numberedLines_eq_map span.start]
        apply statementLines_congr
        intro line hline
        obtain ⟨left, right, rfl, hleft⟩ := exists_split_of_mem hline
        apply insideLiteral_move h hout
        rw [byteSize_append] at hstop
        omega
      exact .ok hlines.symm

/-- The comments in a gap outside of the patch are the same in both texts. -/
theorem comments_move {gap : Span} (hout : p.Outside gap) :
    comments file source' (p.move gap) = comments file source gap := by
  have hslice := slice?_moved h hout
  cases hpiece : source.slice? gap with
  | none =>
      rw [hpiece] at hslice
      rw [comments, comments, hslice, hpiece]
  | some piece =>
      rw [hpiece] at hslice
      rw [comments_of_slice source hpiece, comments_of_slice source' hslice,
        numberedLines_eq_map (p.move gap).start, numberedLines_eq_map gap.start,
        List.filterMap_map, List.filterMap_map]
      refine List.filterMap_congr fun line hline => ?_
      obtain ⟨left, right, hsplit, hleft⟩ := exists_split_of_mem hline
      have hnumber := lineOf_move h hout hpiece hsplit
      have hzero := start_eq_zero_iff h hout hpiece
      have hbegins : (p.move gap).start + byteSize left = 0 ↔ gap.start + byteSize left = 0 := by
        simp only [Nat.add_eq_zero_iff, hzero]
      simp only [Function.comp_apply, commentOn, commentText?, Nat.add_eq_left, Nat.pos_iff_ne_zero,
        ne_eq, hbegins, hleft, hnumber]

theorem exportLine_move {entry entry' : ExportEntry} (hentry : p.MovesEntry entry entry') :
    EndsLike Eq (exportLine file source entry) (exportLine file source' entry') := by
  have hvalue : EndsLike Eq (boundText source entry) (boundText source' entry') := by
    unfold boundText
    rw [hentry.binding]
    cases hbinding : entry.binding with
    | expression text => exact .ok rfl
    | foreign =>
        have hslice : source'.slice? entry'.span.toSpan = source.slice? entry.span.toSpan := by
          rw [hentry.span]
          exact slice?_moved h (hentry.outside hbinding)
        rw [hslice]
        cases source.slice? entry.span.toSpan with
        | none => exact .outOfText _ _
        | some piece => exact .ok rfl
  apply hvalue.bind
  rintro value _ rfl
  rw [hentry.name, hentry.span]
  exact .ok rfl

end Source

/-! ### Elements -/

section Body

variable {p : Patch} {setting : Setting} {file : Option String} {m m' : Module}
  {element element' : Element}

theorem elementLines_move (hid : m'.id = m.id) (hsource : p.MovesSource m.source m'.source)
    (helement : p.MovesElement element element') (hout : p.Outside element.span.toSpan) :
    EndsLike Eq (elementLines setting m file element) (elementLines setting m' file element') := by
  cases helement with
  | skipped span => exact .ok rfl
  | exports span hentries =>
      have hlines : EndsLike (List.Forall₂ Eq) (elementLines setting m file (.exports span _)) _ :=
        EndsLike.mapM hentries fun _ _ hentry => exportLine_move hsource hentry
      exact hlines.mono fun lines lines' _ hsame => by rwa [List.forall₂_eq_eq_eq] at hsame
  | require span binder target =>
      cases target with
      | unresolved path => exact verbatim_move hsource hout
      | resolved id =>
          simp only [elementLines, hid]
          split
          · exact .ok rfl
          · exact verbatim_move hsource hout
  | member span => exact verbatim_move hsource hout
  | other span => exact verbatim_move hsource hout

/-- An element outside of the patch is written alike, with the comments in front of it. -/
theorem bodyLines_move {previous previous' : Nat} {elements elements' : List Element}
    (hid : m'.id = m.id) (hsource : p.MovesSource m.source m'.source)
    (helement : p.MovesElement element element') (hout : p.Outside element.span.toSpan)
    (hgap : p.Outside ⟨previous, element.span.start⟩)
    (hmove : p.move ⟨previous, element.span.start⟩ = ⟨previous', element'.span.start⟩)
    (hrest : EndsLike Eq (bodyLines setting m file element.span.stop elements)
      (bodyLines setting m' file element'.span.stop elements')) :
    EndsLike Eq (bodyLines setting m file previous (element :: elements))
      (bodyLines setting m' file previous' (element' :: elements')) := by
  have hcomments : comments file m'.source ⟨previous', element'.span.start⟩ =
      comments file m.source ⟨previous, element.span.start⟩ := by
    rw [← hmove]
    exact comments_move hsource hgap
  rw [bodyLines, bodyLines, helement.isSkipped_eq, hcomments]
  apply (elementLines_move hid hsource helement hout).bind
  rintro lines _ rfl
  apply hrest.bind
  rintro rest _ rfl
  exact .ok rfl

/-- Elements above the patch stay where they are, and are written alike. -/
theorem bodyLines_above {previous : Nat} {front front' rest rest' : List Element}
    (hid : m'.id = m.id) (hsource : p.MovesSource m.source m'.source)
    (hfront : List.Forall₂ p.MovesElement front front')
    (habove : ∀ element ∈ front, element.span.start ≤ element.span.stop ∧
      element.span.stop ≤ p.deadSpan.start)
    (hprevious : previous ≤ p.deadSpan.start)
    (hrest : ∀ previous, EndsLike Eq (bodyLines setting m file previous rest)
      (bodyLines setting m' file previous rest')) :
    EndsLike Eq (bodyLines setting m file previous (front ++ rest))
      (bodyLines setting m' file previous (front' ++ rest')) := by
  induction hfront generalizing previous with
  | nil => exact hrest previous
  | @cons element element' front front' helement _ ih =>
      obtain ⟨⟨hle, hstop⟩, hothers⟩ := List.forall_mem_cons.1 habove
      -- An element above the patch stays where it is, and so does the gap in front of it.
      have hstays : element'.span.toSpan = element.span.toSpan := by
        rw [helement.span_eq]
        exact move_above hstop hle
      have hlt : previous < p.deadSpan.stop :=
        hprevious.trans_lt (Nat.lt_add_of_pos_right p.dead_pos)
      have hbehind := ih hothers hstop
      apply bodyLines_move hid hsource helement (.inl hstop) (.inl (hle.trans hstop))
      · rw [move_of_lt hlt, hstays]
      · rw [hstays]
        exact hbehind

/-- Elements below the patch are moved, and are written alike. -/
theorem bodyLines_below {previous : Nat} {back back' : List Element}
    (hid : m'.id = m.id) (hsource : p.MovesSource m.source m'.source)
    (hback : List.Forall₂ p.MovesElement back back')
    (hbelow : ∀ element ∈ back, element.span.start ≤ element.span.stop ∧
      p.deadSpan.stop ≤ element.span.start)
    (hprevious : p.deadSpan.stop ≤ previous) :
    EndsLike Eq (bodyLines setting m file previous back)
      (bodyLines setting m' file (previous + byteSize p.fresh - byteSize p.dead) back') := by
  induction hback generalizing previous with
  | nil =>
      -- The gap behind the last element ends with the text, which has moved as a whole.
      have hend : p.move ⟨previous, byteSize m.source.text⟩ =
          ⟨previous + byteSize p.fresh - byteSize p.dead, byteSize m'.source.text⟩ := by
        rw [move_below hprevious, hsource.before, hsource.after, before, after]
        simp only [byteSize_append, Span.mk.injEq, true_and]
        omega
      have hcomments : comments file m'.source (p.move ⟨previous, byteSize m.source.text⟩) =
          comments file m.source ⟨previous, byteSize m.source.text⟩ :=
        comments_move hsource (.inr hprevious)
      rw [hend] at hcomments
      exact .ok hcomments.symm
  | @cons element element' back back' helement _ ih =>
      obtain ⟨⟨hle, hstart⟩, hothers⟩ := List.forall_mem_cons.1 hbelow
      have hmoved : element'.span.toSpan = p.move element.span.toSpan := by
        rw [helement.span_eq]
        rfl
      rw [move_below hstart] at hmoved
      have hbehind := ih hothers (hstart.trans hle)
      apply bodyLines_move hid hsource helement (.inr hstart) (.inr hprevious)
      · rw [move_below hprevious, hmoved]
      · rw [hmoved]
        exact hbehind

/-- A module is written alike whatever the text of a skipped element. -/
theorem moduleLines_patched (h : p.MovesModule m m') (horder : m.InOrder)
    {outputFile : Option String} :
    EndsLike Eq (moduleLines setting outputFile m) (moduleLines setting outputFile m') := by
  obtain ⟨front, back, front', back', span, span', helements, hspan, helements', hspan', hfront,
    hback⟩ := h.elements
  have hinside := horder.inside
  have hordered := horder.ordered
  rw [helements] at hinside hordered
  obtain ⟨-, hbehind, hbetween⟩ := List.pairwise_append.1 hordered
  -- the other elements stand on one side of the patch
  have habove : ∀ element ∈ front, element.span.start ≤ element.span.stop ∧
      element.span.stop ≤ p.deadSpan.start := by
    intro element helement
    refine ⟨(hinside element (List.mem_append_left _ helement)).1, ?_⟩
    rw [← hspan]
    exact hbetween element helement _ List.mem_cons_self
  have hbelow : ∀ element ∈ back, element.span.start ≤ element.span.stop ∧
      p.deadSpan.stop ≤ element.span.start := by
    intro element helement
    refine ⟨(hinside element (List.mem_append_right _ (List.mem_cons_of_mem _ helement))).1, ?_⟩
    rw [← hspan]
    exact (List.pairwise_cons.1 hbehind).1 element helement
  have hbody (file : Option String) : EndsLike Eq (bodyLines setting m file 0 m.elements)
      (bodyLines setting m' file 0 m'.elements) := by
    rw [helements, helements']
    apply bodyLines_above h.id h.source hfront habove (Nat.zero_le _)
    intro previous
    have hnext : span'.stop = span.stop + byteSize p.fresh - byteSize p.dead := by
      rw [hspan, hspan', deadSpan, freshSpan]
      dsimp only
      omega
    have hrest : EndsLike Eq (bodyLines setting m file span.stop back)
        (bodyLines setting m' file span'.stop back') := by
      rw [hnext]
      exact bodyLines_below h.id h.source hback hbelow (by rw [hspan])
    -- neither skipped element is written
    show EndsLike Eq (bodyLines setting m file span.stop back >>= fun rest => .ok ([] ++ rest))
      (bodyLines setting m' file span'.stop back' >>= fun rest => .ok ([] ++ rest))
    apply hrest.bind
    rintro rest _ rfl
    exact .ok rfl
  unfold moduleLines
  rw [h.id, h.filePath]
  apply (hbody _).bind
  rintro body _ rfl
  exact .ok rfl

end Body

end Emission

/-! ## Writing a program -/

/-- Dead text leaves no trace: if the text of a skipped statement is replaced by any other with as
many newlines, the program and its mapping stay the same. -/
theorem emit_patched {p : Patch} {m m' : Module} (h : p.MovesModule m m') (horder : m.InOrder)
    (front back : List Module) (options : Options) (bundle : Bundle) :
    emit (front ++ m' :: back) options = .ok bundle ↔
      emit (front ++ m :: back) options = .ok bundle := by
  have hmodules : EndsLike Eq (emit (front ++ m :: back) options)
      (emit (front ++ m' :: back) options) := by
    apply emit_endsLike
    apply List.rel_append
    · exact List.forall₂_same.2 fun _ _ => ⟨rfl, fun _ => .refl _⟩
    · refine .cons ⟨h.id, fun _ => Emission.moduleLines_patched h horder⟩ ?_
      exact List.forall₂_same.2 fun _ _ => ⟨rfl, fun _ => .refl _⟩
  generalize emit (front ++ m :: back) options = written at hmodules ⊢
  generalize emit (front ++ m' :: back) options = written' at hmodules ⊢
  cases hmodules with
  | ok hsame => rw [hsame]
  | error e => rfl
  | outOfText span span' => exact ⟨nofun, nofun⟩

/-- A dead template of two lines between two exports, and a call that can stand in its place. -/
def deadTemplate : Patch where
  above := "exports.a = 1;\n".toList
  dead := "var d = `x\n  y`;".toList
  fresh := "/* hidden */ hidden(\n);".toList
  below := " // kept\nexports.b = `p\n q`;\nmodule.exports=\x7bc:$f.c\x7d;\n".toList
  dead_ne_nil := by decide
  fresh_ne_nil := by decide
  count_eq := by decide

/-- The module with the template. -/
def aroundTemplate : Module where
  id := .regular "A"
  filePath := some "A/index.js"
  source := .ofText deadTemplate.before [⟨23, 30⟩, ⟨52, 58⟩]
  elements :=
    [.member ⟨⟨0, 14⟩, 0, 0⟩ .exported "a" (.leaf ⟨12, 13⟩ .literal) [],
      .skipped ⟨⟨15, 31⟩, 1, 2⟩,
      .member ⟨⟨40, 59⟩, 3, 4⟩ .exported "b" (.leaf ⟨52, 58⟩ .literal) [],
      .exports ⟨⟨60, 84⟩, 5, 5⟩
        [⟨"c", .foreign, .member ⟨78, 82⟩ (.name ⟨78, 80⟩ "$f") (.name "c"), ⟨⟨78, 82⟩, 5, 5⟩, []⟩]]

/-- The module with the call, which is seven bytes longer. -/
def aroundCall : Module where
  id := .regular "A"
  filePath := some "A/index.js"
  source := .ofText deadTemplate.after [⟨59, 65⟩]
  elements :=
    [.member ⟨⟨0, 14⟩, 0, 0⟩ .exported "a" (.leaf ⟨12, 13⟩ .literal) [],
      .skipped ⟨⟨15, 38⟩, 1, 2⟩,
      .member ⟨⟨47, 66⟩, 3, 4⟩ .exported "b" (.leaf ⟨59, 65⟩ .literal) [],
      .exports ⟨⟨67, 91⟩, 5, 5⟩
        [⟨"c", .foreign, .member ⟨85, 89⟩ (.name ⟨85, 87⟩ "$f") (.name "c"), ⟨⟨85, 89⟩, 5, 5⟩, []⟩]]

/-- The program of either module. Neither the template nor the call is seen in it. -/
def keptBundle : Bundle where
  code := "var PS = \x7b\x7d;\n(function(exports) \x7b\n  exports.a = 1;\n  // kept\n" ++
    "  exports.b = `p\n q`;\n  exports[\"c\"] = $f.c;\n" ++
    "\x7d)(PS[\"A\"] = PS[\"A\"] || \x7b\x7d);\n//# sourceMappingURL=a.js.map\n"
  sourceMap := some ⟨"a.js", [⟨2, 0, "A/index.js", 0, 0⟩, ⟨3, 0, "A/index.js", 2, 0⟩,
    ⟨4, 0, "A/index.js", 3, 0⟩, ⟨5, 0, "A/index.js", 4, 0⟩, ⟨6, 0, "A/index.js", 5, 0⟩]⟩

/-- The call is written like the template, not at all, and what is behind it stays on its line. -/
theorem call_leaves_no_trace :
    deadTemplate.MovesModule aroundTemplate aroundCall ∧ aroundTemplate.InOrder ∧
      emit [aroundCall] { outputFile := some "a.js" } = .ok keptBundle := by
  have hsource : deadTemplate.MovesSource aroundTemplate.source aroundCall.source :=
    ⟨rfl, rfl, by decide, by decide⟩
  have hentry : deadTemplate.MovesEntry
      ⟨"c", .foreign, .member ⟨78, 82⟩ (.name ⟨78, 80⟩ "$f") (.name "c"), ⟨⟨78, 82⟩, 5, 5⟩, []⟩
      ⟨"c", .foreign, .member ⟨85, 89⟩ (.name ⟨85, 87⟩ "$f") (.name "c"), ⟨⟨85, 89⟩, 5, 5⟩, []⟩ :=
    ⟨rfl, rfl, by decide, fun _ => by decide⟩
  have hmoves : deadTemplate.MovesModule aroundTemplate aroundCall := by
    refine ⟨rfl, rfl, hsource, [_], [_, _], [_], [_, _], _, _, rfl, by decide, rfl, by decide,
      ?_, ?_⟩
    · exact .cons (.member _ _ _ _ _ _ _) .nil
    · exact .cons (.member _ _ _ _ _ _ _) (.cons (.exports _ (.cons hentry .nil)) .nil)
  have horder : aroundTemplate.InOrder := ⟨by decide, by decide⟩
  have htemplate : emit [aroundTemplate] { outputFile := some "a.js" } = .ok keptBundle :=
    eq_ok_of_toOption (by decide +kernel)
  exact ⟨hmoves, horder, (emit_patched hmoves horder [] [] _ keptBundle).2 htemplate⟩

end ModuleLinker
