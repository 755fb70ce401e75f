/-
# ModuleLinker.Module.Source -- the text of a module

A module keeps its text, the index of its lines, and the spans of the string and template
literals that run over several lines: a line that begins inside one of them belongs to the value
of the literal.
-/

import ModuleLinker.Text.Lines

namespace ModuleLinker

/-- The text of a module with what the later stages look up in it. -/
structure Source where
  text : List Char
  literals : List Span
  lines : LineIndex := LineIndex.ofText text
  lines_eq : lines = LineIndex.ofText text := by rfl

namespace Source

def ofText (text : List Char) (literals : List Span) : Source where
  text := text
  literals := literals

/-- A span of the text with its lines. -/
def locate (source : Source) (span : Span) : LineSpan := source.lines.locate span

/-- The piece of the text under a span. -/
def slice? (source : Source) (span : Span) : Option (List Char) := Text.slice? source.text span

/-- Whether the offset lies strictly inside one of the literals. -/
def insideLiteral (source : Source) (offset : Nat) : Bool :=
  source.literals.any fun span => span.start < offset && offset < span.stop

end Source

end ModuleLinker
