/-
# ModuleLinker.SourceMap.Mapping -- which line came from where

A source mapping lists, line by line, where the lines of an output file were copied from.
`SourceMapping.json` is its version 3 rendering: mappings in the order of their generated
position, a semicolon per generated line, a comma between mappings of one line, and every number
relative to the one before it.
-/

import ModuleLinker.Order
import ModuleLinker.SourceMap.Vlq
import ModuleLinker.Json.Value

namespace ModuleLinker

/-- A position of the output and the position that it was copied from; all counts start at
zero. -/
structure LineMapping where
  generatedLine : Nat
  generatedColumn : Nat
  sourceFile : String
  sourceLine : Nat
  sourceColumn : Nat
deriving DecidableEq, Repr, Inhabited

/-- The mappings of the output file named `file`. -/
structure SourceMapping where
  file : String
  mappings : List LineMapping := []
deriving DecidableEq, Repr, Inhabited

namespace SourceMapping

/-- The source files in order of first use. -/
def sources (mapping : SourceMapping) : List String :=
  distinct (mapping.mappings.map (·.sourceFile))

/-- A mapping with its numbers cut to 32 bits and its file as an index. -/
structure Segment where
  line : Nat
  column : Nat
  source : Nat
  sourceLine : Nat
  sourceColumn : Nat
deriving DecidableEq, Repr, Inhabited

/-- The part of a number that fits into 32 bits. -/
def word (n : Nat) : Nat := n % 0x100000000

def segment (sources : List String) (mapping : LineMapping) : Segment where
  line := word mapping.generatedLine
  column := word mapping.generatedColumn
  source := sources.idxOf mapping.sourceFile
  sourceLine := word mapping.sourceLine
  sourceColumn := word mapping.sourceColumn

/-- Generated positions in reading order. -/
def Segment.precedes (a b : Segment) : Bool :=
  a.line < b.line || (a.line = b.line && a.column < b.column)

/-- The segments of a mapping in reading order. -/
def segments (mapping : SourceMapping) : List Segment :=
  sorted Segment.precedes (mapping.mappings.map (segment mapping.sources))

/-- The four numbers of a segment relative to the segment before it; on a new line the column
counts from zero. -/
def Segment.fields (previous current : Segment) : List Char :=
  let column := if current.line = previous.line then previous.column else 0
  Vlq.encode (current.column - column) ++
    Vlq.encode (current.source - previous.source) ++
    Vlq.encode (current.sourceLine - previous.sourceLine) ++
    Vlq.encode (current.sourceColumn - previous.sourceColumn)

/-- The segments after `previous`: semicolons up to the line of each, a comma before one on the
line of its predecessor. A segment that repeats its predecessor is left out. -/
def renderAfter (previous : Segment) : List Segment → List Char
  | [] => []
  | current :: rest =>
    if current = previous then renderAfter previous rest
    else
      let separator :=
        if current.line = previous.line then [','] else
          List.replicate (current.line - previous.line) ';'
      separator ++ Segment.fields previous current ++ renderAfter current rest

/-- All segments. -/
def render : List Segment → List Char
  | [] => []
  | first :: rest =>
    let origin : Segment := ⟨0, 0, 0, 0, 0⟩
    List.replicate first.line ';' ++ Segment.fields origin first ++ renderAfter first rest

/-- The version 3 rendering. -/
def json (mapping : SourceMapping) : Json :=
  .record [
    ("version", .ofNat 3),
    ("file", .text mapping.file),
    ("sources", .array (mapping.sources.map .text)),
    ("names", .array []),
    ("mappings", .text (String.ofList (render mapping.segments)))]

end SourceMapping

end ModuleLinker
