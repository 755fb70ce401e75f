/-
# ModuleLinker.Json.Value -- JSON documents as values

A document keeps the fields of an object in the order and number in which they were written, so
that a reader can refuse a repeated field, and keeps a number as its text. A string escape may
name half of a surrogate pair, which no text can hold: such a string has the value `none`, and
only a reader that needs its text minds.
-/

import ModuleLinker.Text.Quoted

namespace ModuleLinker

/-- A JSON document. -/
inductive Json where
  | null
  | bool (value : Bool)
  | number (text : String)
  | string (value : Option String)
  | array (items : List Json)
  | object (fields : List (Option String × Json))
deriving Repr, Inhabited

namespace Json

def text (value : String) : Json := .string (some value)

def ofNat (n : Nat) : Json := .number (toString n)

/-- An object with the given fields in the given order. -/
def record (fields : List (String × Json)) : Json :=
  .object (fields.map fun field => (some field.1, field.2))

/-- The values written for a field, in order. -/
def valuesOf (fields : List (Option String × Json)) (name : String) : List Json :=
  fields.filterMap fun field => if field.1 = some name then some field.2 else none

/-- The text of a string. -/
def text? : Json → Option String
  | .string value => value
  | _ => none

/-! ## Compact form -/

mutual

/-- The document without any blanks between its tokens. A string that has no text is written as
an empty one. -/
def compact : Json → String
  | .null => "null"
  | .bool value => if value then "true" else "false"
  | .number text => text
  | .string value => Text.quoted (value.getD "")
  | .array items => "[" ++ compactItems items ++ "]"
  | .object fields => "\x7b" ++ compactFields fields ++ "\x7d"

/-- Items separated by commas. -/
def compactItems : List Json → String
  | [] => ""
  | [item] => compact item
  | item :: items => compact item ++ "," ++ compactItems items

/-- Fields separated by commas. -/
def compactFields : List (Option String × Json) → String
  | [] => ""
  | [(name, value)] => Text.quoted (name.getD "") ++ ":" ++ compact value
  | (name, value) :: fields =>
    Text.quoted (name.getD "") ++ ":" ++ compact value ++ "," ++ compactFields fields

end

end Json

end ModuleLinker
