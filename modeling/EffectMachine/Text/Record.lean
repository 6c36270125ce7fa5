/-
  Descriptions of structured values.

  A record is described by its name and its fields in order, `Name { a: 1, b: 2 }`, a record that
  keeps some of its fields to itself ends in two dots, and a set lists its members in braces.  The
  descriptions of the fields are given; nothing here quotes or escapes.
-/

namespace EffectMachine.Text

/-- The items, with a comma and a blank between two of them. -/
def commas (items : List String) : String := ", ".intercalate items

/-- A field: its name, a colon and its description. -/
def field (name description : String) : String := name ++ ": " ++ description

/-- A record with all of its fields. -/
def record (name : String) (fields : List String) : String :=
  name ++ " \x7b " ++ commas fields ++ " \x7d"

/-- A record of which only some fields are shown. -/
def openRecord (name : String) (fields : List String) : String :=
  record name (fields ++ [".."])

/-- A value wrapped by a named constructor. -/
def wrapped (name content : String) : String := name ++ "(" ++ content ++ ")"

/-- The members of a set, in the order given. -/
def set (members : List String) : String := "\x7b" ++ commas members ++ "\x7d"

example : record "P" [field "x" "1", field "y" "2"] = "P \x7b x: 1, y: 2 \x7d" := by decide +kernel
example : set [] = "\x7b\x7d" := by decide +kernel

end EffectMachine.Text
