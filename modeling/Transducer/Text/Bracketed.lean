/-!
# Bracketed text

The written forms of compound values in reports.

* `listing`, `mapping`: items, or pairs of a key and a value, between brackets.
* `record`, `call`: a name with its fields, or with its arguments.
-/

namespace Transducer.Text

/-- The items with a comma between two neighbours. -/
def commas (items : List String) : String := String.intercalate ", " items

/-- A list of items. -/
def listing (items : List String) : String := "[" ++ commas items ++ "]"

/-- A pair of a name or key and the value it has. -/
def labelled (entry : String × String) : String := entry.1 ++ ": " ++ entry.2

/-- A table of keys with their values. -/
def mapping (entries : List (String × String)) : String :=
  "\x7b" ++ commas (entries.map labelled) ++ "\x7d"

/-- A name with its fields. -/
def record (name : String) (fields : List (String × String)) : String :=
  name ++ " \x7b " ++ commas (fields.map labelled) ++ " \x7d"

/-- A name with its arguments, or a tuple if the name is empty. -/
def call (name : String) (args : List String) : String := name ++ "(" ++ commas args ++ ")"

end Transducer.Text
