import Transducer.Ordered

/-!
# JSON values

Values as a JSON text gives them: members in the order of the text, repeated names kept, and a
number that is not a plain integer kept as it is written.

* `Json`: a value.
* `Json.ofString`: the string value of a text.
* `Json.sorted`: the value with the members of every object in the order of their names, each name
  once, with the value that was given last.
-/

namespace Transducer

/-- A JSON value. The text of a string, or the name of a member, is `none` if it holds an escape of
half a surrogate pair: the text is then no sequence of characters. -/
inductive Json where
  | null
  | bool (value : Bool)
  /-- A number written as an integer. -/
  | int (value : Int)
  /-- A number written in another way: with a fraction, with an exponent, or as minus zero. -/
  | real (written : List Char)
  | str (text : Option String)
  | arr (items : List Json)
  | obj (members : List (Option String × Json))

namespace Json

/-- The string value of a text. -/
def ofString (s : String) : Json := .str (some s)

/-- The object with the given members. -/
def ofMembers (members : List (String × Json)) : Json :=
  .obj (members.map fun m => (some m.1, m.2))

/-- The items of an array. -/
def items? : Json → Option (List Json)
  | .arr items => some items
  | _ => none

/-- The members of an object. -/
def members? : Json → Option (List (Option String × Json))
  | .obj members => some members
  | _ => none

/-- The text of a string. -/
def text? : Json → Option String
  | .str text => text
  | _ => none

/-- The value of the first member of a name. -/
def get? (j : Json) (name : String) : Option Json := j.members?.bind (·.lookup (some name))

/-- The order of names. -/
def nameBefore : Option String → Option String → Bool
  | _, none => false
  | none, some _ => true
  | some a, some b => Ordered.lt a b

/-- The members with one more put in its place; a member of the same name is replaced. -/
def place (m : Option String × Json) :
    List (Option String × Json) → List (Option String × Json)
  | [] => [m]
  | n :: rest =>
    if n.1 = m.1 then m :: rest
    else if nameBefore m.1 n.1 then m :: n :: rest
    else n :: place m rest

mutual

/-- The value with the members of every object in the order of their names, each name once, with
the value that was given last. -/
def sorted : Json → Json
  | .arr items => .arr (sortedItems items)
  | .obj members => .obj ((sortedMembers members).foldl (fun done m => place m done) [])
  | j => j

/-- The items, each sorted. -/
def sortedItems : List Json → List Json
  | [] => []
  | j :: rest => sorted j :: sortedItems rest

/-- The members in the same order, the value of each sorted. -/
def sortedMembers : List (Option String × Json) → List (Option String × Json)
  | [] => []
  | (name, j) :: rest => (name, sorted j) :: sortedMembers rest

end

end Json

end Transducer
