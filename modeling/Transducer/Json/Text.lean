import Transducer.Json.Basic
import Transducer.Json.Token

/-!
# JSON texts

Values and the texts that stand for them.

* `Json.tokens`, `Json.write`: the compact text of a value.
* `feed`: one token read, with the containers that are still open kept in a list.
* `Json.ofTokens?`, `Json.read?`: the value of a text.
* `ofTokens?_tokens`: **the tokens of a value are read as that value.**
-/

namespace Transducer.Json

/-! ## Writing -/

mutual

/-- The tokens of a value. -/
def tokens : Json → List Token
  | .null => [.null]
  | .bool b => [.bool b]
  | .int n => [.int n]
  | .real s => [.real s]
  | .str s => [.str s]
  | .arr items => .openArr :: itemTokens items
  | .obj members => .openObj :: memberTokens members

/-- The tokens of the items of an array, and of its end. -/
def itemTokens : List Json → List Token
  | [] => [.closeArr]
  | j :: rest => tokens j ++ moreItemTokens rest

/-- The tokens of the items behind the first one. -/
def moreItemTokens : List Json → List Token
  | [] => [.closeArr]
  | j :: rest => .comma :: (tokens j ++ moreItemTokens rest)

/-- The tokens of the members of an object, and of its end. -/
def memberTokens : List (Option String × Json) → List Token
  | [] => [.closeObj]
  | (name, j) :: rest => .str name :: .colon :: (tokens j ++ moreMemberTokens rest)

/-- The tokens of the members behind the first one. -/
def moreMemberTokens : List (Option String × Json) → List Token
  | [] => [.closeObj]
  | (name, j) :: rest => .comma :: .str name :: .colon :: (tokens j ++ moreMemberTokens rest)

end

/-- The text of a value, without white space. -/
def write (j : Json) : List Char := j.tokens.flatMap Token.spell

/-! ## Reading -/

/-- A container that is still open, with its items or members so far, the last one first. -/
inductive Frame where
  | arr (before : List Json)
  | obj (before : List (Option String × Json))
  /-- An object with a member whose value is being read. -/
  | member (before : List (Option String × Json)) (name : Option String)

/-- What comes next. -/
inductive Stage where
  | value
  /-- An item, or the end of an array that has none. -/
  | firstItem
  /-- A name, or the end of an object that has no member. -/
  | firstName
  | name
  | colon (name : Option String)
  /-- A value has been read: a comma, the end of its container, or the end of the text. -/
  | done (value : Json)

/-- The first token of a value. -/
def begin? (open_ : List Frame) : Token → Option (Stage × List Frame)
  | .openArr => some (.firstItem, .arr [] :: open_)
  | .openObj => some (.firstName, .obj [] :: open_)
  | .null => some (.done .null, open_)
  | .bool b => some (.done (.bool b), open_)
  | .int n => some (.done (.int n), open_)
  | .real s => some (.done (.real s), open_)
  | .str s => some (.done (.str s), open_)
  | _ => none

/-- One token read. -/
def feed : Stage × List Frame → Token → Option (Stage × List Frame)
  | (.value, fs), t => begin? fs t
  | (.firstItem, .arr before :: fs), .closeArr => some (.done (.arr before.reverse), fs)
  | (.firstItem, fs), t => begin? fs t
  | (.firstName, .obj before :: fs), .closeObj => some (.done (.obj before.reverse), fs)
  | (.firstName, fs), .str s => some (.colon s, fs)
  | (.name, fs), .str s => some (.colon s, fs)
  | (.colon s, .obj before :: fs), .colon => some (.value, .member before s :: fs)
  | (.done j, .arr before :: fs), .comma => some (.value, .arr (j :: before) :: fs)
  | (.done j, .arr before :: fs), .closeArr => some (.done (.arr (j :: before).reverse), fs)
  | (.done j, .member before s :: fs), .comma => some (.name, .obj ((s, j) :: before) :: fs)
  | (.done j, .member before s :: fs), .closeObj =>
    some (.done (.obj ((s, j) :: before).reverse), fs)
  | _, _ => none

/-- The value of some tokens, if they are the tokens of one value. -/
def ofTokens? (ts : List Token) : Option Json :=
  match ts.foldlM feed (.value, []) with
  | some (.done j, []) => some j
  | _ => none

/-- The value of a text, if it is the text of one value. -/
def read? (s : List Char) : Option Json := (scan? s).bind ofTokens?

/-! ## Reading what was written -/

theorem feed_firstItem {t : Token} (h : t ≠ .closeArr) (fs : List Frame) :
    feed (.firstItem, fs) t = feed (.value, fs) t := by
  rw [feed, feed]
  exact fun _ _ ht _ => h ht

theorem foldlM_feed_firstItem (j : Json) (fs : List Frame) (rest : List Token) :
    (tokens j ++ rest).foldlM feed (.firstItem, fs) =
      (tokens j ++ rest).foldlM feed (.value, fs) := by
  cases j <;> simp [tokens, feed_firstItem]

mutual

/-- Where a value is due, its tokens lead to the value, whatever stands behind them. -/
theorem foldlM_feed_tokens (j : Json) (fs : List Frame) (rest : List Token) :
    (tokens j ++ rest).foldlM feed (.value, fs) = rest.foldlM feed (.done j, fs) := by
  match j with
  | .null | .bool _ | .int _ | .real _ | .str _ => rfl
  | .arr items =>
    match items with
    | [] => rfl
    | first :: more =>
      rw [tokens, itemTokens, List.cons_append, List.append_assoc]
      show List.foldlM feed (.firstItem, .arr [] :: fs) _ = _
      rw [foldlM_feed_firstItem, foldlM_feed_tokens, foldlM_feed_moreItemTokens]
      rfl
  | .obj members =>
    match members with
    | [] => rfl
    | (name, first) :: more =>
      rw [tokens, memberTokens, List.cons_append, List.cons_append, List.cons_append,
        List.append_assoc]
      show List.foldlM feed (.value, .member [] name :: fs) _ = _
      rw [foldlM_feed_tokens, foldlM_feed_moreMemberTokens]
      rfl

theorem foldlM_feed_moreItemTokens (j : Json) (items before : List Json) (fs : List Frame)
    (rest : List Token) :
    (moreItemTokens items ++ rest).foldlM feed (.done j, .arr before :: fs) =
      rest.foldlM feed (.done (.arr (before.reverse ++ j :: items)), fs) := by
  match items with
  | [] =>
    show List.foldlM feed (.done (.arr (j :: before).reverse), fs) _ = _
    rw [List.reverse_cons]
    rfl
  | k :: more =>
    rw [moreItemTokens, List.cons_append, List.append_assoc]
    show List.foldlM feed (.value, .arr (j :: before) :: fs) _ = _
    rw [foldlM_feed_tokens, foldlM_feed_moreItemTokens, List.reverse_cons, List.append_assoc]
    rfl

theorem foldlM_feed_moreMemberTokens (name : Option String) (j : Json)
    (members before : List (Option String × Json)) (fs : List Frame) (rest : List Token) :
    (moreMemberTokens members ++ rest).foldlM feed (.done j, .member before name :: fs) =
      rest.foldlM feed (.done (.obj (before.reverse ++ (name, j) :: members)), fs) := by
  match members with
  | [] =>
    show List.foldlM feed (.done (.obj ((name, j) :: before).reverse), fs) _ = _
    rw [List.reverse_cons]
    rfl
  | (nextName, k) :: more =>
    rw [moreMemberTokens, List.cons_append, List.cons_append, List.cons_append, List.append_assoc]
    show List.foldlM feed (.value, .member ((name, j) :: before) nextName :: fs) _ = _
    rw [foldlM_feed_tokens, foldlM_feed_moreMemberTokens, List.reverse_cons, List.append_assoc]
    rfl

end

/-- **The tokens of a value are read as that value.** -/
theorem ofTokens?_tokens (j : Json) : ofTokens? j.tokens = some j := by
  have h := foldlM_feed_tokens j [] []
  rw [List.append_nil] at h
  rw [ofTokens?, h]
  rfl

end Transducer.Json
