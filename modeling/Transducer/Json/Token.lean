import Transducer.Decimal.Numeral

/-!
# JSON tokens

The words of a JSON text, and what each is written as.

* `Token`: a bracket, a comma, a colon, a word, a number or a string.
* `Token.spell`: how a token is written.
* `scan?`: the tokens of a text; `none` if it holds something that is no token.
-/

namespace Transducer.Json

open Decimal (isDigit ofDigits integer)

/-- A word of a JSON text. -/
inductive Token where
  | openArr
  | closeArr
  | openObj
  | closeObj
  | comma
  | colon
  | null
  | bool (value : Bool)
  | int (value : Int)
  | real (written : List Char)
  | str (text : Option String)

/-! ## Strings -/

/-- A character, or the number of half a surrogate pair. -/
inductive Piece where
  | char (c : Char)
  | half (n : Nat)

/-- The value of a hexadecimal digit of either case. -/
def hexValue? (c : Char) : Option Nat :=
  if isDigit c then some (c.toNat - '0'.toNat)
  else if 'a'.toNat ≤ c.toNat ∧ c.toNat ≤ 'f'.toNat then some (c.toNat - 'a'.toNat + 10)
  else if 'A'.toNat ≤ c.toNat ∧ c.toNat ≤ 'F'.toNat then some (c.toNat - 'A'.toNat + 10)
  else none

/-- The value of four hexadecimal digits. -/
def hexValue4? (a b c d : Char) : Option Nat := do
  return 4096 * (← hexValue? a) + 256 * (← hexValue? b) + 16 * (← hexValue? c) + (← hexValue? d)

/-- The character that a letter stands for behind a backslash. -/
def unletter? (c : Char) : Option Char :=
  if c = '"' ∨ c = '\\' ∨ c = '/' then some c
  else if c = 'b' then some '\x08'
  else if c = 'f' then some '\x0c'
  else if c = 'n' then some '\n'
  else if c = 'r' then some '\r'
  else if c = 't' then some '\t'
  else none

/-- The piece that a four-digit escape stands for. -/
def Piece.ofCode (n : Nat) : Piece :=
  if 0xd800 ≤ n ∧ n < 0xe000 then .half n else .char (Char.ofNat n)

/-- The pieces between two quote marks; `none` if an escape is not one of the format or a control
character stands for itself. -/
def pieces? : List Char → Option (List Piece)
  | [] => some []
  | '\\' :: 'u' :: a :: b :: c :: d :: s => do
    let n ← hexValue4? a b c d
    return .ofCode n :: (← pieces? s)
  | '\\' :: l :: s => do
    let c ← unletter? l
    return .char c :: (← pieces? s)
  | ['\\'] => none
  | c :: s => if c.toNat < 0x20 then none else (pieces? s).map (.char c :: ·)

/-- The characters of the pieces, each upper half joined with the lower half behind it; `none` if a
half is left alone. -/
def join? : List Piece → Option (List Char)
  | [] => some []
  | .char c :: rest => (join? rest).map (c :: ·)
  | .half h :: .half l :: rest =>
    if h < 0xdc00 ∧ 0xdc00 ≤ l then
      (join? rest).map (Char.ofNat (0x10000 + 0x400 * (h - 0xd800) + (l - 0xdc00)) :: ·)
    else none
  | .half _ :: _ => none

/-- What stands before the next quote mark that is not escaped, and what stands behind it. -/
def closeQuote? : List Char → Option (List Char × List Char)
  | [] => none
  | '"' :: s => some ([], s)
  | '\\' :: c :: s => (closeQuote? s).map fun r => ('\\' :: c :: r.1, r.2)
  | c :: s => (closeQuote? s).map fun r => (c :: r.1, r.2)

theorem length_of_closeQuote? {s : List Char} {r : List Char × List Char}
    (h : closeQuote? s = some r) : r.2.length < s.length := by
  fun_induction closeQuote? s generalizing r with
  | case1 => simp at h
  | case2 s => cases h; simp
  | case3 c s ih =>
    obtain ⟨r', hr, rfl⟩ := Option.map_eq_some_iff.1 h
    have := ih hr
    simp only [List.length_cons]
    omega
  | case4 c s _ _ ih =>
    obtain ⟨r', hr, rfl⟩ := Option.map_eq_some_iff.1 h
    have := ih hr
    simp only [List.length_cons]
    omega

/-- A character between quote marks. -/
def spellChar (c : Char) : List Char :=
  if c = '"' then ['\\', '"']
  else if c = '\\' then ['\\', '\\']
  else if c = '\x08' then ['\\', 'b']
  else if c = '\x0c' then ['\\', 'f']
  else if c = '\n' then ['\\', 'n']
  else if c = '\r' then ['\\', 'r']
  else if c = '\t' then ['\\', 't']
  else if c.toNat < 0x20 then
    ['\\', 'u', '0', '0', Nat.digitChar (c.toNat / 16), Nat.digitChar (c.toNat % 16)]
  else [c]

/-- What stands between the quote marks of a string. -/
def spellText : Option String → List Char
  | some s => s.toList.flatMap spellChar
  | none => ['\\', 'u', 'd', '8', '0', '0']

/-! ## Numbers -/

/-- The text is empty or an exponent: its mark, an optional sign, and at least one digit. -/
def isExponent : List Char → Bool
  | [] => true
  | e :: s =>
    let ds := match s with
      | '+' :: ds => ds
      | '-' :: ds => ds
      | ds => ds
    (e == 'e' || e == 'E') && !ds.isEmpty && ds.all isDigit

/-- The text is an optional fraction, of at least one digit, and an optional exponent. -/
def isFraction : List Char → Bool
  | '.' :: s => !(s.takeWhile isDigit).isEmpty && isExponent (s.dropWhile isDigit)
  | s => isExponent s

/-- The token of a number without sign. Its digits before the point are not empty and have no
leading zero. -/
def unsigned? (s : List Char) (negative : Bool) : Option Token :=
  let ds := s.takeWhile isDigit
  let rest := s.dropWhile isDigit
  let written := if negative then '-' :: s else s
  if ds.isEmpty || (decide (1 < ds.length) && ds.head? == some '0') then none
  else if !rest.isEmpty then if isFraction rest then some (.real written) else none
  else if negative then
    if ofDigits ds = 0 then some (.real written) else some (.int (-(ofDigits ds : Int)))
  else some (.int (ofDigits ds))

/-- The token of a number. -/
def number? : List Char → Option Token
  | '-' :: s => unsigned? s true
  | s => unsigned? s false

/-! ## Texts -/

/-- The white space of the format. -/
def isSpace (c : Char) : Bool := c == ' ' || c == '\t' || c == '\n' || c == '\r'

/-- A character of a word or a number. -/
def isBare (c : Char) : Bool := c.isAlphanum || c == '-' || c == '+' || c == '.'

namespace Token

/-- The token that is written as one mark. -/
def ofMark? (c : Char) : Option Token :=
  if c = '[' then some .openArr
  else if c = ']' then some .closeArr
  else if c = '\x7b' then some .openObj
  else if c = '\x7d' then some .closeObj
  else if c = ',' then some .comma
  else if c = ':' then some .colon
  else none

/-- The token of a word or a number. -/
def ofBare? (s : List Char) : Option Token :=
  if s = ['n', 'u', 'l', 'l'] then some .null
  else if s = ['t', 'r', 'u', 'e'] then some (.bool true)
  else if s = ['f', 'a', 'l', 's', 'e'] then some (.bool false)
  else number? s

/-- The token of what stands between two quote marks. -/
def ofQuoted? (s : List Char) : Option Token :=
  (pieces? s).map fun ps => .str ((join? ps).map String.ofList)

/-- How a token is written. -/
def spell : Token → List Char
  | .openArr => ['[']
  | .closeArr => [']']
  | .openObj => ['\x7b']
  | .closeObj => ['\x7d']
  | .comma => [',']
  | .colon => [':']
  | .null => ['n', 'u', 'l', 'l']
  | .bool true => ['t', 'r', 'u', 'e']
  | .bool false => ['f', 'a', 'l', 's', 'e']
  | .int n => integer n
  | .real s => s
  | .str s => '"' :: (spellText s ++ ['"'])

end Token

theorem length_dropWhile_le (p : Char → Bool) (s : List Char) :
    (s.dropWhile p).length ≤ s.length :=
  (List.dropWhile_sublist p).length_le

/-- The tokens of a text; `none` if it holds something that is no token. -/
def scan? : List Char → Option (List Token)
  | [] => some []
  | c :: s =>
    if isSpace c then scan? s
    else if c = '"' then
      match _h : closeQuote? s with
      | none => none
      | some (inside, rest) => do
        let t ← Token.ofQuoted? inside
        return t :: (← scan? rest)
    else
      match Token.ofMark? c with
      | some t => (scan? s).map (t :: ·)
      | none => do
        let t ← Token.ofBare? (c :: s.takeWhile isBare)
        return t :: (← scan? (s.dropWhile isBare))
termination_by s => s.length
decreasing_by
  · simp
  · have : rest.length < s.length := length_of_closeQuote? _h
    simp only [List.length_cons]
    omega
  · simp
  · have := length_dropWhile_le isBare s
    simp only [List.length_cons]
    omega

end Transducer.Json
