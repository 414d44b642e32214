import Transducer.Text.Combining
import Transducer.Text.Ignorable
import Transducer.Text.Printable

/-!
# Quoted text

Text between two quote marks, written so that every character can be told apart in a report.

* `letter?`: the characters that are written as a backslash and a letter.
* `escape`: the written form of one character.
* `quote`: the written form of a text.
-/

namespace Transducer.Text

/-- The letter that stands for a character after a backslash. -/
def letter? (mark c : Char) : Option Char :=
  if c = '\x00' then some '0'
  else if c = '\t' then some 't'
  else if c = '\r' then some 'r'
  else if c = '\n' then some 'n'
  else if c = '\\' ∨ c = mark then some c
  else none

/-- The code point between braces, in lower-case hexadecimal without leading zeros. -/
def codePoint (c : Char) : List Char :=
  '\\' :: 'u' :: '\x7b' :: (Nat.toDigits 16 c.toNat ++ ['\x7d'])

/-- A character between quote marks: by its letter if it has one, by itself if a reader can see it
there as a character of its own, and by its code point otherwise. -/
def escape (mark c : Char) : List Char :=
  match letter? mark c with
  | some l => ['\\', l]
  | none => if isPrintable c && !isCombining c && !isIgnorable c then [c] else codePoint c

/-- A text between two quote marks. -/
def quote (mark : Char) (s : List Char) : List Char :=
  mark :: (s.flatMap (escape mark) ++ [mark])

end Transducer.Text
