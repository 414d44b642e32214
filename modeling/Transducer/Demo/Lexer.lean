import Transducer.Run
import Transducer.Text.Blank

/-!
# A lexer

Text is cut into words, numbers and punctuation marks. White space ends a word or a number and is
left out; so does a mark, which is then given too.

* `State`, `Lexeme`, `Draft`: the states, the outputs, and the text that is being read.
* `CharClass`: the patterns, each a class of characters.
* `lexer`: the machine.
* `lexemes`: the outputs for a text.
* `lines`: what the program prints.
-/

namespace Transducer.Demo.Lexer

/-- What is being read. -/
inductive State where
  | idle
  | word
  | number
deriving DecidableEq

/-- What a text is cut into. -/
inductive Lexeme where
  | word (text : List Char)
  | number (text : List Char)
  | punct (mark : Char)
deriving DecidableEq

/-- The text of the word or number that is being read. -/
structure Draft where
  text : List Char := []
  kind : Option State := none
deriving DecidableEq

/-- A class of characters; letters and digits are those of ASCII. -/
inductive CharClass where
  | letter
  | digit
  | letterOrDigit
  | blank
  | mark
deriving DecidableEq

/-- The punctuation marks. -/
def marks : List Char := ['(', ')', ',', ';', '=', '+']

/-- The character is of the class. -/
def CharClass.contains : CharClass → Char → Bool
  | letter, c => c.isAlpha
  | digit, c => c.isDigit
  | letterOrDigit, c => c.isAlphanum
  | blank, c => Text.isBlank c
  | mark, c => marks.contains c

instance : Pattern CharClass Char := ⟨CharClass.contains⟩

instance : Literal State :=
  ⟨fun s => match s with
    | .idle => "Idle"
    | .word => "Word"
    | .number => "Number"⟩

instance : Literal Lexeme :=
  ⟨fun l => match l with
    | .word s => Text.call "Word" [literal (String.ofList s)]
    | .number s => Text.call "Number" [literal (String.ofList s)]
    | .punct c => Text.call "Punct" [literal c]⟩

/-! ## The machine -/

/-- An unexpected character in a state. -/
abbrev Unexpected := UnexpectedToken State Char

/-- The draft as a lexeme, if there is one, and an empty draft. -/
def Draft.flush (d : Draft) : Option Lexeme × Draft :=
  match d.kind with
  | some .word => (some (.word d.text), {})
  | some .number => (some (.number d.text), {})
  | _ => (none, {})

/-- Give the draft as a lexeme, if there is one. -/
def flush : Action Draft Lexeme Unexpected Unit := do
  match ← Action.modifyGet Draft.flush with
  | some l => Action.emit l
  | none => pure ()

/-- What a transition does. -/
abbrev Step := Reaction State Char Draft Lexeme Unexpected

/-- Begin a draft of the kind of the state that is entered. -/
def opens : Step := fun c _ target =>
  Action.modify fun d => { text := d.text ++ [c], kind := some target }

/-- Put the character behind the draft. -/
def grows : Step := fun c _ _ => Action.modify fun d => { d with text := d.text ++ [c] }

/-- Give the mark. -/
def gives : Step := fun c _ _ => Action.emit (.punct c)

/-- Give the draft. -/
def closes : Step := fun _ _ _ => flush

/-- Give the draft and then the mark. -/
def closesAndGives : Step := fun c _ _ => do
  flush
  Action.emit (.punct c)

/-- A rule for a class of characters. -/
def rule (source : State) (c : CharClass) (target : State) (step : Option Step) :
    State × Rule CharClass State Char Step :=
  (source, ⟨.pattern c, target, step⟩)

/-- The rules, in order. -/
def rules : List (State × Rule CharClass State Char Step) :=
  [rule .idle .letter .word (some opens), rule .idle .digit .number (some opens),
   rule .idle .blank .idle none, rule .idle .mark .idle (some gives),
   rule .word .letterOrDigit .word (some grows), rule .number .digit .number (some grows),
   rule .word .blank .idle (some closes), rule .number .blank .idle (some closes),
   rule .word .mark .idle (some closesAndGives), rule .number .mark .idle (some closesAndGives)]

/-- The machine. It begins idle, and at its end gives what is left of the draft. -/
def lexer : Machine CharClass State Char Draft Lexeme Unexpected Unit where
  initial := .idle
  onStart := none
  onFinish := some flush
  table := .ofList rules

/-! ## Its outputs -/

/-- A run of the lexer. -/
abbrev Scanning := Run CharClass State Char Draft Lexeme Unexpected Unit

/-- An output of the lexer, or the failure that ends its run. -/
abbrev Output := Except (Failure State Char Unexpected) Lexeme

/-- The run over a text. -/
def scanning (text : List Char) : Scanning := lexer.run {} (.ofList text)

/-- The outputs of a run over a text, at most so many, and the run after them. A run has one step
for each character and two more, and no step gives more than two outputs. -/
def outputs (text : List Char) (limit : Nat) : List Output × Scanning :=
  (scanning text).take (text.length + 3) limit

/-- The outputs for a text. -/
def lexemes (text : List Char) : List Output := (outputs text (2 * text.length + 3)).1

/-! ## The program -/

/-- An output as it is listed. -/
def listed : Output → String
  | .ok l => "  " ++ literal l
  | .error e => "  error: " ++ (e.into id).message

/-- An output as it is shown. -/
def shown (o : Output) : String := literal (o.mapError (·.into id))

/-- What the program prints: the lexemes of a line, the first ones of a text without end, and those
before a character that is of no class. -/
def lines : List String :=
  let source := "total = add(12, x1);"
  let endless := ((lexer.run {} (.cycle "ab 12 ".toList)).take 100 3).1
  ["=== Lexer Example ===", "", "Source: " ++ source] ++ (lexemes source.toList).map listed ++
    ["", "First lexemes of endless input: " ++ Text.listing (endless.map shown),
     "With an unknown character: " ++ Text.listing ((lexemes "x $".toList).map shown),
     "", "=== Example Complete ==="]

end Transducer.Demo.Lexer
