import Transducer.Demo.Counter
import Transducer.Demo.Lexer

/-!
# The demonstration programs

* `main`: print what the programs named on the command line print.
-/

/-- What the program of a name prints. -/
def Transducer.Demo.linesOf? : String → Option (List String)
  | "counter" => some Counter.lines
  | "lexer" => some Lexer.lines
  | _ => none

/-- Print what each of the named programs prints. -/
def main (names : List String) : IO UInt32 := do
  for name in names do
    match Transducer.Demo.linesOf? name with
    | some lines => lines.forM fun line => IO.println line
    | none =>
      IO.eprintln ("no program is called " ++ name)
      return 2
  return 0
