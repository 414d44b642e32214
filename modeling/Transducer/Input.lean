/-!
# Inputs

A source of tokens, given by its answers: each time it is asked it gives a token or says that it is
at its end. Nothing keeps it from giving tokens again after that.

* `Input`: the answer to each question.
* `Input.ofList`, `Input.ofSegments`, `Input.cycle`: tokens that end, that end more than once, and
  that never end.
* `Input.front`: the tokens before the first end.
-/

namespace Transducer

/-- A source of tokens: the answer to the first question, to the second one, and so on. -/
def Input (τ : Type) := Nat → Option τ

namespace Input

variable {τ : Type}

/-- The tokens of a list, then the end. -/
def ofList (tokens : List τ) : Input τ := fun i => tokens[i]?

/-- The tokens of each list with the end behind it; behind the last list the end for good. -/
def ofSegments (segments : List (List τ)) : Input τ :=
  fun i => ((segments.flatMap fun s => s.map some ++ [none])[i]?).join

/-- The tokens of a list over and over. -/
def cycle (tokens : List τ) : Input τ := fun i => tokens[i % tokens.length]?

/-- The tokens from a question on, before the next end and among the answers to so many questions. -/
def tokensFrom (input : Input τ) (i : Nat) : Nat → List τ
  | 0 => []
  | n + 1 =>
    match input i with
    | none => []
    | some t => t :: input.tokensFrom (i + 1) n

/-- The tokens before the first end, among the answers to the first questions. -/
def front (input : Input τ) (n : Nat) : List τ := input.tokensFrom 0 n

/-- How many of the answers to the first questions are tokens. -/
def given (input : Input τ) (n : Nat) : Nat := (List.range n).countP fun i => (input i).isSome

/-! ## Tokens that end -/

@[simp] theorem ofList_apply (tokens : List τ) (i : Nat) : ofList tokens i = tokens[i]? := rfl

theorem tokensFrom_ofList (tokens : List τ) (i n : Nat) :
    (ofList tokens).tokensFrom i n = (tokens.drop i).take n := by
  induction n generalizing i with
  | zero => simp [tokensFrom]
  | succ n ih =>
    rw [tokensFrom, ofList_apply]
    cases h : tokens[i]? with
    | none =>
      rw [List.getElem?_eq_none_iff] at h
      simp [List.drop_eq_nil_of_le h]
    | some t =>
      obtain ⟨hi, rfl⟩ := List.getElem?_eq_some_iff.1 h
      rw [List.drop_eq_getElem_cons hi, List.take_succ_cons, ih]

theorem front_ofList (tokens : List τ) (n : Nat) : (ofList tokens).front n = tokens.take n :=
  tokensFrom_ofList tokens 0 n

end Input

end Transducer
