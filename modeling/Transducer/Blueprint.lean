import Transducer.Declaration
import Transducer.Journal
import Transducer.Machine

/-!
# Declaring machines

A machine is declared item by item and then built. Rules keep the order of their declaration.

* `Item`: one thing that is said of a machine.
* `Blueprint`: what has been said.
* `Blueprint.ofItems`: what a list of items says, up to the first flawed transition.
* `Table.duplicates`: the labels that a state has more than once.
* `Blueprint.build`, `Machine.ofItems`: the machine.
-/

namespace Transducer

/-- One thing that is said of a machine. -/
inductive Item (π σ τ κ ω ε φ : Type) where
  /-- Every run begins in the state. -/
  | initial (state : σ)
  | onStart (action : Action κ ω ε Unit)
  | onFinish (action : Action κ ω ε φ)
  /-- It has the transitions that the clauses declare. -/
  | transition (clauses : List (Clause π σ τ (Reaction σ τ κ ω ε)))
  /-- The state has the rule. -/
  | rule (source : σ) (rule : Rule π σ τ (Reaction σ τ κ ω ε))
  /-- No state may have two equal labels. -/
  | distinctLabels

/-- What has been said of a machine. -/
structure Blueprint (π σ τ κ ω ε φ : Type) where
  initial : Option σ
  onStart : Option (Action κ ω ε Unit)
  onFinish : Option (Action κ ω ε φ)
  /-- The rules with the states they leave, in the order of their declaration. -/
  rules : List (σ × Rule π σ τ (Reaction σ τ κ ω ε))
  /-- No state may have two equal labels. -/
  distinct : Bool

/-- Why a list of items gives no machine. -/
structure Rejection where
  /-- The place of the item at fault, if a single one is. -/
  place : Option Nat
  error : BuildError

/-! ## Repeated labels -/

section

variable {π σ τ α : Type} [BEq τ] [DecidableEq π] [Literal σ] [Literal τ]

/-- The labels equal to that of an earlier rule, once for each rule that has one. -/
def repeatedLabels (earlier : List (Rule π σ τ α)) : List (Rule π σ τ α) → List (Label π τ)
  | [] => []
  | r :: rest =>
    let more := repeatedLabels (earlier ++ [r]) rest
    if earlier.any fun e => e.label == r.label then r.label :: more else more

/-- The labels that a state has more than once, state by state in the order in which states are
shown. -/
def Table.duplicates (t : Table π σ τ α) : List DuplicateLabel :=
  let groups := t.groups.map fun g => (literal g.1, repeatedLabels [] g.2)
  (groups.mergeSort fun g h => Ordered.le g.1 h.1).flatMap fun g =>
    g.2.map fun l => ⟨g.1, literal l⟩

end

namespace Blueprint

variable {π σ τ κ ω ε φ : Type}

/-- Nothing has been said yet. -/
def empty : Blueprint π σ τ κ ω ε φ := ⟨none, none, none, [], false⟩

/-- One thing more is said; a flawed transition is refused. -/
def say (b : Blueprint π σ τ κ ω ε φ) :
    Item π σ τ κ ω ε φ → Except BuildError (Blueprint π σ τ κ ω ε φ)
  | .initial state => .ok { b with initial := some state }
  | .onStart action => .ok { b with onStart := some action }
  | .onFinish action => .ok { b with onFinish := some action }
  | .transition clauses =>
    (Declaration.ofClauses clauses).build.map fun rules => { b with rules := b.rules ++ rules }
  | .rule source rule => .ok { b with rules := b.rules ++ [(source, rule)] }
  | .distinctLabels => .ok { b with distinct := true }

/-- What the items say besides, the first of them having a place. -/
def sayAll (b : Blueprint π σ τ κ ω ε φ) (place : Nat) :
    List (Item π σ τ κ ω ε φ) → Except Rejection (Blueprint π σ τ κ ω ε φ)
  | [] => .ok b
  | item :: rest =>
    match b.say item with
    | .ok b' => sayAll b' (place + 1) rest
    | .error e => .error ⟨some place, e⟩

/-- What a list of items says; what stands behind a flawed transition is not looked at. -/
def ofItems (items : List (Item π σ τ κ ω ε φ)) : Except Rejection (Blueprint π σ τ κ ω ε φ) :=
  empty.sayAll 0 items

variable [DecidableEq σ] [BEq τ] [DecidableEq π] [Literal σ] [Literal τ]

/-- The machine. -/
def build (b : Blueprint π σ τ κ ω ε φ) : Except BuildError (Machine π σ τ κ ω ε φ) :=
  match b.initial with
  | none => .error .missingInitial
  | some initial =>
    let table := Table.ofList b.rules
    let machine : Machine π σ τ κ ω ε φ := ⟨initial, b.onStart, b.onFinish, table⟩
    if b.distinct then
      match table.duplicates with
      | [] => .ok machine
      | ds => .error (.duplicateLabels ds)
    else .ok machine

end Blueprint

/-- The machine that a list of items declares. -/
def Machine.ofItems {π σ τ κ ω ε φ : Type} [DecidableEq σ] [BEq τ] [DecidableEq π] [Literal σ]
    [Literal τ] (items : List (Item π σ τ κ ω ε φ)) :
    Except Rejection (Machine π σ τ κ ω ε φ) :=
  match Blueprint.ofItems items with
  | .error r => .error r
  | .ok b => b.build.mapError (⟨none, ·⟩)

/-- The notice of a machine that has been built. -/
def Machine.builtNotice {π σ τ κ ω ε φ : Type} [Literal σ] (m : Machine π σ τ κ ω ε φ) : Notice :=
  ⟨.debug, "mealy machine built",
    [("initial", .ofString (literal m.initial)), ("states", .int m.table.size)]⟩

end Transducer
