import Transducer.Label

/-!
# Tables of rules

The rules of every state, in the order of their declaration.

* `Rule`: a label, the state to move to, and an optional action.
* `Table`: the rules, grouped by the state they leave.
* `Table.insert`: one rule more, behind the other rules of its state.
* `Table.scan`: the labels of a state's rules put to a token in order, up to the first that is for
  it.
* `Table.lookup`: the rule found.
* `Table.rules_ofList`: **the rules of a state are those that were inserted for it, in order.**
* `Table.lookup_eq_find?`: **the rule found is the first one of its state that is for the token.**
-/

namespace Transducer

/-- Where a token leads. -/
structure Rule (π σ τ α : Type) where
  /-- The tokens that the rule is for. -/
  label : Label π τ
  /-- The state to move to. -/
  target : σ
  /-- What to do after the move. -/
  action : Option α

/-- The states that have rules, each with its rules in the order of their declaration. -/
structure Table (π σ τ α : Type) where
  /-- One group for every state that has rules, in the order in which the states first came. -/
  groups : List (σ × List (Rule π σ τ α))

variable {π σ τ α : Type}

/-- What putting the labels of some rules to a token gave. -/
structure Scan (π σ τ α : Type) where
  /-- The labels that were put to the token, in order. -/
  tested : List (Label π τ)
  /-- The rule whose label is for it. -/
  found : Option (Rule π σ τ α)

namespace Rule

/-- The rule is for the token. -/
def admits [BEq τ] [Pattern π τ] (r : Rule π σ τ α) (t : τ) : Bool := r.label.admits t

instance [Literal σ] [Literal τ] : Literal (Rule π σ τ α) :=
  ⟨fun r => Text.record "Rule"
    [("label", literal r.label), ("target", literal r.target),
      ("action", literal r.action.isSome)]⟩

end Rule

/-- The labels put to the token one after the other, up to the first that is for it. -/
def Scan.ofRules [BEq τ] [Pattern π τ] : List (Rule π σ τ α) → τ → Scan π σ τ α
  | [], _ => ⟨[], none⟩
  | r :: rest, t =>
    if r.admits t then ⟨[r.label], some r⟩
    else
      let s := ofRules rest t
      ⟨r.label :: s.tested, s.found⟩

namespace Table

/-- No rule. -/
def empty : Table π σ τ α := ⟨[]⟩

section

variable [DecidableEq σ]

/-- The groups with a rule put behind the others of its state. -/
def insertGroup (source : σ) (r : Rule π σ τ α) :
    List (σ × List (Rule π σ τ α)) → List (σ × List (Rule π σ τ α))
  | [] => [(source, [r])]
  | g :: rest =>
    if g.1 = source then (g.1, g.2 ++ [r]) :: rest else g :: insertGroup source r rest

/-- The table with a rule put behind the others of its state. -/
def insert (t : Table π σ τ α) (source : σ) (r : Rule π σ τ α) : Table π σ τ α :=
  ⟨insertGroup source r t.groups⟩

/-- The table of a list of states with a rule each. -/
def ofList (rules : List (σ × Rule π σ τ α)) : Table π σ τ α :=
  rules.foldl (fun t r => t.insert r.1 r.2) empty

/-- The rules of a state, in the order of their declaration. -/
def rules (t : Table π σ τ α) (s : σ) : List (Rule π σ τ α) := (t.groups.lookup s).getD []

/-- The labels of the rules of a state put to a token. -/
def scan [BEq τ] [Pattern π τ] (t : Table π σ τ α) (s : σ) (token : τ) : Scan π σ τ α :=
  .ofRules (t.rules s) token

/-- The first rule of a state that is for a token. -/
def lookup [BEq τ] [Pattern π τ] (t : Table π σ τ α) (s : σ) (token : τ) :
    Option (Rule π σ τ α) :=
  (t.scan s token).found

end

/-- How many states have rules. -/
def size (t : Table π σ τ α) : Nat := t.groups.length

/-- No state has rules. -/
def isEmpty (t : Table π σ τ α) : Bool := t.groups.isEmpty

instance [Literal σ] [Literal τ] : Literal (Table π σ τ α) :=
  ⟨fun t => Text.mapping (t.groups.map fun g => (literal g.1, literal g.2))⟩

end Table

/-! ## The rules of a state -/

namespace Table

variable [DecidableEq σ]

@[simp] theorem rules_empty (s : σ) : (empty : Table π σ τ α).rules s = [] := rfl

theorem lookup_insertGroup (source s : σ) (r : Rule π σ τ α)
    (groups : List (σ × List (Rule π σ τ α))) :
    ((insertGroup source r groups).lookup s).getD [] =
      (groups.lookup s).getD [] ++ if source = s then [r] else [] := by
  induction groups with
  | nil =>
    by_cases h : source = s
    · subst h
      simp [insertGroup]
    · have hb : (s == source) = false := by simpa using Ne.symm h
      simp [insertGroup, List.lookup_cons, h, hb]
  | cons g rest ih =>
    obtain ⟨k, rs⟩ := g
    rw [insertGroup]
    by_cases hk : k = source
    · subst hk
      rw [if_pos rfl]
      by_cases h : k = s
      · subst h
        simp
      · have hb : (s == k) = false := by simpa using Ne.symm h
        simp [List.lookup_cons, h, hb]
    · rw [if_neg hk]
      by_cases h : k = s
      · subst h
        simp [Ne.symm hk]
      · have hb : (s == k) = false := by simpa using Ne.symm h
        simpa [List.lookup_cons, hb] using ih

theorem rules_insert (t : Table π σ τ α) (source s : σ) (r : Rule π σ τ α) :
    (t.insert source r).rules s = t.rules s ++ if source = s then [r] else [] :=
  lookup_insertGroup ..

theorem rules_foldl_insert (rules : List (σ × Rule π σ τ α)) (t : Table π σ τ α) (s : σ) :
    (rules.foldl (fun t r => t.insert r.1 r.2) t).rules s =
      t.rules s ++ (rules.filter fun r => r.1 = s).map (·.2) := by
  induction rules generalizing t with
  | nil => simp
  | cons r rest ih =>
    rw [List.foldl_cons, ih, rules_insert, List.append_assoc]
    by_cases h : r.1 = s <;> simp [h]

/-- The rules of a state are those that the list has for it, in the order of the list. -/
theorem rules_ofList (rules : List (σ × Rule π σ τ α)) (s : σ) :
    (ofList rules).rules s = (rules.filter fun r => r.1 = s).map (·.2) := by
  rw [ofList, rules_foldl_insert, rules_empty, List.nil_append]

end Table

/-! ## The rule found -/

section

variable [BEq τ] [Pattern π τ]

theorem Scan.found_ofRules (rules : List (Rule π σ τ α)) (t : τ) :
    (Scan.ofRules rules t).found = rules.find? (·.admits t) := by
  induction rules with
  | nil => rfl
  | cons r rest ih =>
    rw [Scan.ofRules, List.find?_cons]
    cases h : r.admits t <;> simp [ih]

/-- The rule found is the first one of the state that is for the token. -/
theorem Table.lookup_eq_find? [DecidableEq σ] (t : Table π σ τ α) (s : σ) (token : τ) :
    t.lookup s token = (t.rules s).find? (·.admits token) :=
  Scan.found_ofRules ..

end

end Transducer
