import Transducer.Declaration

/-!
# What is declared

What the clauses of a transition say, read off the list of them: the states of all clauses count, in
order, and of the target, the label and the action the last one.

* `lastOf`: what the last element to say something says.
* `Clause.declared`: the rules that a list of clauses declares.
* `Declaration.ofClauses_eq`: **the declaration of a list of clauses.**
* `Declaration.eq_declared_of_build`: **the rules it is built to are those that are declared.**
* `Clause.subject`, `Clause.Shuffles`: what a clause speaks of, and lists of clauses in which those of
  one subject come in the same order.
* `Declaration.build_by_subject`: **what clauses are built to, and that clauses of different subjects
  may come in any order.**
-/

namespace Transducer

variable {π σ τ α β γ : Type}

/-- What the last element of the list to say something says. -/
def lastOf (f : α → Option β) (l : List α) : Option β := (l.filterMap f).getLast?

@[simp] theorem lastOf_nil (f : α → Option β) : lastOf f [] = none := rfl

theorem lastOf_cons (f : α → Option β) (a : α) (l : List α) :
    lastOf f (a :: l) = (lastOf f l).or (f a) := by
  rw [lastOf, lastOf, List.filterMap_cons]
  cases f a with
  | none => rw [Option.or_none]
  | some b =>
    rw [List.getLast?_cons]
    cases (l.filterMap f).getLast? <;> rfl

theorem lastOf_append {f : α → Option β} {more : List α} (h : ∀ a ∈ more, f a = none) (l : List α) :
    lastOf f (l ++ more) = lastOf f l := by
  rw [lastOf, List.filterMap_append, List.filterMap_eq_nil_iff.2 h, List.append_nil, lastOf]

theorem lastOf_filter {f : α → Option β} {p : α → Bool} (h : ∀ a, p a = false → f a = none)
    (l : List α) : lastOf f (l.filter p) = lastOf f l := by
  have hf : (fun a => if p a then f a else none) = f := by
    funext a
    cases ha : p a with
    | true => rw [if_pos rfl]
    | false => rw [if_neg Bool.false_ne_true, h a ha]
  rw [lastOf, List.filterMap_filter, hf, lastOf]

theorem exists_lastOf {f : α → Option β} {l : List α} {a : α} {b : β} (ha : a ∈ l)
    (hb : f a = some b) : ∃ b', lastOf f l = some b' := by
  have hm : b ∈ l.filterMap f := List.mem_filterMap.2 ⟨a, ha, hb⟩
  exact ⟨_, List.getLast?_eq_some_getLast (List.ne_nil_of_mem hm)⟩

namespace Clause

/-- The states that the clause says are left for the target. -/
def leaves : Clause π σ τ α → List σ
  | .sources states => states
  | _ => []

/-- The states that the clause says are left and come back to. -/
def returns : Clause π σ τ α → List σ
  | .loops states => states
  | _ => []

/-- The target that the clause names. -/
def target? : Clause π σ τ α → Option σ
  | .target state => some state
  | _ => none

/-- The label that the clause gives. -/
def label? : Clause π σ τ α → Option (Label π τ)
  | .label l => some l
  | _ => none

/-- The action that the clause gives. -/
def action? : Clause π σ τ α → Option α
  | .action a => some a
  | _ => none

/-- The rule that the clauses declare for a state that is led to. -/
def rule (clauses : List (Clause π σ τ α)) (target : σ) : Rule π σ τ α :=
  ⟨(lastOf label? clauses).getD .any, target, lastOf action? clauses⟩

/-- The rules that the clauses declare, with the states they leave: those for the target, then those
that come back. -/
def declared (clauses : List (Clause π σ τ α)) : List (σ × Rule π σ τ α) :=
  ((lastOf target? clauses).toList.flatMap fun s' =>
    (clauses.flatMap leaves).map fun s => (s, rule clauses s')) ++
  (clauses.flatMap returns).map fun s => (s, rule clauses s)

/-- What a clause speaks of. -/
inductive Subject where
  | sources
  | loops
  | target
  | label
  | action
deriving DecidableEq

/-- What the clause speaks of. -/
def subject : Clause π σ τ α → Subject
  | .sources _ => .sources
  | .loops _ => .loops
  | .target _ => .target
  | .label _ => .label
  | .action _ => .action

/-- The second list has the clauses of each subject in the order in which the first one has them,
however those of different subjects come between each other. -/
def Shuffles (clauses clauses' : List (Clause π σ τ α)) : Prop :=
  ∀ k : Subject, clauses'.filter (fun c => c.subject = k) = clauses.filter fun c => c.subject = k

namespace Shuffles

variable {clauses clauses' : List (Clause π σ τ α)} (h : Shuffles clauses clauses') {k : Subject}

include h

theorem flatMap_eq {f : Clause π σ τ α → List β} (hf : ∀ c, c.subject ≠ k → f c = []) :
    clauses'.flatMap f = clauses.flatMap f := by
  have hk : ∀ l : List (Clause π σ τ α),
      (l.filter fun c => c.subject = k).flatMap f = l.flatMap f := by
    intro l
    induction l with
    | nil => rfl
    | cons c rest ih =>
      by_cases hc : c.subject = k
      · simp [hc, ih]
      · simp [hc, ih, hf c hc]
  rw [← hk, h k, hk]

theorem lastOf_eq {f : Clause π σ τ α → Option β} (hf : ∀ c, c.subject ≠ k → f c = none) :
    lastOf f clauses' = lastOf f clauses := by
  have hk : ∀ l, lastOf f (l.filter fun c => c.subject = k) = lastOf f l :=
    lastOf_filter fun c hc => hf c (of_decide_eq_false hc)
  rw [← hk, h k, hk]

end Shuffles

end Clause

namespace Declaration

theorem foldl_say (d : Declaration π σ τ α) (clauses : List (Clause π σ τ α)) :
    clauses.foldl say d =
      ⟨d.sources ++ clauses.flatMap Clause.leaves, d.loops ++ clauses.flatMap Clause.returns,
        (lastOf Clause.target? clauses).or d.target, (lastOf Clause.label? clauses).getD d.label,
        (lastOf Clause.action? clauses).or d.action⟩ := by
  induction clauses generalizing d with
  | nil => simp
  | cons clause rest ih =>
    rw [List.foldl_cons, ih]
    simp only [List.flatMap_cons, lastOf_cons]
    cases clause <;>
      simp [say, Clause.leaves, Clause.returns, Clause.target?, Clause.label?, Clause.action?]

theorem ofClauses_eq (clauses : List (Clause π σ τ α)) :
    ofClauses clauses =
      ⟨clauses.flatMap Clause.leaves, clauses.flatMap Clause.returns, lastOf Clause.target? clauses,
        (lastOf Clause.label? clauses).getD .any, lastOf Clause.action? clauses⟩ := by
  rw [ofClauses, foldl_say]
  simp [empty]

section

variable (d : Declaration π σ τ α)

theorem build_eq_missingSource_iff :
    d.build = .error .missingSource ↔ d.sources = [] ∧ (d.loops = [] ∨ d.target.isSome) := by
  unfold build
  rcases hs : d.sources with _ | ⟨s, rest⟩ <;> rcases ht : d.target with _ | s'
  · by_cases hl : d.loops = [] <;> simp [hl]
  all_goals simp

theorem build_eq_missingTarget_iff :
    d.build = .error .missingTarget ↔ d.sources ≠ [] ∧ d.target = none := by
  unfold build
  rcases hs : d.sources with _ | ⟨s, rest⟩ <;> rcases ht : d.target with _ | s'
  · by_cases hl : d.loops = [] <;> simp [hl]
  all_goals simp

variable {d}

theorem build_of_loops (hs : d.sources = []) (ht : d.target = none) (hl : d.loops ≠ []) :
    d.build = .ok (d.loops.map fun s => (s, d.rule s)) := by
  simp [build, hs, ht, hl]

theorem build_of_target {s' : σ} (hs : d.sources ≠ []) (ht : d.target = some s') :
    d.build = .ok ((d.sources.map fun s => (s, d.rule s')) ++ d.loops.map fun s => (s, d.rule s)) := by
  obtain ⟨s, rest, hs⟩ := List.exists_cons_of_ne_nil hs
  simp [build, hs, ht]

theorem build_eq_ok {rules : List (σ × Rule π σ τ α)} (h : d.build = .ok rules) :
    (d.sources = [] ∧ d.target = none ∧ d.loops ≠ [] ∧
      rules = d.loops.map fun s => (s, d.rule s)) ∨
    ∃ s', d.sources ≠ [] ∧ d.target = some s' ∧
      rules = (d.sources.map fun s => (s, d.rule s')) ++ d.loops.map fun s => (s, d.rule s) := by
  by_cases hs : d.sources = []
  · cases ht : d.target with
    | none =>
      have hl : d.loops ≠ [] := by
        intro hl
        rw [d.build_eq_missingSource_iff.2 ⟨hs, .inl hl⟩] at h
        cases h
      rw [build_of_loops hs ht hl] at h
      exact .inl ⟨hs, rfl, hl, (Except.ok.inj h).symm⟩
    | some s' =>
      rw [d.build_eq_missingSource_iff.2 ⟨hs, .inr (by simp [ht])⟩] at h
      cases h
  · cases ht : d.target with
    | none =>
      rw [d.build_eq_missingTarget_iff.2 ⟨hs, ht⟩] at h
      cases h
    | some s' =>
      rw [build_of_target hs ht] at h
      exact .inr ⟨s', hs, rfl, (Except.ok.inj h).symm⟩

end

/-- The rules that clauses are built to are those that they declare. -/
theorem eq_declared_of_build {clauses : List (Clause π σ τ α)} {rules : List (σ × Rule π σ τ α)}
    (h : (ofClauses clauses).build = .ok rules) : rules = Clause.declared clauses := by
  rw [ofClauses_eq] at h
  unfold Clause.declared
  rcases build_eq_ok h with ⟨-, ht, -, rfl⟩ | ⟨s', -, ht, rfl⟩
  · rw [show lastOf Clause.target? clauses = none from ht]
    rfl
  · rw [show lastOf Clause.target? clauses = some s' from ht, Option.toList_some,
      List.flatMap_singleton]
    rfl

theorem ofClauses_shuffled {clauses clauses' : List (Clause π σ τ α)}
    (h : Clause.Shuffles clauses clauses') : ofClauses clauses' = ofClauses clauses := by
  have hleaves := h.flatMap_eq (f := Clause.leaves) (k := .sources) fun c hc => by
    cases c with
    | sources => exact absurd rfl hc
    | _ => rfl
  have hreturns := h.flatMap_eq (f := Clause.returns) (k := .loops) fun c hc => by
    cases c with
    | loops => exact absurd rfl hc
    | _ => rfl
  have htarget := h.lastOf_eq (f := Clause.target?) (k := .target) fun c hc => by
    cases c with
    | target => exact absurd rfl hc
    | _ => rfl
  have hlabel := h.lastOf_eq (f := Clause.label?) (k := .label) fun c hc => by
    cases c with
    | label => exact absurd rfl hc
    | _ => rfl
  have haction := h.lastOf_eq (f := Clause.action?) (k := .action) fun c hc => by
    cases c with
    | action => exact absurd rfl hc
    | _ => rfl
  rw [ofClauses_eq, ofClauses_eq, hleaves, hreturns, htarget, hlabel, haction]

/-- **What clauses are built to.** Clauses that name no state to leave for a target lack a source if
they name a target, or no state to come back to; those that name one lack a target if they name none.
Else they give one rule each time a state is named, in order: the rules for the target, and behind
them those that come back. All have the label and the action given last, and clauses of different
subjects may come in any order. -/
theorem build_by_subject (clauses : List (Clause π σ τ α)) :
    let states := clauses.flatMap Clause.leaves
    let loops := clauses.flatMap Clause.returns
    let target := lastOf Clause.target? clauses
    let rule (s : σ) : Rule π σ τ α :=
      ⟨(lastOf Clause.label? clauses).getD .any, s, lastOf Clause.action? clauses⟩
    let built := (ofClauses clauses).build
    (built = .error .missingSource ↔ states = [] ∧ (loops = [] ∨ target.isSome)) ∧
    (built = .error .missingTarget ↔ states ≠ [] ∧ target = none) ∧
    (states = [] → target = none → loops ≠ [] → built = .ok (loops.map fun s => (s, rule s))) ∧
    (∀ s', states ≠ [] → target = some s' →
      built = .ok ((states.map fun s => (s, rule s')) ++ loops.map fun s => (s, rule s))) ∧
    ∀ clauses', Clause.Shuffles clauses clauses' → (ofClauses clauses').build = built := by
  intro states loops target rule built
  have hd : ofClauses clauses = ⟨states, loops, target, _, _⟩ := ofClauses_eq clauses
  have hbuilt : built = Declaration.build ⟨states, loops, target, _, _⟩ := congrArg build hd
  refine ⟨?_, ?_, ?_, ?_, fun clauses' h => congrArg build (ofClauses_shuffled h)⟩
  all_goals rw [hbuilt]
  · exact build_eq_missingSource_iff _
  · exact build_eq_missingTarget_iff _
  · exact fun hs ht hl => build_of_loops hs ht hl
  · exact fun s' hs ht => build_of_target hs ht

/-- A state named three times has three rules, of two targets the last one counts, and the states to
leave come first wherever they are named. -/
theorem build_by_subject_shuffled :
    let clauses : List (Clause Empty Nat Char Nat) :=
      [.loops [5], .target 8, .sources [3], .action 1, .target 9, .sources [4, 3], .loops [3]]
    let clauses' : List (Clause Empty Nat Char Nat) :=
      [.sources [3], .target 8, .action 1, .sources [4, 3], .loops [5], .target 9, .loops [3]]
    let rule (s : Nat) : Rule Empty Nat Char Nat := ⟨.any, s, some 1⟩
    let rules := [(3, rule 9), (4, rule 9), (3, rule 9), (5, rule 5), (3, rule 3)]
    (ofClauses clauses).build = .ok rules ∧ (ofClauses clauses').build = .ok rules ∧
      (ofClauses (clauses.filter fun c => c.subject = .loops)).build =
        .ok [(5, ⟨.any, 5, none⟩), (3, ⟨.any, 3, none⟩)] := by
  intro clauses clauses' rule rules
  obtain ⟨-, -, -, htarget, hshuffled⟩ := build_by_subject clauses
  have hbuilt : (ofClauses clauses).build = .ok rules := htarget 9 (List.cons_ne_nil _ _) rfl
  have hs : Clause.Shuffles clauses clauses' := fun k => by cases k <;> rfl
  obtain ⟨-, -, hloops, -, -⟩ := build_by_subject (clauses.filter fun c => c.subject = .loops)
  exact ⟨hbuilt, (hshuffled clauses' hs).trans hbuilt, hloops rfl rfl (List.cons_ne_nil _ _)⟩

end Declaration

end Transducer
