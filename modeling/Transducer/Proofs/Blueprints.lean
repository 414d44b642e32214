import Transducer.Blueprint
import Transducer.Proofs.Courses
import Transducer.Proofs.Declarations
import Transducer.Proofs.Tables

/-!
# Declared machines

What the items of a machine say, read off the list of them, and how the machine they are built to
runs.

* `Item.declared`: the rules that an item declares, with the states they leave.
* `Item.plan`: what a list of items says the machine does. The rule to follow is the first one of
  the flat list that leaves the state and is for the token.
* `Blueprint.sayAll_ok`: **what a list of items says, if no transition is flawed.**
* `Blueprint.sayAll_of_valid`, `Blueprint.sayAll_relaxed`, `Blueprint.sayAll_distinct`: a list of
  items without a flawed transition is not refused, and what it says of the labels is said apart.
* `Machine.ofItems_ok`: what a machine is that has been built.
* `Machine.plan_ofItems`: **a machine that has been built does what its items say.**
* `Machine.ofItems_runs`: **its runs and executions take the course of this plan.**
-/

namespace Transducer

variable {π σ τ κ ω ε φ : Type}

namespace Item

/-- The first state that the item names. -/
def initial? : Item π σ τ κ ω ε φ → Option σ
  | .initial s => some s
  | _ => none

/-- The action at the start that the item gives. -/
def onStart? : Item π σ τ κ ω ε φ → Option (Action κ ω ε Unit)
  | .onStart a => some a
  | _ => none

/-- The action at the end that the item gives. -/
def onFinish? : Item π σ τ κ ω ε φ → Option (Action κ ω ε φ)
  | .onFinish a => some a
  | _ => none

/-- The rules that the item declares, with the states they leave. -/
def declared : Item π σ τ κ ω ε φ → List (σ × Rule π σ τ (Reaction σ τ κ ω ε))
  | .transition clauses => Clause.declared clauses
  | .rule s r => [(s, r)]
  | _ => []

/-- The item is not a flawed transition. -/
def Valid : Item π σ τ κ ω ε φ → Prop
  | .transition clauses => ∃ rules, (Declaration.ofClauses clauses).build = .ok rules
  | _ => True

/-- The item says that no state may have two equal labels. -/
def isDistinctLabels : Item π σ τ κ ω ε φ → Bool
  | .distinctLabels => true
  | _ => false

/-- What the items say that the machine does, beginning in a state: the last actions given for the
start and the end count, and the first rule declared for a state and a token. -/
def plan [DecidableEq σ] [BEq τ] [Pattern π τ] (s : σ) (items : List (Item π σ τ κ ω ε φ)) :
    Plan π σ τ κ ω ε φ :=
  ⟨s, lastOf onStart? items, lastOf onFinish? items, fun s t =>
    ((items.flatMap declared).find? fun d => d.1 = s && d.2.label.admits t).map (·.2)⟩

end Item

namespace Blueprint

variable {b b' : Blueprint π σ τ κ ω ε φ} {item : Item π σ τ κ ω ε φ}

theorem say_ok (h : b.say item = .ok b') :
    b'.initial = item.initial?.or b.initial ∧ b'.onStart = item.onStart?.or b.onStart ∧
      b'.onFinish = item.onFinish?.or b.onFinish ∧ b'.rules = b.rules ++ item.declared := by
  cases item with
  | transition clauses =>
    rw [say] at h
    cases hb : (Declaration.ofClauses clauses).build with
    | error e =>
      rw [hb] at h
      cases h
    | ok rules =>
      rw [hb] at h
      obtain rfl := Except.ok.inj h
      exact ⟨rfl, rfl, rfl, congrArg _ (Declaration.eq_declared_of_build hb)⟩
  | rule s r =>
    obtain rfl := Except.ok.inj h
    exact ⟨rfl, rfl, rfl, rfl⟩
  | initial s =>
    obtain rfl := Except.ok.inj h
    exact ⟨rfl, rfl, rfl, (List.append_nil _).symm⟩
  | onStart a =>
    obtain rfl := Except.ok.inj h
    exact ⟨rfl, rfl, rfl, (List.append_nil _).symm⟩
  | onFinish a =>
    obtain rfl := Except.ok.inj h
    exact ⟨rfl, rfl, rfl, (List.append_nil _).symm⟩
  | distinctLabels =>
    obtain rfl := Except.ok.inj h
    exact ⟨rfl, rfl, rfl, (List.append_nil _).symm⟩

theorem sayAll_ok {place : Nat} {items : List (Item π σ τ κ ω ε φ)}
    (h : b.sayAll place items = .ok b') :
    b'.initial = (lastOf Item.initial? items).or b.initial ∧
      b'.onStart = (lastOf Item.onStart? items).or b.onStart ∧
      b'.onFinish = (lastOf Item.onFinish? items).or b.onFinish ∧
      b'.rules = b.rules ++ items.flatMap Item.declared := by
  induction items generalizing b place with
  | nil =>
    obtain rfl := Except.ok.inj h
    exact ⟨rfl, rfl, rfl, (List.append_nil _).symm⟩
  | cons item rest ih =>
    rw [sayAll] at h
    cases hs : b.say item with
    | error e =>
      rw [hs] at h
      cases h
    | ok b₁ =>
      rw [hs] at h
      obtain ⟨hi, ho, hf, hr⟩ := ih h
      obtain ⟨hi₁, ho₁, hf₁, hr₁⟩ := say_ok hs
      simp only [lastOf_cons, Option.or_assoc, List.flatMap_cons, ← List.append_assoc]
      exact ⟨by rw [hi, hi₁], by rw [ho, ho₁], by rw [hf, hf₁], by rw [hr, hr₁]⟩

theorem say_of_valid (b : Blueprint π σ τ κ ω ε φ) (h : item.Valid) : ∃ b', b.say item = .ok b' := by
  cases item with
  | transition clauses =>
    obtain ⟨rules, hr⟩ := h
    rw [say, hr]
    exact ⟨_, rfl⟩
  | _ => exact ⟨_, rfl⟩

theorem sayAll_of_valid (b : Blueprint π σ τ κ ω ε φ) (place : Nat)
    {items : List (Item π σ τ κ ω ε φ)} (h : ∀ i ∈ items, i.Valid) :
    ∃ b', b.sayAll place items = .ok b' := by
  induction items generalizing b place with
  | nil => exact ⟨b, rfl⟩
  | cons item rest ih =>
    rw [List.forall_mem_cons] at h
    obtain ⟨b₁, hs⟩ := b.say_of_valid h.1
    rw [sayAll, hs]
    exact ih b₁ (place + 1) h.2

theorem exists_of_sayAll_cons {place : Nat} {rest : List (Item π σ τ κ ω ε φ)}
    (h : b.sayAll place (item :: rest) = .ok b') :
    ∃ b₁, b.say item = .ok b₁ ∧ b₁.sayAll (place + 1) rest = .ok b' := by
  rw [sayAll] at h
  cases hs : b.say item with
  | error e =>
    rw [hs] at h
    cases h
  | ok b₁ =>
    rw [hs] at h
    exact ⟨b₁, rfl, h⟩

theorem sayAll_append {place : Nat} {items : List (Item π σ τ κ ω ε φ)}
    (h : b.sayAll place items = .ok b') (more : List (Item π σ τ κ ω ε φ)) :
    b.sayAll place (items ++ more) = b'.sayAll (place + items.length) more := by
  induction items generalizing b place with
  | nil =>
    obtain rfl := Except.ok.inj h
    rfl
  | cons item rest ih =>
    obtain ⟨b₁, hs, hrest⟩ := exists_of_sayAll_cons h
    have hplace : place + (item :: rest).length = place + 1 + rest.length := by
      rw [List.length_cons]
      omega
    rw [List.cons_append, sayAll, hs, hplace]
    exact ih hrest

theorem exists_of_say_transition {clauses : List (Clause π σ τ (Reaction σ τ κ ω ε))}
    (h : b.say (.transition clauses) = .ok b') :
    ∃ rules, (Declaration.ofClauses clauses).build = .ok rules ∧
      b' = { b with rules := b.rules ++ rules } := by
  rw [say] at h
  cases hb : (Declaration.ofClauses clauses).build with
  | error e =>
    rw [hb] at h
    cases h
  | ok rules =>
    rw [hb] at h
    exact ⟨rules, rfl, (Except.ok.inj h).symm⟩

/-! ## Labels that may be repeated -/

/-- The blueprint with labels that may be repeated. -/
def relaxed (b : Blueprint π σ τ κ ω ε φ) : Blueprint π σ τ κ ω ε φ := { b with distinct := false }

theorem say_relaxed (h : b.say item = .ok b') :
    if item.isDistinctLabels then b'.relaxed = b.relaxed else b.relaxed.say item = .ok b'.relaxed := by
  cases item with
  | transition clauses =>
    obtain ⟨rules, hb, rfl⟩ := exists_of_say_transition h
    rw [if_neg (by nofun), say, hb]
    rfl
  | _ =>
    obtain rfl := Except.ok.inj h
    rfl

theorem sayAll_relaxed {place place' : Nat} {items : List (Item π σ τ κ ω ε φ)}
    (h : b.sayAll place items = .ok b') :
    b.relaxed.sayAll place' (items.filter fun i => !i.isDistinctLabels) = .ok b'.relaxed := by
  induction items generalizing b place place' with
  | nil =>
    obtain rfl := Except.ok.inj h
    rfl
  | cons item rest ih =>
    obtain ⟨b₁, hs, hrest⟩ := exists_of_sayAll_cons h
    have hr := say_relaxed hs
    cases hi : item.isDistinctLabels with
    | true =>
      rw [hi, if_pos rfl] at hr
      rw [List.filter_cons_of_neg (by simp [hi]), ← hr]
      exact ih hrest
    | false =>
      rw [hi, if_neg Bool.false_ne_true] at hr
      rw [List.filter_cons_of_pos (by simp [hi]), sayAll, hr]
      exact ih hrest

theorem say_distinct (h : b.say item = .ok b') :
    b'.distinct = (b.distinct || item.isDistinctLabels) := by
  cases item with
  | transition clauses =>
    obtain ⟨rules, -, rfl⟩ := exists_of_say_transition h
    exact (Bool.or_false _).symm
  | distinctLabels =>
    obtain rfl := Except.ok.inj h
    exact (Bool.or_true _).symm
  | _ =>
    obtain rfl := Except.ok.inj h
    exact (Bool.or_false _).symm

theorem sayAll_distinct {place : Nat} {items : List (Item π σ τ κ ω ε φ)}
    (h : b.sayAll place items = .ok b') :
    b'.distinct = (b.distinct || items.any Item.isDistinctLabels) := by
  induction items generalizing b place with
  | nil =>
    obtain rfl := Except.ok.inj h
    exact (Bool.or_false _).symm
  | cons item rest ih =>
    obtain ⟨b₁, hs, hrest⟩ := exists_of_sayAll_cons h
    rw [ih hrest, say_distinct hs, List.any_cons, Bool.or_assoc]

/-! ## Machines that have been built -/

variable [DecidableEq σ] [BEq τ] [DecidableEq π] [Literal σ] [Literal τ]

/-- What has been said is what the machine does, whether or not labels may be repeated. -/
theorem build_ok {m : Machine π σ τ κ ω ε φ} (h : b.build = .ok m) :
    b.initial = some m.initial ∧ m.onStart = b.onStart ∧ m.onFinish = b.onFinish ∧
      m.table = .ofList b.rules := by
  rw [build] at h
  cases hi : b.initial with
  | none =>
    rw [hi] at h
    cases h
  | some s =>
    have hm : (⟨s, b.onStart, b.onFinish, .ofList b.rules⟩ : Machine π σ τ κ ω ε φ) = m := by
      simp only [hi] at h
      split at h
      · split at h
        · exact Except.ok.inj h
        · cases h
      · exact Except.ok.inj h
    obtain rfl := hm
    exact ⟨rfl, rfl, rfl, rfl⟩

theorem build_of_relaxed {s : σ} (hi : b.initial = some s) (hd : b.distinct = false) :
    b.build = .ok ⟨s, b.onStart, b.onFinish, .ofList b.rules⟩ := by
  simp only [build, hi, hd, Bool.false_eq_true, if_false]

end Blueprint

namespace Machine

variable [DecidableEq σ] [BEq τ] [Pattern π τ] [DecidableEq π] [Literal σ] [Literal τ]
  {items : List (Item π σ τ κ ω ε φ)} {m : Machine π σ τ κ ω ε φ}

omit [Pattern π τ] in
theorem ofItems_of_build {b : Blueprint π σ τ κ ω ε φ} (hb : Blueprint.ofItems items = .ok b)
    (hm : b.build = .ok m) : Machine.ofItems items = .ok m := by
  simp only [ofItems, hb, hm]
  rfl

omit [Pattern π τ] in
theorem exists_ofItems {b : Blueprint π σ τ κ ω ε φ} {s : σ} (hb : Blueprint.ofItems items = .ok b)
    (hi : lastOf Item.initial? items = some s) (hd : .distinctLabels ∉ items) :
    ∃ m, Machine.ofItems items = .ok m := by
  have hinitial : b.initial = some s := by
    rw [(Blueprint.sayAll_ok hb).1, hi]
    rfl
  have hdistinct : b.distinct = false := by
    rw [Blueprint.sayAll_distinct hb, Blueprint.empty, Bool.false_or, List.any_eq_false]
    intro i hmem
    cases i with
    | distinctLabels => exact absurd hmem hd
    | _ => exact Bool.false_ne_true
  exact ⟨_, ofItems_of_build hb (Blueprint.build_of_relaxed hinitial hdistinct)⟩

omit [Pattern π τ] in
theorem exists_build (h : Machine.ofItems items = .ok m) :
    ∃ b, Blueprint.ofItems items = .ok b ∧ b.build = .ok m := by
  rw [ofItems] at h
  cases hb : Blueprint.ofItems items with
  | error r =>
    rw [hb] at h
    cases h
  | ok b =>
    simp only [hb] at h
    cases hm : b.build with
    | error e =>
      rw [hm] at h
      cases h
    | ok m' =>
      rw [hm] at h
      exact ⟨b, rfl, hm.trans (congrArg _ (Except.ok.inj h))⟩

omit [Pattern π τ] in
theorem ofItems_ok (h : Machine.ofItems items = .ok m) :
    lastOf Item.initial? items = some m.initial ∧ m.onStart = lastOf Item.onStart? items ∧
      m.onFinish = lastOf Item.onFinish? items ∧
      m.table = .ofList (items.flatMap Item.declared) := by
  obtain ⟨b, hb, hm⟩ := exists_build h
  obtain ⟨hi, hs, hf, ht⟩ := Blueprint.build_ok hm
  obtain ⟨hi', hs', hf', hr'⟩ := Blueprint.sayAll_ok hb
  rw [Blueprint.empty, Option.or_none] at hi' hs' hf'
  rw [Blueprint.empty, List.nil_append] at hr'
  exact ⟨hi'.symm.trans hi, hs.trans hs', hf.trans hf', by rw [ht, hr']⟩

/-- A machine that has been built does what its items say. -/
theorem plan_ofItems (h : Machine.ofItems items = .ok m) :
    lastOf Item.initial? items = some m.initial ∧ m.plan = Item.plan m.initial items := by
  obtain ⟨hi, hs, hf, ht⟩ := ofItems_ok h
  have hrule : (fun s t => (m.table.rules s).find? (·.label.admits t)) =
      (Item.plan m.initial items).rule? := by
    funext s t
    rw [ht, Table.find?_rules_ofList]
    rfl
  refine ⟨hi, ?_⟩
  rw [plan, Item.plan, hs, hf, hrule]
  rfl

/-- **A machine that has been built runs as its items say**, from the last first state they name.
Wherever polls and calls to record lead, and in an execution, the moves, the actions with what they
are told, the outputs and the failure are those of the course of the items; so are the outputs of a
run that is polled up to its end and the value of an execution. -/
theorem ofItems_runs (h : Machine.ofItems items = .ok m) :
    ∃ s, lastOf Item.initial? items = some s ∧ ∀ c,
      let p := Item.plan s items
      (∀ input xs r, (m.run c input).Visits xs r →
        let x := p.course true r.cues s c
        r.walk.ComesTo x ∧ xs ++ r.pending.map .ok = x.items) ∧
      (∀ tokens,
        let x := p.course true (Cue.ofTokens tokens) s c
        ∃ last, (m.run c (.ofList tokens)).Drains x.items last ∧ last.walk.ComesTo x) ∧
      ∀ tokens,
        let x := p.course false (Cue.ofTokens tokens) s c
        let y := p.course false (.start :: tokens.map .token) s c
        let e := m.execute c tokens
        e.walk.ComesTo x ∧ Failure.of? e.result = x.failure ∧
          ∀ v, e.result = .ok v →
            p.onFinish.map (fun finish => (finish false y.context).result) = v.map .ok := by
  obtain ⟨hi, hp⟩ := plan_ofItems h
  refine ⟨m.initial, hi, fun c => ?_⟩
  rw [← hp]
  refine ⟨fun input xs r hv => ?_, fun tokens => m.drains_course c (Input.gives_ofList tokens),
    fun tokens => ?_⟩
  · obtain ⟨hw, hx, -⟩ := m.visits_course c hv
    exact ⟨hw, hx⟩
  · obtain ⟨hw, hf⟩ := m.drive_comesTo c (w := m.walk c) rfl tokens
    exact ⟨hw, hf, fun v hv => m.drive_value hv⟩

/-- Of the rules for a token the one declared first is followed, and of two first states the last
one named is the first. -/
theorem ofItems_runs_overlapping :
    let items : List (Item Empty Bool Nat Nat Nat Nat Nat) :=
      [.initial false, .transition [.target false, .sources [false, true], .label (.exact 3),
        .action fun t _ _ => Action.emit t], .rule true ⟨.any, false, none⟩,
        .transition [.loops [true]], .initial true]
    ∃ m, Machine.ofItems items = .ok m ∧
      ∃ last, (m.run 0 (.ofList [3, 3, 4])).Drains
          [.ok 3, .ok 3, .error (.unexpected ⟨false, 4⟩)] last ∧
        last.walk.moves = [(true, false, 3), (false, false, 3)] := by
  intro items
  obtain ⟨m, hm⟩ : ∃ m, Machine.ofItems items = .ok m := ⟨_, rfl⟩
  obtain ⟨s, hs, hc⟩ := ofItems_runs hm
  obtain rfl : true = s := Option.some.inj hs
  obtain ⟨last, hd, hw⟩ := (hc 0).2.1 [3, 3, 4]
  exact ⟨m, hm, last, hd, hw.moves_eq⟩

end Machine

end Transducer
