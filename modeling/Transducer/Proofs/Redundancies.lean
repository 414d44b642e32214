import Transducer.Proofs.Duplicates
import Transducer.Proofs.Reorderings

/-!
# Rules that are never found

A rule whose label an earlier rule of its state has is not the first one for any token, and may go.

* `firsts`: the elements of a list that no earlier one is the same as; `find?_firsts`: **the first
  element with a property that same elements share is one of them.**
* `unrepeated`: the rules of a state that repeat no label; `Table.pruned`: the table of them.
* `Table.lookup_pruned`: **a table without repetitions gives the same rules.**
* `Item.Prunes`, `Machine.plan_of_prunes`: items that declare for each state the rules that repeat no
  label; **they declare a machine of the same plan.**
* `Machine.repeats_unused`: **the rules for which a machine would be refused make no difference to
  it.**
-/

namespace Transducer

variable {π σ τ κ ω ε φ α : Type}

/-! ## First elements -/

/-- The elements that no earlier one is the same as, in order. -/
def firsts (same : α → α → Bool) (l : List α) : List α :=
  (l.zipIdx.filter fun x => !(l.take x.2).any fun e => same e x.1).map (·.1)

section

variable {same : α → α → Bool} {p : α → Bool}

theorem firsts_append_singleton (l : List α) (x : α) :
    firsts same (l ++ [x]) = firsts same l ++ if l.any fun e => same e x then [] else [x] := by
  have hx := map_filter_zipIdx_append_singleton (fun before y => !before.any fun e => same e y) l x
  rw [firsts, hx, firsts]
  cases l.any fun e => same e x <;> rfl

theorem firsts_sublist (l : List α) : (firsts same l).Sublist l := by
  induction l using List.reverseRecOn with
  | nil => exact .slnil
  | append_singleton l x ih =>
    rw [firsts_append_singleton]
    refine ih.append ?_
    split
    · exact List.nil_sublist _
    · exact .refl _

theorem pairwise_firsts (l : List α) : (firsts same l).Pairwise fun a b => same a b = false := by
  induction l using List.reverseRecOn with
  | nil => exact .nil
  | append_singleton l x ih =>
    rw [firsts_append_singleton]
    split
    · rwa [List.append_nil]
    next hx =>
      refine List.pairwise_append.2 ⟨ih, List.pairwise_singleton _ _, fun a ha b hb => ?_⟩
      rw [List.mem_singleton.1 hb]
      exact Bool.eq_false_iff.2 fun hab =>
        hx (List.any_eq_true.2 ⟨a, (firsts_sublist l).subset ha, hab⟩)

/-- **The first element with a property that same elements share is a first element.** -/
theorem find?_firsts (h : ∀ a b, same a b = true → p a = p b) (l : List α) :
    (firsts same l).find? p = l.find? p := by
  induction l using List.reverseRecOn with
  | nil => rfl
  | append_singleton l x ih =>
    rw [firsts_append_singleton, List.find?_append, List.find?_append, ih]
    split
    next hx =>
      obtain ⟨e, he, hex⟩ := List.any_eq_true.1 hx
      cases hl : l.find? p with
      | some y => rfl
      | none =>
        -- the element that is left out does not have the property, or an earlier one had it
        have hp : p x = false := by
          rw [← h e x hex]
          exact Bool.eq_false_iff.2 (List.find?_eq_none.1 hl e he)
        simp [hp]
    · rfl

end

/-! ## Rules that repeat no label -/

section

variable [BEq τ] [DecidableEq π]

/-- The rules whose label is not equal to that of an earlier one, in order. -/
def unrepeated (rs : List (Rule π σ τ α)) : List (Rule π σ τ α) :=
  firsts (fun e r => e.label == r.label) rs

theorem unrepeated_append_repeats (rs : List (Rule π σ τ α)) :
    (unrepeated rs ++ repeats rs).Perm rs := by
  have hp := (List.filter_append_perm (fun x => !(rs.take x.2).any fun e => e.label == x.1.label)
    rs.zipIdx).map (·.1)
  simp only [Bool.not_not, List.map_append, List.zipIdx_map_fst] at hp
  exact hp

theorem find?_unrepeated [PartialEquivBEq τ] [Pattern π τ] (rs : List (Rule π σ τ α)) (t : τ) :
    (unrepeated rs).find? (·.admits t) = rs.find? (·.admits t) :=
  find?_firsts (fun _ _ h => Label.admits_congr h t) rs

variable [DecidableEq σ]

/-- The declared rules are for one state and have equal labels. -/
def Rule.same (e r : σ × Rule π σ τ α) : Bool := e.1 = r.1 && e.2.label == r.2.label

theorem rulesOf_firsts (d : List (σ × Rule π σ τ α)) (s : σ) :
    rulesOf (firsts Rule.same d) s = unrepeated (rulesOf d s) := by
  induction d using List.reverseRecOn with
  | nil => rfl
  | append_singleton d x ih =>
    rw [firsts_append_singleton, rulesOf_append_singleton]
    by_cases hs : x.1 = s
    · have hany : (d.any fun e => Rule.same e x) =
          (rulesOf d s).any fun e => e.label == x.2.label := by
        rw [rulesOf, List.any_map, List.any_filter, ← hs]
        rfl
      rw [if_pos hs, unrepeated, firsts_append_singleton, ← hany, ← unrepeated, ← ih]
      split
      · rw [List.append_nil, List.append_nil]
      · rw [rulesOf_append_singleton, if_pos hs]
    · rw [if_neg hs, List.append_nil, ← ih]
      split
      · rw [List.append_nil]
      · rw [rulesOf_append_singleton, if_neg hs, List.append_nil]

namespace Table

/-- The table without the rules that repeat a label of their state. -/
def pruned (t : Table π σ τ α) : Table π σ τ α := ⟨t.groups.map fun g => (g.1, unrepeated g.2)⟩

theorem rules_pruned (t : Table π σ τ α) (s : σ) : t.pruned.rules s = unrepeated (t.rules s) := by
  unfold rules pruned
  induction t.groups with
  | nil => rfl
  | cons g rest ih =>
    rw [List.map_cons, List.lookup_cons, List.lookup_cons]
    cases s == g.1 with
    | true => rfl
    | false => exact ih

/-- **A table without repetitions gives the same rules.** -/
theorem lookup_pruned [PartialEquivBEq τ] [Pattern π τ] (t : Table π σ τ α) (s : σ) (token : τ) :
    t.pruned.lookup s token = t.lookup s token := by
  rw [lookup_eq_find?, lookup_eq_find?, rules_pruned, find?_unrepeated]

end Table

end

/-! ## Machines -/

/-- The machine without the rules that repeat a label of their state. -/
def Machine.pruned [BEq τ] [DecidableEq π] (m : Machine π σ τ κ ω ε φ) : Machine π σ τ κ ω ε φ :=
  { m with table := m.table.pruned }

/-- The item declares rules. -/
def Item.isRules : Item π σ τ κ ω ε φ → Bool
  | .transition _ | .rule _ _ => true
  | _ => false

variable [DecidableEq σ] [BEq τ] [DecidableEq π]

/-- Besides the same first state and actions, the second items declare for each state those of its
rules that repeat no label. -/
structure Item.Prunes (items items' : List (Item π σ τ κ ω ε φ)) : Prop extends
    Item.Alike items items' where
  rules_eq (s : σ) : rulesOf (items'.flatMap declared) s =
    unrepeated (rulesOf (items.flatMap declared) s)

namespace Item

variable (items : List (Item π σ τ κ ω ε φ))

/-- The other items, and behind them the rules that repeat nothing. -/
def pruned : List (Item π σ τ κ ω ε φ) :=
  items.filter (fun i => !i.isRules) ++
    (firsts Rule.same (items.flatMap declared)).map fun d => .rule d.1 d.2

theorem declared_pruned :
    (pruned items).flatMap declared = firsts Rule.same (items.flatMap declared) := by
  have hothers : (items.filter fun i => !i.isRules).flatMap declared = [] := by
    refine List.flatMap_eq_nil_iff.2 fun i hi => ?_
    have hnot := (List.mem_filter.1 hi).2
    cases i <;> first | rfl | cases hnot
  rw [pruned, List.flatMap_append, hothers, List.nil_append, List.flatMap_map]
  exact List.flatMap_singleton' _

theorem lastOf_pruned {β : Type} {f : Item π σ τ κ ω ε φ → Option β}
    (hf : ∀ i, i.isRules = true → f i = none) : lastOf f (pruned items) = lastOf f items := by
  rw [pruned, lastOf_append, lastOf_filter]
  · exact fun i hi => hf i (by simpa using hi)
  · intro i hi
    obtain ⟨d, -, rfl⟩ := List.mem_map.1 hi
    exact hf _ rfl

theorem prunes_pruned : Prunes items (pruned items) where
  initial_eq := lastOf_pruned items fun i hi => by cases i <;> first | rfl | cases hi
  onStart_eq := lastOf_pruned items fun i hi => by cases i <;> first | rfl | cases hi
  onFinish_eq := lastOf_pruned items fun i hi => by cases i <;> first | rfl | cases hi
  rules_eq s := by rw [declared_pruned, rulesOf_firsts]

theorem valid_pruned : ∀ i ∈ pruned items, i.Valid := by
  intro i hi
  rcases List.mem_append.1 hi with hother | hrule
  · have hnot := (List.mem_filter.1 hother).2
    cases i <;> trivial
  · obtain ⟨d, -, rfl⟩ := List.mem_map.1 hrule
    trivial

theorem distinctLabels_notMem_pruned {items : List (Item π σ τ κ ω ε φ)}
    (h : .distinctLabels ∉ items) : .distinctLabels ∉ pruned items := by
  intro hmem
  rcases List.mem_append.1 hmem with hother | hrule
  · exact h (List.mem_filter.1 hother).1
  · obtain ⟨d, -, hd⟩ := List.mem_map.1 hrule
    cases hd

end Item

namespace Machine

variable [Pattern π τ] [Literal σ] [Literal τ] {items items' : List (Item π σ τ κ ω ε φ)}
  {m m' : Machine π σ τ κ ω ε φ}

omit [Literal σ] [Literal τ] in
theorem plan_of_unrepeated [PartialEquivBEq τ] (hi : m'.initial = m.initial)
    (hs : m'.onStart = m.onStart) (hf : m'.onFinish = m.onFinish)
    (hr : ∀ s, m'.table.rules s = unrepeated (m.table.rules s)) : m'.plan = m.plan := by
  have hrule : m'.plan.rule? = m.plan.rule? := by
    funext s t
    change (m'.table.rules s).find? (·.admits t) = (m.table.rules s).find? (·.admits t)
    rw [hr, find?_unrepeated]
  unfold plan at hrule ⊢
  rw [hi, hs, hf]
  exact congrArg (Plan.mk m.initial m.onStart m.onFinish) hrule

omit [Literal σ] [Literal τ] in
theorem plan_pruned [PartialEquivBEq τ] (m : Machine π σ τ κ ω ε φ) : m.pruned.plan = m.plan :=
  plan_of_unrepeated rfl rfl rfl m.table.rules_pruned

theorem plan_of_prunes [PartialEquivBEq τ] (h : ofItems items = .ok m) (h' : ofItems items' = .ok m')
    (hp : Item.Prunes items items') : m'.plan = m.plan := by
  obtain ⟨hi, hs, hf, ht⟩ := ofItems_ok h
  obtain ⟨hi', hs', hf', ht'⟩ := ofItems_ok h'
  apply plan_of_unrepeated
  · rw [hp.initial_eq, hi] at hi'
    exact (Option.some.inj hi').symm
  · rw [hs, hs', hp.onStart_eq]
  · rw [hf, hf', hp.onFinish_eq]
  · intro s
    rw [ht, ht', Table.rules_ofList, Table.rules_ofList]
    exact hp.rules_eq s

omit [Pattern π τ] in
theorem ofItems_append_of_prunes (h' : ofItems items' = .ok m') (hp : Item.Prunes items items') :
    ofItems (items' ++ [.distinctLabels]) = .ok m' := by
  refine (givesDistinct_append h').of_distinct fun s => ?_
  rw [hp.rules_eq s]
  exact pairwise_firsts _

/-- **The rules for which a machine would be refused make no difference to it.** Equality of tokens
need not be reflexive. A table without the rules that repeat a label of their state gives for each
state and token the same rule, and a machine with such a table runs as before. Of a machine that may
repeat labels, the rules told of where it may not are just those that are left out. The others can be
declared by themselves, and whatever items do so declare a machine that is not refused, from which
nothing tells the first one apart. -/
theorem repeats_unused [PartialEquivBEq τ] :
    (∀ (t : Table π σ τ α) s token, t.pruned.lookup s token = t.lookup s token) ∧
    (∀ (m : Machine π σ τ κ ω ε φ) c, m.RunsLike c m.pruned) ∧
    ∀ (items : List (Item π σ τ κ ω ε φ)) m, ofItems items = .ok m → .distinctLabels ∉ items →
      let d := items.flatMap Item.declared
      GivesDistinct d m (ofItems (items ++ [.distinctLabels])) ∧
      (∀ s, (unrepeated (rulesOf d s) ++ repeats (rulesOf d s)).Perm (rulesOf d s)) ∧
      (∃ items' m', Item.Prunes items items' ∧ ofItems items' = .ok m') ∧
      ∀ items' m', Item.Prunes items items' → ofItems items' = .ok m' →
        ofItems (items' ++ [.distinctLabels]) = .ok m' ∧ ∀ c, m.RunsLike c m' := by
  refine ⟨Table.lookup_pruned, fun m c => ?_, fun items m h hd => ⟨?_, ?_, ?_, ?_⟩⟩
  · exact runsLike_of_plan_eq m.plan_pruned c
  · exact givesDistinct_append h
  · exact fun s => unrepeated_append_repeats _
  · have hp := Item.prunes_pruned items
    obtain ⟨b, hb⟩ := Blueprint.empty.sayAll_of_valid 0 (Item.valid_pruned items)
    have hi := hp.initial_eq.trans (ofItems_ok h).1
    obtain ⟨m', h'⟩ := exists_ofItems hb hi (Item.distinctLabels_notMem_pruned hd)
    exact ⟨_, m', hp, h'⟩
  · exact fun items' m' hp h' =>
      ⟨ofItems_append_of_prunes h' hp, runsLike_of_plan_eq (plan_of_prunes h h' hp)⟩

/-- A transition from two states repeats a label of one of them only. -/
theorem repeats_unused_sources :
    let first : Rule Empty Bool Nat (Reaction Bool Nat Nat Nat Nat) :=
      ⟨.exact 1, true, some fun t _ _ => Action.emit t⟩
    let second : Rule Empty Bool Nat (Reaction Bool Nat Nat Nat Nat) :=
      ⟨.exact 1, false, some fun t _ _ => Action.emit (t + 10)⟩
    let items : List (Item Empty Bool Nat Nat Nat Nat Nat) :=
      [.initial false, .rule false first, .transition [.sources [false, true], .target false,
        .label (.exact 1), .action fun t _ _ => Action.emit (t + 10)]]
    let items' : List (Item Empty Bool Nat Nat Nat Nat Nat) :=
      [.rule true second, .rule false first, .initial false]
    ∃ m m', ofItems items = .ok m ∧ .distinctLabels ∉ items ∧ Item.Prunes items items' ∧
      ofItems (items' ++ [.distinctLabels]) = .ok m' ∧
      (∃ last', (m'.run 0 (.ofList [1, 1])).Drains [.ok 1, .ok 11] last') ∧
      (m'.execute 0 [1, 2]).result = .error (.unexpected ⟨true, 2⟩) := by
  intro first second items items'
  let m : Machine Empty Bool Nat Nat Nat Nat Nat :=
    ⟨false, none, none, ⟨[(false, [first, second]), (true, [second])]⟩⟩
  let m' : Machine Empty Bool Nat Nat Nat Nat Nat :=
    ⟨false, none, none, ⟨[(true, [second]), (false, [first])]⟩⟩
  have hm : ofItems items = .ok m := rfl
  have hm' : ofItems items' = .ok m' := rfl
  have hd : .distinctLabels ∉ items := by simp [items]
  have hp : Item.Prunes items items' := ⟨⟨rfl, rfl, rfl⟩, fun s => by cases s <;> rfl⟩
  obtain ⟨-, -, -, hruns⟩ := (repeats_unused (α := Nat)).2.2 items m hm hd
  obtain ⟨hbuilt, hlike⟩ := hruns items' m' hp hm'
  have hitems :
      (m.plan.course true (Cue.ofTokens [1, 1]) m.initial 0).items = [.ok 1, .ok 11] := rfl
  obtain ⟨last, hdrains, -⟩ := m.drains_course 0 (Input.gives_ofList [1, 1])
  rw [hitems] at hdrains
  obtain ⟨last', hd'⟩ := ((hlike 0).drains_iff (.ofList [1, 1]) [] _).1 ⟨last, hdrains⟩
  exact ⟨m, m', hm, hd, hp, hbuilt, ⟨last', hd'⟩, ((hlike 0).executes [1, 2]).1⟩

end Machine

end Transducer
