import Transducer.Proofs.Blueprints

/-!
# Repeated labels

A machine that may not repeat labels is refused with all of its repetitions, those of each state in
the order of its rules.

* `repeats`: the rules of a state whose label an earlier one has; `repeatedLabels_eq`: the recursion
  that finds them.
* `Table.checks`, `Accumulates`: the check of each rule, and the ways to put checks together that
  lose nothing.
* `DistinctLabels`, `Reports`: no state repeats a label, and a list that tells just of the
  repetitions there are.
* `Blueprint.buildBy`: the build, with an order of the states and a way to put checks together for
  parameters; `Blueprint.build_eq_buildBy`: **a machine is built so.**
* `Machine.givesDistinct_append`: what becomes of the items of a machine once they may not repeat
  labels.
* `Machine.ofItems_distinct`: **a list of items that may not repeat labels gives its machine, or all
  of the repetitions.**
-/

namespace Transducer

variable {π σ τ κ ω ε φ α : Type} [BEq τ] [DecidableEq π]

/-! ## The rules of one state -/

/-- The rules whose label is equal to that of an earlier one, in order. -/
def repeats (rs : List (Rule π σ τ α)) : List (Rule π σ τ α) :=
  (rs.zipIdx.filter fun x => (rs.take x.2).any fun e => e.label == x.1.label).map (·.1)

/-- Of the elements chosen by what stands before them, one more at the end is chosen by all the
others. -/
theorem map_filter_zipIdx_append_singleton {β : Type} (f : List β → β → Bool) (l : List β) (x : β) :
    ((l ++ [x]).zipIdx.filter fun y => f ((l ++ [x]).take y.2) y.1).map (·.1) =
      (l.zipIdx.filter fun y => f (l.take y.2) y.1).map (·.1) ++ if f l x then [x] else [] := by
  have hl : ∀ y ∈ l.zipIdx, f ((l ++ [x]).take y.2) y.1 = f (l.take y.2) y.1 := fun y hy => by
    have hlt : y.2 < l.length := by
      have := (List.mem_zipIdx' hy).1
      omega
    rw [List.take_append_of_le_length (Nat.le_of_lt hlt)]
  rw [List.zipIdx_append, List.filter_append, List.map_append, List.filter_congr hl]
  congr 1
  simp only [List.zipIdx_singleton, List.filter_cons, Nat.zero_add, List.take_left, List.filter_nil]
  cases f l x <;> rfl

theorem repeatedLabels_zipIdx (earlier rs : List (Rule π σ τ α)) :
    repeatedLabels earlier rs =
      ((rs.zipIdx earlier.length).filter fun x =>
        ((earlier ++ rs).take x.2).any fun e => e.label == x.1.label).map (·.1.label) := by
  induction rs generalizing earlier with
  | nil => rfl
  | cons r rest ih =>
    have hrest := ih (earlier ++ [r])
    rw [List.length_append, List.length_singleton, List.append_assoc, List.singleton_append] at hrest
    rw [repeatedLabels, List.zipIdx_cons, List.filter_cons, hrest]
    simp only [List.take_left]
    split <;> rfl

theorem repeatedLabels_eq (rs : List (Rule π σ τ α)) :
    repeatedLabels [] rs = (repeats rs).map (·.label) := by
  rw [repeatedLabels_zipIdx, repeats, List.map_map]
  rfl

theorem repeats_eq_nil_iff {rs : List (Rule π σ τ α)} :
    repeats rs = [] ↔ rs.Pairwise fun r r' => (r.label == r'.label) = false := by
  rw [repeats, List.map_eq_nil_iff, List.filter_eq_nil_iff, List.pairwise_iff_getElem]
  constructor
  · intro h i j hi hj hij
    have hm : (rs[j], j) ∈ rs.zipIdx := List.mem_zipIdx_iff_getElem?.2 (List.getElem?_eq_getElem hj)
    have hj' := h _ hm
    rw [List.any_eq_true, not_exists] at hj'
    have he : rs[i] ∈ rs.take j := List.mem_take_iff_getElem.2 ⟨i, by omega, rfl⟩
    exact Bool.eq_false_iff.2 fun hl => hj' rs[i] ⟨he, hl⟩
  · intro h x hx hany
    obtain ⟨e, he, hl⟩ := List.any_eq_true.1 hany
    obtain ⟨i, hi, rfl⟩ := List.mem_take_iff_getElem.1 he
    obtain ⟨hj, hxj⟩ := List.getElem?_eq_some_iff.1 (List.mem_zipIdx_iff_getElem?.1 hx)
    have hne := h i x.2 (by omega) hj (by omega)
    rw [hxj, hl] at hne
    cases hne

/-! ## Checks -/

variable [Literal σ] [Literal τ]

/-- The labels that the rules of a state repeat, as they are shown. -/
def duplicatesOf (s : σ) (rs : List (Rule π σ τ α)) : List DuplicateLabel :=
  (repeats rs).map fun r => ⟨literal s, literal r.label⟩

/-- The labels that the rules of all states repeat, as they are shown. -/
def duplicatesIn (groups : Groups π σ τ α) : List DuplicateLabel :=
  groups.flatMap fun g => duplicatesOf g.1 g.2

/-- What a check says: that all is well, or the duplicates it has found. -/
abbrev Check := Except (List DuplicateLabel) Unit

/-- What a check has found. -/
def failures : Check → List DuplicateLabel
  | .ok _ => []
  | .error ds => ds

/-- The check of each rule: whether an earlier one of its state has its label. -/
def Table.checks (groups : Groups π σ τ α) : List Check :=
  groups.flatMap fun g => g.2.zipIdx.map fun x =>
    if (g.2.take x.2).any fun e => e.label == x.1.label then
      .error [⟨literal g.1, literal x.1.label⟩]
    else .ok ()

/-- A way to put checks together: they succeed if all of them do, and else they fail with all that
they have found, in order. -/
structure Accumulates (all : List Check → Check) : Prop where
  of_ok {checks : List Check} : (∀ c ∈ checks, c.isOk = true) → all checks = .ok ()
  of_error {checks : List Check} :
    (∃ c ∈ checks, c.isOk = false) → all checks = .error (checks.flatMap failures)

/-- The checks put together. -/
def together (checks : List Check) : Check :=
  if checks.all (·.isOk) then .ok () else .error (checks.flatMap failures)

theorem accumulates_together : Accumulates together where
  of_ok h := if_pos (List.all_eq_true.2 h)
  of_error {checks} h := by
    obtain ⟨c, hc, he⟩ := h
    refine if_neg fun hall => ?_
    rw [List.all_eq_true.1 hall c hc] at he
    cases he

namespace Table

variable (groups : Groups π σ τ α)

theorem failures_checks : (checks groups).flatMap failures = duplicatesIn groups := by
  rw [checks, List.flatMap_assoc, duplicatesIn]
  congr 1
  funext g
  rw [duplicatesOf, repeats, List.map_map]
  induction g.2.zipIdx with
  | nil => rfl
  | cons x rest ih =>
    rw [List.map_cons, List.flatMap_cons, List.filter_cons, ih]
    split <;> rfl

theorem isOk_checks_iff :
    (∀ c ∈ checks groups, c.isOk = true) ↔ duplicatesIn groups = [] := by
  rw [← failures_checks, List.flatMap_eq_nil_iff]
  have hc : ∀ c ∈ checks groups, c.isOk = true ↔ failures c = [] := by
    intro c hc
    obtain ⟨g, -, hg⟩ := List.mem_flatMap.1 hc
    obtain ⟨x, -, rfl⟩ := List.mem_map.1 hg
    split
    · exact iff_of_false Bool.false_ne_true (List.cons_ne_nil _ _)
    · exact iff_of_true rfl rfl
  exact forall₂_congr hc

theorem all_checks {all : List Check → Check} (h : Accumulates all) :
    all (checks groups) =
      if duplicatesIn groups = [] then .ok () else .error (duplicatesIn groups) := by
  split
  next hnil => exact h.of_ok ((isOk_checks_iff groups).2 hnil)
  next hne =>
    rw [← failures_checks]
    refine h.of_error (Decidable.not_forall_not.1 fun hall => hne ?_)
    refine (isOk_checks_iff groups).1 fun c hc => ?_
    cases hok : c.isOk with
    | true => rfl
    | false => exact absurd ⟨hc, hok⟩ (hall c)

/-- The groups in the order in which their states are shown. -/
def byText (groups : Groups π σ τ α) : Groups π σ τ α :=
  groups.mergeSort fun g h => Ordered.le (literal g.1) (literal h.1)

omit [BEq τ] [DecidableEq π] [Literal τ] in
theorem byText_perm (groups : Groups π σ τ α) : (byText groups).Perm groups :=
  List.mergeSort_perm groups _

theorem duplicates_eq (t : Table π σ τ α) : t.duplicates = duplicatesIn (byText t.groups) := by
  have hs := List.map_mergeSort (l := t.groups)
    (f := fun g => (literal g.1, repeatedLabels [] g.2))
    (r := fun g h => Ordered.le (literal g.1) (literal h.1))
    (s := fun g h => Ordered.le g.1 h.1) fun _ _ _ _ => rfl
  rw [duplicates, ← hs, List.flatMap_map, duplicatesIn]
  simp only [repeatedLabels_eq, List.map_map]
  rfl

theorem duplicates_eq_nil_iff {t : Table π σ τ α} :
    t.duplicates = [] ↔ ∀ g ∈ t.groups, repeats g.2 = [] := by
  rw [duplicates_eq, duplicatesIn, List.flatMap_eq_nil_iff]
  constructor
  · exact fun h g hg => List.map_eq_nil_iff.1 (h g (List.mem_mergeSort.2 hg))
  · exact fun h g hg => List.map_eq_nil_iff.2 (h g (List.mem_mergeSort.1 hg))

end Table

/-! ## The rules of all states -/

variable [DecidableEq σ]

/-- No state has two rules with equal labels. -/
def DistinctLabels (d : List (σ × Rule π σ τ α)) : Prop :=
  ∀ s, (rulesOf d s).Pairwise fun r r' => (r.label == r'.label) = false

/-- The duplicates are those of each state that has rules, state by state in some order. -/
def Reports (d : List (σ × Rule π σ τ α)) (ds : List DuplicateLabel) : Prop :=
  ∃ states : List σ, states.Nodup ∧ (∀ s, s ∈ states ↔ ∃ r, (s, r) ∈ d) ∧
    ds = states.flatMap fun s => duplicatesOf s (rulesOf d s)

namespace Grouped

variable {groups : Groups π σ τ α} {d : List (σ × Rule π σ τ α)}

theorem reports (h : Grouped groups d) : Reports d (duplicatesIn groups) := by
  refine ⟨groups.map (·.1), h.nodup, h.mem_iff, ?_⟩
  have hg : ∀ g ∈ groups, duplicatesOf g.1 g.2 = duplicatesOf g.1 (rulesOf d g.1) :=
    fun g hg => by rw [← h.rules_eq g hg]
  rw [duplicatesIn, List.flatMap_map, List.flatMap_def, List.map_congr_left hg, ← List.flatMap_def]

theorem duplicatesIn_eq_nil_iff (h : Grouped groups d) :
    duplicatesIn groups = [] ↔ DistinctLabels d := by
  have hg : ∀ g ∈ groups, duplicatesOf g.1 g.2 = [] ↔
      (rulesOf d g.1).Pairwise fun r r' => (r.label == r'.label) = false := fun g hg => by
    rw [duplicatesOf, List.map_eq_nil_iff, repeats_eq_nil_iff, h.rules_eq g hg]
  rw [duplicatesIn, List.flatMap_eq_nil_iff]
  constructor
  · intro hnil s
    by_cases hs : s ∈ groups.map (·.1)
    · obtain ⟨g, hm, rfl⟩ := List.mem_map.1 hs
      exact (hg g hm).1 (hnil g hm)
    · rw [h.rulesOf_eq_nil hs]
      exact .nil
  · intro hd g hm
    exact (hg g hm).2 (hd g.1)

end Grouped

/-! ## Machines that may not repeat labels -/

namespace Blueprint

variable (order : Groups π σ τ (Reaction σ τ κ ω ε) → Groups π σ τ (Reaction σ τ κ ω ε))
  (all : List Check → Check)

/-- The machine, with the states taken in an order for its checks, and these put together in a
way. -/
def buildBy (b : Blueprint π σ τ κ ω ε φ) : Except BuildError (Machine π σ τ κ ω ε φ) :=
  match b.initial with
  | none => .error .missingInitial
  | some initial =>
    let table := Table.ofList b.rules
    let machine : Machine π σ τ κ ω ε φ := ⟨initial, b.onStart, b.onFinish, table⟩
    if b.distinct then
      match all (Table.checks (order table.groups)) with
      | .ok _ => .ok machine
      | .error ds => .error (.duplicateLabels ds)
    else .ok machine

variable {order all} {b : Blueprint π σ τ κ ω ε φ} {s : σ}

theorem buildBy_distinct (ha : Accumulates all) (hi : b.initial = some s) (hd : b.distinct = true) :
    let ds := duplicatesIn (order (Table.ofList b.rules).groups)
    b.buildBy order all =
      if ds = [] then .ok ⟨s, b.onStart, b.onFinish, .ofList b.rules⟩
      else .error (.duplicateLabels ds) := by
  intro ds
  rw [buildBy]
  simp only [hi, hd, if_true, Table.all_checks _ ha]
  by_cases hds : ds = []
  · rw [if_pos hds, if_pos hds]
  · rw [if_neg hds, if_neg hds]

/-- **A machine is built with its states in the order in which they are shown.** -/
theorem build_eq_buildBy (b : Blueprint π σ τ κ ω ε φ) :
    b.build = b.buildBy Table.byText together := by
  cases hi : b.initial with
  | none => rw [build, buildBy, hi]
  | some s =>
    cases hd : b.distinct with
    | false => simp only [build, buildBy, hi, hd, Bool.false_eq_true, if_false]
    | true =>
      rw [buildBy_distinct accumulates_together hi hd, build]
      simp only [hi, hd, if_true, Table.duplicates_eq]
      split
      next hnil => rw [if_pos hnil]
      next hne => rw [if_neg hne]

theorem build_distinct (hi : b.initial = some s) (hd : b.distinct = true) :
    let ds := (Table.ofList b.rules).duplicates
    b.build = if ds = [] then .ok ⟨s, b.onStart, b.onFinish, .ofList b.rules⟩
      else .error (.duplicateLabels ds) := by
  rw [build_eq_buildBy, Table.duplicates_eq]
  exact buildBy_distinct accumulates_together hi hd

end Blueprint

/-- The machine that a list of items declares, with the checks of its labels in an order and put
together in a way. -/
def Machine.ofItemsBy
    (order : Groups π σ τ (Reaction σ τ κ ω ε) → Groups π σ τ (Reaction σ τ κ ω ε))
    (all : List Check → Check) (items : List (Item π σ τ κ ω ε φ)) : Except Rejection (Machine π σ τ κ ω ε φ) :=
  match Blueprint.ofItems items with
  | .error r => .error r
  | .ok b => (b.buildBy order all).mapError (⟨none, ·⟩)

/-- The rules give the machine if no state has equal labels, and else all of the repetitions. -/
structure GivesDistinct (d : List (σ × Rule π σ τ (Reaction σ τ κ ω ε)))
    (m : Machine π σ τ κ ω ε φ) (x : Except Rejection (Machine π σ τ κ ω ε φ)) : Prop where
  of_distinct : DistinctLabels d → x = .ok m
  of_repeats : ¬ DistinctLabels d → ∃ ds, x = .error ⟨none, .duplicateLabels ds⟩ ∧ Reports d ds

namespace Machine

variable {order : Groups π σ τ (Reaction σ τ κ ω ε) → Groups π σ τ (Reaction σ τ κ ω ε)}
  {all : List Check → Check} {items : List (Item π σ τ κ ω ε φ)} {b : Blueprint π σ τ κ ω ε φ}
  {s : σ}

theorem ofItems_eq_ofItemsBy (items : List (Item π σ τ κ ω ε φ)) :
    ofItems items = ofItemsBy Table.byText together items := by
  rw [ofItems, ofItemsBy]
  cases Blueprint.ofItems items with
  | error r => rfl
  | ok b => simp only [b.build_eq_buildBy]

theorem givesDistinct (ho : ∀ groups, (order groups).Perm groups) (ha : Accumulates all)
    (hb : Blueprint.ofItems items = .ok b) (hi : b.initial = some s) (hd : b.distinct = true) :
    GivesDistinct b.rules ⟨s, b.onStart, b.onFinish, .ofList b.rules⟩
      (ofItemsBy order all items) := by
  have hg := (Table.grouped_ofList b.rules).of_perm (ho (Table.ofList b.rules).groups)
  simp only [ofItemsBy, hb, Blueprint.buildBy_distinct ha hi hd]
  refine ⟨fun hl => ?_, fun hl => ?_⟩
  · rw [if_pos (hg.duplicatesIn_eq_nil_iff.2 hl)]
    rfl
  · rw [if_neg (mt hg.duplicatesIn_eq_nil_iff.1 hl)]
    exact ⟨_, rfl, hg.reports⟩

theorem ofItems_relaxed (hb : Blueprint.ofItems items = .ok b) (hi : b.initial = some s) :
    ofItems (items.filter fun i => !i.isDistinctLabels) =
      .ok ⟨s, b.onStart, b.onFinish, .ofList b.rules⟩ := by
  have hrelaxed : Blueprint.ofItems (items.filter fun i => !i.isDistinctLabels) = .ok b.relaxed :=
    Blueprint.sayAll_relaxed hb
  exact ofItems_of_build hrelaxed (Blueprint.build_of_relaxed hi rfl)

theorem givesDistinct_append {m : Machine π σ τ κ ω ε φ} (h : ofItems items = .ok m) :
    GivesDistinct (items.flatMap Item.declared) m (ofItems (items ++ [.distinctLabels])) := by
  obtain ⟨b, hb, hm⟩ := exists_build h
  obtain ⟨hi, hs, hf, ht⟩ := Blueprint.build_ok hm
  have hr : b.rules = items.flatMap Item.declared := (Blueprint.sayAll_ok hb).2.2.2
  have hb' : Blueprint.ofItems (items ++ [.distinctLabels]) = .ok { b with distinct := true } :=
    Blueprint.sayAll_append hb [.distinctLabels]
  have hgives := givesDistinct Table.byText_perm accumulates_together hb' hi rfl
  obtain ⟨initial, onStart, onFinish, table⟩ := m
  subst hs hf ht
  rw [ofItems_eq_ofItemsBy, ← hr]
  exact hgives

/-- **A list of items that may not repeat labels gives its machine, or all of the repetitions.**
Wherever the items say so, and in whatever order the states are taken and their checks put
together, the machine is the one that the other items give if no state has two equal labels. Else
each rule whose label is that of an earlier rule of its state is told once, state by state, in the
order of the rules, and nothing else is. -/
theorem ofItems_distinct (hv : ∀ i ∈ items, i.Valid) (hi : ∃ s, .initial s ∈ items)
    (hd : .distinctLabels ∈ items) :
    let d := items.flatMap Item.declared
    ∃ m, ofItems (items.filter fun i => !i.isDistinctLabels) = .ok m ∧
      GivesDistinct d m (ofItems items) ∧
      ∀ order all, (∀ groups, (order groups).Perm groups) → Accumulates all →
        GivesDistinct d m (ofItemsBy order all items) := by
  intro d
  obtain ⟨b, hb⟩ := Blueprint.empty.sayAll_of_valid 0 hv
  obtain ⟨hinit, -, -, hr⟩ := Blueprint.sayAll_ok hb
  have hrules : b.rules = d := hr.trans (List.nil_append _)
  have hdistinct : b.distinct = true := by
    rw [Blueprint.sayAll_distinct hb, Bool.or_eq_true, List.any_eq_true]
    exact .inr ⟨_, hd, rfl⟩
  obtain ⟨s₀, hs₀⟩ := hi
  obtain ⟨s, hs⟩ := exists_lastOf hs₀ (rfl : Item.initial? _ = some s₀)
  rw [hs, Option.some_or] at hinit
  have hgives : ∀ order all, (∀ groups, (order groups).Perm groups) → Accumulates all →
      GivesDistinct d ⟨s, b.onStart, b.onFinish, .ofList b.rules⟩ (ofItemsBy order all items) := by
    intro order all ho ha
    rw [← hrules]
    exact givesDistinct ho ha hb hinit hdistinct
  refine ⟨⟨s, b.onStart, b.onFinish, .ofList b.rules⟩, ofItems_relaxed hb hinit, ?_, hgives⟩
  rw [ofItems_eq_ofItemsBy]
  exact hgives _ _ Table.byText_perm accumulates_together

/-- A label that three rules have is told twice, and two patterns that are shown alike are not equal
labels. -/
theorem ofItems_distinct_interleaved :
    let items : List (Item Nat Bool Nat Nat Nat Nat Nat) :=
      [.rule true ⟨.exact 1, false, none⟩, .rule false ⟨.pattern 0, true, none⟩, .distinctLabels,
        .transition [.loops [true, false], .label (.exact 1)], .initial true,
        .rule false ⟨.pattern 1, true, none⟩, .rule true ⟨.exact 1, true, none⟩,
        .rule false ⟨.pattern 0, false, none⟩]
    let ds : List DuplicateLabel :=
      [⟨"false", "Pattern(..)"⟩, ⟨"true", "Exact(1)"⟩, ⟨"true", "Exact(1)"⟩]
    ofItemsBy List.reverse together items = .error ⟨none, .duplicateLabels ds⟩ ∧
      Reports (items.flatMap Item.declared) ds ∧
      ∃ ds', ofItems items = .error ⟨none, .duplicateLabels ds'⟩ ∧
        Reports (items.flatMap Item.declared) ds' := by
  intro items ds
  have hv : ∀ i ∈ items, i.Valid := by
    simp only [items, List.forall_mem_cons]
    exact ⟨trivial, trivial, trivial, ⟨_, rfl⟩, trivial, trivial, trivial, trivial, nofun⟩
  have hi : ∃ s, .initial s ∈ items := ⟨true, by simp [items]⟩
  have hd : .distinctLabels ∈ items := by simp [items]
  have hn : ¬ DistinctLabels (items.flatMap Item.declared) := fun h => absurd (h true) (by decide)
  obtain ⟨m, -, hm, hby⟩ := ofItems_distinct hv hi hd
  obtain ⟨ds', he, hr⟩ := (hby List.reverse together (fun _ => List.reverse_perm _)
    accumulates_together).of_repeats hn
  have hds : ofItemsBy List.reverse together items = .error ⟨none, .duplicateLabels ds⟩ := rfl
  rw [hds] at he
  cases he
  exact ⟨hds, hr, hm.of_repeats hn⟩

end Machine

end Transducer
