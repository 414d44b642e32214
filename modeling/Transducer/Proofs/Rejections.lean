import Transducer.Proofs.Duplicates

/-!
# What items are refused for

A list of items is refused for its first flawed transition, if it has one; else for the first state
that it does not name; else for the labels that it repeats, if it may not.

* `Item.exists_first_flaw`: of some items that are not all valid, one is the first that is not.
* `Item.BuildsTo`: what items come to, in any order of the states and with any way to put the checks
  of their labels together.
* `Item.Settles`: what items come to, fault by fault.
* `Blueprint.ofItems_flawed`, `Blueprint.exists_ofItems_of_valid`: **a flawed transition hides what
  stands behind it**, and what items without one say.
* `Machine.refuses_first_fault`: **items are refused for their first fault, and for no other.**
-/

namespace Transducer

variable {π σ τ κ ω ε φ : Type}

theorem lastOf_eq_none_iff {α β : Type} {f : α → Option β} {l : List α} :
    lastOf f l = none ↔ ∀ a ∈ l, f a = none := by
  rw [lastOf, List.getLast?_eq_none_iff, List.filterMap_eq_nil_iff]

/-! ## Flawed transitions -/

namespace Item

variable {item : Item π σ τ κ ω ε φ} {items : List (Item π σ τ κ ω ε φ)}

theorem exists_of_not_valid (h : ¬ item.Valid) :
    ∃ clauses e, item = .transition clauses ∧ (Declaration.ofClauses clauses).build = .error e := by
  cases item with
  | transition clauses =>
    cases hb : (Declaration.ofClauses clauses).build with
    | error e => exact ⟨clauses, e, rfl, hb⟩
    | ok rules => exact absurd ⟨rules, hb⟩ h
  | _ => exact absurd trivial h

/-- Items that are not all valid have a first flawed transition. -/
theorem exists_first_flaw (h : ∃ i ∈ items, ¬ i.Valid) :
    ∃ before clauses after e, items = before ++ .transition clauses :: after ∧
      (∀ i ∈ before, i.Valid) ∧ (Declaration.ofClauses clauses).build = .error e := by
  induction items with
  | nil => simp at h
  | cons item rest ih =>
    by_cases hv : item.Valid
    · have hrest : ∃ i ∈ rest, ¬ i.Valid := by
        obtain ⟨i, hi, hn⟩ := h
        obtain rfl | hi := List.mem_cons.1 hi
        · exact absurd hv hn
        · exact ⟨i, hi, hn⟩
      obtain ⟨before, clauses, after, e, rfl, hbefore, he⟩ := ih hrest
      exact ⟨item :: before, clauses, after, e, rfl, List.forall_mem_cons.2 ⟨hv, hbefore⟩, he⟩
    · obtain ⟨clauses, e, rfl, he⟩ := exists_of_not_valid hv
      exact ⟨[], clauses, rest, e, rfl, nofun, he⟩

end Item

namespace Blueprint

variable {before items : List (Item π σ τ κ ω ε φ)}
  {clauses : List (Clause π σ τ (Reaction σ τ κ ω ε))} {e : BuildError}

theorem ofItems_flawed (hv : ∀ i ∈ before, i.Valid)
    (he : (Declaration.ofClauses clauses).build = .error e) (after : List (Item π σ τ κ ω ε φ)) :
    ofItems (before ++ .transition clauses :: after) = .error ⟨some before.length, e⟩ := by
  obtain ⟨b, hb⟩ := empty.sayAll_of_valid 0 hv
  rw [ofItems, sayAll_append hb, sayAll, say, he, Nat.zero_add]
  rfl

theorem exists_ofItems_of_valid (hv : ∀ i ∈ items, i.Valid) :
    ∃ b, ofItems items = .ok b ∧ b.initial = lastOf Item.initial? items ∧
      b.rules = items.flatMap Item.declared ∧ (b.distinct = true ↔ .distinctLabels ∈ items) := by
  obtain ⟨b, hb⟩ := empty.sayAll_of_valid 0 hv
  obtain ⟨hi, -, -, hr⟩ := sayAll_ok hb
  refine ⟨b, hb, hi.trans (Option.or_none ..), hr.trans (List.nil_append _), ?_⟩
  rw [sayAll_distinct hb, empty, Bool.false_or, List.any_eq_true]
  constructor
  · rintro ⟨i, hi, hd⟩
    cases i with
    | distinctLabels => exact hi
    | _ => cases hd
  · exact fun hd => ⟨_, hd, rfl⟩

end Blueprint

/-! ## What items come to -/

variable [DecidableEq σ] [BEq τ] [DecidableEq π] [Literal σ] [Literal τ]

namespace Item

/-- The items come to a machine or a rejection, with the states taken in some order for the checks of
their labels, and these put together in some way. -/
def BuildsTo (items : List (Item π σ τ κ ω ε φ))
    (x : Except Rejection (Machine π σ τ κ ω ε φ)) : Prop :=
  ∃ order all, (∀ groups, (order groups).Perm groups) ∧ Accumulates all ∧
    x = Machine.ofItemsBy order all items

theorem buildsTo_ofItems (items : List (Item π σ τ κ ω ε φ)) :
    BuildsTo items (Machine.ofItems items) :=
  ⟨Table.byText, together, Table.byText_perm, accumulates_together,
    Machine.ofItems_eq_ofItemsBy items⟩

/-- What some items come to, fault by fault. -/
structure Settles (items : List (Item π σ τ κ ω ε φ))
    (x : Except Rejection (Machine π σ τ κ ω ε φ)) : Prop where
  /-- The first flawed transition is refused, whatever stands behind it. -/
  of_flawed {before after : List (Item π σ τ κ ω ε φ)}
    {clauses : List (Clause π σ τ (Reaction σ τ κ ω ε))} {e : BuildError} :
    items = before ++ .transition clauses :: after → (∀ i ∈ before, i.Valid) →
      (Declaration.ofClauses clauses).build = .error e → x = .error ⟨some before.length, e⟩
  /-- Without a first state nothing is said of labels. -/
  of_missing : (∀ i ∈ items, i.Valid) → (∀ s, .initial s ∉ items) →
    x = .error ⟨none, .missingInitial⟩
  duplicates_iff : (∀ i ∈ items, i.Valid) → (∃ s, .initial s ∈ items) →
    ((∃ ds, x = .error ⟨none, .duplicateLabels ds⟩) ↔
      .distinctLabels ∈ items ∧ ¬ DistinctLabels (items.flatMap Item.declared))
  ok_iff : (∀ i ∈ items, i.Valid) → (∃ s, .initial s ∈ items) →
    ((∃ m, x = .ok m) ↔
      (.distinctLabels ∈ items → DistinctLabels (items.flatMap Item.declared)))
  /-- Where labels may be repeated there is no other fault. -/
  of_lenient : (∀ i ∈ items, i.Valid) → (∃ s, .initial s ∈ items) → .distinctLabels ∉ items →
    ∃ m, x = .ok m

variable {items : List (Item π σ τ κ ω ε φ)} {x : Except Rejection (Machine π σ τ κ ω ε φ)}

theorem BuildsTo.exists_givesDistinct (h : BuildsTo items x) (hv : ∀ i ∈ items, i.Valid)
    (hi : ∃ s, .initial s ∈ items) (hd : .distinctLabels ∈ items) :
    ∃ m, GivesDistinct (items.flatMap Item.declared) m x := by
  obtain ⟨order, all, ho, ha, rfl⟩ := h
  obtain ⟨s₀, hs₀⟩ := hi
  obtain ⟨s, hs⟩ := exists_lastOf hs₀ (rfl : initial? _ = some s₀)
  obtain ⟨b, hb, hinitial, hrules, hdistinct⟩ := Blueprint.exists_ofItems_of_valid hv
  rw [← hrules]
  exact ⟨_, Machine.givesDistinct ho ha hb (hinitial.trans hs) (hdistinct.2 hd)⟩

theorem BuildsTo.of_flawed (h : BuildsTo items x) {before after : List (Item π σ τ κ ω ε φ)}
    {clauses : List (Clause π σ τ (Reaction σ τ κ ω ε))} {e : BuildError}
    (hitems : items = before ++ .transition clauses :: after) (hv : ∀ i ∈ before, i.Valid)
    (he : (Declaration.ofClauses clauses).build = .error e) :
    x = .error ⟨some before.length, e⟩ := by
  obtain ⟨order, all, -, -, rfl⟩ := h
  rw [hitems, Machine.ofItemsBy, Blueprint.ofItems_flawed hv he]

theorem BuildsTo.of_missing (h : BuildsTo items x) (hv : ∀ i ∈ items, i.Valid)
    (hi : ∀ s, .initial s ∉ items) : x = .error ⟨none, .missingInitial⟩ := by
  obtain ⟨order, all, -, -, rfl⟩ := h
  obtain ⟨b, hb, hinitial, -, -⟩ := Blueprint.exists_ofItems_of_valid hv
  have hnone : lastOf initial? items = none := by
    refine lastOf_eq_none_iff.2 fun i hmem => ?_
    cases i with
    | initial s => exact absurd hmem (hi s)
    | _ => rfl
  rw [hnone] at hinitial
  simp only [Machine.ofItemsBy, hb, Blueprint.buildBy, hinitial]
  rfl

theorem BuildsTo.of_lenient (h : BuildsTo items x) (hv : ∀ i ∈ items, i.Valid)
    (hi : ∃ s, .initial s ∈ items) (hd : .distinctLabels ∉ items) : ∃ m, x = .ok m := by
  obtain ⟨order, all, -, -, rfl⟩ := h
  obtain ⟨s₀, hs₀⟩ := hi
  obtain ⟨s, hs⟩ := exists_lastOf hs₀ (rfl : initial? _ = some s₀)
  obtain ⟨b, hb, hinitial, -, hdistinct⟩ := Blueprint.exists_ofItems_of_valid hv
  have hfalse : b.distinct = false := Bool.eq_false_iff.2 fun ht => hd (hdistinct.1 ht)
  simp only [Machine.ofItemsBy, hb, Blueprint.buildBy, hinitial, hs, hfalse]
  exact ⟨_, rfl⟩

/-- What items come to is settled by their faults, in the order of these. -/
theorem BuildsTo.settles (h : BuildsTo items x) : Settles items x where
  of_flawed := h.of_flawed
  of_missing := h.of_missing
  of_lenient := h.of_lenient
  duplicates_iff hv hi := by
    by_cases hd : .distinctLabels ∈ items
    · obtain ⟨m, hm⟩ := h.exists_givesDistinct hv hi hd
      refine ⟨fun ⟨ds, hx⟩ => ⟨hd, fun hl => ?_⟩, fun ⟨_, hl⟩ => ?_⟩
      · rw [hm.of_distinct hl] at hx
        cases hx
      · obtain ⟨ds, hx, -⟩ := hm.of_repeats hl
        exact ⟨ds, hx⟩
    · obtain ⟨m, rfl⟩ := h.of_lenient hv hi hd
      exact ⟨fun ⟨ds, hx⟩ => (nomatch hx), fun hr => absurd hr.1 hd⟩
  ok_iff hv hi := by
    by_cases hd : .distinctLabels ∈ items
    · obtain ⟨m, hm⟩ := h.exists_givesDistinct hv hi hd
      refine ⟨fun ⟨m', hx⟩ _ => ?_, fun hl => ⟨m, hm.of_distinct (hl hd)⟩⟩
      refine Classical.byContradiction fun hl => ?_
      obtain ⟨ds, he, -⟩ := hm.of_repeats hl
      rw [he] at hx
      cases hx
    · exact ⟨fun _ hmem => absurd hmem hd, fun _ => h.of_lenient hv hi hd⟩

end Item

namespace Machine

/-- **Items are refused for their first fault, and for no other.** If some transition is flawed, the
error is that of the first one, told with its place, whatever stands behind it and whatever else is
missing or repeated. Else, if they name no first state, it is that, even if labels are repeated that
may not be. Else it is the repeated labels, just if labels may not be repeated and some state has two
that are equal. Else there is none, and the items give a machine. It is all the same in what order the
states are taken for the checks of their labels, and how these are put together. -/
theorem refuses_first_fault (items : List (Item π σ τ κ ω ε φ)) :
    Item.BuildsTo items (ofItems items) ∧
    ((∃ i ∈ items, ¬ i.Valid) →
      ∃ before clauses after e, items = before ++ .transition clauses :: after ∧
        (∀ i ∈ before, i.Valid) ∧ (Declaration.ofClauses clauses).build = .error e) ∧
    ∀ x, Item.BuildsTo items x → Item.Settles items x :=
  ⟨Item.buildsTo_ofItems items, Item.exists_first_flaw, fun _ h => h.settles⟩

/-- A transition without a target hides all that comes behind it; then the first state is missed, and
only then the label that is repeated. -/
theorem refuses_first_fault_mended :
    let rules : List (Item Empty Bool Nat Nat Nat Nat Nat) :=
      [.rule true ⟨.exact 1, false, none⟩, .transition [.loops [true], .label (.exact 1)]]
    let strict := .distinctLabels :: rules
    let flawed := strict ++ .transition [.sources [true]] :: [.transition [.target true], .initial true]
    ofItems flawed = .error ⟨some 3, .missingTarget⟩ ∧
      ofItems strict = .error ⟨none, .missingInitial⟩ ∧
      (∃ ds, ofItems (.initial true :: strict) = .error ⟨none, .duplicateLabels ds⟩) ∧
      ∃ m, ofItems (.initial true :: rules) = .ok m := by
  intro rules strict flawed
  have hrules : ∀ i ∈ rules, i.Valid := by
    simp only [rules, List.forall_mem_cons]
    exact ⟨trivial, ⟨_, rfl⟩, nofun⟩
  have hstrict : ∀ i ∈ strict, i.Valid := List.forall_mem_cons.2 ⟨trivial, hrules⟩
  have hinitial : ∀ i ∈ Item.initial true :: strict, i.Valid := List.forall_mem_cons.2 ⟨trivial, hstrict⟩
  have hrepeats : ¬ DistinctLabels ((Item.initial true :: strict).flatMap Item.declared) := fun h =>
    absurd (h true) (by decide)
  obtain ⟨hf, -, hflawed⟩ := refuses_first_fault flawed
  obtain ⟨hm, -, hmissing⟩ := refuses_first_fault strict
  obtain ⟨hd, -, hduplicates⟩ := refuses_first_fault (.initial true :: strict)
  obtain ⟨hl, -, hlenient⟩ := refuses_first_fault (.initial true :: rules)
  refine ⟨(hflawed _ hf).of_flawed rfl hstrict rfl, (hmissing _ hm).of_missing hstrict ?_, ?_, ?_⟩
  · simp [strict, rules]
  · exact ((hduplicates _ hd).duplicates_iff hinitial ⟨true, List.mem_cons_self⟩).2
      ⟨by simp [strict], hrepeats⟩
  · exact (hlenient _ hl).of_lenient (List.forall_mem_cons.2 ⟨trivial, hrules⟩)
      ⟨true, List.mem_cons_self⟩ (by simp [rules])

end Machine

end Transducer
