import Mathlib.Algebra.BigOperators.Group.List.Lemmas
import Mathlib.Data.List.Perm.Basic
import Transducer.Proofs.Rejections
import Transducer.Range

/-!
# Repetitions of one declaration

A declaration that names a state twice repeats its label there, unless the label is not equal to
itself. Declarations with labels of their own repeat nothing of each other.

* `Uniform`: rules that all have one label; `Clause.uniform_declared`: those of one declaration do.
* `repeats_append_singleton`: a rule more at the end is told of if an earlier one has its label.
* `Reports.perm`: what is told, state by state.
* `Reports.length_of_uniform`: **of rules with one label, one entry is told for each time that a state
  is named again.**
* `Reports.perm_append`: **what is told of rules with two unequal labels is told of those with the one
  and of those with the other.**
* `Item.Strictly`: items that may not repeat labels and have just some transitions; `reported`: what
  is told of them.
* `Machine.repeats_named`: **what is told of one declaration, and of two.**
-/

namespace Transducer

variable {π σ τ κ ω ε φ α : Type}

/-! ## Rules with one label -/

/-- All of the rules have the label. -/
def Uniform (l : Label π τ) (d : List (σ × Rule π σ τ α)) : Prop := ∀ x ∈ d, x.2.label = l

theorem Uniform.append {l : Label π τ} {d d' : List (σ × Rule π σ τ α)} (h : Uniform l d)
    (h' : Uniform l d') : Uniform l (d ++ d') :=
  List.forall_mem_append.2 ⟨h, h'⟩

namespace Clause

variable {clauses : List (Clause π σ τ α)}

/-- The states that the clauses name, each as often as they do: those left for the target, and behind
them those come back to. -/
def named (clauses : List (Clause π σ τ α)) : List σ :=
  clauses.flatMap leaves ++ clauses.flatMap returns

/-- The label that the clauses give; of several the last one counts. -/
def given (clauses : List (Clause π σ τ α)) : Label π τ := (lastOf label? clauses).getD .any

theorem uniform_declared : Uniform (given clauses) (declared clauses) := by
  intro x hx
  simp only [declared, List.mem_append, List.mem_flatMap, List.mem_map] at hx
  rcases hx with ⟨s', -, s, -, rfl⟩ | ⟨s, -, rfl⟩ <;> rfl

theorem sources_declared (h : ∃ rules, (Declaration.ofClauses clauses).build = .ok rules) :
    (declared clauses).map (·.1) = named clauses := by
  obtain ⟨rules, hb⟩ := h
  rw [← Declaration.eq_declared_of_build hb, named]
  rw [Declaration.ofClauses_eq] at hb
  rcases Declaration.build_eq_ok hb with ⟨hs, -, -, rfl⟩ | ⟨s', -, -, rfl⟩
  · simp [Function.comp_def, show clauses.flatMap leaves = [] from hs]
  · simp [Function.comp_def]

end Clause

section

variable [DecidableEq σ] {l : Label π τ} {d : List (σ × Rule π σ τ α)}

theorem Uniform.label_of_mem (h : Uniform l d) {s : σ} : ∀ r ∈ rulesOf d s, r.label = l :=
  fun r hr => h (s, r) (mem_rulesOf.1 hr)

theorem mem_dedup_sources : ∀ x ∈ d, x.1 ∈ (d.map (·.1)).dedup :=
  fun _ hx => List.mem_dedup.2 (List.mem_map_of_mem hx)

end

/-! ## Repetitions of a state -/

section

variable [BEq τ] [DecidableEq π] {l : Label π τ} {rs rs' : List (Rule π σ τ α)}

theorem repeats_append_singleton (rs : List (Rule π σ τ α)) (r : Rule π σ τ α) :
    repeats (rs ++ [r]) = repeats rs ++ if rs.any fun e => e.label == r.label then [r] else [] :=
  map_filter_zipIdx_append_singleton
    (fun before (x : Rule π σ τ α) => before.any fun e => e.label == x.label) rs r

theorem repeats_of_label_eq (h : ∀ r ∈ rs, r.label = l) :
    repeats rs = if l == l then rs.tail else [] := by
  induction rs using List.reverseRecOn with
  | nil => cases l == l <;> rfl
  | append_singleton rs r ih =>
    rw [List.forall_mem_append, List.forall_mem_singleton] at h
    have hlabel : ∀ e ∈ rs, (e.label == r.label) = (l == l) := fun e he => by rw [h.1 e he, h.2]
    have hany : (rs.any fun e => e.label == r.label) = (!rs.isEmpty && l == l) := by
      rw [Bool.eq_iff_iff, List.any_eq_true, Bool.and_eq_true, Bool.not_eq_true',
        List.isEmpty_eq_false_iff]
      constructor
      · rintro ⟨e, he, heq⟩
        exact ⟨List.ne_nil_of_mem he, (hlabel e he).symm.trans heq⟩
      · rintro ⟨hne, hl⟩
        obtain ⟨e, he⟩ := List.exists_mem_of_ne_nil rs hne
        exact ⟨e, he, (hlabel e he).trans hl⟩
    rw [repeats_append_singleton, ih h.1, hany]
    cases l == l <;> cases rs <;> simp

theorem repeats_append (h : ∀ e ∈ rs, ∀ r ∈ rs', (e.label == r.label) = false) :
    repeats (rs ++ rs') = repeats rs ++ repeats rs' := by
  induction rs' using List.reverseRecOn with
  | nil => simp [repeats]
  | append_singleton rs' r ih =>
    have hr : (rs.any fun e => e.label == r.label) = false := List.any_eq_false.2 fun e he =>
      Bool.eq_false_iff.1 (h e he r (List.mem_append_right _ List.mem_cons_self))
    rw [← List.append_assoc, repeats_append_singleton, List.any_append, hr, Bool.false_or,
      repeats_append_singleton, ← List.append_assoc,
      ih fun e he r' hr' => h e he r' (List.mem_append_left _ hr')]

theorem duplicatesOf_of_label_eq [Literal σ] [Literal τ] (s : σ) (h : ∀ r ∈ rs, r.label = l) :
    duplicatesOf s rs =
      if l == l then List.replicate (rs.length - 1) ⟨literal s, literal l⟩ else [] := by
  rw [duplicatesOf, repeats_of_label_eq h]
  split
  · rw [List.eq_replicate_iff, List.length_map, List.length_tail]
    refine ⟨rfl, fun e he => ?_⟩
    obtain ⟨r, hr, rfl⟩ := List.mem_map.1 he
    rw [h r (List.mem_of_mem_tail hr)]
  · rfl

end

/-! ## Repetitions of all states -/

section

variable [BEq τ] [DecidableEq π] [DecidableEq σ] {l l' : Label π τ} {d d' : List (σ × Rule π σ τ α)}

theorem distinctLabels_iff : DistinctLabels d ↔ ∀ s, repeats (rulesOf d s) = [] :=
  forall_congr' fun _ => repeats_eq_nil_iff.symm

theorem Uniform.distinctLabels_iff_nodup (h : Uniform l d) (hl : (l == l) = true) :
    DistinctLabels d ↔ (d.map (·.1)).Nodup := by
  rw [distinctLabels_iff, List.nodup_iff_count_le_one]
  refine forall_congr' fun s => ?_
  rw [repeats_of_label_eq h.label_of_mem, if_pos hl, ← List.length_eq_zero_iff, List.length_tail,
    length_rulesOf]
  omega

theorem Uniform.distinctLabels (h : Uniform l d) (hl : (l == l) = false) : DistinctLabels d :=
  distinctLabels_iff.2 fun s => by
    rw [repeats_of_label_eq h.label_of_mem, hl]
    rfl

theorem Uniform.distinctLabels_congr (h : Uniform l d) (h' : Uniform l d')
    (hs : d.map (·.1) = d'.map (·.1)) : DistinctLabels d ↔ DistinctLabels d' := by
  cases hl : l == l with
  | false => exact iff_of_true (h.distinctLabels hl) (h'.distinctLabels hl)
  | true => rw [h.distinctLabels_iff_nodup hl, h'.distinctLabels_iff_nodup hl, hs]

theorem repeats_rulesOf_append (h : Uniform l d) (h' : Uniform l' d') (hl : (l == l') = false)
    (s : σ) : repeats (rulesOf (d ++ d') s) = repeats (rulesOf d s) ++ repeats (rulesOf d' s) := by
  rw [rulesOf_append]
  refine repeats_append fun e he r hr => ?_
  rw [h.label_of_mem e he, h'.label_of_mem r hr, hl]

theorem distinctLabels_append (h : Uniform l d) (h' : Uniform l' d') (hl : (l == l') = false) :
    DistinctLabels (d ++ d') ↔ DistinctLabels d ∧ DistinctLabels d' := by
  simp only [distinctLabels_iff, repeats_rulesOf_append h h' hl, List.append_eq_nil_iff, forall_and]

variable [Literal σ] [Literal τ] {ds ds' : List DuplicateLabel}

theorem DistinctLabels.reports (h : DistinctLabels d) : Reports d [] := by
  refine ⟨(d.map (·.1)).dedup, List.nodup_dedup _, fun s => ?_, ?_⟩
  · simp
  · refine (List.flatMap_eq_nil_iff.2 fun s _ => ?_).symm
    rw [duplicatesOf, distinctLabels_iff.1 h s, List.map_nil]

/-- More states may be looked at, in any order: nothing is told of a state without rules. -/
theorem Reports.perm (h : Reports d ds) {states : List σ} (hn : states.Nodup)
    (hs : ∀ x ∈ d, x.1 ∈ states) :
    ds.Perm (states.flatMap fun s => duplicatesOf s (rulesOf d s)) := by
  obtain ⟨leaving, hleaving, hmem, rfl⟩ := h
  have hsub : leaving.Perm (states.filter fun s => s ∈ leaving) := by
    refine (List.perm_ext_iff_of_nodup hleaving (hn.filter _)).2 fun s => ?_
    rw [List.mem_filter, decide_eq_true_eq, iff_and_self, hmem]
    exact fun ⟨r, hr⟩ => hs _ hr
  have hnone : ∀ s ∈ states.filter (fun s => !decide (s ∈ leaving)),
      duplicatesOf s (rulesOf d s) = [] := by
    intro s hs
    have hnot : s ∉ leaving := by simpa using (List.mem_filter.1 hs).2
    have hnil : rulesOf d s = [] := List.eq_nil_iff_forall_not_mem.2 fun r hr =>
      hnot ((hmem s).2 ⟨r, mem_rulesOf.1 hr⟩)
    rw [hnil]
    rfl
  have hsplit := (List.filter_append_perm (fun s => decide (s ∈ leaving)) states).flatMap_right
    fun s => duplicatesOf s (rulesOf d s)
  rw [List.flatMap_append, List.flatMap_eq_nil_iff.2 hnone, List.append_nil] at hsplit
  exact (hsub.flatMap_right _).trans hsplit

/-- **Of rules with one label one entry is told for each time that a state is named again.** -/
theorem Reports.length_of_uniform (h : Reports d ds) (hd : Uniform l d) (hl : (l == l) = true) :
    ds.length = (d.map (·.1)).length - (d.map (·.1)).dedup.length := by
  have hpos : ∀ s ∈ (d.map (·.1)).dedup, (d.map (·.1)).count s - 1 + 1 = (d.map (·.1)).count s :=
    fun s hs => Nat.sub_add_cancel (List.count_pos_iff.2 (List.mem_dedup.1 hs))
  have hsum := List.sum_map_count_dedup_eq_length (d.map (·.1))
  rw [← List.map_congr_left hpos, List.sum_map_add] at hsum
  rw [(h.perm (List.nodup_dedup _) mem_dedup_sources).length_eq, List.length_flatMap, ← hsum]
  simp only [duplicatesOf_of_label_eq _ hd.label_of_mem, hl, if_true, List.length_replicate,
    length_rulesOf]
  simp

theorem Reports.perm_of_uniform (h : Reports d ds) (h' : Reports d' ds') (hd : Uniform l d)
    (hd' : Uniform l d') (hs : d.map (·.1) = d'.map (·.1)) : ds.Perm ds' := by
  have hsame : ∀ s, duplicatesOf s (rulesOf d s) = duplicatesOf s (rulesOf d' s) := fun s => by
    rw [duplicatesOf_of_label_eq s hd.label_of_mem, duplicatesOf_of_label_eq s hd'.label_of_mem,
      length_rulesOf, length_rulesOf, hs]
  have hmem : ∀ x ∈ d', x.1 ∈ (d.map (·.1)).dedup := by
    rw [hs]
    exact mem_dedup_sources
  have hp := h.perm (List.nodup_dedup _) mem_dedup_sources
  simp only [hsame] at hp
  exact hp.trans (h'.perm (List.nodup_dedup _) hmem).symm

/-- **What is told of rules with two unequal labels is told of those with the one and of those with
the other.** -/
theorem Reports.perm_append {all : List DuplicateLabel} (h : Reports (d ++ d') all) (h₁ : Reports d ds)
    (h₂ : Reports d' ds') (hd : Uniform l d) (hd' : Uniform l' d') (hl : (l == l') = false) :
    all.Perm (ds ++ ds') := by
  have hmem := List.forall_mem_append.1 (mem_dedup_sources (d := d ++ d'))
  have hsplit : ∀ s, duplicatesOf s (rulesOf (d ++ d') s) =
      duplicatesOf s (rulesOf d s) ++ duplicatesOf s (rulesOf d' s) := fun s => by
    rw [duplicatesOf, repeats_rulesOf_append hd hd' hl, List.map_append, duplicatesOf, duplicatesOf]
  have hp := h.perm (List.nodup_dedup _) mem_dedup_sources
  simp only [hsplit] at hp
  refine hp.trans ((List.flatMap_append_perm ..).symm.trans (.append ?_ ?_))
  · exact (h₁.perm (List.nodup_dedup _) hmem.1).symm
  · exact (h₂.perm (List.nodup_dedup _) hmem.2).symm

end

/-! ## Items -/

/-- The duplicates that are told of. -/
def reported : Except Rejection (Machine π σ τ κ ω ε φ) → List DuplicateLabel
  | .ok _ => []
  | .error r => r.error.duplicates

namespace Item

/-- The item declares rules. -/
def declares : Item π σ τ κ ω ε φ → Bool
  | .transition _ => true
  | .rule _ _ => true
  | _ => false

/-- The items are those of a machine that may not repeat labels and has just the transitions, all of
them valid. -/
structure Strictly (items : List (Item π σ τ κ ω ε φ))
    (transitions : List (List (Clause π σ τ (Reaction σ τ κ ω ε)))) : Prop where
  initial : ∃ s, .initial s ∈ items
  distinct : .distinctLabels ∈ items
  declares_eq : items.filter declares = transitions.map .transition
  valid : ∀ clauses ∈ transitions, ∃ rules, (Declaration.ofClauses clauses).build = .ok rules

variable {items : List (Item π σ τ κ ω ε φ)}
  {transitions : List (List (Clause π σ τ (Reaction σ τ κ ω ε)))}

theorem Strictly.valid_of_mem (h : Strictly items transitions) : ∀ i ∈ items, i.Valid := by
  intro i hi
  cases i with
  | transition clauses =>
    have hmem : .transition clauses ∈ items.filter declares := List.mem_filter.2 ⟨hi, rfl⟩
    rw [h.declares_eq, List.mem_map] at hmem
    obtain ⟨_, hc, he⟩ := hmem
    cases he
    exact h.valid _ hc
  | _ => trivial

theorem strictly_transitions (s : σ)
    (h : ∀ clauses ∈ transitions, ∃ rules, (Declaration.ofClauses clauses).build = .ok rules) :
    Strictly (.initial s :: .distinctLabels :: transitions.map .transition : List (Item π σ τ κ ω ε φ))
      transitions where
  initial := ⟨s, List.mem_cons_self⟩
  distinct := List.mem_cons_of_mem _ List.mem_cons_self
  declares_eq := by
    rw [List.filter_cons_of_neg Bool.false_ne_true, List.filter_cons_of_neg Bool.false_ne_true,
      List.filter_eq_self]
    intro i hi
    obtain ⟨_, -, rfl⟩ := List.mem_map.1 hi
    rfl
  valid := h

theorem Strictly.declared_eq (h : Strictly items transitions) :
    items.flatMap declared = transitions.flatMap Clause.declared := by
  have hf : ∀ l : List (Item π σ τ κ ω ε φ),
      (l.filter declares).flatMap declared = l.flatMap declared := by
    intro l
    induction l with
    | nil => rfl
    | cons i rest ih => cases i <;> simp [List.filter_cons, declares, declared, ih]
  rw [← hf, h.declares_eq, List.flatMap_map]
  rfl

variable [DecidableEq σ] [BEq τ] [DecidableEq π] [Literal σ] [Literal τ]
  {x x₁ x₂ : Except Rejection (Machine π σ τ κ ω ε φ)} {items₁ items₂ : List (Item π σ τ κ ω ε φ)}
  {clauses clauses₁ clauses₂ : List (Clause π σ τ (Reaction σ τ κ ω ε))}

/-- What the rules repeat is what is told of, and if they repeat nothing there is a machine. -/
structure Tells (d : List (σ × Rule π σ τ (Reaction σ τ κ ω ε)))
    (x : Except Rejection (Machine π σ τ κ ω ε φ)) : Prop where
  reports : Reports d (reported x)
  ok_iff : (∃ m, x = .ok m) ↔ DistinctLabels d
  eq_error : ¬ DistinctLabels d → x = .error ⟨none, .duplicateLabels (reported x)⟩

theorem Tells.ok_or_error {d : List (σ × Rule π σ τ (Reaction σ τ κ ω ε))} (h : Tells d x) :
    (∃ m, x = .ok m) ∨ x = .error ⟨none, .duplicateLabels (reported x)⟩ := by
  by_cases hd : DistinctLabels d
  · exact .inl (h.ok_iff.2 hd)
  · exact .inr (h.eq_error hd)

theorem Strictly.tells (h : Strictly items transitions) (hx : BuildsTo items x) :
    Tells (transitions.flatMap Clause.declared) x := by
  obtain ⟨m, hm⟩ := hx.exists_givesDistinct h.valid_of_mem h.initial h.distinct
  rw [h.declared_eq] at hm
  by_cases hd : DistinctLabels (transitions.flatMap Clause.declared)
  · rw [hm.of_distinct hd]
    exact ⟨hd.reports, iff_of_true ⟨m, rfl⟩ hd, absurd hd⟩
  · obtain ⟨ds, he, hr⟩ := hm.of_repeats hd
    rw [he]
    exact ⟨hr, iff_of_false (fun ⟨_, hm'⟩ => nomatch hm') hd, fun _ => rfl⟩

theorem Strictly.tells_one (h : Strictly items [clauses]) (hx : BuildsTo items x) :
    Tells (Clause.declared clauses) x ∧
      (Clause.declared clauses).map (·.1) = Clause.named clauses := by
  have ht := h.tells hx
  rw [List.flatMap_singleton] at ht
  exact ⟨ht, Clause.sources_declared (h.valid _ List.mem_cons_self)⟩

theorem Strictly.tells_two (h : Strictly items [clauses₁, clauses₂]) (hx : BuildsTo items x) :
    Tells (Clause.declared clauses₁ ++ Clause.declared clauses₂) x ∧
      (Clause.declared clauses₁ ++ Clause.declared clauses₂).map (·.1) =
        Clause.named clauses₁ ++ Clause.named clauses₂ := by
  have ht := h.tells hx
  rw [List.flatMap_cons, List.flatMap_singleton] at ht
  refine ⟨ht, ?_⟩
  rw [List.map_append, Clause.sources_declared (h.valid _ List.mem_cons_self),
    Clause.sources_declared (h.valid _ (List.mem_cons_of_mem _ List.mem_cons_self))]

theorem Strictly.reported_apart (h : Strictly items [clauses₁, clauses₂]) (hx : BuildsTo items x)
    (h₁ : Strictly items₁ [clauses₁]) (hx₁ : BuildsTo items₁ x₁) (h₂ : Strictly items₂ [clauses₂])
    (hx₂ : BuildsTo items₂ x₂) (hl : (Clause.given clauses₁ == Clause.given clauses₂) = false) :
    (reported x).Perm (reported x₁ ++ reported x₂) ∧
      ((∃ m, x = .ok m) ↔ (∃ m, x₁ = .ok m) ∧ ∃ m, x₂ = .ok m) := by
  obtain ⟨ht, -⟩ := h.tells_two hx
  obtain ⟨ht₁, -⟩ := h₁.tells_one hx₁
  obtain ⟨ht₂, -⟩ := h₂.tells_one hx₂
  refine ⟨ht.reports.perm_append ht₁.reports ht₂.reports Clause.uniform_declared
    Clause.uniform_declared hl, ?_⟩
  rw [ht.ok_iff, ht₁.ok_iff, ht₂.ok_iff,
    distinctLabels_append Clause.uniform_declared Clause.uniform_declared hl]

/-- Of two declarations with one label it is told what is told of one that names the states of both. -/
theorem Strictly.reported_together (h : Strictly items [clauses₁, clauses₂]) (hx : BuildsTo items x)
    (h₁ : Strictly items₁ [clauses]) (hx₁ : BuildsTo items₁ x₁)
    (hl₁ : Clause.given clauses₁ = Clause.given clauses)
    (hl₂ : Clause.given clauses₂ = Clause.given clauses)
    (hs : Clause.named clauses = Clause.named clauses₁ ++ Clause.named clauses₂) :
    (reported x).Perm (reported x₁) ∧ ((∃ m, x = .ok m) ↔ ∃ m, x₁ = .ok m) := by
  obtain ⟨ht, hnamed⟩ := h.tells_two hx
  obtain ⟨ht₁, hnamed₁⟩ := h₁.tells_one hx₁
  have hd : Uniform (Clause.given clauses) (Clause.declared clauses₁ ++ Clause.declared clauses₂) :=
    .append (hl₁ ▸ Clause.uniform_declared) (hl₂ ▸ Clause.uniform_declared)
  have hsources := hnamed.trans (hs.symm.trans hnamed₁.symm)
  refine ⟨ht.reports.perm_of_uniform ht₁.reports hd Clause.uniform_declared hsources, ?_⟩
  rw [ht.ok_iff, ht₁.ok_iff, hd.distinctLabels_congr Clause.uniform_declared hsources]

theorem Strictly.reported_one (h : Strictly items [clauses]) (hx : BuildsTo items x)
    (hl : (Clause.given clauses == Clause.given clauses) = true) :
    ((∃ m, x = .ok m) ↔ (Clause.named clauses).Nodup) ∧
      (¬ (Clause.named clauses).Nodup → ∃ ds, x = .error ⟨none, .duplicateLabels ds⟩ ∧
        ds.length = (Clause.named clauses).length - (Clause.named clauses).dedup.length) := by
  obtain ⟨ht, hnamed⟩ := h.tells_one hx
  have hnodup := Clause.uniform_declared.distinctLabels_iff_nodup hl
  have hlength := ht.reports.length_of_uniform Clause.uniform_declared hl
  rw [hnamed] at hnodup hlength
  exact ⟨ht.ok_iff.trans hnodup, fun hn => ⟨_, ht.eq_error (mt hnodup.1 hn), hlength⟩⟩

end Item

namespace Machine

variable [DecidableEq σ] [BEq τ] [DecidableEq π] [Literal σ] [Literal τ]

/-- **What is told of one declaration, and of two.** If labels may not be repeated, a machine with one
declaration is built just if this names no state twice, whether to be left for the target or to be
come back to; else one entry is told for each time that a state is named again. Only a value that is
not equal to itself makes a label that is not, and then the machine is always built. With two
declarations there is a machine or nothing but repetitions is told: of declarations with patterns of
their own, whatever these cover, what is told is what is told of each; of declarations with one label
it is what is told of one that names the states of both. -/
theorem repeats_named :
    (∀ (items : List (Item π σ τ κ ω ε φ)) clauses, Item.Strictly items [clauses] →
      ∀ x, Item.BuildsTo items x →
        let l := Clause.given clauses
        let states := Clause.named clauses
        ((l == l) = false ↔ ∃ v, l = .exact v ∧ (v == v) = false) ∧
        ((l == l) = true →
          ((∃ m, x = .ok m) ↔ states.Nodup) ∧
          (¬ states.Nodup → ∃ ds, x = .error ⟨none, .duplicateLabels ds⟩ ∧
            ds.length = states.length - states.dedup.length)) ∧
        ((l == l) = false → ∃ m, x = .ok m)) ∧
    ∀ (items : List (Item π σ τ κ ω ε φ)) clauses₁ clauses₂,
      Item.Strictly items [clauses₁, clauses₂] → ∀ x, Item.BuildsTo items x →
        ((∃ m, x = .ok m) ∨ x = .error ⟨none, .duplicateLabels (reported x)⟩) ∧
        (∀ (items₁ items₂ : List (Item π σ τ κ ω ε φ)) x₁ x₂ p q, Item.Strictly items₁ [clauses₁] →
          Item.BuildsTo items₁ x₁ → Item.Strictly items₂ [clauses₂] → Item.BuildsTo items₂ x₂ →
          Clause.given clauses₁ = .pattern p → Clause.given clauses₂ = .pattern q → p ≠ q →
            (reported x).Perm (reported x₁ ++ reported x₂) ∧
              ((∃ m, x = .ok m) ↔ (∃ m, x₁ = .ok m) ∧ ∃ m, x₂ = .ok m)) ∧
        ∀ (items' : List (Item π σ τ κ ω ε φ)) clauses x', Item.Strictly items' [clauses] →
          Item.BuildsTo items' x' → Clause.given clauses₁ = Clause.given clauses →
          Clause.given clauses₂ = Clause.given clauses →
          Clause.named clauses = Clause.named clauses₁ ++ Clause.named clauses₂ →
            (reported x).Perm (reported x') ∧ ((∃ m, x = .ok m) ↔ ∃ m, x' = .ok m) := by
  refine ⟨fun items clauses h x hx => ⟨Label.beq_self_eq_false_iff, h.reported_one hx, fun hl => ?_⟩,
    fun items clauses₁ clauses₂ h x hx =>
      ⟨(h.tells hx).ok_or_error, fun items₁ items₂ x₁ x₂ p q h₁ hx₁ h₂ hx₂ hp hq hne => ?_, ?_⟩⟩
  · exact (h.tells_one hx).1.ok_iff.2 (Clause.uniform_declared.distinctLabels hl)
  · refine h.reported_apart hx h₁ hx₁ h₂ hx₂ ?_
    rw [hp, hq, Label.pattern_beq_pattern]
    exact decide_eq_false hne
  · exact fun items' clauses x' h' hx' => h.reported_together hx h' hx'

/-- A state named twice is told once. A second declaration is told for itself if its pattern is another
one, even one over the same range, and with the first one if the pattern is the same; and where zero is
equal to nothing, a label for it is never repeated. -/
theorem repeats_named_ranges :
    let range (n : Nat) : Label (Numbered Nat) Nat := .pattern ⟨n, .closed 1 5⟩
    let move (l : Label (Numbered Nat) Nat) :
        List (Clause (Numbered Nat) Bool Nat (Reaction Bool Nat Nat Nat Nat)) :=
      [.sources [true, false], .target false, .loops [true], .label l]
    let stay (l : Label (Numbered Nat) Nat) :
        List (Clause (Numbered Nat) Bool Nat (Reaction Bool Nat Nat Nat Nat)) :=
      [.loops [true, true], .label l]
    let strict (transitions) : List (Item (Numbered Nat) Bool Nat Nat Nat Nat Nat) :=
      .initial true :: .distinctLabels :: transitions.map .transition
    (∃ ds, ofItems (strict [move (range 0)]) = .error ⟨none, .duplicateLabels ds⟩ ∧ ds.length = 1) ∧
      (reported (ofItems (strict [move (range 0), stay (range 1)]))).length = 2 ∧
      (reported (ofItems (strict [move (range 0), stay (range 0)]))).length = 3 ∧
      let _ : BEq Nat := ⟨fun a b => decide (a = b ∧ a ≠ 0)⟩
      ∃ m, ofItems (strict [stay (.exact 0)]) = .ok m := by
  intro range move stay strict
  have hone : ∀ clauses, (∃ rules, (Declaration.ofClauses clauses).build = .ok rules) →
      Item.Strictly (strict [clauses]) [clauses] := fun clauses h =>
    Item.strictly_transitions true (List.forall_mem_singleton.2 h)
  have htwo : ∀ l, Item.Strictly (strict [move (range 0), stay l]) [move (range 0), stay l] := fun l =>
    Item.strictly_transitions true
      (List.forall_mem_cons.2 ⟨⟨_, rfl⟩, List.forall_mem_singleton.2 ⟨_, rfl⟩⟩)
  have hb := Item.buildsTo_ofItems (π := Numbered Nat) (σ := Bool) (τ := Nat) (κ := Nat) (ω := Nat)
    (ε := Nat) (φ := Nat)
  have hmove := hone (move (range 0)) ⟨_, rfl⟩
  have hstay := hone (stay (range 1)) ⟨_, rfl⟩
  have hboth := hone [.loops [true, false, true, true, true], .label (range 0)] ⟨_, rfl⟩
  obtain ⟨ds, hx, hlength⟩ := ((repeats_named.1 _ _ hmove _ (hb _)).2.1 rfl).2 (by decide)
  obtain ⟨ds₁, hx₁, hlength₁⟩ := ((repeats_named.1 _ _ hstay _ (hb _)).2.1 rfl).2 (by decide)
  obtain ⟨ds₂, hx₂, hlength₂⟩ := ((repeats_named.1 _ _ hboth _ (hb _)).2.1 rfl).2 (by decide)
  have hapart := ((repeats_named.2 _ _ _ (htwo (range 1)) _ (hb _)).2.1 _ _ _ _ _ _ hmove (hb _) hstay
    (hb _) rfl rfl (by decide)).1.length_eq
  have htogether := ((repeats_named.2 _ _ _ (htwo (range 0)) _ (hb _)).2.2 _ _ _ hboth (hb _) rfl rfl
    rfl).1.length_eq
  rw [List.length_append, hx, hx₁] at hapart
  rw [hx₂] at htogether
  refine ⟨⟨ds, hx, hlength⟩, hapart.trans ?_, htogether.trans hlength₂, ?_⟩
  · exact congrArg₂ (· + ·) hlength hlength₁
  · intro never
    exact (repeats_named.1 _ _ (hone (stay (.exact 0)) ⟨_, rfl⟩) _ (Item.buildsTo_ofItems _)).2.2 rfl

end Machine

end Transducer
