import Mathlib.Data.List.Forall2
import Transducer.Table

/-!
# The groups of a table

A table names each of its states once, with all of the rules that were put in for it.

* `Scan.ofRules_rel`: rules with the same labels are put to a token alike.
* `Table.states`: the states that have rules.
* `rulesOf`: the rules that a list has for a state.
* `Grouped`: some groups are those of a list of rules, in any order of the states.
* `Table.grouped_ofList`: **the groups of a table are those of the list of its rules.**
-/

namespace Transducer

/-- States, each with its rules. -/
abbrev Groups (π σ τ α : Type) := List (σ × List (Rule π σ τ α))

variable {π σ σ' τ α β : Type}

/-- Of rules that correspond, with the same labels, those labels are put to a token, and the rules
found correspond. -/
theorem Scan.ofRules_rel [BEq τ] [Pattern π τ] {R : Rule π σ τ α → Rule π σ' τ β → Prop}
    (hR : ∀ r r', R r r' → r'.label = r.label) {rules : List (Rule π σ τ α)}
    {rules' : List (Rule π σ' τ β)} (h : List.Forall₂ R rules rules') (t : τ) :
    (ofRules rules' t).tested = (ofRules rules t).tested ∧
      Option.Rel R (ofRules rules t).found (ofRules rules' t).found := by
  induction h with
  | nil => exact ⟨rfl, .none⟩
  | @cons r r' rest rest' hr _ ih =>
    have ha : r'.admits t = r.admits t := by rw [Rule.admits, Rule.admits, hR r r' hr]
    rw [ofRules, ofRules, ha, hR r r' hr]
    split
    · exact ⟨rfl, .some hr⟩
    · exact ⟨congrArg _ ih.1, ih.2⟩

variable [DecidableEq σ]

/-- The rules that the list has for the state, in the order of the list. -/
def rulesOf (d : List (σ × Rule π σ τ α)) (s : σ) : List (Rule π σ τ α) :=
  (d.filter fun r => r.1 = s).map (·.2)

theorem rulesOf_append (d d' : List (σ × Rule π σ τ α)) (s : σ) :
    rulesOf (d ++ d') s = rulesOf d s ++ rulesOf d' s := by
  rw [rulesOf, List.filter_append, List.map_append, rulesOf, rulesOf]

theorem rulesOf_append_singleton (d : List (σ × Rule π σ τ α)) (x : σ × Rule π σ τ α) (s : σ) :
    rulesOf (d ++ [x]) s = rulesOf d s ++ if x.1 = s then [x.2] else [] := by
  rw [rulesOf_append, rulesOf, rulesOf, List.filter_singleton]
  by_cases h : x.1 = s <;> simp [h]

theorem mem_rulesOf {d : List (σ × Rule π σ τ α)} {r : Rule π σ τ α} {s : σ} :
    r ∈ rulesOf d s ↔ (s, r) ∈ d := by
  constructor
  · intro h
    obtain ⟨x, hx, rfl⟩ := List.mem_map.1 h
    obtain ⟨hx, hs⟩ := List.mem_filter.1 hx
    rw [← of_decide_eq_true hs]
    exact hx
  · intro h
    exact List.mem_map.2 ⟨(s, r), List.mem_filter.2 ⟨h, decide_eq_true rfl⟩, rfl⟩

theorem length_rulesOf (d : List (σ × Rule π σ τ α)) (s : σ) :
    (rulesOf d s).length = (d.map (·.1)).count s := by
  rw [rulesOf, List.length_map, ← List.countP_eq_length_filter, List.count_eq_countP, List.countP_map]
  rfl

/-- Each state of the list has one group, which holds its rules. -/
structure Grouped (groups : Groups π σ τ α) (d : List (σ × Rule π σ τ α)) : Prop where
  nodup : (groups.map (·.1)).Nodup
  mem_iff : ∀ s, s ∈ groups.map (·.1) ↔ ∃ r, (s, r) ∈ d
  rules_eq : ∀ g ∈ groups, g.2 = rulesOf d g.1

/-- The order of the states makes no difference. -/
theorem Grouped.of_perm {groups groups' : Groups π σ τ α} {d : List (σ × Rule π σ τ α)}
    (h : Grouped groups d) (hp : groups'.Perm groups) : Grouped groups' d where
  nodup := (hp.map _).nodup_iff.2 h.nodup
  mem_iff s := (hp.map _).mem_iff.trans (h.mem_iff s)
  rules_eq g hg := h.rules_eq g (hp.mem_iff.1 hg)

theorem Grouped.rulesOf_eq_nil {groups : Groups π σ τ α} {d : List (σ × Rule π σ τ α)}
    (h : Grouped groups d) {s : σ} (hs : s ∉ groups.map (·.1)) : rulesOf d s = [] := by
  rw [rulesOf, List.map_eq_nil_iff, List.filter_eq_nil_iff]
  intro x hx hxs
  exact hs ((h.mem_iff s).2 ⟨x.2, by rw [← of_decide_eq_true hxs]; exact hx⟩)

namespace Table

/-- The states that have rules, in the order in which they first came. -/
def states (t : Table π σ τ α) : List σ := t.groups.map (·.1)

variable {t : Table π σ τ α} {source s : σ} {r : Rule π σ τ α} {d : List (σ × Rule π σ τ α)}

theorem keys_insertGroup (source : σ) (r : Rule π σ τ α) (groups : Groups π σ τ α) :
    (insertGroup source r groups).map (·.1) =
      if source ∈ groups.map (·.1) then groups.map (·.1) else groups.map (·.1) ++ [source] := by
  induction groups with
  | nil => rfl
  | cons g rest ih =>
    rw [insertGroup, List.map_cons]
    by_cases hg : g.1 = source
    · rw [if_pos hg, if_pos (List.mem_cons.2 (.inl hg.symm)), List.map_cons]
    · have hm : source ∈ g.1 :: rest.map (·.1) ↔ source ∈ rest.map (·.1) := by
        rw [List.mem_cons]
        exact or_iff_right (Ne.symm hg)
      rw [if_neg hg, List.map_cons, ih]
      simp only [hm]
      split <;> rfl

theorem states_insert :
    (t.insert source r).states = if source ∈ t.states then t.states else t.states ++ [source] :=
  keys_insertGroup source r t.groups

theorem nodup_states_insert (h : t.states.Nodup) : (t.insert source r).states.Nodup := by
  rw [states_insert]
  split
  · exact h
  next hs =>
    refine List.nodup_append.2 ⟨h, List.pairwise_singleton _ _, fun a ha b hb hab => hs ?_⟩
    rwa [← List.mem_singleton.1 hb, ← hab]

theorem mem_states_insert : s ∈ (t.insert source r).states ↔ s = source ∨ s ∈ t.states := by
  rw [states_insert]
  split
  next hs => exact ⟨.inr, fun h => h.elim (fun he => he ▸ hs) id⟩
  · rw [List.mem_append, List.mem_singleton, or_comm]

theorem nodup_states_foldl_insert (h : t.states.Nodup) :
    (d.foldl (fun t r => t.insert r.1 r.2) t).states.Nodup := by
  induction d generalizing t with
  | nil => exact h
  | cons x rest ih => exact ih (nodup_states_insert h)

theorem mem_states_foldl_insert :
    s ∈ (d.foldl (fun t r => t.insert r.1 r.2) t).states ↔ (∃ r, (s, r) ∈ d) ∨ s ∈ t.states := by
  induction d generalizing t with
  | nil => simp
  | cons x rest ih =>
    have hx : (∃ r, (s, r) = x) ↔ s = x.1 :=
      ⟨fun ⟨_, hr⟩ => congrArg Prod.fst hr, fun hs => ⟨x.2, by rw [hs]⟩⟩
    rw [List.foldl_cons, ih, mem_states_insert]
    simp only [List.mem_cons, exists_or, hx]
    rw [or_left_comm, or_assoc]

theorem rules_of_mem (h : t.states.Nodup) {g : σ × List (Rule π σ τ α)} (hg : g ∈ t.groups) :
    t.rules g.1 = g.2 := by
  obtain ⟨before, after, hsplit⟩ := List.append_of_mem hg
  have hl : t.groups.lookup g.1 = some g.2 := by
    refine List.lookup_eq_some_iff.2 ⟨before, after, hsplit, fun p hp => ?_⟩
    rw [states, hsplit, List.map_append, List.map_cons] at h
    have hne := (List.nodup_append.1 h).2.2 p.1 (List.mem_map_of_mem hp) g.1 List.mem_cons_self
    exact bne_iff_ne.2 hne.symm
  rw [rules, hl, Option.getD_some]

theorem find?_rules_ofList (d : List (σ × Rule π σ τ α)) (s : σ) (p : Rule π σ τ α → Bool) :
    ((ofList d).rules s).find? p = (d.find? fun x => x.1 = s && p x.2).map (·.2) := by
  rw [rules_ofList, List.find?_map, List.find?_filter]
  simp only [Function.comp_apply, decide_eq_true_eq, Bool.decide_and, Bool.decide_eq_true]

/-- **The groups of a table are those of the list of its rules.** -/
theorem grouped_ofList (d : List (σ × Rule π σ τ α)) : Grouped (ofList d).groups d := by
  have hn : (ofList d).states.Nodup := nodup_states_foldl_insert List.nodup_nil
  refine ⟨hn, fun s => ?_, fun g hg => ?_⟩
  · have hm := mem_states_foldl_insert (t := empty) (d := d) (s := s)
    exact hm.trans (or_iff_left List.not_mem_nil)
  · rw [← rules_of_mem hn hg, rules_ofList, rulesOf]

end Table

end Transducer
