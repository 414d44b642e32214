import Mathlib.Algebra.BigOperators.Group.List.Lemmas
import Mathlib.Algebra.Ring.Nat
import Mathlib.Data.List.Perm.Basic
import Transducer.Proofs.Tables

/-!
# Rules put into a table

What a table shows of itself is what a list of the rules put into it says, whatever the states and
however often they come again.

* `Table.Holds`: what is seen of a table is what the list says.
* `Table.Alike`: nothing that is seen of two tables tells them apart, but for the order of the
  states.
* `Table.states_perm_ofList`: the states of a table are those of the list, each once.
* `Table.holds_ofList`: **a table holds the rules put into it, in order.**
* `Table.alike_ofList`: **only the order within each state matters.**
* `Table.ofList_keeps_order`: **both, and rules of different states change places unseen.**
-/

namespace Transducer.Table

variable {π σ τ α : Type} [DecidableEq σ]

section

variable [BEq τ] [Pattern π τ]

/-- What is seen of the table is what the list of rules says: the rules of each state in the order of
the list, and the first one of the list that leaves a state and is for a token. Each state of the
list has one group, none is empty, and no rule is lost or comes twice. -/
structure Holds (t : Table π σ τ α) (d : List (σ × Rule π σ τ α)) : Prop where
  rules_eq : ∀ s, t.rules s = (d.filter fun x => x.1 = s).map (·.2)
  lookup_eq : ∀ s token,
    t.lookup s token = (d.find? fun x => x.1 = s && x.2.admits token).map (·.2)
  lookup_eq_none_iff : ∀ s token,
    t.lookup s token = none ↔ ∀ r, (s, r) ∈ d → r.admits token = false
  nodup : (t.groups.map (·.1)).Nodup
  mem_iff : ∀ s, s ∈ t.groups.map (·.1) ↔ s ∈ d.map (·.1)
  group_eq : ∀ g ∈ t.groups, g.2 = t.rules g.1 ∧ g.2 ≠ []
  size_eq : t.size = (d.map (·.1)).dedup.length
  isEmpty_iff : t.isEmpty = true ↔ d = []
  sum_eq : (t.groups.map (·.2.length)).sum = d.length

/-- Nothing that is seen of the tables tells them apart. The order of the states is not seen. -/
structure Alike (t t' : Table π σ τ α) : Prop where
  rules_eq : ∀ s, t'.rules s = t.rules s
  lookup_eq : ∀ s token, t'.lookup s token = t.lookup s token
  groups_perm : t'.groups.Perm t.groups
  size_eq : t'.size = t.size
  isEmpty_eq : t'.isEmpty = t.isEmpty

end

variable {d d' : List (σ × Rule π σ τ α)}

theorem states_perm_ofList (d : List (σ × Rule π σ τ α)) :
    (ofList d).states.Perm (d.map (·.1)).dedup := by
  have hg := grouped_ofList d
  refine (List.perm_ext_iff_of_nodup hg.nodup (List.nodup_dedup _)).2 fun s => ?_
  refine (hg.mem_iff s).trans (.trans ⟨?_, fun hs => ?_⟩ List.mem_dedup.symm)
  · rintro ⟨r, hr⟩
    exact List.mem_map.2 ⟨(s, r), hr, rfl⟩
  · obtain ⟨x, hx, rfl⟩ := List.mem_map.1 hs
    exact ⟨x.2, hx⟩

theorem size_ofList (d : List (σ × Rule π σ τ α)) : (ofList d).size = (d.map (·.1)).dedup.length := by
  rw [size, ← (states_perm_ofList d).length_eq, states, List.length_map]

theorem isEmpty_ofList_iff : (ofList d).isEmpty = true ↔ d = [] := by
  have hstates : (ofList d).groups = [] ↔ (ofList d).states = [] := List.map_eq_nil_iff.symm
  rw [isEmpty, List.isEmpty_iff, hstates]
  constructor
  · intro hs
    have hd := (states_perm_ofList d).symm
    rw [hs, List.perm_nil, List.dedup_eq_nil] at hd
    exact List.map_eq_nil_iff.1 hd
  · rintro rfl
    rfl

theorem sum_length_ofList (d : List (σ × Rule π σ τ α)) :
    ((ofList d).groups.map (·.2.length)).sum = d.length := by
  have hlength : ∀ g ∈ (ofList d).groups, g.2.length = (d.map (·.1)).count g.1 := fun g hg => by
    rw [(grouped_ofList d).rules_eq g hg, length_rulesOf]
  have hstates : ((ofList d).groups.map fun g => (d.map (·.1)).count g.1) =
      (ofList d).states.map fun s => (d.map (·.1)).count s := by
    rw [states, List.map_map]
    rfl
  rw [List.map_congr_left hlength, hstates, ((states_perm_ofList d).map _).sum_eq,
    List.sum_map_count_dedup_eq_length, List.length_map]

theorem groups_perm_ofList (h : ∀ s, rulesOf d' s = rulesOf d s) :
    (ofList d').groups.Perm (ofList d).groups := by
  have hof : ∀ d : List (σ × Rule π σ τ α),
      (ofList d).groups = (ofList d).states.map fun s => (s, rulesOf d s) := fun d => by
    rw [states, List.map_map]
    refine (List.map_id _).symm.trans (List.map_congr_left fun g hg => ?_)
    exact Prod.ext rfl ((grouped_ofList d).rules_eq g hg)
  have hstates : (ofList d').states.Perm (ofList d).states := by
    refine (List.perm_ext_iff_of_nodup (grouped_ofList d').nodup (grouped_ofList d).nodup).2 fun s => ?_
    refine ((grouped_ofList d').mem_iff s).trans (.trans ?_ ((grouped_ofList d).mem_iff s).symm)
    simp only [← mem_rulesOf, h s]
  rw [hof d, hof d', funext fun s => congrArg (Prod.mk s) (h s)]
  exact hstates.map _

theorem rulesOf_swap (front back : List (σ × Rule π σ τ α)) {a b : σ × Rule π σ τ α} (h : a.1 ≠ b.1)
    (s : σ) : rulesOf (front ++ b :: a :: back) s = rulesOf (front ++ a :: b :: back) s := by
  simp only [rulesOf, List.filter_append, List.filter_cons]
  by_cases ha : a.1 = s
  · have hb : b.1 ≠ s := fun hb => h (ha.trans hb.symm)
    simp [ha, hb]
  · simp [ha]

variable [BEq τ] [Pattern π τ]

theorem lookup_ofList (d : List (σ × Rule π σ τ α)) (s : σ) (token : τ) :
    (ofList d).lookup s token = (d.find? fun x => x.1 = s && x.2.admits token).map (·.2) := by
  rw [lookup_eq_find?, find?_rules_ofList]

/-- **A table holds the rules put into it, in order.** -/
theorem holds_ofList (d : List (σ × Rule π σ τ α)) : (ofList d).Holds d where
  rules_eq := rules_ofList d
  lookup_eq := lookup_ofList d
  lookup_eq_none_iff s token := by
    rw [lookup_eq_find?, rules_ofList, List.find?_eq_none]
    simp only [Bool.not_eq_true]
    exact forall_congr' fun r => imp_congr_left mem_rulesOf
  nodup := (grouped_ofList d).nodup
  mem_iff s := (states_perm_ofList d).mem_iff.trans List.mem_dedup
  group_eq g hg := by
    have hrules : g.2 = rulesOf d g.1 := (grouped_ofList d).rules_eq g hg
    obtain ⟨r, hr⟩ := ((grouped_ofList d).mem_iff g.1).1 (List.mem_map_of_mem hg)
    refine ⟨hrules.trans (rules_ofList d g.1).symm, ?_⟩
    rw [hrules]
    exact List.ne_nil_of_mem (mem_rulesOf.2 hr)
  size_eq := size_ofList d
  isEmpty_iff := isEmpty_ofList_iff
  sum_eq := sum_length_ofList d

/-- **Only the order within each state matters.** -/
theorem alike_ofList (h : ∀ s, rulesOf d' s = rulesOf d s) : (ofList d).Alike (ofList d') := by
  have hrules : ∀ s, (ofList d').rules s = (ofList d).rules s := fun s => by
    rw [rules_ofList, rules_ofList]
    exact h s
  have hgroups := groups_perm_ofList h
  refine ⟨hrules, fun s token => ?_, hgroups, hgroups.length_eq, ?_⟩
  · rw [lookup_eq_find?, lookup_eq_find?, hrules]
  · rw [Bool.eq_iff_iff, isEmpty, isEmpty, List.isEmpty_iff, List.isEmpty_iff]
    exact ⟨fun hn => (hn ▸ hgroups).nil_eq.symm, fun hn => (hn ▸ hgroups).eq_nil⟩

/-- **A table is the list of the rules put into it, grouped by their states.** All that is seen of it
is read off the list, at every moment; and rules of different states that are put in one behind the
other may change places, whatever comes before and behind them. -/
theorem ofList_keeps_order (d : List (σ × Rule π σ τ α)) :
    (ofList d).Holds d ∧
      (∀ source r, (ofList d).insert source r = ofList (d ++ [(source, r)])) ∧
      ∀ front a b back, d = front ++ a :: b :: back → a.1 ≠ b.1 →
        (ofList d).Alike (ofList (front ++ b :: a :: back)) := by
  refine ⟨holds_ofList d, fun source r => ?_, ?_⟩
  · rw [ofList, ofList, List.foldl_append]
    rfl
  · rintro front a b back rfl h
    exact alike_ofList (rulesOf_swap front back h)

end Transducer.Table
