import Mathlib.Logic.Function.Basic
import Transducer.Proofs.Duplicates

/-!
# Other patterns

To declare a machine, patterns are told apart and nothing else is done with them: with other patterns
in their places, of which no two are the same, the same machine is declared with the other patterns,
whatever these cover.

* `Label.recast`, `Item.recast`, `Machine.recast`: the same with other patterns.
* `Label.recast_beq_recast`: labels are equal to each other just if they were.
* `Table.recast_ofList`, `Table.duplicates_recast`: **with other patterns the rules are grouped in the
  same way, and the same labels are repeated.**
* `Machine.ofItems_recast`: **what becomes of items with other patterns is what became of them.**
-/

namespace Transducer

variable {π π' σ τ κ ω ε φ α : Type}

/-! ## Labels and rules -/

/-- The label with another pattern. -/
def Label.recast (f : π → π') : Label π τ → Label π' τ
  | .any => .any
  | .exact value => .exact value
  | .pattern p => .pattern (f p)

/-- The rule with another pattern. -/
def Rule.recast (f : π → π') (r : Rule π σ τ α) : Rule π' σ τ α :=
  ⟨r.label.recast f, r.target, r.action⟩

/-- The rule of a state with another pattern. -/
def Rule.recastFrom (f : π → π') (d : σ × Rule π σ τ α) : σ × Rule π' σ τ α := (d.1, d.2.recast f)

namespace Label

theorem literal_recast [Literal τ] (f : π → π') (l : Label π τ) :
    literal (l.recast f) = literal l := by
  cases l <;> rfl

/-- Labels are equal to each other just if they were with the first patterns. -/
theorem recast_beq_recast [BEq τ] [DecidableEq π] [DecidableEq π'] {f : π → π'}
    (hf : Function.Injective f) (l l' : Label π τ) : (l.recast f == l'.recast f) = (l == l') := by
  match l, l' with
  | .any, .any | .any, .exact _ | .any, .pattern _ => rfl
  | .exact _, .any | .exact _, .exact _ | .exact _, .pattern _ => rfl
  | .pattern _, .any | .pattern _, .exact _ => rfl
  | .pattern p, .pattern q =>
    rw [recast, recast, pattern_beq_pattern, pattern_beq_pattern]
    exact decide_eq_decide.2 hf.eq_iff

end Label

/-! ## Declarations -/

/-- The clause with another pattern. -/
def Clause.recast (f : π → π') : Clause π σ τ α → Clause π' σ τ α
  | .sources ss => .sources ss
  | .loops ss => .loops ss
  | .target s => .target s
  | .label l => .label (l.recast f)
  | .action a => .action a

namespace Declaration

/-- The declaration with another pattern. -/
def recast (f : π → π') (d : Declaration π σ τ α) : Declaration π' σ τ α :=
  ⟨d.sources, d.loops, d.target, d.label.recast f, d.action⟩

variable (f : π → π') (d : Declaration π σ τ α)

theorem say_recast (clause : Clause π σ τ α) :
    (d.recast f).say (clause.recast f) = (d.say clause).recast f := by
  cases clause <;> rfl

theorem ofClauses_recast (clauses : List (Clause π σ τ α)) :
    ofClauses (clauses.map (.recast f)) = (ofClauses clauses).recast f := by
  suffices h : ∀ d : Declaration π σ τ α,
      (clauses.map (.recast f)).foldl say (d.recast f) = (clauses.foldl say d).recast f from h empty
  intro d
  induction clauses generalizing d with
  | nil => rfl
  | cons clause rest ih => rw [List.map_cons, List.foldl_cons, say_recast, ih, List.foldl_cons]

theorem map_rule_recast (states : List σ) (target : σ → σ) :
    (states.map fun s => (s, (d.recast f).rule (target s))) =
      (states.map fun s => (s, d.rule (target s))).map (Rule.recastFrom f) := by
  rw [List.map_map]
  rfl

theorem build_recast : (d.recast f).build = d.build.map (List.map (Rule.recastFrom f)) := by
  have hback := d.map_rule_recast f d.loops id
  simp only [id] at hback
  unfold build
  simp only [show (d.recast f).sources = d.sources from rfl,
    show (d.recast f).loops = d.loops from rfl, show (d.recast f).target = d.target from rfl, hback]
  cases d.sources with
  | nil =>
    cases d.target with
    | none => cases d.loops <;> rfl
    | some s => rfl
  | cons s rest =>
    cases d.target with
    | none => rfl
    | some s' =>
      simp only [d.map_rule_recast f (s :: rest) fun _ => s', Except.map, List.map_append]

end Declaration

/-! ## Tables -/

namespace Table

/-- The groups with other patterns. -/
def recastGroups (f : π → π') (groups : Groups π σ τ α) : Groups π' σ τ α :=
  groups.map fun g => (g.1, g.2.map (.recast f))

/-- The table with other patterns. -/
def recast (f : π → π') (t : Table π σ τ α) : Table π' σ τ α := ⟨recastGroups f t.groups⟩

section

variable [DecidableEq σ] (f : π → π')

theorem recast_insertGroup (s : σ) (r : Rule π σ τ α) (groups : Groups π σ τ α) :
    recastGroups f (insertGroup s r groups) = insertGroup s (r.recast f) (recastGroups f groups) := by
  induction groups with
  | nil => rfl
  | cons g rest ih =>
    have hcons : recastGroups f (g :: rest) =
        (g.1, g.2.map (.recast f)) :: recastGroups f rest := rfl
    rw [hcons, insertGroup, insertGroup]
    split
    · rw [recastGroups, List.map_cons, List.map_append]
      rfl
    · rw [← ih]
      rfl

theorem recast_insert (t : Table π σ τ α) (s : σ) (r : Rule π σ τ α) :
    (t.insert s r).recast f = (t.recast f).insert s (r.recast f) :=
  congrArg Table.mk (recast_insertGroup f s r t.groups)

theorem recast_ofList (d : List (σ × Rule π σ τ α)) :
    (ofList d).recast f = ofList (d.map (Rule.recastFrom f)) := by
  suffices h : ∀ t : Table π σ τ α, (d.foldl (fun t r => t.insert r.1 r.2) t).recast f =
      (d.map (Rule.recastFrom f)).foldl (fun t r => t.insert r.1 r.2) (t.recast f) from h empty
  intro t
  induction d generalizing t with
  | nil => rfl
  | cons r rest ih => rw [List.foldl_cons, ih, recast_insert, List.map_cons, List.foldl_cons]; rfl

end

variable [BEq τ] [DecidableEq π] [DecidableEq π'] {f : π → π'} (hf : Function.Injective f)

include hf

theorem repeatedLabels_recast (earlier rs : List (Rule π σ τ α)) :
    repeatedLabels (earlier.map (.recast f)) (rs.map (.recast f)) =
      (repeatedLabels earlier rs).map (.recast f) := by
  induction rs generalizing earlier with
  | nil => rfl
  | cons r rest ih =>
    have hany : ((earlier.map (.recast f)).any
        fun e : Rule π' σ τ α => e.label == (r.recast f).label) =
        earlier.any fun e => e.label == r.label := by
      rw [List.any_map]
      exact congrArg earlier.any (funext fun e => Label.recast_beq_recast hf e.label r.label)
    have hrest := ih (earlier ++ [r])
    rw [List.map_append, List.map_singleton] at hrest
    rw [List.map_cons, repeatedLabels, repeatedLabels, hany, hrest]
    split <;> rfl

theorem duplicates_recast [Literal σ] [Literal τ] (t : Table π σ τ α) :
    (t.recast f).duplicates = t.duplicates := by
  have hgroups : (t.recast f).groups.map (fun g => (literal g.1, repeatedLabels [] g.2)) =
      (t.groups.map fun g => (literal g.1, repeatedLabels [] g.2)).map
        fun g => (g.1, g.2.map (.recast f)) := by
    rw [recast, recastGroups, List.map_map, List.map_map]
    exact List.map_congr_left fun g _ => congrArg _ (repeatedLabels_recast hf [] g.2)
  have hsort := List.map_mergeSort (l := t.groups.map fun g => (literal g.1, repeatedLabels [] g.2))
    (f := fun g : String × List (Label π τ) => (g.1, g.2.map (Label.recast f)))
    (r := fun g h => Ordered.le g.1 h.1) (s := fun g h => Ordered.le g.1 h.1) fun _ _ _ _ => rfl
  rw [duplicates, hgroups, ← hsort, List.flatMap_map, duplicates]
  simp only [List.map_map, Function.comp_def, Label.literal_recast]

end Table

/-! ## Machines -/

/-- The item with other patterns. -/
def Item.recast (f : π → π') : Item π σ τ κ ω ε φ → Item π' σ τ κ ω ε φ
  | .initial s => .initial s
  | .onStart action => .onStart action
  | .onFinish action => .onFinish action
  | .transition clauses => .transition (clauses.map (.recast f))
  | .rule s r => .rule s (r.recast f)
  | .distinctLabels => .distinctLabels

/-- The machine with other patterns. -/
def Machine.recast (f : π → π') (m : Machine π σ τ κ ω ε φ) : Machine π' σ τ κ ω ε φ :=
  ⟨m.initial, m.onStart, m.onFinish, m.table.recast f⟩

namespace Blueprint

/-- The blueprint with other patterns. -/
def recast (f : π → π') (b : Blueprint π σ τ κ ω ε φ) : Blueprint π' σ τ κ ω ε φ :=
  ⟨b.initial, b.onStart, b.onFinish, b.rules.map (Rule.recastFrom f), b.distinct⟩

section

variable (f : π → π') (b : Blueprint π σ τ κ ω ε φ)

theorem say_recast (item : Item π σ τ κ ω ε φ) :
    (b.recast f).say (item.recast f) = (b.say item).map (.recast f) := by
  cases item with
  | transition clauses =>
    simp only [Item.recast, say, Declaration.ofClauses_recast, Declaration.build_recast]
    cases (Declaration.ofClauses clauses).build <;> simp [recast, Except.map]
  | rule s r => simp [Item.recast, say, recast, Except.map, Rule.recastFrom]
  | _ => rfl

theorem sayAll_recast (place : Nat) (items : List (Item π σ τ κ ω ε φ)) :
    (b.recast f).sayAll place (items.map (.recast f)) = (b.sayAll place items).map (.recast f) := by
  induction items generalizing b place with
  | nil => rfl
  | cons item rest ih =>
    rw [List.map_cons, sayAll, sayAll, say_recast]
    cases b.say item with
    | ok b' => exact ih b' (place + 1)
    | error e => rfl

end

theorem build_recast [DecidableEq σ] [BEq τ] [DecidableEq π] [DecidableEq π'] [Literal σ] [Literal τ]
    {f : π → π'} (hf : Function.Injective f) (b : Blueprint π σ τ κ ω ε φ) :
    (b.recast f).build = b.build.map (.recast f) := by
  have htable : Table.ofList (b.rules.map (Rule.recastFrom f)) = (Table.ofList b.rules).recast f :=
    (Table.recast_ofList f b.rules).symm
  unfold build recast
  simp only [htable, Table.duplicates_recast hf]
  cases b.initial with
  | none => rfl
  | some s =>
    cases b.distinct with
    | false => rfl
    | true => cases (Table.ofList b.rules).duplicates <;> rfl

end Blueprint

/-- **What becomes of items with other patterns is what became of them, with the other patterns in the
machine.** -/
theorem Machine.ofItems_recast [DecidableEq σ] [BEq τ] [DecidableEq π] [DecidableEq π'] [Literal σ]
    [Literal τ] {f : π → π'} (hf : Function.Injective f) (items : List (Item π σ τ κ ω ε φ)) :
    ofItems (items.map (.recast f)) = (ofItems items).map (.recast f) := by
  have hb : Blueprint.ofItems (items.map (.recast f)) = (Blueprint.ofItems items).map (.recast f) :=
    Blueprint.sayAll_recast f .empty 0 items
  rw [ofItems, ofItems, hb]
  cases Blueprint.ofItems items with
  | error r => rfl
  | ok b =>
    have hbuild := Blueprint.build_recast hf b
    simp only [Except.map] at hbuild ⊢
    rw [hbuild]
    cases b.build <;> rfl

end Transducer
