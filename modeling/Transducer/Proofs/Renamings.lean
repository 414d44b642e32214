import Mathlib.Data.List.Forall2
import Mathlib.Logic.Function.Basic
import Transducer.Proofs.Duplicates
import Transducer.Proofs.Simulations

/-!
# Other names for the states

A machine does nothing with its states but tell them apart and hand them to its actions. With other
names for them, of which no two are the same, it goes the same way.

* `Walk.rename`, `Run.rename`, `Execution.rename`: the same with other names for the states.
* `Item.Renamed`, `Machine.Renamed`: what is declared of a machine, and the machine, with other names;
  its actions do the same where they are told of states by these.
* `Table.Renamed.insert`, `Table.Renamed.rules`: **rules of different states stay apart.**
* `Blueprint.Renamed.build`: **the machine that is declared with other names is the machine with
  other names.**
* `Machine.Renamed.simulates`: **with other names a machine takes the same steps.**
* `Machine.names_unseen`: **what the states are called makes no difference to anything else.**
-/

namespace Transducer

variable {π σ σ' τ κ ω ε φ α β : Type}

/-! ## Histories, failures and journals -/

/-- The transition with other names. -/
def Transition.rename (f : σ → σ') (t : Transition σ) : Transition σ' :=
  ⟨f t.source, f t.target, t.position⟩

namespace History

/-- The history with other names. -/
def rename (f : σ → σ') (h : History σ) : History σ' := ⟨h.transitions.map (·.rename f)⟩

variable (f : σ → σ') (h : History σ) (t : Transition σ)

@[simp] theorem rename_record : (h.record t).rename f = (h.rename f).record (t.rename f) := by
  simp [rename, record]

theorem path_rename : (h.rename f).path = h.path.map f := by
  unfold path rename
  cases h.transitions with
  | nil => rfl
  | cons t rest => simp [Transition.rename]

end History

/-- The report with another name. -/
def UnexpectedToken.rename (f : σ → σ') (u : UnexpectedToken σ τ) : UnexpectedToken σ' τ :=
  ⟨f u.state, u.token⟩

/-- The failure with another name; an error that an action raised stays as it is. -/
def Failure.rename (f : σ → σ') : Failure σ τ ε → Failure σ' τ ε
  | .unexpected report => .unexpected (report.rename f)
  | .raised error => .raised error

/-- The event with other names. -/
def Event.rename (f : σ → σ') : Event σ τ → Event σ' τ
  | .started s => .started (f s)
  | .moved s s' t => .moved (f s) (f s') t
  | .stuck report n => .stuck (report.rename f) n
  | .finished s n => .finished (f s) n

/-- The invocation with other names. -/
def Invocation.rename (f : σ → σ') : Invocation σ τ → Invocation σ' τ
  | .start => .start
  | .reaction t s s' => .reaction t (f s) (f s')
  | .finish => .finish

/-- The line with other names. -/
def Entry.rename (f : σ → σ') : Entry π σ τ → Entry π σ' τ
  | .tested l t => .tested l t
  | .event e => .event (e.rename f)
  | .invoked i => .invoked (i.rename f)

/-! ## Walks -/

/-- The walk with other names. -/
def Walk.rename (f : σ → σ') (w : Walk π σ τ κ) : Walk π σ' τ κ :=
  ⟨f w.state, w.position, w.history.map (History.rename f), w.context, w.journal.map (Entry.rename f)⟩

/-- The second walk is the first one with other names. -/
def Walk.Renamed (f : σ → σ') (w : Walk π σ τ κ) (w' : Walk π σ' τ κ) : Prop := w' = w.rename f

/-- The step with other names. -/
def Stride.rename (f : σ → σ') (s : Stride π σ τ κ ω ε α) : Stride π σ' τ κ ω ε α :=
  ⟨s.walk.rename f, s.emits, s.result.mapError (Failure.rename f)⟩

namespace Walk

variable (f : σ → σ') (w : Walk π σ τ κ)

theorem rename_note (entries : List (Entry π σ τ)) :
    (w.note entries).rename f = (w.rename f).note (entries.map (Entry.rename f)) := by
  simp [note, rename]

theorem rename_tested (labels : List (Label π τ)) (t : τ) :
    (w.note (labels.map (.tested · t))).rename f =
      (w.rename f).note (labels.map (.tested · t)) := by
  rw [rename_note, List.map_map]
  rfl

theorem rename_recording : w.recording.rename f = (w.rename f).recording := by
  unfold recording rename
  cases w.history <;> rfl

theorem rename_move (target : σ) (t : τ) :
    (w.move target t).rename f = (w.rename f).move (f target) t := by
  unfold move rename
  cases w.history <;> simp [note, Entry.rename, Event.rename, Transition.rename]

theorem rename_invoke (i : Invocation σ τ) (capturing : Bool) (action : Option (Action κ ω ε α)) :
    (w.rename f).invoke (i.rename f) capturing action = (w.invoke i capturing action).rename f := by
  cases action with
  | none => rfl
  | some a =>
    have hc : (w.rename f).context = w.context := rfl
    simp only [invoke, hc]
    cases (a capturing w.context).result <;>
      simp [Stride.rename, rename, note, Entry.rename, Failure.rename, Except.mapError]

end Walk

theorem Stride.rename_map (f : σ → σ') (s : Stride π σ τ κ ω ε α) (g : α → β) :
    (s.map g).rename f = (s.rename f).map g := by
  unfold map rename
  cases s.result <;> rfl

/-- The run of a machine with other names. -/
def Run.rename (f : σ → σ') (m' : Machine π σ' τ κ ω ε φ) (r : Run π σ τ κ ω ε φ) :
    Run π σ' τ κ ω ε φ :=
  ⟨m', r.input, r.walk.rename f, r.asked, r.pending, r.phase⟩

/-- The execution with other names. -/
def Execution.rename (f : σ → σ') (e : Execution π σ τ κ ε φ) : Execution π σ' τ κ ε φ :=
  ⟨e.walk.rename f, e.asked, e.result.mapError (Failure.rename f)⟩

/-! ## Declarations -/

/-- The actions do the same, the second one told of states by their other names. -/
def Reaction.Renamed (f : σ → σ') (react : Reaction σ τ κ ω ε) (react' : Reaction σ' τ κ ω ε) : Prop :=
  ∀ t s s', react' t (f s) (f s') = react t s s'

/-- The second rule is the first one with other names. -/
structure Rule.Renamed (f : σ → σ') (r : Rule π σ τ (Reaction σ τ κ ω ε))
    (r' : Rule π σ' τ (Reaction σ' τ κ ω ε)) : Prop where
  label_eq : r'.label = r.label
  target_eq : r'.target = f r.target
  action : Option.Rel (Reaction.Renamed f) r.action r'.action

/-- The second rule is the first one with other names, and so is the state that it leaves. -/
structure Rule.RenamedFrom (f : σ → σ') (d : σ × Rule π σ τ (Reaction σ τ κ ω ε))
    (d' : σ' × Rule π σ' τ (Reaction σ' τ κ ω ε)) : Prop where
  source_eq : d'.1 = f d.1
  rule : d.2.Renamed f d'.2

/-- The second clause says the same with other names. -/
inductive Clause.Renamed (f : σ → σ') :
    Clause π σ τ (Reaction σ τ κ ω ε) → Clause π σ' τ (Reaction σ' τ κ ω ε) → Prop
  | sources (states : List σ) : Renamed f (.sources states) (.sources (states.map f))
  | loops (states : List σ) : Renamed f (.loops states) (.loops (states.map f))
  | target (state : σ) : Renamed f (.target state) (.target (f state))
  | label (l : Label π τ) : Renamed f (.label l) (.label l)
  | action {react : Reaction σ τ κ ω ε} {react' : Reaction σ' τ κ ω ε} :
      Reaction.Renamed f react react' → Renamed f (.action react) (.action react')

/-- The second item says the same with other names. -/
inductive Item.Renamed (f : σ → σ') : Item π σ τ κ ω ε φ → Item π σ' τ κ ω ε φ → Prop
  | initial (state : σ) : Renamed f (.initial state) (.initial (f state))
  | onStart (action : Action κ ω ε Unit) : Renamed f (.onStart action) (.onStart action)
  | onFinish (action : Action κ ω ε φ) : Renamed f (.onFinish action) (.onFinish action)
  | transition {clauses : List (Clause π σ τ (Reaction σ τ κ ω ε))}
      {clauses' : List (Clause π σ' τ (Reaction σ' τ κ ω ε))} :
      List.Forall₂ (Clause.Renamed f) clauses clauses' →
        Renamed f (.transition clauses) (.transition clauses')
  | rule (source : σ) {r : Rule π σ τ (Reaction σ τ κ ω ε)}
      {r' : Rule π σ' τ (Reaction σ' τ κ ω ε)} :
      r.Renamed f r' → Renamed f (.rule source r) (.rule (f source) r')
  | distinctLabels : Renamed f .distinctLabels .distinctLabels

/-- The second declaration says the same with other names. -/
structure Declaration.Renamed (f : σ → σ') (d : Declaration π σ τ (Reaction σ τ κ ω ε))
    (d' : Declaration π σ' τ (Reaction σ' τ κ ω ε)) : Prop where
  sources_eq : d'.sources = d.sources.map f
  loops_eq : d'.loops = d.loops.map f
  target_eq : d'.target = d.target.map f
  label_eq : d'.label = d.label
  action : Option.Rel (Reaction.Renamed f) d.action d'.action

/-- The second blueprint says the same with other names. -/
structure Blueprint.Renamed (f : σ → σ') (b : Blueprint π σ τ κ ω ε φ)
    (b' : Blueprint π σ' τ κ ω ε φ) : Prop where
  initial_eq : b'.initial = b.initial.map f
  onStart_eq : b'.onStart = b.onStart
  onFinish_eq : b'.onFinish = b.onFinish
  rules : List.Forall₂ (Rule.RenamedFrom f) b.rules b'.rules
  distinct_eq : b'.distinct = b.distinct

namespace Declaration

variable {f : σ → σ'} {d : Declaration π σ τ (Reaction σ τ κ ω ε)}
  {d' : Declaration π σ' τ (Reaction σ' τ κ ω ε)}

theorem Renamed.say {clause : Clause π σ τ (Reaction σ τ κ ω ε)}
    {clause' : Clause π σ' τ (Reaction σ' τ κ ω ε)} (h : d.Renamed f d')
    (hc : clause.Renamed f clause') : (d.say clause).Renamed f (d'.say clause') := by
  obtain ⟨hs, hl, ht, hlabel, ha⟩ := h
  cases hc with
  | sources states => exact ⟨by simp [Declaration.say, hs], hl, ht, hlabel, ha⟩
  | loops states => exact ⟨hs, by simp [Declaration.say, hl], ht, hlabel, ha⟩
  | target state => exact ⟨hs, hl, rfl, hlabel, ha⟩
  | label l => exact ⟨hs, hl, ht, rfl, ha⟩
  | action hreact => exact ⟨hs, hl, ht, hlabel, .some hreact⟩

theorem renamed_ofClauses {clauses : List (Clause π σ τ (Reaction σ τ κ ω ε))}
    {clauses' : List (Clause π σ' τ (Reaction σ' τ κ ω ε))}
    (h : List.Forall₂ (Clause.Renamed f) clauses clauses') :
    (ofClauses clauses).Renamed f (ofClauses clauses') := by
  suffices hfold : ∀ (d : Declaration π σ τ (Reaction σ τ κ ω ε))
      (d' : Declaration π σ' τ (Reaction σ' τ κ ω ε)), d.Renamed f d' →
        (clauses.foldl Declaration.say d).Renamed f (clauses'.foldl Declaration.say d') from
    hfold empty empty ⟨rfl, rfl, rfl, rfl, .none⟩
  induction h with
  | nil => exact fun d d' hd => hd
  | cons hc _ ih => exact fun d d' hd => ih _ _ (hd.say hc)

theorem Renamed.rule (h : d.Renamed f d') (s : σ) : (d.rule s).Renamed f (d'.rule (f s)) :=
  ⟨h.label_eq, rfl, h.action⟩

theorem Renamed.build {rules : List (σ × Rule π σ τ (Reaction σ τ κ ω ε))} (h : d.Renamed f d')
    (hb : d.build = .ok rules) :
    ∃ rules', d'.build = .ok rules' ∧ List.Forall₂ (Rule.RenamedFrom f) rules rules' := by
  have hback : List.Forall₂ (Rule.RenamedFrom f) (d.loops.map fun s => (s, d.rule s))
      (d'.loops.map fun s => (s, d'.rule s)) := by
    rw [h.loops_eq, List.map_map, List.forall₂_map_left_iff, List.forall₂_map_right_iff]
    exact List.forall₂_same.2 fun s _ => ⟨rfl, h.rule s⟩
  rcases build_eq_ok hb with ⟨hs, ht, hl, rfl⟩ | ⟨s', hs, ht, rfl⟩
  · refine ⟨_, build_of_loops ?_ ?_ ?_, hback⟩
    · rw [h.sources_eq, hs, List.map_nil]
    · rw [h.target_eq, ht, Option.map_none]
    · rwa [h.loops_eq, ne_eq, List.map_eq_nil_iff]
  · have ht' : d'.target = some (f s') := by rw [h.target_eq, ht, Option.map_some]
    refine ⟨_, build_of_target ?_ ht', List.rel_append ?_ hback⟩
    · rwa [h.sources_eq, ne_eq, List.map_eq_nil_iff]
    · rw [h.sources_eq, List.map_map, List.forall₂_map_left_iff, List.forall₂_map_right_iff]
      exact List.forall₂_same.2 fun s _ => ⟨rfl, h.rule s'⟩

end Declaration

namespace Blueprint.Renamed

variable {f : σ → σ'} {b b₁ : Blueprint π σ τ κ ω ε φ} {b' : Blueprint π σ' τ κ ω ε φ}

theorem say {item : Item π σ τ κ ω ε φ} {item' : Item π σ' τ κ ω ε φ} (h : b.Renamed f b')
    (hi : item.Renamed f item') (hs : b.say item = .ok b₁) :
    ∃ b₁', b'.say item' = .ok b₁' ∧ b₁.Renamed f b₁' := by
  obtain ⟨hinitial, hstart, hfinish, hrules, hdistinct⟩ := h
  cases hi with
  | initial state =>
    cases hs
    exact ⟨_, rfl, rfl, hstart, hfinish, hrules, hdistinct⟩
  | onStart action =>
    cases hs
    exact ⟨_, rfl, hinitial, rfl, hfinish, hrules, hdistinct⟩
  | onFinish action =>
    cases hs
    exact ⟨_, rfl, hinitial, hstart, rfl, hrules, hdistinct⟩
  | transition hclauses =>
    obtain ⟨rules, hb, rfl⟩ := exists_of_say_transition hs
    obtain ⟨rules', hb', hr⟩ := (Declaration.renamed_ofClauses hclauses).build hb
    refine ⟨{ b' with rules := b'.rules ++ rules' }, ?_, hinitial, hstart, hfinish,
      List.rel_append hrules hr, hdistinct⟩
    rw [Blueprint.say, hb']
    rfl
  | rule source hr =>
    cases hs
    exact ⟨_, rfl, hinitial, hstart, hfinish,
      List.rel_append hrules (.cons ⟨rfl, hr⟩ .nil), hdistinct⟩
  | distinctLabels =>
    cases hs
    exact ⟨_, rfl, hinitial, hstart, hfinish, hrules, rfl⟩

theorem sayAll {items : List (Item π σ τ κ ω ε φ)} {items' : List (Item π σ' τ κ ω ε φ)}
    (hitems : List.Forall₂ (Item.Renamed f) items items') {place : Nat} (h : b.Renamed f b')
    (hs : b.sayAll place items = .ok b₁) :
    ∃ b₁', b'.sayAll place items' = .ok b₁' ∧ b₁.Renamed f b₁' := by
  induction hitems generalizing b b' place with
  | nil =>
    cases hs
    exact ⟨b', rfl, h⟩
  | cons hi _ ih =>
    obtain ⟨b₂, hb₂, hrest⟩ := exists_of_sayAll_cons hs
    obtain ⟨b₂', hb₂', h₂⟩ := h.say hi hb₂
    obtain ⟨b₁', hb₁', h₁⟩ := ih h₂ hrest
    refine ⟨b₁', ?_, h₁⟩
    rw [Blueprint.sayAll, hb₂']
    exact hb₁'

end Blueprint.Renamed

/-! ## Tables -/

/-- The second group is the first one with other names. -/
structure Table.RenamedGroup (f : σ → σ') (g : σ × List (Rule π σ τ (Reaction σ τ κ ω ε)))
    (g' : σ' × List (Rule π σ' τ (Reaction σ' τ κ ω ε))) : Prop where
  state_eq : g'.1 = f g.1
  rules : List.Forall₂ (Rule.Renamed f) g.2 g'.2

/-- The second table is the first one with other names. -/
def Table.Renamed (f : σ → σ') (t : Table π σ τ (Reaction σ τ κ ω ε))
    (t' : Table π σ' τ (Reaction σ' τ κ ω ε)) : Prop :=
  List.Forall₂ (RenamedGroup f) t.groups t'.groups

/-- The second machine is the first one with other names. -/
structure Machine.Renamed (f : σ → σ') (m : Machine π σ τ κ ω ε φ) (m' : Machine π σ' τ κ ω ε φ) :
    Prop where
  initial_eq : m'.initial = f m.initial
  onStart_eq : m'.onStart = m.onStart
  onFinish_eq : m'.onFinish = m.onFinish
  table : m.table.Renamed f m'.table

theorem Rule.labels_renamed {f : σ → σ'} {rs : List (Rule π σ τ (Reaction σ τ κ ω ε))}
    {rs' : List (Rule π σ' τ (Reaction σ' τ κ ω ε))} (h : List.Forall₂ (Rule.Renamed f) rs rs') :
    rs'.map (·.label) = rs.map (·.label) := by
  induction h with
  | nil => rfl
  | cons hr _ ih => rw [List.map_cons, List.map_cons, hr.label_eq, ih]

namespace Table

variable [DecidableEq σ] [DecidableEq σ'] {f : σ → σ'} (hf : Function.Injective f)
  {groups : Groups π σ τ (Reaction σ τ κ ω ε)} {groups' : Groups π σ' τ (Reaction σ' τ κ ω ε)}
  {t : Table π σ τ (Reaction σ τ κ ω ε)} {t' : Table π σ' τ (Reaction σ' τ κ ω ε)}

include hf

theorem renamed_insertGroup {s : σ} {r : Rule π σ τ (Reaction σ τ κ ω ε)}
    {r' : Rule π σ' τ (Reaction σ' τ κ ω ε)} (h : List.Forall₂ (RenamedGroup f) groups groups')
    (hr : r.Renamed f r') :
    List.Forall₂ (RenamedGroup f) (insertGroup s r groups) (insertGroup (f s) r' groups') := by
  induction h with
  | nil => exact .cons ⟨rfl, .cons hr .nil⟩ .nil
  | @cons g g' rest rest' hg hrest ih =>
    simp only [insertGroup, hg.state_eq, hf.eq_iff]
    by_cases hs : g.1 = s
    · rw [if_pos hs, if_pos hs]
      exact .cons ⟨rfl, List.rel_append hg.rules (.cons hr .nil)⟩ hrest
    · rw [if_neg hs, if_neg hs]
      exact .cons hg ih

theorem Renamed.insert {s : σ} {r : Rule π σ τ (Reaction σ τ κ ω ε)}
    {r' : Rule π σ' τ (Reaction σ' τ κ ω ε)} (h : t.Renamed f t') (hr : r.Renamed f r') :
    (t.insert s r).Renamed f (t'.insert (f s) r') :=
  renamed_insertGroup hf h hr

theorem renamed_ofList {d : List (σ × Rule π σ τ (Reaction σ τ κ ω ε))}
    {d' : List (σ' × Rule π σ' τ (Reaction σ' τ κ ω ε))}
    (h : List.Forall₂ (Rule.RenamedFrom f) d d') : (ofList d).Renamed f (ofList d') := by
  suffices hfold : ∀ (t : Table π σ τ (Reaction σ τ κ ω ε)) (t' : Table π σ' τ (Reaction σ' τ κ ω ε)),
      t.Renamed f t' → (d.foldl (fun t r => t.insert r.1 r.2) t).Renamed f
        (d'.foldl (fun t r => t.insert r.1 r.2) t') from hfold empty empty .nil
  induction h with
  | nil => exact fun t t' ht => ht
  | @cons x x' rest rest' hx _ ih =>
    intro t t' ht
    rw [List.foldl_cons, List.foldl_cons, hx.source_eq]
    exact ih _ _ (ht.insert hf hx.rule)

theorem renamed_lookup (h : List.Forall₂ (RenamedGroup f) groups groups') (s : σ) :
    List.Forall₂ (Rule.Renamed f) ((groups.lookup s).getD []) ((groups'.lookup (f s)).getD []) := by
  induction h with
  | nil => exact .nil
  | @cons g g' rest rest' hg _ ih =>
    obtain ⟨k, rs⟩ := g
    obtain ⟨k', rs'⟩ := g'
    obtain ⟨rfl, hrules⟩ : k' = f k ∧ List.Forall₂ (Rule.Renamed f) rs rs' := ⟨hg.state_eq, hg.rules⟩
    by_cases hs : s = k
    · subst hs
      simpa only [List.lookup_cons, beq_self_eq_true, Option.getD_some] using hrules
    · have hb : (s == k) = false := beq_eq_false_iff_ne.2 hs
      have hb' : (f s == f k) = false := beq_eq_false_iff_ne.2 (hf.ne hs)
      simpa only [List.lookup_cons, hb, hb'] using ih

theorem Renamed.rules (h : t.Renamed f t') (s : σ) :
    List.Forall₂ (Rule.Renamed f) (t.rules s) (t'.rules (f s)) :=
  renamed_lookup hf h s

end Table

/-! ## Machines -/

section

variable [BEq τ] [DecidableEq π] {f : σ → σ'}

theorem repeats_renamed {rs : List (Rule π σ τ (Reaction σ τ κ ω ε))}
    {rs' : List (Rule π σ' τ (Reaction σ' τ κ ω ε))} (h : List.Forall₂ (Rule.Renamed f) rs rs')
    (hr : repeats rs = []) : repeats rs' = [] := by
  rw [repeats_eq_nil_iff] at hr ⊢
  rw [← List.pairwise_map (f := Rule.label) (R := fun l l' => (l == l') = false)] at hr ⊢
  rwa [Rule.labels_renamed h]

theorem repeats_renamedGroups {groups : Groups π σ τ (Reaction σ τ κ ω ε)}
    {groups' : Groups π σ' τ (Reaction σ' τ κ ω ε)}
    (h : List.Forall₂ (Table.RenamedGroup f) groups groups') (hr : ∀ g ∈ groups, repeats g.2 = []) :
    ∀ g ∈ groups', repeats g.2 = [] := by
  induction h with
  | nil => exact nofun
  | cons hg _ ih =>
    rw [List.forall_mem_cons] at hr ⊢
    exact ⟨repeats_renamed hg.rules hr.1, ih hr.2⟩

variable [Literal σ] [Literal σ'] [Literal τ]

theorem Table.Renamed.duplicates_eq_nil {t : Table π σ τ (Reaction σ τ κ ω ε)}
    {t' : Table π σ' τ (Reaction σ' τ κ ω ε)} (h : t.Renamed f t') (hd : t.duplicates = []) :
    t'.duplicates = [] :=
  duplicates_eq_nil_iff.2 (repeats_renamedGroups h (duplicates_eq_nil_iff.1 hd))

variable [DecidableEq σ] [DecidableEq σ'] (hf : Function.Injective f)

include hf

/-- **The machine that is declared with other names is the machine with other names.** -/
theorem Blueprint.Renamed.build {b : Blueprint π σ τ κ ω ε φ} {b' : Blueprint π σ' τ κ ω ε φ}
    {m : Machine π σ τ κ ω ε φ} (h : b.Renamed f b') (hb : b.build = .ok m) :
    ∃ m', b'.build = .ok m' ∧ m.Renamed f m' := by
  obtain ⟨hi, hstart, hfinish, ht⟩ := build_ok hb
  have htable : (Table.ofList b.rules).Renamed f (.ofList b'.rules) := Table.renamed_ofList hf h.rules
  have hi' : b'.initial = some (f m.initial) := by rw [h.initial_eq, hi, Option.map_some]
  refine ⟨⟨f m.initial, b'.onStart, b'.onFinish, .ofList b'.rules⟩, ?_, rfl, ?_, ?_, ?_⟩
  · cases hd : b.distinct with
    | false => exact build_of_relaxed hi' (h.distinct_eq.trans hd)
    | true =>
      have hnil : (Table.ofList b.rules).duplicates = [] := by
        by_contra hne
        rw [build_distinct hi hd, if_neg hne] at hb
        cases hb
      rw [build_distinct hi' (h.distinct_eq.trans hd), if_pos (htable.duplicates_eq_nil hnil)]
  · exact h.onStart_eq.trans hstart.symm
  · exact h.onFinish_eq.trans hfinish.symm
  · rwa [ht]

/-- Items with other names declare the machine with other names. -/
theorem Machine.exists_renamed_ofItems {items : List (Item π σ τ κ ω ε φ)}
    {items' : List (Item π σ' τ κ ω ε φ)} {m : Machine π σ τ κ ω ε φ}
    (hitems : List.Forall₂ (Item.Renamed f) items items') (hm : ofItems items = .ok m) :
    ∃ m', ofItems items' = .ok m' ∧ m.Renamed f m' := by
  obtain ⟨b, hb, hbuild⟩ := exists_build hm
  have hempty : (Blueprint.empty : Blueprint π σ τ κ ω ε φ).Renamed f .empty :=
    ⟨rfl, rfl, rfl, .nil, rfl⟩
  obtain ⟨b', hb', hrenamed⟩ := hempty.sayAll hitems hb
  obtain ⟨m', hbuild', hm'⟩ := hrenamed.build hf hbuild
  exact ⟨m', ofItems_of_build hb' hbuild', hm'⟩

end

section

variable (f : σ → σ') (g : σ' → σ)

/-- The action is told of states by their first names. -/
def Reaction.rename (react : Reaction σ τ κ ω ε) : Reaction σ' τ κ ω ε := fun t s s' =>
  react t (g s) (g s')

/-- The rule with other names, and the way back to the first ones. -/
def Rule.rename (r : Rule π σ τ (Reaction σ τ κ ω ε)) : Rule π σ' τ (Reaction σ' τ κ ω ε) :=
  ⟨r.label, f r.target, r.action.map (Reaction.rename g)⟩

/-- The machine with other names, and the way back to the first ones. -/
def Machine.rename (m : Machine π σ τ κ ω ε φ) : Machine π σ' τ κ ω ε φ :=
  ⟨f m.initial, m.onStart, m.onFinish, ⟨m.table.groups.map fun x => (f x.1, x.2.map (Rule.rename f g))⟩⟩

variable {f g} (h : Function.LeftInverse g f)

include h

theorem Rule.renamed_rename (r : Rule π σ τ (Reaction σ τ κ ω ε)) : r.Renamed f (r.rename f g) where
  label_eq := rfl
  target_eq := rfl
  action := by
    unfold Rule.rename
    cases r.action with
    | none => exact .none
    | some react => exact .some fun t s s' => by rw [Reaction.rename, h s, h s']

theorem Machine.renamed_rename (m : Machine π σ τ κ ω ε φ) : m.Renamed f (m.rename f g) where
  initial_eq := rfl
  onStart_eq := rfl
  onFinish_eq := rfl
  table := List.forall₂_map_right_iff.2 <| List.forall₂_same.2 fun _ _ =>
    ⟨rfl, List.forall₂_map_right_iff.2 (List.forall₂_same.2 fun r _ => r.renamed_rename h)⟩

end

/-! ## The same steps -/

theorem Rule.Renamed.react_eq {f : σ → σ'} {r : Rule π σ τ (Reaction σ τ κ ω ε)}
    {r' : Rule π σ' τ (Reaction σ' τ κ ω ε)} (h : r.Renamed f r') (t : τ) (s : σ) :
    (r'.action.map fun react => react t (f s) r'.target) =
      r.action.map fun react => react t s r.target := by
  rw [h.target_eq]
  obtain ⟨-, -, ha⟩ := h
  generalize r.action = action, r'.action = action' at ha
  cases ha with
  | none => rfl
  | some hreact => exact congrArg some (hreact t s _)

variable [DecidableEq σ] [DecidableEq σ'] [BEq τ] [Pattern π τ]

namespace Machine

variable {f : σ → σ'} (hf : Function.Injective f) {m : Machine π σ τ κ ω ε φ}
  {m' : Machine π σ' τ κ ω ε φ}

include hf

theorem Renamed.advance_eq (h : m.Renamed f m') (capturing : Bool) (t : τ) (w : Walk π σ τ κ) :
    m'.advance capturing t (w.rename f) = (m.advance capturing t w).rename f := by
  obtain ⟨ht, hfound⟩ : (m'.table.scan (w.rename f).state t).tested = (m.table.scan w.state t).tested ∧
      Option.Rel (Rule.Renamed f) (m.table.scan w.state t).found
        (m'.table.scan (w.rename f).state t).found :=
    Scan.ofRules_rel (fun _ _ hr => hr.label_eq) (h.table.rules hf w.state) t
  rw [advance, advance, ht]
  generalize (m.table.scan w.state t).found = found at hfound
  generalize (m'.table.scan (w.rename f).state t).found = found' at hfound
  cases hfound with
  | none =>
    rw [Stride.rename, Walk.rename_note, Walk.rename_tested]
    rfl
  | @some r r' hr =>
    have ha := hr.react_eq t w.state
    simp only [Stride.rename_map, ← Walk.rename_invoke, Walk.rename_move, Walk.rename_tested]
    rw [← ha, hr.target_eq]
    rfl

/-- With other names a machine takes the same step. -/
theorem Renamed.stride_eq (h : m.Renamed f m') (capturing : Bool) (q : Cue τ) (w : Walk π σ τ κ) :
    m'.stride capturing q (w.rename f) = (m.stride capturing q w).rename f := by
  cases q with
  | start =>
    have hentered : (w.enter m.initial).rename f = (w.rename f).enter (f m.initial) := by
      simp [Walk.enter, Walk.rename, Walk.note, Entry.rename, Event.rename]
    have hinvoke := (w.enter m.initial).rename_invoke f .start capturing m.onStart
    rw [hentered] at hinvoke
    simp only [stride, start, Stride.rename_map, h.initial_eq, h.onStart_eq]
    exact congrArg (fun s => (s.map fun _ => ()).map fun _ => none) hinvoke
  | token t => rw [stride, stride, h.advance_eq hf, Stride.rename_map]
  | finish =>
    have hleft : w.leave.rename f = (w.rename f).leave := Walk.rename_note f w _
    have hinvoke := w.leave.rename_invoke f .finish capturing m.onFinish
    rw [hleft] at hinvoke
    rw [stride, finish, h.onFinish_eq]
    exact hinvoke

/-- **With other names a machine takes the same steps.** -/
theorem Renamed.simulates (h : m.Renamed f m') :
    m.Simulates (Walk.Renamed f) (Failure.rename f) m' where
  stride {w w'} capturing q hw := by
    obtain rfl : w' = w.rename f := hw
    rw [h.stride_eq hf]
    exact ⟨rfl, rfl, rfl⟩
  record {w w'} hw := by
    obtain rfl : w' = w.rename f := hw
    exact (Walk.rename_recording f w).symm

end Machine

/-! ## Runs and executions -/

section

omit [DecidableEq σ] [DecidableEq σ'] [BEq τ] [Pattern π τ]

variable {f : σ → σ'}

theorem Run.Matches.eq_rename {r : Run π σ τ κ ω ε φ} {r' : Run π σ' τ κ ω ε φ}
    (h : r.Matches (Walk.Renamed f) r') : r' = r.rename f r'.machine := by
  obtain ⟨hwalk, hinput, hasked, hpending, hphase⟩ := h
  obtain ⟨m', input, walk, asked, pending, phase⟩ := r'
  cases hwalk
  cases hinput
  cases hasked
  cases hpending
  cases hphase
  rfl

theorem Execution.Matches.eq_rename {e : Execution π σ τ κ ε φ} {e' : Execution π σ' τ κ ε φ}
    (h : e.Matches (Walk.Renamed f) (Failure.rename f) e') : e' = e.rename f := by
  obtain ⟨hwalk, hasked, hresult⟩ := h
  obtain ⟨walk, asked, result⟩ := e'
  cases hwalk
  cases hasked
  cases hresult
  rfl

theorem Execution.history_rename (e : Execution π σ τ κ ε φ) :
    (e.rename f).history = e.history.rename f := by
  unfold history rename Walk.rename
  cases e.walk.history <;> rfl

end

namespace Machine

section

variable {f : σ → σ'} (hf : Function.Injective f) {m : Machine π σ τ κ ω ε φ}
  {m' : Machine π σ' τ κ ω ε φ}

omit [DecidableEq σ] [DecidableEq σ'] [BEq τ] [Pattern π τ] in
theorem Renamed.walk (h : m.Renamed f m') (c : κ) : (m.walk c).Renamed f (m'.walk c) := by
  unfold Walk.Renamed Machine.walk
  rw [h.initial_eq]
  rfl

omit [DecidableEq σ] [DecidableEq σ'] [BEq τ] [Pattern π τ] in
theorem Renamed.run (h : m.Renamed f m') (c : κ) (input : Input τ) :
    (m.run c input).Matches (Walk.Renamed f) (m'.run c input) :=
  ⟨h.walk c, rfl, rfl, rfl, rfl⟩

include hf

theorem Renamed.findIdx?_eq (h : m.Renamed f m') (s : σ) (t : τ) :
    (m'.table.rules (f s)).findIdx? (·.admits t) = (m.table.rules s).findIdx? (·.admits t) := by
  have hlabels := Rule.labels_renamed (h.table.rules hf s)
  have hidx := congrArg (List.findIdx? fun l => l.admits t) hlabels
  rwa [List.findIdx?_map, List.findIdx?_map] at hidx

theorem Renamed.drains_iff (h : m.Renamed f m') {c : κ} {input : Input τ} {requests : List Request}
    {ys : List (Except (Failure σ' τ ε) ω)} {last' : Run π σ' τ κ ω ε φ} :
    ((m'.run c input).serve requests).Drains ys last' ↔
      ∃ xs last, ((m.run c input).serve requests).Drains xs last ∧
        ys = xs.map (Except.mapError (Failure.rename f)) ∧ last' = last.rename f m' := by
  have hserve := (h.run c input).serve (h.simulates hf) requests
  have hm : ((m.run c input).serve requests).machine.Simulates (Walk.Renamed f) (Failure.rename f)
      ((m'.run c input).serve requests).machine :=
    Run.simulates_serve (h.simulates hf) requests
  have hmachine {ys : List (Except (Failure σ' τ ε) ω)} {last' : Run π σ' τ κ ω ε φ}
      (hd : ((m'.run c input).serve requests).Drains ys last') : last'.machine = m' :=
    hd.machine_eq.trans (Run.machine_serve requests)
  constructor
  · intro hd
    obtain ⟨xs, last, hd₁, hys, hmatch⟩ := hserve.drains_back hm hd
    refine ⟨xs, last, hd₁, hys, ?_⟩
    rw [hmatch.eq_rename, hmachine hd]
  · rintro ⟨xs, last, hd, rfl, rfl⟩
    obtain ⟨last', hd', hmatch⟩ := hserve.drains hm hd
    have hlast := hmatch.eq_rename
    rw [hmachine hd'] at hlast
    rwa [← hlast]

theorem Renamed.drive_eq (h : m.Renamed f m') {w : Walk π σ τ κ} {w' : Walk π σ' τ κ}
    (hw : w.Renamed f w') (tokens : List τ) : m'.drive tokens w' = (m.drive tokens w).rename f :=
  ((h.simulates hf).drive hw tokens).eq_rename

variable [DecidableEq π] [Literal σ] [Literal σ'] [Literal τ]

/-- **What the states are called makes no difference to anything else.** With other names, of which no
two are the same, items declare the machine with other names, and each machine has one. It has the
same rules in the same order, and the same one is found for a state and a token. Whatever its runs
are asked for, they are those of the first machine with other names, in their contexts, their numbers
of questions, their outputs that wait and all that they note, and so is what is seen of them; the
states, the histories and the states of refused tokens are those with other names. So are
executions. -/
theorem names_unseen :
    (∀ (items : List (Item π σ τ κ ω ε φ)) items' m,
      List.Forall₂ (Item.Renamed f) items items' → ofItems items = .ok m →
        ∃ m', ofItems items' = .ok m' ∧ m.Renamed f m') ∧
    ∀ m : Machine π σ τ κ ω ε φ, (∃ m', m.Renamed f m') ∧ ∀ m', m.Renamed f m' →
      (∀ s, List.Forall₂ (Rule.Renamed f) (m.table.rules s) (m'.table.rules (f s)) ∧
        ∀ t, (m'.table.rules (f s)).findIdx? (·.admits t) =
          (m.table.rules s).findIdx? (·.admits t)) ∧
      ∀ c,
        (∀ input requests,
          let r := (m.run c input).serve requests
          let r' := (m'.run c input).serve requests
          r' = r.rename f m' ∧
          (r'.history.map History.path = r.history.map fun h => h.path.map f) ∧
          (m'.run c input).sights requests =
            ((m.run c input).sights requests).map (Sight.map f (Failure.rename f)) ∧
          ∀ ys last', r'.Drains ys last' ↔ ∃ xs last, r.Drains xs last ∧
            ys = xs.map (Except.mapError (Failure.rename f)) ∧ last' = last.rename f m') ∧
        ∀ tokens,
          let e := m.executeWithHistory c tokens
          let e' := m'.executeWithHistory c tokens
          m'.execute c tokens = (m.execute c tokens).rename f ∧ e' = e.rename f ∧
            e'.history = e.history.rename f ∧ e'.history.path = e.history.path.map f := by
  refine ⟨fun items items' m => exists_renamed_ofItems hf, fun m => ⟨?_, fun m' h => ?_⟩⟩
  · have hne : Nonempty σ := ⟨m.initial⟩
    obtain ⟨g, hg⟩ := hf.hasLeftInverse
    exact ⟨m.rename f g, m.renamed_rename hg⟩
  · refine ⟨fun s => ⟨h.table.rules hf s, h.findIdx?_eq hf s⟩, fun c => ⟨?_, ?_⟩⟩
    · intro input requests r r'
      have hserve := (h.run c input).serve (h.simulates hf) requests
      have hr : r' = r.rename f m' :=
        hserve.eq_rename.trans (congrArg (fun k => r.rename f k) (Run.machine_serve requests))
      refine ⟨hr, ?_, ?_, fun ys last' => h.drains_iff hf⟩
      · have hpath : History.path ∘ History.rename f = fun h : History σ => h.path.map f :=
          funext fun h => h.path_rename f
        rw [hr, ← hpath, ← Option.map_map]
        rfl
      · refine (h.run c input).sights (h.simulates hf) (fun w w' hw => ?_) requests
        obtain rfl : w' = w.rename f := hw
        exact ⟨rfl, rfl⟩
    · intro tokens e e'
      have he : e' = e.rename f :=
        h.drive_eq hf ((h.simulates hf).record (h.walk c)) tokens
      refine ⟨h.drive_eq hf (h.walk c) tokens, he, ?_, ?_⟩
      · rw [he, Execution.history_rename]
      · rw [he, Execution.history_rename, History.path_rename]

end

/-- An action that is told of numbers emits what the one emits that is told of the states they stand
for, and the refused token is refused in the number. -/
theorem names_unseen_numbered :
    let number : Bool → Nat := fun b => b.toNat + 3
    let items : List (Item Empty Bool Nat Nat Nat Nat Nat) :=
      [.initial false, .transition [.label (.exact 1), .target true, .sources [false],
        .action fun t s s' => Action.emit (t + 10 * s.toNat + 20 * s'.toNat)]]
    let items' : List (Item Empty Nat Nat Nat Nat Nat Nat) :=
      [.initial 3, .transition [.label (.exact 1), .target 4, .sources [3],
        .action fun t s s' => Action.emit (t + 10 * (s - 3) + 20 * (s' - 3))]]
    ∃ m m', ofItems items = .ok m ∧ ofItems items' = .ok m' ∧ m.Renamed number m' ∧
      (∃ last, (m'.run 0 (.ofList [1, 7])).Drains [.ok 21, .error (.unexpected ⟨4, 7⟩)] last) ∧
      (m'.executeWithHistory 0 [1, 7]).history.path = [3, 4] := by
  intro number items items'
  have hnumber : Function.Injective number := fun b b' hb => by
    revert hb
    cases b <;> cases b' <;> decide
  let m : Machine Empty Bool Nat Nat Nat Nat Nat :=
    ⟨false, none, none, ⟨[(false, [⟨.exact 1, true,
      some fun t s s' => Action.emit (t + 10 * s.toNat + 20 * s'.toNat)⟩])]⟩⟩
  have hm : ofItems items = .ok m := rfl
  have hitems : List.Forall₂ (Item.Renamed number) items items' := by
    refine .cons (.initial false) (.cons (.transition ?_) .nil)
    refine .cons (.label _) (.cons (.target true) (.cons (.sources [false]) (.cons (.action ?_) .nil)))
    intro t s s'
    simp only [number, Nat.add_sub_cancel]
  obtain ⟨hdeclared, hmachines⟩ := names_unseen (π := Empty) (τ := Nat) (κ := Nat) (ω := Nat)
    (ε := Nat) (φ := Nat) hnumber
  obtain ⟨m', hm', hrenamed⟩ := hdeclared items items' m hitems hm
  obtain ⟨-, hruns⟩ := (hmachines m).2 m' hrenamed
  obtain ⟨hstreams, hexecutes⟩ := hruns 0
  obtain ⟨-, -, -, hdrains⟩ := hstreams (.ofList [1, 7]) []
  obtain ⟨-, -, -, hpath⟩ := hexecutes [1, 7]
  have hstream : (m.plan.course true (Cue.ofTokens [1, 7]) m.initial 0).items =
      [.ok 21, .error (.unexpected ⟨true, 7⟩)] := rfl
  obtain ⟨last, hd, -⟩ := m.drains_course 0 (Input.gives_ofList [1, 7])
  rw [hstream] at hd
  have hway : (m.executeWithHistory 0 [1, 7]).history.path = [false, true] := rfl
  rw [hway] at hpath
  exact ⟨m, m', hm, hm', hrenamed, ⟨_, (hdrains _ _).2 ⟨_, last, hd, rfl, rfl⟩⟩, hpath⟩

end Machine

end Transducer
