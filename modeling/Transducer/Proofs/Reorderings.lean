import Mathlib.Logic.Relation
import Transducer.Proofs.Extensions
import Transducer.Proofs.Simulations

/-!
# The order of declarations

Rules may be declared in any order, as long as of two rules of one state that a token is for both the
same one comes first.

* `Machine.simulates_of_plan_eq`: **machines of one plan go the same way**, whatever labels they put
  to the tokens on it.
* `Machine.RunsLike`, `Machine.runsLike_of_plan_eq`: so nothing that they are asked for tells them
  apart.
* `Rule.Apart`: two declared rules between which no state and token has to choose.
* `Rule.Swap`: two lists that differ in the order of two such neighbours; `Rule.find?_reordered`:
  **the first rule for a state and a token stays the same**, however many neighbours change places.
* `Machine.ofItems_reordered`: **the order of declarations matters only between rules of one state
  that are for one token.**
-/

namespace Transducer

variable {π σ τ κ ω ε φ α : Type}

/-! ## Failures that stay as they are -/

theorem mapError_id (x : Except ε α) : x.mapError id = x := by
  cases x <;> rfl

theorem Poll.mapError_id (p : Poll σ τ ω ε) : p.mapError id = p := by
  cases p with
  | item x => exact congrArg item (Transducer.mapError_id x)
  | _ => rfl

theorem Sight.map_id (x : Sight σ τ κ ω ε) : x.map id id = x := by
  rw [map, Poll.mapError_id]
  rfl

/-! ## Machines of one plan -/

namespace Walk.Abreast

variable {w w' : Walk π σ τ κ} (h : w.Abreast w')

include h

theorem state_eq : w'.state = w.state := congrArg Track.state h.track_eq

theorem history_eq : w'.history = w.history := congrArg Track.history h.track_eq

theorem recording : w.recording.Abreast w'.recording where
  track_eq := congrArg (fun k : Track σ τ => { k with history := some (k.history.getD .empty) })
    h.track_eq
  context_eq := h.context_eq

theorem enter (s : σ) : (w.enter s).Abreast (w'.enter s) where
  track_eq := by
    have hn : ∀ v : Walk π σ τ κ, (v.enter s).track = { v.track with state := s } := fun v => by
      have hv : (v.note [.event (.started s)]).track = v.track := v.track_note rfl
      exact congrArg (fun k : Track σ τ => { k with state := s }) hv
    rw [hn, hn, h.track_eq]
  context_eq := h.context_eq

theorem leave : w.leave.Abreast w'.leave :=
  ⟨(w'.track_note rfl).trans (h.track_eq.trans (w.track_note rfl).symm), h.context_eq⟩

theorem tested (labels labels' : List (Label π τ)) (t : τ) :
    (w.note (labels.map (.tested · t))).Abreast (w'.note (labels'.map (.tested · t))) :=
  ⟨(w'.track_tested labels' t).trans (h.track_eq.trans (w.track_tested labels t).symm), h.context_eq⟩

theorem move (s : σ) (t : τ) : (w.move s t).Abreast (w'.move s t) :=
  ⟨by rw [w.track_move, w'.track_move, h.track_eq], h.context_eq⟩

theorem invoke (i : Invocation σ τ) (capturing : Bool) (action : Option (Action κ ω ε α)) :
    (w.invoke i capturing action).Matches Abreast id (w'.invoke i capturing action) := by
  have ht : (w'.invoke i capturing action).walk.track = (w.invoke i capturing action).walk.track := by
    rw [w.track_invoke, w'.track_invoke, h.track_eq]
  cases action with
  | none => exact ⟨h, rfl, rfl⟩
  | some a =>
    simp only [Walk.invoke, h.context_eq] at ht ⊢
    cases hr : (a capturing w.context).result with
    | ok v =>
      simp only [hr] at ht
      exact ⟨⟨ht, rfl⟩, rfl, rfl⟩
    | error e =>
      simp only [hr] at ht
      exact ⟨⟨ht, rfl⟩, rfl, rfl⟩

end Walk.Abreast

namespace Machine

variable [DecidableEq σ] [BEq τ] [Pattern π τ] {m m' : Machine π σ τ κ ω ε φ} {w w' : Walk π σ τ κ}

theorem advance_abreast (hp : m'.plan = m.plan) (h : w.Abreast w') (capturing : Bool) (t : τ) :
    (m.advance capturing t w).Matches Walk.Abreast id (m'.advance capturing t w') := by
  have hm : (m.table.scan w.state t).found = m.plan.rule? w.state t := Scan.found_ofRules ..
  have hm' : (m'.table.scan w.state t).found = m.plan.rule? w.state t := by
    rw [← hp]
    exact Scan.found_ofRules ..
  simp only [advance, h.state_eq, hm, hm']
  -- the rule is the same, but the labels that were put to the token before it need not be
  have hasked := h.tested (m.table.scan w.state t).tested (m'.table.scan w.state t).tested t
  cases m.plan.rule? w.state t with
  | none =>
    refine ⟨⟨?_, hasked.context_eq⟩, rfl, rfl⟩
    exact (Walk.track_note _ rfl).trans (hasked.track_eq.trans (Walk.track_note _ rfl).symm)
  | some rule => exact ((hasked.move rule.target t).invoke _ capturing _).map _

/-- **Machines of one plan go the same way.** -/
theorem simulates_of_plan_eq (hp : m'.plan = m.plan) : m.Simulates Walk.Abreast id m' where
  stride {w w'} capturing q h := by
    cases q with
    | start =>
      have hi : m'.initial = m.initial := congrArg Plan.initial hp
      have hs : m'.onStart = m.onStart := congrArg Plan.onStart hp
      simp only [stride, start, hi, hs]
      exact (((h.enter m.initial).invoke .start capturing m.onStart).map _).map _
    | token t => exact (advance_abreast hp h capturing t).map _
    | finish =>
      have hf : m'.onFinish = m.onFinish := congrArg Plan.onFinish hp
      simp only [stride, finish, hf]
      exact h.leave.invoke .finish capturing m.onFinish
  record h := h.recording

theorem run_matches (hp : m'.plan = m.plan) (c : κ) (input : Input τ) :
    (m.run c input).Matches Walk.Abreast (m'.run c input) := by
  have hw : m'.walk c = m.walk c :=
    congrArg (fun s => (⟨s, 0, none, c, []⟩ : Walk π σ τ κ)) (congrArg Plan.initial hp)
  exact ⟨⟨congrArg Walk.track hw, rfl⟩, rfl, rfl, rfl, rfl⟩

theorem serve_matches (hp : m'.plan = m.plan) (c : κ) (input : Input τ) (requests : List Request) :
    ((m.run c input).serve requests).Matches Walk.Abreast ((m'.run c input).serve requests) :=
  (run_matches hp c input).serve (simulates_of_plan_eq hp) requests

theorem drains_of_plan_eq (hp : m'.plan = m.plan) {c : κ} {input : Input τ} {requests : List Request}
    {xs : List (Except (Failure σ τ ε) ω)} {last : Run π σ τ κ ω ε φ}
    (h : ((m.run c input).serve requests).Drains xs last) :
    ∃ last', ((m'.run c input).serve requests).Drains xs last' ∧
      last.Matches Walk.Abreast last' := by
  have hm : ((m.run c input).serve requests).machine.Simulates Walk.Abreast id
      ((m'.run c input).serve requests).machine :=
    Run.simulates_serve (simulates_of_plan_eq hp) requests
  have hd := (serve_matches hp c input requests).drains hm h
  rwa [List.map_congr_left fun x _ => mapError_id x, List.map_id'] at hd

theorem drive_of_plan_eq (hp : m'.plan = m.plan) (h : w.Abreast w') (tokens : List τ) :
    let e := m.drive tokens w
    let e' := m'.drive tokens w'
    e'.result = e.result ∧ e'.asked = e.asked ∧ e.walk.Abreast e'.walk := by
  intro e e'
  have he := (simulates_of_plan_eq hp).drive h tokens
  exact ⟨he.result_eq.trans (mapError_id e.result), he.asked_eq, he.walk⟩

/-- No request, poll and execution in the context tells the machines apart: the items are the same,
and so are the contexts, the states, the histories and the results. -/
structure RunsLike (c : κ) (m m' : Machine π σ τ κ ω ε φ) : Prop where
  sights_eq : ∀ input requests, (m'.run c input).sights requests = (m.run c input).sights requests
  serves : ∀ input requests, ((m.run c input).serve requests).Matches Walk.Abreast
    ((m'.run c input).serve requests)
  drains_iff : ∀ input requests xs, (∃ last, ((m.run c input).serve requests).Drains xs last) ↔
    ∃ last', ((m'.run c input).serve requests).Drains xs last'
  drained : ∀ input requests xs last last', ((m.run c input).serve requests).Drains xs last →
    ((m'.run c input).serve requests).Drains xs last' → last.Matches Walk.Abreast last'
  executes : ∀ tokens,
    let e := m.execute c tokens
    let e' := m'.execute c tokens
    e'.result = e.result ∧ e'.asked = e.asked ∧ e.walk.Abreast e'.walk
  records : ∀ tokens,
    let f := m.executeWithHistory c tokens
    let f' := m'.executeWithHistory c tokens
    f'.result = f.result ∧ f'.asked = f.asked ∧ f.walk.Abreast f'.walk ∧ f'.history = f.history

/-- **Nothing that machines of one plan are asked for tells them apart.** -/
theorem runsLike_of_plan_eq (hp : m'.plan = m.plan) (c : κ) : m.RunsLike c m' where
  sights_eq input requests := by
    have hsights := (run_matches hp c input).sights (f := id) (simulates_of_plan_eq hp)
      (fun w w' h => ⟨h.state_eq, h.context_eq⟩) requests
    rwa [List.map_congr_left fun x _ => Sight.map_id x, List.map_id'] at hsights
  serves input requests := serve_matches hp c input requests
  drains_iff input requests xs := by
    constructor
    · rintro ⟨last, hd⟩
      obtain ⟨last', hd', -⟩ := drains_of_plan_eq hp hd
      exact ⟨last', hd'⟩
    · rintro ⟨last', hd'⟩
      obtain ⟨last, hd, -⟩ := drains_of_plan_eq hp.symm hd'
      exact ⟨last, hd⟩
  drained input requests xs last last' hd hd' := by
    obtain ⟨last₁, hd₁, hmatch⟩ := drains_of_plan_eq hp hd
    rwa [(hd'.unique hd₁).2]
  executes tokens := drive_of_plan_eq hp (run_matches hp c (.ofList tokens)).walk tokens
  records tokens := by
    have hw : (m.walk c).Abreast (m'.walk c) := (run_matches hp c (.ofList tokens)).walk
    have hf := drive_of_plan_eq hp hw.recording tokens
    refine ⟨hf.1, hf.2.1, hf.2.2, ?_⟩
    exact congrArg (Option.getD · .empty) hf.2.2.history_eq

end Machine

/-! ## Rules that change places -/

namespace Rule

variable [BEq τ] [Pattern π τ]

/-- The declared rules leave different states, or no token is one that both are for. -/
def Apart (a b : σ × Rule π σ τ α) : Prop :=
  a.1 ≠ b.1 ∨ ∀ t, ¬ (a.2.admits t = true ∧ b.2.admits t = true)

/-- Two neighbours in the list that are apart have changed places. -/
inductive Swap : List (σ × Rule π σ τ α) → List (σ × Rule π σ τ α) → Prop
  | intro (front : List (σ × Rule π σ τ α)) {a b : σ × Rule π σ τ α}
      (back : List (σ × Rule π σ τ α)) :
      Apart a b → Swap (front ++ a :: b :: back) (front ++ b :: a :: back)

variable [DecidableEq σ] {l l' : List (σ × Rule π σ τ α)}

theorem Swap.find?_eq (h : Swap l l') (s : σ) (t : τ) :
    (l'.find? fun d => d.1 = s && d.2.admits t) = l.find? fun d => d.1 = s && d.2.admits t := by
  obtain @⟨front, a, b, back, hab⟩ := h
  rw [List.find?_append, List.find?_append]
  congr 1
  -- at most one of the two is a rule of the state that is for the token
  have hnot : ¬ ((a.1 = s && a.2.admits t) = true ∧ (b.1 = s && b.2.admits t) = true) := by
    rintro ⟨ha, hb⟩
    rw [Bool.and_eq_true, decide_eq_true_eq] at ha hb
    obtain hne | hnone := hab
    · exact hne (ha.1.trans hb.1.symm)
    · exact hnone t ⟨ha.2, hb.2⟩
  cases ha : (a.1 = s && a.2.admits t : Bool) with
  | false => simp only [List.find?_cons, ha]
  | true =>
    cases hb : (b.1 = s && b.2.admits t : Bool) with
    | false => simp only [List.find?_cons, ha, hb]
    | true => exact absurd ⟨ha, hb⟩ hnot

/-- The first rule for a state and a token stays the same, however many neighbours that are apart
change places. -/
theorem find?_reordered (h : Relation.ReflTransGen Swap l l') (s : σ) (t : τ) :
    (l'.find? fun d => d.1 = s && d.2.admits t) = l.find? fun d => d.1 = s && d.2.admits t := by
  induction h with
  | refl => rfl
  | tail _ hswap ih => exact (hswap.find?_eq s t).trans ih

end Rule

/-! ## Declared machines -/

/-- The items name the same first state and give the same actions for the start and the end. -/
structure Item.Alike (items items' : List (Item π σ τ κ ω ε φ)) : Prop where
  initial_eq : lastOf initial? items' = lastOf initial? items
  onStart_eq : lastOf onStart? items' = lastOf onStart? items
  onFinish_eq : lastOf onFinish? items' = lastOf onFinish? items

namespace Machine

variable [DecidableEq σ] [BEq τ] [Pattern π τ] [DecidableEq π] [Literal σ] [Literal τ]
  {items items' : List (Item π σ τ κ ω ε φ)} {m m' : Machine π σ τ κ ω ε φ}

theorem plan_reordered (h : ofItems items = .ok m) (h' : ofItems items' = .ok m')
    (halike : Item.Alike items items')
    (hrules : Relation.ReflTransGen Rule.Swap (items.flatMap Item.declared)
      (items'.flatMap Item.declared)) : m'.plan = m.plan := by
  obtain ⟨hi, hp⟩ := plan_ofItems h
  obtain ⟨hi', hp'⟩ := plan_ofItems h'
  have hinitial : m'.initial = m.initial := by
    rw [halike.initial_eq, hi] at hi'
    exact (Option.some.inj hi').symm
  have hrule : (Item.plan m.initial items').rule? = (Item.plan m.initial items).rule? := by
    funext s t
    exact congrArg (Option.map _) (Rule.find?_reordered hrules s t)
  rw [hp, hp', hinitial, Item.plan, halike.onStart_eq, halike.onFinish_eq]
  exact congrArg (Plan.mk m.initial _ _) hrule

/-- **The order of declarations matters only between rules of one state that are for one token.** Two
lists of items that differ in nothing but the order in which they declare their rules, each of them
got from the other by changing the places of neighbours that leave different states or are for no
token in common, give machines between which no request, poll and execution makes a difference: the
items are the same, and so are the contexts, the states, the histories and the results. -/
theorem ofItems_reordered (h : ofItems items = .ok m) (halike : Item.Alike items items')
    (hrules : Relation.ReflTransGen Rule.Swap (items.flatMap Item.declared)
      (items'.flatMap Item.declared)) :
    ((∀ i ∈ items', i.Valid) → .distinctLabels ∉ items' → ∃ m', ofItems items' = .ok m') ∧
    ∀ m', ofItems items' = .ok m' → ∀ c,
      (∀ input requests,
        let r := (m.run c input).serve requests
        let r' := (m'.run c input).serve requests
        (m'.run c input).sights requests = (m.run c input).sights requests ∧
        r.Matches Walk.Abreast r' ∧
        ∀ xs, ((∃ last, r.Drains xs last) ↔ ∃ last', r'.Drains xs last') ∧
          ∀ last last', r.Drains xs last → r'.Drains xs last' → last.Matches Walk.Abreast last') ∧
      ∀ tokens,
        let e := m.execute c tokens
        let e' := m'.execute c tokens
        let f := m.executeWithHistory c tokens
        let f' := m'.executeWithHistory c tokens
        (e'.result = e.result ∧ e'.asked = e.asked ∧ e.walk.Abreast e'.walk) ∧
          f'.result = f.result ∧ f'.asked = f.asked ∧ f.walk.Abreast f'.walk ∧
          f'.history = f.history := by
  refine ⟨fun hv hd => ?_, fun m' h' c => ?_⟩
  · obtain ⟨b, hb⟩ := Blueprint.empty.sayAll_of_valid 0 hv
    exact exists_ofItems hb (halike.initial_eq.trans (ofItems_ok h).1) hd
  · have hp := plan_reordered h h' halike hrules
    obtain ⟨hsights, hserves, hdrains, hdrained, hexecutes, hrecords⟩ := runsLike_of_plan_eq hp c
    exact ⟨fun input requests => ⟨hsights input requests, hserves input requests, fun xs =>
      ⟨hdrains input requests xs, hdrained input requests xs⟩⟩,
      fun tokens => ⟨hexecutes tokens, hrecords tokens⟩⟩

/-- A rule goes past one of another state, and then past one of its own state for another token. -/
theorem ofItems_reordered_neighbours :
    let first : Rule Empty Bool Nat (Reaction Bool Nat Nat Nat Nat) :=
      ⟨.exact 1, true, some fun t _ _ => Action.emit t⟩
    let second : Rule Empty Bool Nat (Reaction Bool Nat Nat Nat Nat) := ⟨.exact 2, false, none⟩
    let third : Rule Empty Bool Nat (Reaction Bool Nat Nat Nat Nat) :=
      ⟨.any, false, some fun t _ _ => Action.emit (t + 10)⟩
    let items : List (Item Empty Bool Nat Nat Nat Nat Nat) :=
      [.initial false, .rule false first, .rule true third, .rule false second]
    let items' : List (Item Empty Bool Nat Nat Nat Nat Nat) :=
      [.rule true third, .transition [.loops [false], .label (.exact 2)], .initial false,
        .rule false first]
    ∃ m m', ofItems items = .ok m ∧ ofItems items' = .ok m' ∧
      (∃ last last', (m.run 0 (.ofList [2, 1, 5])).Drains [.ok 1, .ok 15] last ∧
        (m'.run 0 (.ofList [2, 1, 5])).Drains [.ok 1, .ok 15] last' ∧
        last.Matches Walk.Abreast last') ∧
      (m'.execute 0 [2, 3]).result = .error (.unexpected ⟨false, 3⟩) := by
  intro first second third items items'
  let m : Machine Empty Bool Nat Nat Nat Nat Nat :=
    ⟨false, none, none, ⟨[(false, [first, second]), (true, [third])]⟩⟩
  have hm : ofItems items = .ok m := rfl
  have hflat : items.flatMap Item.declared = [(false, first), (true, third), (false, second)] := rfl
  have hflat' : items'.flatMap Item.declared = [(true, third), (false, second), (false, first)] := rfl
  have hstates : Rule.Apart (false, first) (true, third) := .inl Bool.false_ne_true
  have htokens : Rule.Apart (false, first) (false, second) := by
    refine .inr fun t => ?_
    simp only [first, second, Rule.admits, Label.admits, beq_iff_eq]
    omega
  have hrules : Relation.ReflTransGen Rule.Swap (items.flatMap Item.declared)
      (items'.flatMap Item.declared) := by
    rw [hflat, hflat']
    exact (Relation.ReflTransGen.single (.intro [] [(false, second)] hstates)).tail
      (.intro [(true, third)] [] htokens)
  have halike : Item.Alike items items' := ⟨rfl, rfl, rfl⟩
  obtain ⟨hbuilt, hruns⟩ := ofItems_reordered hm halike hrules
  have hvalid : ∀ i ∈ items', i.Valid := by
    simp only [items', List.forall_mem_cons]
    exact ⟨trivial, ⟨_, rfl⟩, trivial, trivial, List.forall_mem_nil _⟩
  obtain ⟨m', hm'⟩ := hbuilt hvalid (by simp [items'])
  obtain ⟨hstreams, hexecutes⟩ := hruns m' hm' 0
  obtain ⟨-, -, hdrains⟩ := hstreams (.ofList [2, 1, 5]) []
  obtain ⟨hsame, hmatch⟩ := hdrains [.ok 1, .ok 15]
  have hitems :
      (m.plan.course true (Cue.ofTokens [2, 1, 5]) m.initial 0).items = [.ok 1, .ok 15] := rfl
  obtain ⟨last, hd, -⟩ := m.drains_course 0 (Input.gives_ofList [2, 1, 5])
  rw [hitems] at hd
  obtain ⟨last', hd'⟩ := hsame.1 ⟨last, hd⟩
  exact ⟨m, m', hm, hm', ⟨last, last', hd, hd', hmatch _ _ hd hd'⟩, (hexecutes [2, 3]).1.1⟩

end Machine

end Transducer
