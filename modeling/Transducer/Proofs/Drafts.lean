import Transducer.Proofs.Endings
import Transducer.Proofs.Lexemes

/-!
# The draft of the lexer

What the lexer holds is what its state says, at every moment of every run; and it holds nothing at
each moment at which a run may be left.

* `Draft.OfState`: the draft is one that the state tells of.
* `Draft.OfState.flush_eq`: to give such a draft is to give all of its text.
* `keeps_of_rule`: **each rule keeps the draft one that the state tells of**, and leaves nothing
  where it gives something.
* `drafted_of_visits`: **so do all runs**, whatever their input.
* `lexer_leaves_nothing`: **a run that has just given a lexeme, or has come to its end, may be left,
  and the next one begins as if it had never been.**
-/

namespace Transducer.Demo.Lexer

variable {s : State} {c : Char} {d : Draft} {t : List Char}

/-- The draft is one that the state tells of: empty if nothing is being read, and else the beginning
of a word or a number. -/
inductive Draft.OfState : State → Draft → Prop
  | idle : OfState .idle {}
  | word {c : Char} {rest : List Char} :
      c.isAlpha = true → (∀ d ∈ rest, d.isAlphanum = true) → OfState .word ⟨c :: rest, some .word⟩
  | number {t : List Char} :
      t ≠ [] → (∀ d ∈ t, d.isDigit = true) → OfState .number ⟨t, some .number⟩

theorem Draft.OfState.flush_eq (h : OfState s d) :
    ∃ ls : List Lexeme, Lexer.flush true d = ⟨{}, ls, .ok ()⟩ ∧ ls.flatMap Lexeme.text = d.text ∧
      (ls = [] ↔ s = .idle) ∧ ∀ l ∈ ls, l.WellFormed := by
  cases h with
  | idle => exact ⟨[], rfl, rfl, iff_of_true rfl rfl, nofun⟩
  | @word c rest hc hrest =>
    refine ⟨[.word (c :: rest)], rfl, List.append_nil _, iff_of_false nofun nofun, ?_⟩
    exact List.forall_mem_singleton.2 ⟨c, rest, rfl, hc, hrest⟩
  | @number t hne ht =>
    refine ⟨[.number t], rfl, List.append_nil _, iff_of_false nofun nofun, ?_⟩
    exact List.forall_mem_singleton.2 ⟨hne, ht⟩

/-! ## Rules -/

/-- An action succeeds, leaves a draft that the state tells of, and nothing in it if it has given
something. -/
structure Keeps (s : State) (o : Outcome Draft Lexeme Unexpected Unit) : Prop where
  result_eq : o.result = .ok ()
  drafted : o.context.OfState s
  fresh : o.emits ≠ [] → o.context = {}

theorem keeps_fresh (ls : List Lexeme) : Keeps .idle ⟨{}, ls, .ok ()⟩ := ⟨rfl, .idle, fun _ => rfl⟩

/-- What the rule does with a draft for a character. -/
def outcome (r : Rule CharClass State Char Step) (c : Char) (s : State) (d : Draft) :
    Outcome Draft Lexeme Unexpected Unit :=
  (r.action.map fun step => step c s r.target true d).getD ⟨d, [], .ok ()⟩

theorem rules_word : lexer.table.rules .word =
    [⟨.pattern .letterOrDigit, .word, some grows⟩, ⟨.pattern .blank, .idle, some closes⟩,
      ⟨.pattern .mark, .idle, some closesAndGives⟩] :=
  rfl

theorem rules_number : lexer.table.rules .number =
    [⟨.pattern .digit, .number, some grows⟩, ⟨.pattern .blank, .idle, some closes⟩,
      ⟨.pattern .mark, .idle, some closesAndGives⟩] :=
  rfl

/-- Each rule keeps the draft one that the state tells of. -/
theorem keeps_of_rule (h : d.OfState s) {r : Rule CharClass State Char Step}
    (hr : r ∈ lexer.table.rules s) (hc : r.admits c = true) : Keeps r.target (outcome r c s d) := by
  cases h with
  | idle =>
    simp only [rules_idle, List.mem_cons, List.not_mem_nil, or_false] at hr
    obtain rfl | rfl | rfl | rfl := hr
    · exact ⟨rfl, .word hc nofun, fun hn => absurd rfl hn⟩
    · exact ⟨rfl, .number nofun (List.forall_mem_singleton.2 hc), fun hn => absurd rfl hn⟩
    · exact keeps_fresh []
    · exact keeps_fresh [.punct c]
  | @word first rest hfirst hrest =>
    simp only [rules_word, List.mem_cons, List.not_mem_nil, or_false] at hr
    obtain rfl | rfl | rfl := hr
    · refine ⟨rfl, .word hfirst ?_, fun hn => absurd rfl hn⟩
      exact List.forall_mem_append.2 ⟨hrest, List.forall_mem_singleton.2 hc⟩
    · exact keeps_fresh [.word (first :: rest)]
    · exact keeps_fresh [.word (first :: rest), .punct c]
  | @number t hne ht =>
    simp only [rules_number, List.mem_cons, List.not_mem_nil, or_false] at hr
    obtain rfl | rfl | rfl := hr
    · refine ⟨rfl, .number (List.append_ne_nil_of_left_ne_nil hne _) ?_, fun hn => absurd rfl hn⟩
      exact List.forall_mem_append.2 ⟨ht, List.forall_mem_singleton.2 hc⟩
    · exact keeps_fresh [.number t]
    · exact keeps_fresh [.number t, .punct c]

/-! ## Legs -/

/-- A leg keeps the draft one that the state tells of, up to the end, which empties it and does not
fail. It leaves nothing where it gives something. -/
structure LegKeeps (q : Cue Char) (l : Leg State Char Draft Lexeme Unexpected) : Prop where
  drafted : q ≠ .finish → l.context.OfState l.state
  fresh : ∀ ls, l.result = .ok ls → ls ≠ [] → l.context = {}
  ended : q = .finish → l.context = {}
  ne_finish : ∀ e, l.result = .error e → q ≠ .finish

theorem legKeeps_token (h : d.OfState s) (c : Char) :
    LegKeeps (.token c) (lexer.plan.leg true s d (.token c)) := by
  have hq : Cue.token c ≠ .finish := fun hf => by cases hf
  rw [Plan.leg]
  cases hr : lexer.plan.rule? s c with
  | none =>
    refine ⟨fun _ => h, fun ls hls => ?_, fun hf => absurd hf hq, fun _ _ => hq⟩
    cases hls
  | some r =>
    have hfind : (lexer.table.rules s).find? (·.admits c) = some r := hr
    have hadmits := List.find?_some hfind
    obtain ⟨hresult, hdrafted, hfresh⟩ := keeps_of_rule h (List.mem_of_find?_eq_some hfind) hadmits
    obtain ⟨label, target, action⟩ := r
    cases action with
    | none =>
      refine ⟨fun _ => hdrafted, fun ls hls hne => ?_, fun hf => absurd hf hq, fun _ _ => hq⟩
      exact absurd (Except.ok.inj hls).symm hne
    | some step =>
      have hstep : (step c s target true d).result = .ok () := hresult
      simp only [Option.map_some, Leg.acting, hstep]
      refine ⟨fun _ => hdrafted, fun ls hls hne => hfresh ?_, fun hf => absurd hf hq, fun _ _ => hq⟩
      rwa [← Except.ok.inj hls] at hne

theorem legKeeps (h : d.OfState s) {q : Cue Char} (hstart : q = .start → d = {}) :
    LegKeeps q (lexer.plan.leg true s d q) := by
  cases q with
  | start =>
    obtain rfl := hstart rfl
    have hq : (Cue.start : Cue Char) ≠ .finish := fun hf => by cases hf
    exact ⟨fun _ => .idle, fun _ _ _ => rfl, fun hf => absurd hf hq, fun _ _ => hq⟩
  | token c => exact legKeeps_token h c
  | finish =>
    obtain ⟨ls, hflush, -⟩ := h.flush_eq
    have hfinish : lexer.plan.onFinish = some flush := rfl
    simp only [Plan.leg, hfinish, Leg.acting, hflush]
    exact ⟨fun hne => absurd rfl hne, fun _ _ _ => rfl, fun _ => rfl, fun e he => by cases he⟩

/-! ## Runs -/

/-- The draft of a run is one that its state tells of, unless the run has come to its end without a
failure. It is empty then, and wherever lexemes wait. -/
structure Drafted (xs : List Output) (r : Scanning) : Prop where
  machine_eq : r.machine = lexer
  begins : r.phase = .start → r.context = {}
  failed : (∃ e, .error e ∈ xs) → r.phase = .done
  drafted : (r.phase ≠ .done ∨ ∃ e, .error e ∈ xs) → r.context.OfState r.state
  fresh : r.pending ≠ [] → r.context = {}
  ended : r.phase = .done → (∀ e, .error e ∉ xs) → r.context = {}

section

variable {xs : List Output} {r after : Scanning} {q : Cue Char}

theorem error_mem_concat_ok {l : Lexeme} {e : Failure State Char Unexpected} :
    .error e ∈ xs ++ [.ok l] ↔ .error e ∈ xs := by
  rw [List.mem_append, List.mem_singleton]
  exact or_iff_left nofun

theorem Drafted.stride_keeps (h : Drafted xs r) (hq : r.cue? = some q) :
    ∃ l, LegKeeps q l ∧ (r.heed q).state = l.state ∧ (r.heed q).context = l.context ∧
      ((r.stride q).result.map fun _ => (r.stride q).emits) = l.result := by
  have hshows := lexer.stride_shows true q r.walk
  rw [← h.machine_eq] at hshows
  refine ⟨_, legKeeps (h.drafted (.inl (Run.ne_done_of_cue? hq))) fun hs => h.begins ?_, ?_⟩
  · -- only a run that has not begun is to start
    subst hs
    cases hp : r.phase with
    | start => rfl
    | input =>
      rw [Run.cue?_of_input hp] at hq
      have hne := r.input.isStart_cue r.asked
      rw [Option.some.inj hq] at hne
      cases hne
    | done => exact absurd hp (Run.ne_done_of_cue? hq)
  · rw [← h.machine_eq]
    exact ⟨hshows.state_eq, hshows.context_eq, hshows.result_eq⟩

theorem Drafted.fill {v : Option Unit} (h : Drafted xs r) (hq : r.cue? = some q)
    (hs : (r.stride q).result = .ok v) :
    Drafted xs ((r.heed q).withPending (r.stride q).emits) := by
  obtain ⟨l, hl, hstate, hcontext, hresult⟩ := h.stride_keeps hq
  have hdone := Run.ne_done_of_cue? hq
  have hphase : q.phase = .done ↔ q = .finish := by cases q <;> simp [Cue.phase]
  have hfailed : ¬ ∃ e, .error e ∈ xs := fun he => hdone (h.failed he)
  rw [hs] at hresult
  refine ⟨h.machine_eq, fun hp => absurd hp q.phase_ne_start, fun he => absurd he hfailed,
    fun hp => ?_, fun hne => hcontext.trans (hl.fresh _ hresult.symm hne), fun hp _ => ?_⟩
  · have hdrafted := hl.drafted fun hf => (hp.resolve_right hfailed) (hphase.2 hf)
    rw [← hcontext, ← hstate] at hdrafted
    exact hdrafted
  · exact hcontext.trans (hl.ended (hphase.1 hp))

theorem Drafted.fail {e : Failure State Char Unexpected} (h : Drafted xs r) (hp : r.pending = [])
    (hq : r.cue? = some q) (hs : (r.stride q).result = .error e) :
    Drafted (xs ++ [.error e]) { r.heed q with phase := .done } := by
  obtain ⟨l, hl, hstate, hcontext, hresult⟩ := h.stride_keeps hq
  rw [hs] at hresult
  refine ⟨h.machine_eq, nofun, fun _ => rfl, fun _ => ?_, fun hne => absurd hp hne, fun _ hno => ?_⟩
  · have hdrafted := hl.drafted (hl.ne_finish e hresult.symm)
    rw [← hcontext, ← hstate] at hdrafted
    exact hdrafted
  · exact absurd (List.mem_append_right _ (List.mem_singleton.2 rfl)) (hno e)

theorem drafted_invariant : Run.Invariant Drafted where
  record h := ⟨h.machine_eq, h.begins, h.failed, h.drafted, h.fresh, h.ended⟩
  give {xs r w ws} h hp := by
    have hfresh : r.context = {} := h.fresh (by rw [hp]; exact List.cons_ne_nil _ _)
    refine ⟨h.machine_eq, h.begins, ?_, ?_, fun _ => hfresh, ?_⟩
    · simp only [error_mem_concat_ok]
      exact h.failed
    · simp only [error_mem_concat_ok]
      exact h.drafted
    · exact fun _ _ => hfresh
  fill h _ hq hs := h.fill hq hs
  fail h hp hq hs := h.fail hp hq hs

/-- Whatever a run does, its draft is one that its state tells of. -/
theorem drafted_of_visits {input : Input Char} (h : (lexer.run {} input).Visits xs r) :
    Drafted xs r := by
  refine drafted_invariant.visits ?_ h
  exact {
    machine_eq := rfl
    begins := fun _ => rfl
    failed := fun ⟨_, he⟩ => absurd he List.not_mem_nil
    drafted := fun _ => Draft.OfState.idle
    fresh := fun _ => rfl
    ended := fun _ _ => rfl }

theorem Drafted.fresh_of_polled {n : Nat} {p : Poll State Char Lexeme Unexpected} (h : Drafted xs r)
    (hp : Run.Polled n r p after) {l : Lexeme} (hl : p = .item (.ok l)) : after.context = {} := by
  induction hp with
  | give n hpending => exact h.fresh (by rw [hpending]; exact List.cons_ne_nil _ _)
  | work hpending => cases hl
  | ended n hpending hdone => cases hl
  | fill hpending hq hs _ ih => exact ih (h.fill hq hs) hl
  | fail n hpending hq hs => cases hl

theorem Drafted.fresh_of_ended (h : Drafted xs r) (ha : r.Answers .ended after)
    (hxs : ∀ e, .error e ∉ xs) : after.context = {} := by
  obtain ⟨-, n, hn⟩ := id ha
  have hafter := drafted_invariant.next h n
  rw [hn] at hafter
  have hitems : (Poll.ended : Poll State Char Lexeme Unexpected).items = [] := rfl
  rw [hitems, List.append_nil] at hafter
  exact hafter.ended (ha.isOver rfl).phase_eq hxs

end

/-- **The state tells of the draft, and the lexer may be left behind any lexeme.** Over any input, and
from an empty draft, the draft is one that the state tells of up to the action at the end, and stays
so behind a failure; to give it there is to give all of its text, and to give nothing only if nothing
is being read. A poll that gives a lexeme, or says that there is nothing more when no failure has been
given, leaves the draft empty: a run that begins with what it leaves is one from an empty draft. -/
theorem lexer_leaves_nothing {input : Input Char} {xs : List Output} {r : Scanning}
    (h : (lexer.run {} input).Visits xs r) :
    ((r.isDone = false ∨ ∃ e, .error e ∈ xs) → r.context.OfState r.state ∧
      ∃ ls : List Lexeme, flush true r.context = ⟨{}, ls, .ok ()⟩ ∧
        ls.flatMap Lexeme.text = r.context.text ∧ (ls = [] ↔ r.state = .idle) ∧
        ∀ l ∈ ls, l.WellFormed) ∧
    ∀ p after, r.Answers p after →
      ((∃ l, p = .item (.ok l)) ∨ p = .ended ∧ ∀ e, .error e ∉ xs) →
        after.context = {} ∧ ∀ input', lexer.run after.context input' = lexer.run {} input' := by
  have hdrafted := drafted_of_visits h
  constructor
  · intro hr
    have hof := hdrafted.drafted (hr.imp_left of_decide_eq_false)
    exact ⟨hof, hof.flush_eq⟩
  · intro p after ha hp
    have hfresh : after.context = {} := by
      obtain ⟨l, rfl⟩ | ⟨rfl, hxs⟩ := hp
      · obtain ⟨-, n, hn⟩ := ha
        have hpolled := Run.polled_next n r
        rw [hn] at hpolled
        exact hdrafted.fresh_of_polled hpolled rfl
      · exact hdrafted.fresh_of_ended ha hxs
    exact ⟨hfresh, fun input' => by rw [hfresh]⟩

/-- Between the letter and the mark of an endless input the draft is a word; a run that is left while
the mark waits leaves nothing. -/
theorem lexer_leaves_nothing_endless :
    let input : Input Char := .cycle ['a', '+']
    let r : Scanning := ((lexer.run {} input).next 2).2
    (lexer.run {} input).Visits [] r ∧ r.context.OfState .word ∧
      ∃ after, r.Answers (.item (.ok (.word ['a']))) after ∧ after.pending = [.punct '+'] ∧
        lexer.run after.context input = lexer.run {} input := by
  intro input r
  have hv : (lexer.run {} input).Visits [] r := Run.Visits.refl.poll 2
  obtain ⟨hstate, hfresh⟩ := lexer_leaves_nothing hv
  have ha : r.Answers (.item (.ok (.word ['a']))) (r.next 1).2 := ⟨nofun, 1, rfl⟩
  exact ⟨hv, (hstate (.inl rfl)).1, _, ha, rfl, (hfresh _ _ ha (.inl ⟨_, rfl⟩)).2 input⟩

end Transducer.Demo.Lexer
