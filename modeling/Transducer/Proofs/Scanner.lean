import Transducer.Demo.Lexer
import Transducer.Proofs.Courses

/-!
# The lexer as a scanner

What the lexer gives for a text, said without its states, its rules and its draft: a scanner that
takes the longest run of letters and digits for a word, and the longest run of digits for a number.

* `LexemeKind`: words and numbers; `LexemeKind.opening?`: the kind that a character begins.
* `scan`: **the reference scanner.**
* `ahead`: what the lexer gives for a text from a state and a draft on, and the draft it ends with.
* `LexemeKind.Drafts`, `drafts_of_opening?`: what the lexer does within a word or a number.
* `ahead_scan`, `drains_scan`: an idle lexer gives what the scanner gives.
* `lexer_scans`: **so does its run over any text.**
-/

namespace Transducer.Demo.Lexer

/-! ## The reference scanner -/

/-- A kind of lexemes that may be longer than one character. -/
structure LexemeKind where
  /-- The state of a scanner within such a lexeme. -/
  state : State
  /-- The character may stand in such a lexeme behind its first one. -/
  part : Char → Bool
  lexeme : List Char → Lexeme

namespace LexemeKind

/-- Words: letters and digits. -/
def word : LexemeKind := ⟨.word, Char.isAlphanum, .word⟩

/-- Numbers: digits. -/
def number : LexemeKind := ⟨.number, Char.isDigit, .number⟩

/-- The kind of lexeme that the character begins: a word if it is a letter, and a number if it is a
digit. -/
def opening? (c : Char) : Option LexemeKind :=
  if c.isAlpha then some word else if c.isDigit then some number else none

end LexemeKind

/-- A word or a number may stand in front of the character. -/
def delimits (c : Char) : Bool := Text.isBlank c || marks.contains c

/-- The first character of the text, if no word or number may stand in front of it. -/
def stray? (text : List Char) : Option Char := text.head?.filter fun c => !delimits c

/-- The lexemes of a text, and behind them the failure at the first character that is not allowed.
A word or a number takes as many characters as it can. -/
def scan : List Char → List Output
  | [] => []
  | c :: rest =>
    if Text.isBlank c then scan rest
    else if marks.contains c then .ok (.punct c) :: scan rest
    else
      match LexemeKind.opening? c with
      | none => [.error (.unexpected ⟨.idle, c⟩)]
      | some k =>
        match stray? (rest.dropWhile k.part) with
        | some c' => [.error (.unexpected ⟨k.state, c'⟩)]
        | none => .ok (k.lexeme (c :: rest.takeWhile k.part)) :: scan (rest.dropWhile k.part)
termination_by text => text.length
decreasing_by
  · simp
  · simp
  · simp only [List.length_cons]
    have := (List.dropWhile_sublist k.part (l := rest)).length_le
    omega

/-! ## Classes of characters -/

section

variable {c : Char}

theorem toNat_of_isAlpha (h : c.isAlpha = true) :
    65 ≤ c.toNat ∧ c.toNat ≤ 90 ∨ 97 ≤ c.toNat ∧ c.toNat ≤ 122 := by
  obtain h | h := Bool.or_eq_true_iff.1 h
  · obtain ⟨hlo, hhi⟩ : c.val ≥ 'A'.val ∧ c.val ≤ 'Z'.val := of_decide_eq_true h
    exact .inl ⟨UInt32.le_iff_toNat_le.1 hlo, UInt32.le_iff_toNat_le.1 hhi⟩
  · obtain ⟨hlo, hhi⟩ := Bool.and_eq_true_iff.1 h
    exact .inr ⟨UInt32.le_iff_toNat_le.1 (of_decide_eq_true hlo),
      UInt32.le_iff_toNat_le.1 (of_decide_eq_true hhi)⟩

theorem toNat_of_isDigit (h : c.isDigit = true) : 48 ≤ c.toNat ∧ c.toNat ≤ 57 := by
  obtain ⟨hlo, hhi⟩ := Bool.and_eq_true_iff.1 h
  exact ⟨UInt32.le_iff_toNat_le.1 (of_decide_eq_true hlo),
    UInt32.le_iff_toNat_le.1 (of_decide_eq_true hhi)⟩

theorem toNat_of_isAlphanum (h : c.isAlphanum = true) :
    48 ≤ c.toNat ∧ c.toNat ≤ 57 ∨ 65 ≤ c.toNat ∧ c.toNat ≤ 90 ∨ 97 ≤ c.toNat ∧ c.toNat ≤ 122 := by
  obtain h | h := Bool.or_eq_true_iff.1 h
  · exact .inr (toNat_of_isAlpha h)
  · exact .inl (toNat_of_isDigit h)

theorem isAlphanum_of_isBlank (h : Text.isBlank c = true) : c.isAlphanum = false := by
  rw [Text.isBlank, Text.inRanges_iff] at h
  obtain ⟨r, hr, hle⟩ := h
  rw [← Bool.not_eq_true]
  intro ha
  have hc := toNat_of_isAlphanum ha
  simp only [Text.blankRanges, List.mem_cons, List.not_mem_nil, or_false] at hr
  rcases hr with rfl | rfl | rfl | rfl | rfl | rfl | rfl | rfl | rfl | rfl <;> simp only at hle <;> omega

theorem mem_marks (h : marks.contains c = true) :
    c = '(' ∨ c = ')' ∨ c = ',' ∨ c = ';' ∨ c = '=' ∨ c = '+' := by
  simpa [marks] using h

theorem isAlphanum_of_marks (h : marks.contains c = true) : c.isAlphanum = false := by
  rcases mem_marks h with rfl | rfl | rfl | rfl | rfl | rfl <;> rfl

theorem isBlank_of_marks (h : marks.contains c = true) : Text.isBlank c = false := by
  rcases mem_marks h with rfl | rfl | rfl | rfl | rfl | rfl <;> rfl

end

/-! ## What is to come -/

/-- What the lexer gives for a text from a state and a draft on, and the draft it ends with. -/
def ahead (text : List Char) (s : State) (d : Draft) : List Output × Draft :=
  let x := lexer.plan.course true (text.map .token ++ [.finish]) s d
  (x.items, x.context)

/-- The same behind some lexemes. -/
def behind (ls : List Lexeme) (x : List Output × Draft) : List Output × Draft :=
  (ls.map .ok ++ x.1, x.2)

section

variable {c : Char} {rest : List Char} {s : State} {d d' : Draft} {ls ls' : List Lexeme}
  {r : Rule CharClass State Char Step}

theorem behind_append (x : List Output × Draft) : behind (ls ++ ls') x = behind ls (behind ls' x) := by
  simp [behind]

theorem ahead_nil : ahead [] s d = ((d.flush.1.map .ok).toList, {}) := by
  obtain ⟨text, kind⟩ := d
  cases kind with
  | none => rfl
  | some k => cases k <;> rfl

theorem ahead_of_rule (hr : lexer.plan.rule? s c = some r)
    (ho : (r.action.map fun step => step c s r.target true d).getD ⟨d, [], .ok ()⟩ =
      ⟨d', ls, .ok ()⟩) :
    ahead (c :: rest) s d = behind ls (ahead rest r.target d') := by
  obtain ⟨label, target, action⟩ := r
  cases action with
  | none =>
    simp only [Option.map_none, Option.getD_none, Outcome.mk.injEq] at ho
    obtain ⟨rfl, rfl, -⟩ := ho
    simp [ahead, behind, Plan.course, Plan.leg, hr, Leg.acting, Course.items]
  | some step =>
    simp only [Option.map_some, Option.getD_some] at ho
    simp [ahead, behind, Plan.course, Plan.leg, hr, Leg.acting, ho, Course.items]

theorem ahead_of_none (hr : lexer.plan.rule? s c = none) :
    ahead (c :: rest) s d = ([.error (.unexpected ⟨s, c⟩)], d) := by
  simp [ahead, Plan.course, Plan.leg, hr, Course.items]

theorem rule?_eq {rs : List (Rule CharClass State Char Step)} (h : lexer.table.rules s = rs) :
    lexer.plan.rule? s c = rs.find? (·.label.admits c) := by
  rw [← h]
  rfl

/-! ## Nothing read yet -/

theorem rules_idle : lexer.table.rules .idle =
    [⟨.pattern .letter, .word, some opens⟩, ⟨.pattern .digit, .number, some opens⟩,
      ⟨.pattern .blank, .idle, none⟩, ⟨.pattern .mark, .idle, some gives⟩] :=
  rfl

theorem ahead_idle_blank (h : Text.isBlank c = true) :
    ahead (c :: rest) .idle d = ahead rest .idle d := by
  obtain ⟨ha, hd⟩ := Bool.or_eq_false_iff.1 (isAlphanum_of_isBlank h)
  have hr : lexer.plan.rule? .idle c = some ⟨.pattern .blank, .idle, none⟩ := by
    simp [rule?_eq rules_idle, Label.admits, Pattern.covers, CharClass.contains, ha, hd, h]
  exact ahead_of_rule hr rfl

theorem ahead_idle_mark (h : marks.contains c = true) :
    ahead (c :: rest) .idle d = behind [.punct c] (ahead rest .idle d) := by
  obtain ⟨ha, hd⟩ := Bool.or_eq_false_iff.1 (isAlphanum_of_marks h)
  have hr : lexer.plan.rule? .idle c = some ⟨.pattern .mark, .idle, some gives⟩ := by
    simp only [rule?_eq rules_idle, Label.admits, Pattern.covers, CharClass.contains,
      List.find?_cons, ha, hd, isBlank_of_marks h, h]
  exact ahead_of_rule hr rfl

theorem ahead_idle_opening {k : LexemeKind} (h : LexemeKind.opening? c = some k) :
    ahead (c :: rest) .idle {} = ahead rest k.state ⟨[c], some k.state⟩ := by
  unfold LexemeKind.opening? at h
  by_cases ha : c.isAlpha = true
  · rw [if_pos ha] at h
    obtain rfl := Option.some.inj h
    have hr : lexer.plan.rule? .idle c = some ⟨.pattern .letter, .word, some opens⟩ := by
      simp [rule?_eq rules_idle, Label.admits, Pattern.covers, CharClass.contains, ha]
    exact ahead_of_rule hr rfl
  · rw [if_neg ha] at h
    obtain ⟨hd, hk⟩ := Option.ite_none_right_eq_some.1 h
    obtain rfl := Option.some.inj hk
    have hr : lexer.plan.rule? .idle c = some ⟨.pattern .digit, .number, some opens⟩ := by
      simp [rule?_eq rules_idle, Label.admits, Pattern.covers, CharClass.contains, ha, hd]
    exact ahead_of_rule hr rfl

theorem ahead_idle_none (hb : Text.isBlank c = false) (hm : marks.contains c = false)
    (h : LexemeKind.opening? c = none) :
    ahead (c :: rest) .idle d = ([.error (.unexpected ⟨.idle, c⟩)], d) := by
  have ha : c.isAlpha = false := by
    rw [← Bool.not_eq_true]
    intro ha
    simp [LexemeKind.opening?, ha] at h
  have hd : c.isDigit = false := by
    rw [← Bool.not_eq_true]
    intro hd
    simp [LexemeKind.opening?, ha, hd] at h
  refine ahead_of_none ?_
  simp only [rule?_eq rules_idle, Label.admits, Pattern.covers, CharClass.contains,
    List.find?_cons, List.find?_nil, ha, hd, hb, hm]

/-! ## A word or a number -/

/-- Within a lexeme of the kind, its characters are put behind the draft, a delimiter gives the draft
and empties it, and no other character has a rule. -/
structure LexemeKind.Drafts (k : LexemeKind) : Prop where
  ended : ∀ t, ahead [] k.state ⟨t, some k.state⟩ = ([.ok (k.lexeme t)], {})
  part : ∀ c rest t, k.part c = true →
    ahead (c :: rest) k.state ⟨t, some k.state⟩ = ahead rest k.state ⟨t ++ [c], some k.state⟩
  blank : ∀ c rest t, k.part c = false → Text.isBlank c = true →
    ahead (c :: rest) k.state ⟨t, some k.state⟩ = behind [k.lexeme t] (ahead rest .idle {})
  mark : ∀ c rest t, k.part c = false → marks.contains c = true →
    ahead (c :: rest) k.state ⟨t, some k.state⟩ =
      behind [k.lexeme t, .punct c] (ahead rest .idle {})
  stray : ∀ c rest t, k.part c = false → delimits c = false →
    ahead (c :: rest) k.state ⟨t, some k.state⟩ =
      ([.error (.unexpected ⟨k.state, c⟩)], ⟨t, some k.state⟩)

@[simp] theorem contains_blank : CharClass.blank.contains c = Text.isBlank c := rfl

@[simp] theorem contains_mark : CharClass.mark.contains c = marks.contains c := rfl

theorem flush_of_draft {l : Lexeme} (h : d.flush = (some l, {})) :
    flush true d = ⟨{}, [l], .ok ()⟩ := by
  simp [flush, bind, Action.bind, Action.modifyGet, h, Action.emit]

theorem LexemeKind.drafts_of_rules {k : LexemeKind} {p : CharClass} (hp : p.contains = k.part)
    (hf : ∀ t, Draft.flush ⟨t, some k.state⟩ = (some (k.lexeme t), {}))
    (hrules : lexer.table.rules k.state = [⟨.pattern p, k.state, some grows⟩,
      ⟨.pattern .blank, .idle, some closes⟩, ⟨.pattern .mark, .idle, some closesAndGives⟩]) :
    k.Drafts where
  ended t := by
    rw [ahead_nil, hf]
    rfl
  part c rest t h := by
    have hr : lexer.plan.rule? k.state c = some ⟨.pattern p, k.state, some grows⟩ := by
      simp [rule?_eq hrules, Label.admits, Pattern.covers, hp, h]
    exact ahead_of_rule hr rfl
  blank c rest t h hb := by
    have hr : lexer.plan.rule? k.state c = some ⟨.pattern .blank, .idle, some closes⟩ := by
      simp only [rule?_eq hrules, Label.admits, Pattern.covers, List.find?_cons, hp, h,
        contains_blank, hb]
    exact ahead_of_rule hr (flush_of_draft (hf t))
  mark c rest t h hm := by
    have hr : lexer.plan.rule? k.state c = some ⟨.pattern .mark, .idle, some closesAndGives⟩ := by
      simp only [rule?_eq hrules, Label.admits, Pattern.covers, List.find?_cons, hp, h,
        contains_blank, contains_mark, isBlank_of_marks hm, hm]
    have ho : closesAndGives c k.state .idle true ⟨t, some k.state⟩ =
        ⟨{}, [k.lexeme t, .punct c], .ok ()⟩ := by
      simp [closesAndGives, bind, Action.bind, flush_of_draft (hf t), Action.emit]
    exact ahead_of_rule hr ho
  stray c rest t h hd := by
    obtain ⟨hb, hm⟩ := Bool.or_eq_false_iff.1 hd
    refine ahead_of_none ?_
    simp only [rule?_eq hrules, Label.admits, Pattern.covers, List.find?_cons, List.find?_nil, hp, h,
      contains_blank, contains_mark, hb, hm]

theorem LexemeKind.drafts_of_opening? {k : LexemeKind} (h : opening? c = some k) : k.Drafts := by
  unfold opening? at h
  by_cases ha : c.isAlpha = true
  · rw [if_pos ha] at h
    obtain rfl := Option.some.inj h
    exact drafts_of_rules (p := .letterOrDigit) rfl (fun _ => rfl) rfl
  · rw [if_neg ha] at h
    obtain ⟨-, hk⟩ := Option.ite_none_right_eq_some.1 h
    obtain rfl := Option.some.inj hk
    exact drafts_of_rules (p := .digit) rfl (fun _ => rfl) rfl

/-- Within a lexeme, the lexer takes as many characters as it can, and then gives it unless the next
one is stray. -/
theorem LexemeKind.Drafts.ahead_draft {k : LexemeKind} (hk : k.Drafts) (text t : List Char) :
    let more := text.dropWhile k.part
    ahead text k.state ⟨t, some k.state⟩ =
      match stray? more with
      | some c => ([.error (.unexpected ⟨k.state, c⟩)], ⟨t ++ text.takeWhile k.part, some k.state⟩)
      | none => behind [k.lexeme (t ++ text.takeWhile k.part)] (ahead more .idle {}) := by
  induction text generalizing t with
  | nil =>
    rw [hk.ended, List.takeWhile_nil, List.append_nil]
    rfl
  | cons c rest ih =>
    cases hc : k.part c with
    | true =>
      have hmore := ih (t ++ [c])
      rw [List.append_assoc, List.singleton_append] at hmore
      rw [hk.part c rest t hc, List.dropWhile_cons_of_pos hc, List.takeWhile_cons_of_pos hc]
      exact hmore
    | false =>
      have hn : ¬ k.part c = true := by rw [hc]; exact Bool.false_ne_true
      rw [List.dropWhile_cons_of_neg hn, List.takeWhile_cons_of_neg hn, List.append_nil]
      cases hd : delimits c with
      | false =>
        have hs : stray? (c :: rest) = some c := by simp [stray?, hd]
        simp only [hs]
        exact hk.stray c rest t hc hd
      | true =>
        have hs : stray? (c :: rest) = none := by simp [stray?, hd]
        simp only [hs]
        -- the character that ends the lexeme is read as it is read without one
        obtain hb | hm := Bool.or_eq_true_iff.1 hd
        · rw [hk.blank c rest t hc hb, ahead_idle_blank hb]
        · rw [hk.mark c rest t hc hm, ahead_idle_mark hm, ← behind_append]
          rfl

/-! ## Texts -/

/-- The outputs are the given ones, and the draft is empty behind them unless one is a failure. -/
structure Comes (x : List Output × Draft) (ys : List Output) : Prop where
  items_eq : x.1 = ys
  draft_eq : (∀ y ∈ ys, ∃ l, y = .ok l) → x.2 = {}

theorem Comes.behind {x : List Output × Draft} {ys : List Output} (h : Comes x ys)
    (ls : List Lexeme) : Comes (behind ls x) (ls.map .ok ++ ys) where
  items_eq := congrArg _ h.items_eq
  draft_eq hy := h.draft_eq fun y hm => hy y (List.mem_append_right _ hm)

theorem comes_error (e : Failure State Char Unexpected) (d : Draft) :
    Comes ([.error e], d) [.error e] where
  items_eq := rfl
  draft_eq h := by
    obtain ⟨l, hl⟩ := h _ List.mem_cons_self
    cases hl

/-- An idle lexer gives what the scanner gives. -/
theorem ahead_scan (text : List Char) : Comes (ahead text .idle {}) (scan text) := by
  fun_induction scan text with
  | case1 => exact ⟨rfl, fun _ => rfl⟩
  | case2 c rest hb ih =>
    rw [ahead_idle_blank hb]
    exact ih
  | case3 c rest hb hm ih =>
    rw [ahead_idle_mark hm]
    exact ih.behind [.punct c]
  | case4 c rest hb hm hk =>
    rw [ahead_idle_none (Bool.eq_false_iff.2 hb) (Bool.eq_false_iff.2 hm) hk]
    exact comes_error _ _
  | case5 c rest hb hm k hk c' hs =>
    have hd := (LexemeKind.drafts_of_opening? hk).ahead_draft rest [c]
    simp only [hs] at hd
    rw [ahead_idle_opening hk, hd]
    exact comes_error _ _
  | case6 c rest hb hm k hk hs ih =>
    have hd := (LexemeKind.drafts_of_opening? hk).ahead_draft rest [c]
    simp only [hs] at hd
    rw [ahead_idle_opening hk, hd]
    exact ih.behind [k.lexeme (c :: rest.takeWhile k.part)]

/-- Polls up to the end give what the scanner gives. -/
theorem drains_scan (text : List Char) :
    ∃ last, (scanning text).Drains (scan text) last ∧
      ((∀ x ∈ scan text, ∃ l, x = .ok l) → last.context = {}) := by
  obtain ⟨last, hd, hx⟩ := lexer.drains_course {} (Input.gives_ofList text)
  -- nothing is done at the start, so the course is that of the text from an empty draft on
  have hcomes := ahead_scan text
  refine ⟨last, ?_, fun h => hx.context_eq.trans (hcomes.draft_eq h)⟩
  rw [← hcomes.items_eq]
  exact hd

end

/-- **The lexer is a scanner that takes as much as it can.** Polls up to the end, over any text and
from an empty draft, give the lexemes of the reference scanner, and behind them the one failure at
the first character that is not allowed, if there is one, with the state it is met in; nothing comes
behind it. Without a failure the draft is empty at the end. -/
theorem lexer_scans (text : List Char) :
    ∃ last, (∀ xs r, (scanning text).Drains xs r ↔ xs = scan text ∧ r = last) ∧
      ((∀ x ∈ scan text, ∃ l, x = .ok l) → last.context = {}) := by
  obtain ⟨last, hd, hdraft⟩ := drains_scan text
  exact ⟨last, fun xs r => hd.iff, hdraft⟩

example : scan ['f', '(', '1', '2', 'a', ' '] =
    [.ok (.word ['f']), .ok (.punct '('), .error (.unexpected ⟨.number, 'a'⟩)] := by cbv

end Transducer.Demo.Lexer
