import Transducer.Proofs.Scanner

/-!
# Texts and their lexemes

A text without its blanks is its lexemes one behind the other, and any text that writes lexemes with
blanks where they are due is cut into just these.

* `Lexeme.WellFormed`: what words, numbers and marks look like.
* `Lined`, `Writes`: a text that writes some lexemes.
* `scan_of_lined`, `writes_of_scan`: **the scanner cuts a text into some lexemes just if the text
  writes them.**
* `Writes.filter_eq`: the lexemes of a text hold all its characters but the blanks.
* `lexer_reads_back`: **so does the lexer, and it reads back whatever is written.**
-/

namespace Transducer.Demo.Lexer

/-! ## Lexemes -/

namespace Lexeme

/-- The characters of a lexeme. -/
def text : Lexeme → List Char
  | word t => t
  | number t => t
  | punct c => [c]

/-- The lexeme is a mark. -/
def isMark : Lexeme → Bool
  | punct _ => true
  | _ => false

/-- A word is a letter with letters and digits behind it, a number is one digit or more, and a mark is
one of the six. Letters and digits are those of ASCII. -/
def WellFormed : Lexeme → Prop
  | word t => ∃ c rest, t = c :: rest ∧ c.isAlpha = true ∧ ∀ d ∈ rest, d.isAlphanum = true
  | number t => t ≠ [] ∧ ∀ d ∈ t, d.isDigit = true
  | punct c => c ∈ ['(', ')', ',', ';', '=', '+']

/-- How a well-formed lexeme begins and goes on. -/
inductive Shaped : Lexeme → Prop
  | mark {c : Char} : marks.contains c = true → Shaped (punct c)
  | drafted {k : LexemeKind} {c : Char} {rest : List Char} :
      LexemeKind.opening? c = some k → (∀ d ∈ rest, k.part d = true) → Shaped (k.lexeme (c :: rest))

end Lexeme

section

variable {c : Char} {k : LexemeKind} {l : Lexeme} {ls : List Lexeme} {text gap : List Char}

theorem LexemeKind.opening?_of_isAlpha (h : c.isAlpha = true) : opening? c = some word := if_pos h

theorem LexemeKind.opening?_of_isDigit (h : c.isDigit = true) : opening? c = some number := by
  have ha : ¬ c.isAlpha = true := fun ha => by
    have hdigit := toNat_of_isDigit h
    have hletter := toNat_of_isAlpha ha
    omega
  rw [opening?, if_neg ha, if_pos h]

theorem LexemeKind.opening?_eq_some (h : opening? c = some k) :
    k = word ∧ c.isAlpha = true ∨ k = number ∧ c.isDigit = true := by
  unfold opening? at h
  by_cases ha : c.isAlpha = true
  · rw [if_pos ha] at h
    exact .inl ⟨(Option.some.inj h).symm, ha⟩
  · rw [if_neg ha] at h
    obtain ⟨hd, hk⟩ := Option.ite_none_right_eq_some.1 h
    exact .inr ⟨(Option.some.inj hk).symm, hd⟩

theorem Lexeme.wellFormed_iff_shaped : l.WellFormed ↔ l.Shaped := by
  constructor
  · intro h
    cases l with
    | word t =>
      obtain ⟨c, rest, rfl, hc, hrest⟩ := h
      exact .drafted (LexemeKind.opening?_of_isAlpha hc) hrest
    | number t =>
      obtain ⟨hne, ht⟩ := h
      obtain ⟨c, rest, rfl⟩ := List.exists_cons_of_ne_nil hne
      rw [List.forall_mem_cons] at ht
      exact .drafted (LexemeKind.opening?_of_isDigit ht.1) ht.2
    | punct c => exact .mark (List.contains_iff_mem.2 h)
  · intro h
    cases h with
    | mark hc => exact List.contains_iff_mem.1 hc
    | @drafted k c rest hk hrest =>
      obtain ⟨rfl, hc⟩ | ⟨rfl, hc⟩ := LexemeKind.opening?_eq_some hk
      · exact ⟨c, rest, rfl, hc, hrest⟩
      · exact ⟨List.cons_ne_nil _ _, List.forall_mem_cons.2 ⟨hc, hrest⟩⟩

/-! ## Characters of lexemes -/

theorem LexemeKind.part_of_mem_takeWhile (k : LexemeKind) (text : List Char) :
    ∀ d ∈ text.takeWhile k.part, k.part d = true :=
  List.all_eq_true.1 List.all_takeWhile

theorem LexemeKind.isAlphanum_of_part (hk : opening? c = some k) {d : Char} (h : k.part d = true) :
    d.isAlphanum = true := by
  obtain ⟨rfl, -⟩ | ⟨rfl, -⟩ := opening?_eq_some hk
  · exact h
  · exact Bool.or_eq_true_iff.2 (.inr h)

theorem LexemeKind.isAlphanum_of_opening? (hk : opening? c = some k) : c.isAlphanum = true := by
  obtain ⟨-, hc⟩ | ⟨-, hc⟩ := opening?_eq_some hk
  · exact Bool.or_eq_true_iff.2 (.inl hc)
  · exact Bool.or_eq_true_iff.2 (.inr hc)

theorem delimits_of_isAlphanum (h : c.isAlphanum = true) : delimits c = false := by
  have hne : ∀ {b : Bool}, (b = true → c.isAlphanum = false) → b = false := by
    intro b hb
    cases b with
    | false => rfl
    | true =>
      rw [hb rfl] at h
      cases h
  rw [delimits, hne isAlphanum_of_isBlank, hne isAlphanum_of_marks]
  rfl

theorem part_of_delimits (hk : LexemeKind.opening? c = some k) {d : Char} (h : delimits d = true) :
    k.part d = false := by
  rw [← Bool.not_eq_true]
  intro hp
  rw [delimits_of_isAlphanum (LexemeKind.isAlphanum_of_part hk hp)] at h
  cases h

theorem Lexeme.Shaped.isBlank_of_mem (h : l.Shaped) : ∀ d ∈ l.text, Text.isBlank d = false := by
  have hblank : ∀ d : Char, d.isAlphanum = true → Text.isBlank d = false := fun d hd =>
    (Bool.or_eq_false_iff.1 (delimits_of_isAlphanum hd)).1
  cases h with
  | mark hc => exact List.forall_mem_singleton.2 (isBlank_of_marks hc)
  | @drafted k c rest hk hrest =>
    have htext : (k.lexeme (c :: rest)).text = c :: rest := by
      obtain ⟨rfl, -⟩ | ⟨rfl, -⟩ := LexemeKind.opening?_eq_some hk <;> rfl
    rw [htext, List.forall_mem_cons]
    exact ⟨hblank c (LexemeKind.isAlphanum_of_opening? hk),
      fun d hd => hblank d (LexemeKind.isAlphanum_of_part hk (hrest d hd))⟩

/-! ## Texts that write lexemes -/

/-- The text is the lexemes in order, each with blanks behind it. Two neighbours neither of which is
a mark have at least one blank between them. -/
inductive Lined : List Lexeme → List Char → Prop
  | nil : Lined [] []
  | cons {l : Lexeme} {ls : List Lexeme} {gap text : List Char} :
      (∀ c ∈ gap, Text.isBlank c = true) →
      (gap = [] → ∀ l' ∈ ls.head?, l.isMark = true ∨ l'.isMark = true) →
      Lined ls text → Lined (l :: ls) (l.text ++ (gap ++ text))

/-- The text writes the lexemes in order, with blanks before, between and behind them. -/
def Writes (ls : List Lexeme) (text : List Char) : Prop :=
  ∃ gap rest, text = gap ++ rest ∧ (∀ c ∈ gap, Text.isBlank c = true) ∧ Lined ls rest

theorem Writes.blank_cons (h : Writes ls text) (hc : Text.isBlank c = true) :
    Writes ls (c :: text) := by
  obtain ⟨gap, rest, rfl, hgap, hl⟩ := h
  exact ⟨c :: gap, rest, rfl, List.forall_mem_cons.2 ⟨hc, hgap⟩, hl⟩

theorem Writes.filter_eq (h : Writes ls text) (hls : ∀ l ∈ ls, l.Shaped) :
    text.filter (fun c => !Text.isBlank c) = ls.flatMap Lexeme.text := by
  have hblank : ∀ gap : List Char, (∀ c ∈ gap, Text.isBlank c = true) →
      gap.filter (fun c => !Text.isBlank c) = [] := fun gap hgap => by
    rw [List.filter_eq_nil_iff]
    exact fun c hc => by rw [hgap c hc]; exact Bool.false_ne_true
  obtain ⟨gap, rest, rfl, hgap, hl⟩ := h
  rw [List.filter_append, hblank gap hgap, List.nil_append]
  clear hgap
  induction hl with
  | nil => rfl
  | cons hgap _ _ ih =>
    rw [List.forall_mem_cons] at hls
    have htext := hls.1.isBlank_of_mem
    rw [List.filter_append, List.filter_append, hblank _ hgap, List.nil_append, ih hls.2,
      List.flatMap_cons, List.filter_eq_self.2 fun c hc => by rw [htext c hc]; rfl]

/-! ## Scanning what is written -/

theorem scan_blank_append (hgap : ∀ c ∈ gap, Text.isBlank c = true) (text : List Char) :
    scan (gap ++ text) = scan text := by
  induction gap with
  | nil => rfl
  | cons c gap ih =>
    rw [List.forall_mem_cons] at hgap
    rw [List.cons_append, scan, if_pos hgap.1, ih hgap.2]

theorem scan_mark_cons (h : marks.contains c = true) (text : List Char) :
    scan (c :: text) = .ok (.punct c) :: scan text := by
  rw [scan, isBlank_of_marks h, if_neg Bool.false_ne_true, if_pos h]

/-- A word or a number is given in front of a delimiter and at the end. -/
theorem scan_drafted {rest : List Char} (hk : LexemeKind.opening? c = some k)
    (hrest : ∀ d ∈ rest, k.part d = true) (htext : stray? text = none) :
    scan (c :: (rest ++ text)) = .ok (k.lexeme (c :: rest)) :: scan text := by
  obtain ⟨hb, hm⟩ := Bool.or_eq_false_iff.1
    (delimits_of_isAlphanum (LexemeKind.isAlphanum_of_opening? hk))
  have hstop : text.takeWhile k.part = [] ∧ text.dropWhile k.part = text := by
    cases text with
    | nil => exact ⟨rfl, rfl⟩
    | cons d text =>
      have hd : delimits d = true := by simpa [stray?] using htext
      simp [part_of_delimits hk hd]
  have hspan : (rest ++ text).takeWhile k.part = rest ∧ (rest ++ text).dropWhile k.part = text := by
    rw [List.takeWhile_append_of_pos hrest, List.dropWhile_append_of_pos hrest, hstop.1, hstop.2,
      List.append_nil]
    exact ⟨rfl, rfl⟩
  rw [scan, hb, hm, if_neg Bool.false_ne_true, if_neg Bool.false_ne_true]
  simp only [hk, hspan.1, hspan.2, htext]

theorem stray?_of_lined (hgap : ∀ c ∈ gap, Text.isBlank c = true)
    (hmark : gap = [] → ∀ l ∈ ls.head?, l.isMark = true) (hls : ∀ l ∈ ls, l.Shaped)
    (h : Lined ls text) : stray? (gap ++ text) = none := by
  have hdelimits : ∀ {c : Char} {rest : List Char}, delimits c = true →
      stray? (c :: rest) = none := fun hc => by simp [stray?, hc]
  cases gap with
  | cons c gap => exact hdelimits (Bool.or_eq_true_iff.2 (.inl (hgap c List.mem_cons_self)))
  | nil =>
    cases h with
    | nil => rfl
    | @cons l ls =>
      have hl := hmark rfl l rfl
      cases l with
      | punct c =>
        have hc : marks.contains c = true :=
          List.contains_iff_mem.2 (Lexeme.wellFormed_iff_shaped.2 (hls _ List.mem_cons_self))
        exact hdelimits (Bool.or_eq_true_iff.2 (.inr hc))
      | word t => cases hl
      | number t => cases hl

theorem scan_of_lined (h : Lined ls text) (hls : ∀ l ∈ ls, l.Shaped) :
    scan text = ls.map .ok := by
  induction h with
  | nil => rw [scan, List.map_nil]
  | @cons l ls gap text hgap hmark hlined ih =>
    rw [List.forall_mem_cons] at hls
    have hmore : scan (gap ++ text) = ls.map .ok := by rw [scan_blank_append hgap, ih hls.2]
    rw [List.map_cons, ← hmore]
    cases hls.1 with
    | mark hc => exact scan_mark_cons hc _
    | @drafted k c rest hk hrest =>
      obtain ⟨rfl, -⟩ | ⟨rfl, -⟩ := LexemeKind.opening?_eq_some hk <;>
        exact scan_drafted hk hrest (stray?_of_lined hgap (fun hn l hl =>
          (hmark hn l hl).resolve_left Bool.false_ne_true) hls.2 hlined)

/-! ## What is written is what is scanned -/

/-- A lexeme in front of what a text writes is written in front of the text, if it may stand there. -/
theorem Writes.cons (h : Writes ls text) (hls : ∀ l ∈ ls, l.Shaped)
    (hl : l.isMark = true ∨ stray? text = none) : Writes (l :: ls) (l.text ++ text) := by
  obtain ⟨gap, rest, rfl, hgap, hlined⟩ := h
  refine ⟨[], _, rfl, nofun, .cons hgap ?_ hlined⟩
  rintro rfl l' hl'
  refine hl.imp_right fun hstray => ?_
  cases hlined with
  | nil => cases hl'
  | @cons first more =>
    obtain rfl := Option.some.inj hl'
    cases hls _ List.mem_cons_self with
    | mark => rfl
    | @drafted k c rest hk =>
      -- the next word or number would begin with a stray character
      have hc := delimits_of_isAlphanum (LexemeKind.isAlphanum_of_opening? hk)
      obtain ⟨rfl, -⟩ | ⟨rfl, -⟩ := LexemeKind.opening?_eq_some hk <;>
        simp [stray?, LexemeKind.word, LexemeKind.number, Lexeme.text, hc] at hstray

/-- The lexemes that a text is cut into are well formed, and the text writes them. -/
theorem writes_of_scan (h : scan text = ls.map .ok) : (∀ l ∈ ls, l.Shaped) ∧ Writes ls text := by
  fun_induction scan text generalizing ls with
  | case1 =>
    obtain rfl := List.map_eq_nil_iff.1 h.symm
    exact ⟨List.forall_mem_nil _, [], [], rfl, List.forall_mem_nil _, .nil⟩
  | case2 c rest hb ih =>
    obtain ⟨hls, hw⟩ := ih h
    exact ⟨hls, hw.blank_cons hb⟩
  | case3 c rest hb hm ih =>
    obtain ⟨l, ls, rfl, hl, hrest⟩ := List.map_eq_cons_iff.1 h.symm
    obtain rfl := Except.ok.inj hl
    obtain ⟨hls, hw⟩ := ih hrest.symm
    exact ⟨List.forall_mem_cons.2 ⟨.mark hm, hls⟩, hw.cons hls (.inl rfl)⟩
  | case4 c rest hb hm hk =>
    obtain ⟨l, ls, rfl, hl, -⟩ := List.map_eq_cons_iff.1 h.symm
    cases hl
  | case5 c rest hb hm k hk c' hs =>
    obtain ⟨l, ls, rfl, hl, -⟩ := List.map_eq_cons_iff.1 h.symm
    cases hl
  | case6 c rest hb hm k hk hs ih =>
    obtain ⟨l, ls, rfl, hl, hrest⟩ := List.map_eq_cons_iff.1 h.symm
    obtain rfl := Except.ok.inj hl
    obtain ⟨hls, hw⟩ := ih hrest.symm
    have hpart := k.part_of_mem_takeWhile rest
    have htext : (k.lexeme (c :: rest.takeWhile k.part)).text ++ rest.dropWhile k.part =
        c :: rest := by
      obtain ⟨rfl, -⟩ | ⟨rfl, -⟩ := LexemeKind.opening?_eq_some hk <;>
        exact congrArg (c :: ·) List.takeWhile_append_dropWhile
    refine ⟨List.forall_mem_cons.2 ⟨.drafted hk hpart, hls⟩, ?_⟩
    rw [← htext]
    exact hw.cons hls (.inr hs)

theorem scan_eq_iff :
    scan text = ls.map .ok ↔ (∀ l ∈ ls, l.WellFormed) ∧ Writes ls text := by
  simp only [Lexeme.wellFormed_iff_shaped]
  refine ⟨writes_of_scan, ?_⟩
  rintro ⟨hls, gap, rest, rfl, hgap, hlined⟩
  rw [scan_blank_append hgap, scan_of_lined hlined hls]

end

/-- **The lexer loses nothing, and reads back what is written.** If a run over a text gives lexemes and
no failure, they are well formed, hold all characters of the text but the blanks, and are what the
text writes. The run over a text that writes some well-formed lexemes gives just these, and no
failure. -/
theorem lexer_reads_back (text : List Char) (ls : List Lexeme) :
    (∀ r, (scanning text).Drains (ls.map .ok) r →
      ls.flatMap Lexeme.text = text.filter (fun c => !Text.isBlank c) ∧
        (∀ l ∈ ls, l.WellFormed) ∧ Writes ls text) ∧
    ((∀ l ∈ ls, l.WellFormed) → Writes ls text →
      ∃ last, ∀ xs r, (scanning text).Drains xs r ↔ xs = ls.map .ok ∧ r = last) := by
  obtain ⟨last, hd, -⟩ := drains_scan text
  constructor
  · intro r hr
    have hscan : scan text = ls.map .ok := hd.unique hr |>.1
    obtain ⟨hls, hw⟩ := scan_eq_iff.1 hscan
    have hshaped : ∀ l ∈ ls, l.Shaped := fun l hl => Lexeme.wellFormed_iff_shaped.1 (hls l hl)
    exact ⟨(hw.filter_eq hshaped).symm, hls, hw⟩
  · intro hls hw
    rw [scan_eq_iff.2 ⟨hls, hw⟩] at hd
    exact ⟨last, fun xs r => hd.iff⟩

example : scan ['x', '1', '+', '\u00a0', '2', ' ', '3'] =
    [.ok (.word ['x', '1']), .ok (.punct '+'), .ok (.number ['2']), .ok (.number ['3'])] := by cbv

end Transducer.Demo.Lexer
