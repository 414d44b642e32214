import Transducer.Proofs.Lexemes

/-!
# Texts in pieces

What stands behind a blank or a mark is read as if nothing stood before it, so a text can be cut
there and its parts lexed one by one. A text that is rejected is rejected at one of its characters,
whatever stands behind that one.

* `Delimited`: a text behind which another lexeme may begin.
* `scan_append`: **the scanner cuts a text behind a delimited part into the lexemes of both parts.**
* `FailsAt`: a text with its character at fault.
* `exists_rejected`: **a text that is rejected is accepted up to the character at fault**, and
  nothing behind this character is looked at.
* `Gives`: the items of a run over a text.
* `lexer_reads_pieces`: **both hold of the lexer.**
-/

namespace Transducer.Demo.Lexer

/-- The text is empty, or ends in a blank or a mark. -/
def Delimited (text : List Char) : Prop := ∀ c ∈ text.getLast?, delimits c = true

section

variable {c d : Char} {k : LexemeKind} {a b rest text : List Char}
  {e : Failure State Char Unexpected}

/-! ## Where a text may be cut -/

theorem Delimited.of_append (h : Delimited (a ++ b)) : Delimited b := by
  intro c hc
  refine h c ?_
  rw [List.getLast?_append, hc]
  rfl

theorem not_delimited_drafted (hk : LexemeKind.opening? c = some k)
    (hrest : ∀ d ∈ rest, k.part d = true) : ¬ Delimited (c :: rest) := by
  intro h
  have hlast := h _ (List.getLast?_eq_some_getLast (List.cons_ne_nil c rest))
  have halphanum : ((c :: rest).getLast (List.cons_ne_nil c rest)).isAlphanum = true := by
    obtain heq | hmem := List.mem_cons.1 (List.getLast_mem (List.cons_ne_nil c rest))
    · rw [heq]
      exact LexemeKind.isAlphanum_of_opening? hk
    · exact LexemeKind.isAlphanum_of_part hk (hrest _ hmem)
  rw [delimits_of_isAlphanum halphanum] at hlast
  cases hlast

/-! ## What is stray is seen from the first character -/

theorem stray?_append (ha : a ≠ []) (b : List Char) : stray? (a ++ b) = stray? a := by
  cases a with
  | nil => exact absurd rfl ha
  | cons d a => rfl

theorem stray?_of_append (h : stray? (a ++ b) = none) : stray? a = none := by
  cases a with
  | nil => rfl
  | cons d a => exact h

theorem stray?_append_cons (a : List Char) (c : Char) (b b' : List Char) :
    stray? (a ++ c :: b) = stray? (a ++ c :: b') := by
  cases a <;> rfl

theorem exists_of_stray? (h : stray? text = some c) : ∃ b, text = c :: b ∧ delimits c = false := by
  obtain ⟨hc, hd⟩ := Option.filter_eq_some_iff.1 h
  obtain ⟨b, rfl⟩ := List.head?_eq_some_iff.1 hc
  exact ⟨b, rfl, by simpa using hd⟩

theorem scan_strayed (hk : LexemeKind.opening? c = some k) (hrest : ∀ d ∈ rest, k.part d = true)
    (hp : k.part d = false) (hd : delimits d = false) (more : List Char) :
    scan (c :: (rest ++ d :: more)) = [.error (.unexpected ⟨k.state, d⟩)] := by
  obtain ⟨hb, hm⟩ := Bool.or_eq_false_iff.1
    (delimits_of_isAlphanum (LexemeKind.isAlphanum_of_opening? hk))
  have hdrop : (rest ++ d :: more).dropWhile k.part = d :: more := by
    rw [List.dropWhile_append_of_pos hrest, List.dropWhile_cons_of_neg (Bool.eq_false_iff.1 hp)]
  have hstray : stray? (d :: more) = some d := by simp [stray?, hd]
  rw [scan, hb, hm, if_neg Bool.false_ne_true, if_neg Bool.false_ne_true]
  simp only [hk, hdrop, hstray]

/-! ## Scanning in pieces -/

/-- Behind a part that is accepted and delimited, the scanner goes on as if it began there. -/
theorem scan_append (h : ∀ e, .error e ∉ scan text) (hd : Delimited text) (more : List Char) :
    scan (text ++ more) = scan text ++ scan more := by
  fun_induction scan text with
  | case1 => rfl
  | case2 c rest hb ih =>
    rw [List.cons_append, scan, if_pos hb]
    exact ih h (hd.of_append (a := [c]))
  | case3 c rest hb hm ih =>
    rw [List.cons_append, scan_mark_cons hm, List.cons_append]
    exact congrArg _ (ih (fun e he => h e (List.mem_cons_of_mem _ he)) (hd.of_append (a := [c])))
  | case4 c rest hb hm hk => exact absurd (List.mem_singleton.2 rfl) (h _)
  | case5 c rest hb hm k hk c' hs => exact absurd (List.mem_singleton.2 rfl) (h _)
  | case6 c rest hb hm k hk hs ih =>
    have hpart := k.part_of_mem_takeWhile rest
    have hrest : rest.takeWhile k.part ++ rest.dropWhile k.part = rest :=
      List.takeWhile_append_dropWhile
    -- the delimiter at the end stands behind the lexeme, so this does not go on in what follows
    have hne : rest.dropWhile k.part ≠ [] := by
      intro hnil
      rw [hnil, List.append_nil] at hrest
      rw [hrest] at hpart
      exact not_delimited_drafted hk hpart hd
    have hd' : Delimited (rest.dropWhile k.part) := by
      refine Delimited.of_append (a := c :: rest.takeWhile k.part) ?_
      rwa [List.cons_append, hrest]
    have hstray : stray? (rest.dropWhile k.part ++ more) = none := by rw [stray?_append hne, hs]
    have hsplit : c :: rest ++ more =
        c :: (rest.takeWhile k.part ++ (rest.dropWhile k.part ++ more)) := by
      rw [List.cons_append, ← List.append_assoc, hrest]
    rw [hsplit, scan_drafted hk hpart hstray, List.cons_append]
    exact congrArg _ (ih (fun e he => h e (List.mem_cons_of_mem _ he)) hd')

/-- The text is accepted up to the character at fault, and nothing behind this one makes a
difference. -/
structure FailsAt (text : List Char) (e : Failure State Char Unexpected) (a : List Char)
    (c : Char) : Prop where
  text_eq : ∃ b, text = a ++ c :: b
  failure_eq : ∃ s, e = .unexpected ⟨s, c⟩
  accepted : ∃ ls : List Lexeme, scan a = ls.map .ok
  scan_eq : ∀ more, scan (a ++ c :: more) = scan text

/-- What is put in front of the text makes no difference if it is read by itself before each text,
or at least before each that begins with no stray character if this one does not. -/
theorem FailsAt.append (front : List Char) (ls₀ : List Lexeme) (h : FailsAt text e a c)
    (hfront : ∀ x, (stray? text = none → stray? x = none) →
      scan (front ++ x) = ls₀.map .ok ++ scan x) :
    FailsAt (front ++ text) e (front ++ a) c := by
  obtain ⟨⟨b, rfl⟩, hfailure, ⟨ls, hls⟩, hmore⟩ := h
  refine ⟨⟨b, (List.append_assoc front a (c :: b)).symm⟩, hfailure, ⟨ls₀ ++ ls, ?_⟩, fun more => ?_⟩
  · rw [hfront a stray?_of_append, hls, List.map_append]
  · rw [List.append_assoc, hfront _ (stray?_append_cons a c more b).trans, hmore, hfront _ id]

theorem exists_rejected (h : .error e ∈ scan text) : ∃ a c, FailsAt text e a c := by
  fun_induction scan text with
  | case1 => cases h
  | case2 c rest hb ih =>
    obtain ⟨a, d, ha⟩ := ih h
    refine ⟨[c] ++ a, d, ha.append [c] [] fun x _ => ?_⟩
    exact scan_blank_append (List.forall_mem_singleton.2 hb) x
  | case3 c rest hb hm ih =>
    have hrest : .error e ∈ scan rest := by simpa using h
    obtain ⟨a, d, ha⟩ := ih hrest
    refine ⟨[c] ++ a, d, ha.append [c] [.punct c] fun x _ => ?_⟩
    exact scan_mark_cons hm x
  | case4 c rest hb hm hk =>
    obtain rfl := Except.error.inj (List.mem_singleton.1 h)
    have hscan (more : List Char) : scan (c :: more) = [.error (.unexpected ⟨.idle, c⟩)] := by
      rw [scan, if_neg hb, if_neg hm]
      simp only [hk]
    refine ⟨[], c, ⟨rest, rfl⟩, ⟨.idle, rfl⟩, ⟨[], by rw [scan, List.map_nil]⟩, fun more => ?_⟩
    exact (hscan more).trans (hscan rest).symm
  | case5 c rest hb hm k hk d hs =>
    obtain rfl := Except.error.inj (List.mem_singleton.1 h)
    have hpart := k.part_of_mem_takeWhile rest
    have hrest : rest.takeWhile k.part ++ rest.dropWhile k.part = rest :=
      List.takeWhile_append_dropWhile
    obtain ⟨b, hdrop, hd⟩ := exists_of_stray? hs
    have hp : k.part d = false := by
      have hhead := List.head?_dropWhile_not k.part rest
      rwa [hdrop] at hhead
    have htext : c :: rest = c :: (rest.takeWhile k.part ++ d :: b) := by rw [← hdrop, hrest]
    -- in front of the stray character the text ends, and the lexeme is given
    have haccepted := scan_drafted hk hpart (show stray? [] = none from rfl)
    rw [List.append_nil, scan] at haccepted
    refine ⟨c :: rest.takeWhile k.part, d, ⟨b, htext⟩, ⟨k.state, rfl⟩,
      ⟨[k.lexeme (c :: rest.takeWhile k.part)], haccepted⟩, fun more => ?_⟩
    have hscan := scan_strayed hk hpart hp hd
    rw [htext, hscan]
    exact hscan more
  | case6 c rest hb hm k hk hs ih =>
    have hpart := k.part_of_mem_takeWhile rest
    have hbehind : .error e ∈ scan (rest.dropWhile k.part) := by simpa using h
    obtain ⟨a, d, ha⟩ := ih hbehind
    have hfails := ha.append (c :: rest.takeWhile k.part)
      [k.lexeme (c :: rest.takeWhile k.part)] fun x hx => scan_drafted hk hpart (hx hs)
    rw [List.cons_append, List.takeWhile_append_dropWhile] at hfails
    exact ⟨_, d, hfails⟩

end

/-! ## Lexing in pieces -/

/-- Polls up to the end, over the text and from an empty draft, give the items and no others. -/
def Gives (text : List Char) (xs : List Output) : Prop :=
  ∃ last, ∀ ys r, (scanning text).Drains ys r ↔ ys = xs ∧ r = last

theorem gives_iff {text : List Char} {xs : List Output} : Gives text xs ↔ xs = scan text := by
  obtain ⟨last, hd, -⟩ := drains_scan text
  constructor
  · rintro ⟨last', h⟩
    exact ((h _ _).1 hd).1.symm
  · rintro rfl
    exact ⟨last, fun ys r => hd.iff⟩

/-- **The lexer can be fed in pieces.** If a text that is empty or ends in a blank or a mark is
accepted, then with any text behind it the items are those of both texts, each from an empty draft;
if the second one is rejected, its failure is among them, with its state and its character. A text
that is rejected is accepted up to the character at fault, and the items are the same whatever
stands behind this character. -/
theorem lexer_reads_pieces :
    (∀ (text : List Char) (ls : List Lexeme), Gives text (ls.map .ok) →
      (∀ c ∈ text.getLast?, Text.isBlank c = true ∨ marks.contains c = true) →
        ∀ more, ∃ ys, Gives more ys ∧ Gives (text ++ more) (ls.map .ok ++ ys)) ∧
    ∀ (text : List Char) (xs : List Output) (e : Failure State Char Unexpected),
      Gives text xs → .error e ∈ xs →
        ∃ (a : List Char) (c : Char) (b : List Char) (s : State) (ls : List Lexeme),
          text = a ++ c :: b ∧ e = .unexpected ⟨s, c⟩ ∧ Gives a (ls.map .ok) ∧
            ∀ more, Gives (a ++ c :: more) xs := by
  simp only [gives_iff]
  constructor
  · intro text ls htext hend more
    have haccepted : ∀ e, .error e ∉ scan text := by
      intro e he
      rw [← htext, List.mem_map] at he
      obtain ⟨l, -, hl⟩ := he
      cases hl
    have hdelimited : Delimited text := fun c hc => Bool.or_eq_true_iff.2 (hend c hc)
    refine ⟨scan more, rfl, ?_⟩
    rw [htext, scan_append haccepted hdelimited]
  · rintro text xs e rfl he
    obtain ⟨a, c, ⟨b, htext⟩, ⟨s, hfailure⟩, ⟨ls, ha⟩, hmore⟩ := exists_rejected he
    exact ⟨a, c, b, s, ls, htext, hfailure, ha.symm, fun more => (hmore more).symm⟩

/-- Behind the mark a number begins anew. Its second character is at fault, whatever stands behind
it. -/
theorem lexer_reads_pieces_at_mark :
    let rejected : List Output := [.error (.unexpected ⟨.number, 'b'⟩)]
    Gives ['a', '+', '1', 'b'] ([Lexeme.word ['a'], .punct '+'].map .ok ++ rejected) ∧
      ∀ more, Gives ('1' :: 'b' :: more) rejected := by
  intro rejected
  have htext : Gives ['a', '+'] ([Lexeme.word ['a'], .punct '+'].map .ok) := by
    have hword : scan ('a' :: ([] ++ ['+'])) = .ok (.word ['a']) :: scan ['+'] :=
      scan_drafted (k := .word) rfl (List.forall_mem_nil _) rfl
    rw [List.nil_append, scan_mark_cons (c := '+') rfl, scan] at hword
    exact gives_iff.2 hword.symm
  have hrejected : Gives ['1', 'b'] rejected := by
    have hstrayed : scan ('1' :: ([] ++ ['b'])) = rejected :=
      scan_strayed (k := .number) rfl (List.forall_mem_nil _) rfl rfl []
    exact gives_iff.2 hstrayed.symm
  obtain ⟨hpieces, hfails⟩ := lexer_reads_pieces
  constructor
  · have hend : ∀ c ∈ ['a', '+'].getLast?, Text.isBlank c = true ∨ marks.contains c = true := by
      intro c hc
      obtain rfl := Option.some.inj hc
      exact .inr rfl
    obtain ⟨ys, hys, hboth⟩ := hpieces _ _ htext hend ['1', 'b']
    rwa [gives_iff.1 hys, ← gives_iff.1 hrejected] at hboth
  · obtain ⟨a, c, b, s, -, h, he, -, hmore⟩ := hfails _ _ _ hrejected (List.mem_singleton.2 rfl)
    obtain ⟨rfl, rfl⟩ : s = .number ∧ c = 'b' := by simpa [eq_comm] using he
    have ha : a = ['1'] := by
      obtain _ | ⟨x, _ | ⟨y, a⟩⟩ := a
      · simp at h
      · rw [← (List.cons.inj h).1]
      · simp at h
    rwa [ha] at hmore

end Transducer.Demo.Lexer
