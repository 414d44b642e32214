import Mathlib.Data.List.Basic
import Mathlib.Data.List.TakeWhile
import Transducer.Json.Text

/-!
# Tokens and their spelling

The ways in which a token of a JSON text may be written, and the token that is read from each.

* `IsReal`: the numbers that are not written as plain integers.
* `Piece.IsWritten`, `Joins`: the escapes of a string, and halves of a surrogate pair joined.
* `Token.IsSpelled`: a string with any escapes, a number with any fraction and exponent, and
  everything else in one way.
* `ofBare?_integer`, `ofBare?_of_isReal`: **a number is read back from its spelling.**
* `ofQuoted?_of_areWritten`: **so is a string**, whatever its characters and escapes.
* `scan?_of_isSpelled`: **so is every token**, unless it is a word or a number that goes on behind it.
-/

namespace Transducer.Decimal

/-! ## Digits -/

theorem isDigit_digitChar {d : Nat} (h : d < 10) : isDigit (Nat.digitChar d) = true := by
  have : ∀ d < 10, isDigit (Nat.digitChar d) = true := by decide
  exact this d h

theorem isDigit_of_mem_natural {n : Nat} {c : Char} (h : c ∈ natural n) : isDigit c = true := by
  induction n using Nat.strongRecOn with
  | _ n ih =>
    by_cases hn : n < 10
    · rw [natural_of_lt hn, List.mem_singleton] at h
      rw [h]
      exact isDigit_digitChar hn
    · rw [natural_of_le (by omega), List.mem_append, List.mem_singleton] at h
      obtain h | rfl := h
      · exact ih (n / 10) (by omega) h
      · exact isDigit_digitChar (Nat.mod_lt _ (by decide))

theorem natural_ne_nil (n : Nat) : natural n ≠ [] := by
  by_cases hn : n < 10
  · simp [natural_of_lt hn]
  · simp [natural_of_le (n := n) (by omega)]

theorem head?_natural {n : Nat} (h : 0 < n) : (natural n).head? ≠ some '0' := by
  induction n using Nat.strongRecOn with
  | _ n ih =>
    by_cases hn : n < 10
    · have : ∀ n < 10, 0 < n → Nat.digitChar n ≠ '0' := by decide
      rw [natural_of_lt hn, List.head?_cons]
      exact fun h₀ => this n hn h (Option.some.inj h₀)
    · have hne := natural_ne_nil (n / 10)
      rw [natural_of_le (by omega), List.head?_append_of_ne_nil _ hne]
      exact ih (n / 10) (by omega) (by omega)

end Transducer.Decimal

namespace Transducer.Json

open Decimal (isDigit ofDigits integer natural)

/-! ## Integers -/

theorem span_of_stop {p : Char → Bool} {w s : List Char} (hw : ∀ c ∈ w, p c = true)
    (hs : ∀ c ∈ s.head?, p c = false) : (w ++ s).takeWhile p = w ∧ (w ++ s).dropWhile p = s := by
  have hstop : s.takeWhile p = [] ∧ s.dropWhile p = s := by
    cases s with
    | nil => exact ⟨rfl, rfl⟩
    | cons d s =>
      have hd := hs d rfl
      simp [hd]
  rw [List.takeWhile_append_of_pos hw, List.dropWhile_append_of_pos hw, hstop.1, hstop.2,
    List.append_nil]
  exact ⟨rfl, rfl⟩

/-- A digit at least, and nothing but digits. -/
structure IsDigits (ds : List Char) : Prop where
  ne_nil : ds ≠ []
  isDigit_of_mem : ∀ c ∈ ds, isDigit c = true

/-- The digits before the point: no zero stands in front of another digit. -/
structure IsWhole (ds : List Char) : Prop extends IsDigits ds where
  head?_ne : 1 < ds.length → ds.head? ≠ some '0'

theorem IsDigits.exists_cons {ds : List Char} (h : IsDigits ds) :
    ∃ d rest, ds = d :: rest ∧ isDigit d = true := by
  obtain ⟨d, rest, rfl⟩ := List.exists_cons_of_ne_nil h.ne_nil
  exact ⟨d, rest, rfl, h.isDigit_of_mem d List.mem_cons_self⟩

theorem ne_of_isDigit {c d : Char} (hc : isDigit c = true) (hd : isDigit d = false) : c ≠ d := by
  rintro rfl
  rw [hc] at hd
  cases hd

theorem isWhole_natural (n : Nat) : IsWhole (natural n) where
  ne_nil := Decimal.natural_ne_nil n
  isDigit_of_mem _ := Decimal.isDigit_of_mem_natural
  head?_ne hlong := by
    refine Decimal.head?_natural (Nat.pos_of_ne_zero ?_)
    rintro rfl
    exact absurd hlong (by decide)

/-- Behind the digits before the point comes the rest of a number, or nothing. -/
theorem unsigned?_append {w s : List Char} (hw : IsWhole w) (hs : ∀ c ∈ s.head?, isDigit c = false)
    (negative : Bool) : unsigned? (w ++ s) negative =
      let written := if negative then '-' :: (w ++ s) else w ++ s
      if !s.isEmpty then if isFraction s then some (.real written) else none
      else if negative then
        if ofDigits w = 0 then some (.real written) else some (.int (-(ofDigits w : Int)))
      else some (.int (ofDigits w)) := by
  obtain ⟨htake, hdrop⟩ := span_of_stop hw.isDigit_of_mem hs
  have hempty : w.isEmpty = false := List.isEmpty_eq_false_iff.2 hw.ne_nil
  have hzero : (decide (1 < w.length) && w.head? == some '0') = false := by
    by_cases hlong : 1 < w.length
    · rw [beq_eq_false_iff_ne.2 (hw.head?_ne hlong), Bool.and_false]
    · rw [decide_eq_false hlong, Bool.false_and]
  simp only [unsigned?, htake, hdrop, hempty, hzero]
  rfl

theorem unsigned?_natural (n : Nat) (negative : Bool) : unsigned? (natural n) negative =
    if negative then if n = 0 then some (.real ('-' :: natural n)) else some (.int (-(n : Int)))
    else some (.int n) := by
  have h := unsigned?_append (s := []) (isWhole_natural n) nofun negative
  rw [List.append_nil, Decimal.ofDigits_natural] at h
  rw [h]
  cases negative <;> rfl

theorem ofBare?_eq_number? {c : Char} (h : c = '-' ∨ isDigit c = true) (s : List Char) :
    Token.ofBare? (c :: s) = number? (c :: s) := by
  have hne : ∀ d, d ≠ '-' → isDigit d = false → ∀ r, c :: s ≠ d :: r := by
    intro d hd hdigit r heq
    obtain rfl := (List.cons.inj heq).1
    obtain rfl | hc := h
    · exact hd rfl
    · exact ne_of_isDigit hc hdigit rfl
  rw [Token.ofBare?, if_neg (hne 'n' (by decide) rfl _), if_neg (hne 't' (by decide) rfl _),
    if_neg (hne 'f' (by decide) rfl _)]

theorem number?_of_isDigit {c : Char} (h : isDigit c = true) (s : List Char) :
    number? (c :: s) = unsigned? (c :: s) false := by
  rw [number?]
  exact fun _ heq => ne_of_isDigit h rfl (List.cons.inj heq).1

/-- An integer is read back from its spelling. -/
theorem ofBare?_integer (n : Int) : Token.ofBare? (integer n) = some (.int n) := by
  cases n with
  | ofNat n =>
    obtain ⟨d, ds, h, hd⟩ := (isWhole_natural n).exists_cons
    rw [integer, h, ofBare?_eq_number? (.inr hd), number?_of_isDigit hd, ← h, unsigned?_natural]
    rfl
  | negSucc n =>
    rw [integer, ofBare?_eq_number? (.inl rfl), number?, unsigned?_natural, if_pos rfl,
      if_neg n.succ_ne_zero]
    rfl

/-! ## Other numbers -/

/-- Nothing, or a point with digits behind it. -/
inductive IsFractional : List Char → Prop
  | nil : IsFractional []
  | point {ds : List Char} : IsDigits ds → IsFractional ('.' :: ds)

/-- Nothing, or the mark of an exponent with digits behind it, which may have a sign. -/
inductive IsExponential : List Char → Prop
  | nil : IsExponential []
  | mark {e : Char} {sign ds : List Char} : e = 'e' ∨ e = 'E' →
      sign = [] ∨ sign = ['+'] ∨ sign = ['-'] → IsDigits ds → IsExponential (e :: (sign ++ ds))

/-- A number that is not written as a plain integer: it has a fraction or an exponent, or is minus
zero. -/
inductive IsReal : List Char → Prop
  | minusZero : IsReal ['-', '0']
  | parts {sign whole fraction exponent : List Char} : sign = [] ∨ sign = ['-'] → IsWhole whole →
      IsFractional fraction → IsExponential exponent → fraction ++ exponent ≠ [] →
      IsReal (sign ++ (whole ++ (fraction ++ exponent)))

theorem isExponent_of_isExponential {s : List Char} (h : IsExponential s) : isExponent s = true := by
  cases h with
  | nil => rfl
  | @mark e sign ds he hsign hds =>
    have hmark : (e == 'e' || e == 'E') = true := by
      rwa [Bool.or_eq_true, beq_iff_eq, beq_iff_eq]
    have hdigits : ((e == 'e' || e == 'E') && !ds.isEmpty && ds.all isDigit) = true := by
      rw [hmark, List.isEmpty_eq_false_iff.2 hds.ne_nil, List.all_eq_true.2 hds.isDigit_of_mem]
      rfl
    obtain rfl | rfl | rfl := hsign
    · obtain ⟨d, rest, rfl, hd⟩ := hds.exists_cons
      rw [List.nil_append, isExponent]
      · exact hdigits
      · exact fun _ heq => ne_of_isDigit hd rfl (List.cons.inj heq).1
      · exact fun _ heq => ne_of_isDigit hd rfl (List.cons.inj heq).1
    · exact hdigits
    · exact hdigits

theorem head_of_isExponential {s : List Char} (h : IsExponential s) :
    ∀ c ∈ s.head?, isDigit c = false ∧ c ≠ '.' := by
  cases h with
  | nil => exact nofun
  | mark he =>
    rintro c hc
    obtain rfl := Option.some.inj hc
    obtain rfl | rfl := he <;> decide

theorem isFraction_of_parts {f e : List Char} (hf : IsFractional f) (he : IsExponential e) :
    isFraction (f ++ e) = true := by
  have hexponent := isExponent_of_isExponential he
  cases hf with
  | nil =>
    rw [List.nil_append, isFraction]
    · exact hexponent
    · rintro s rfl
      exact (head_of_isExponential he '.' rfl).2 rfl
  | @point ds hds =>
    obtain ⟨htake, hdrop⟩ :=
      span_of_stop hds.isDigit_of_mem fun c hc => (head_of_isExponential he c hc).1
    have hne : ds.isEmpty = false := List.isEmpty_eq_false_iff.2 hds.ne_nil
    rw [List.cons_append, isFraction, htake, hdrop, hne, hexponent]
    rfl

theorem head_of_parts {f e : List Char} (hf : IsFractional f) (he : IsExponential e) :
    ∀ c ∈ (f ++ e).head?, isDigit c = false := by
  cases hf with
  | nil => exact fun c hc => (head_of_isExponential he c hc).1
  | point =>
    rintro c hc
    obtain rfl := Option.some.inj hc
    rfl

theorem unsigned?_of_parts {w f e : List Char} (hw : IsWhole w) (hf : IsFractional f)
    (he : IsExponential e) (hne : f ++ e ≠ []) (negative : Bool) :
    unsigned? (w ++ (f ++ e)) negative =
      some (.real (if negative then '-' :: (w ++ (f ++ e)) else w ++ (f ++ e))) := by
  have hrest : (!(f ++ e).isEmpty) = true := by
    rw [List.isEmpty_eq_false_iff.2 hne]
    rfl
  rw [unsigned?_append hw (head_of_parts hf he), if_pos hrest, if_pos (isFraction_of_parts hf he)]

/-- A number with a fraction or an exponent is read as it is written. -/
theorem ofBare?_of_isReal {w : List Char} (h : IsReal w) : Token.ofBare? w = some (.real w) := by
  cases h with
  | minusZero => rfl
  | @parts sign w f e hsign hw hf he hne =>
    obtain rfl | rfl := hsign
    · have hunsigned := unsigned?_of_parts hw hf he hne false
      obtain ⟨d, rest, rfl, hd⟩ := hw.exists_cons
      rw [List.nil_append, List.cons_append, ofBare?_eq_number? (.inr hd), number?_of_isDigit hd]
      exact hunsigned
    · rw [List.singleton_append, ofBare?_eq_number? (.inl rfl), number?]
      exact unsigned?_of_parts hw hf he hne true

/-! ## Strings -/

/-- A piece of a string is written as a character that stands for itself, as a letter behind a
backslash, or as a code of four digits. -/
inductive Piece.IsWritten : Piece → List Char → Prop
  | plain {c : Char} : c ≠ '"' → c ≠ '\\' → ¬ c.toNat < 0x20 → IsWritten (.char c) [c]
  | letter {l c : Char} : unletter? l = some c → IsWritten (.char c) ['\\', l]
  | code {a b c d : Char} {n : Nat} : hexValue4? a b c d = some n →
      IsWritten (.ofCode n) ['\\', 'u', a, b, c, d]

/-- The pieces are written one behind the other. -/
inductive Piece.AreWritten : List Piece → List Char → Prop
  | nil : AreWritten [] []
  | cons {p : Piece} {ps : List Piece} {w s : List Char} : p.IsWritten w → AreWritten ps s →
      AreWritten (p :: ps) (w ++ s)

/-- The pieces stand for the characters: each upper half of a surrogate pair is joined with the lower
half behind it. -/
inductive Joins : List Piece → List Char → Prop
  | nil : Joins [] []
  | char {c : Char} {ps : List Piece} {cs : List Char} : Joins ps cs →
      Joins (.char c :: ps) (c :: cs)
  | pair {h l : Nat} {ps : List Piece} {cs : List Char} : h < 0xdc00 → 0xdc00 ≤ l → Joins ps cs →
      Joins (.half h :: .half l :: ps)
        (Char.ofNat (0x10000 + 0x400 * (h - 0xd800) + (l - 0xdc00)) :: cs)

theorem ofCode_toNat (c : Char) : Piece.ofCode c.toNat = .char c := by
  have hvalid : c.toNat < 0xd800 ∨ 0xdfff < c.toNat ∧ c.toNat < 0x110000 := c.valid
  rw [Piece.ofCode, if_neg (by omega), Char.ofNat_toNat]

theorem hexValue4?_digitChar {n : Nat} (h : n < 0x20) :
    hexValue4? '0' '0' (Nat.digitChar (n / 16)) (Nat.digitChar (n % 16)) = some n := by
  have : ∀ n < 0x20,
      hexValue4? '0' '0' (Nat.digitChar (n / 16)) (Nat.digitChar (n % 16)) = some n := by decide
  exact this n h

theorem isWritten_spellChar (c : Char) : (Piece.char c).IsWritten (spellChar c) := by
  unfold spellChar
  by_cases hquote : c = '"'
  · rw [if_pos hquote]
    exact .letter (by rw [hquote]; rfl)
  by_cases hbackslash : c = '\\'
  · rw [if_neg hquote, if_pos hbackslash]
    exact .letter (by rw [hbackslash]; rfl)
  rw [if_neg hquote, if_neg hbackslash]
  by_cases hcontrol : c.toNat < 0x20
  · split_ifs with hb hf hn hr ht
    · exact .letter (by rw [hb]; rfl)
    · exact .letter (by rw [hf]; rfl)
    · exact .letter (by rw [hn]; rfl)
    · exact .letter (by rw [hr]; rfl)
    · exact .letter (by rw [ht]; rfl)
    · rw [← ofCode_toNat c]
      exact .code (hexValue4?_digitChar hcontrol)
  · have hne : ∀ d : Char, d.toNat < 0x20 → c ≠ d := by
      rintro d hd rfl
      exact hcontrol hd
    rw [if_neg (hne _ (by decide)), if_neg (hne _ (by decide)), if_neg (hne _ (by decide)),
      if_neg (hne _ (by decide)), if_neg (hne _ (by decide)), if_neg hcontrol]
    exact .plain hquote hbackslash hcontrol

theorem areWritten_flatMap (cs : List Char) :
    Piece.AreWritten (cs.map .char) (cs.flatMap spellChar) := by
  induction cs with
  | nil => exact .nil
  | cons c rest ih => exact .cons (isWritten_spellChar c) ih

theorem closeQuote?_cons {c : Char} (hq : c ≠ '"') (hb : c ≠ '\\') (s : List Char) :
    closeQuote? (c :: s) = (closeQuote? s).map fun r => (c :: r.1, r.2) := by
  rw [closeQuote?]
  · exact hq
  · exact fun c s h _ => hb h

theorem pieces?_cons {c : Char} (hb : c ≠ '\\') (hc : ¬ c.toNat < 0x20) (s : List Char) :
    pieces? (c :: s) = (pieces? s).map (.char c :: ·) := by
  rw [pieces?, if_neg hc]
  · exact fun a b d e s h _ => hb h
  · exact fun l s h _ => hb h
  · exact fun h _ => hb h

theorem forall_mem_of_hexValue4? {a b c d : Char} {n : Nat} (h : hexValue4? a b c d = some n) :
    ∀ x ∈ [a, b, c, d], x ≠ '"' ∧ x ≠ '\\' := by
  have hdigit : ∀ (x : Char) (v : Nat), hexValue? x = some v → x ≠ '"' ∧ x ≠ '\\' := by
    intro x v hx
    constructor <;>
      · rintro rfl
        cases hx
  simp only [hexValue4?, Option.bind_eq_bind, Option.bind_eq_some_iff] at h
  obtain ⟨va, ha, vb, hb, vc, hc, vd, hd, -⟩ := h
  simp only [List.forall_mem_cons]
  exact ⟨hdigit a va ha, hdigit b vb hb, hdigit c vc hc, hdigit d vd hd, nofun⟩

theorem Piece.IsWritten.closeQuote?_append {p : Piece} {w : List Char} (h : p.IsWritten w)
    (s : List Char) : closeQuote? (w ++ s) = (closeQuote? s).map fun r => (w ++ r.1, r.2) := by
  cases h with
  | plain hq hb => exact closeQuote?_cons hq hb s
  | letter => rfl
  | @code a b c d n hn =>
    have hdigits := forall_mem_of_hexValue4? hn
    simp only [List.forall_mem_cons] at hdigits
    obtain ⟨ha, hb, hc, hd, -⟩ := hdigits
    rw [List.cons_append, List.cons_append, closeQuote?]
    · simp only [List.cons_append, List.nil_append, closeQuote?_cons ha.1 ha.2,
        closeQuote?_cons hb.1 hb.2, closeQuote?_cons hc.1 hc.2, closeQuote?_cons hd.1 hd.2,
        Option.map_map]
      rfl

theorem Piece.IsWritten.pieces?_append {p : Piece} {w : List Char} (h : p.IsWritten w)
    (s : List Char) : pieces? (w ++ s) = (pieces? s).map (p :: ·) := by
  cases h with
  | plain _ hb hc => exact pieces?_cons hb hc s
  | @letter l c hl =>
    have hu : l ≠ 'u' := by
      rintro rfl
      cases hl
    change pieces? ('\\' :: l :: s) = _
    rw [pieces?, hl]
    · cases pieces? s <;> rfl
    · exact fun a b d e s h _ => hu h
  | @code a b c d n hn =>
    change pieces? ('\\' :: 'u' :: a :: b :: c :: d :: s) = _
    rw [pieces?, hn]
    cases pieces? s <;> rfl

theorem closeQuote?_of_areWritten {ps : List Piece} {w : List Char} (h : Piece.AreWritten ps w)
    (s : List Char) : closeQuote? (w ++ '"' :: s) = some (w, s) := by
  induction h with
  | nil => rfl
  | cons hp _ ih =>
    rw [List.append_assoc, hp.closeQuote?_append, ih]
    rfl

theorem pieces?_of_areWritten {ps : List Piece} {w : List Char} (h : Piece.AreWritten ps w) :
    pieces? w = some ps := by
  induction h with
  | nil => rfl
  | cons hp _ ih =>
    rw [hp.pieces?_append, ih]
    rfl

theorem joins_map_char (cs : List Char) : Joins (cs.map .char) cs := by
  induction cs with
  | nil => exact .nil
  | cons c rest ih => exact .char ih

theorem join?_eq_some_iff {ps : List Piece} {cs : List Char} : join? ps = some cs ↔ Joins ps cs := by
  constructor
  · intro h
    fun_induction join? ps generalizing cs with
    | case1 =>
      cases h
      exact .nil
    | case2 c rest ih =>
      obtain ⟨ds, hds, rfl⟩ := Option.map_eq_some_iff.1 h
      exact .char (ih hds)
    | case3 h l rest hpair ih =>
      obtain ⟨ds, hds, rfl⟩ := Option.map_eq_some_iff.1 h
      exact .pair hpair.1 hpair.2 (ih hds)
    | case4 => cases h
    | case5 => cases h
  · intro h
    induction h with
    | nil => rfl
    | char _ ih =>
      rw [join?, ih]
      rfl
    | pair hh hl _ ih =>
      rw [join?, if_pos ⟨hh, hl⟩, ih]
      rfl

/-- A string is read from what stands between its quote marks, as no text if a half of a pair is left
alone. -/
theorem ofQuoted?_of_areWritten {ps : List Piece} {w : List Char} {x : Option String}
    (hw : Piece.AreWritten ps w) (hx : ∀ s : String, x = some s ↔ Joins ps s.toList) :
    Token.ofQuoted? w = some (.str x) := by
  have htext : (join? ps).map String.ofList = x := by
    ext s
    rw [Option.map_eq_some_iff, hx s, ← join?_eq_some_iff]
    constructor
    · rintro ⟨cs, hcs, rfl⟩
      rw [hcs, String.toList_ofList]
    · exact fun h => ⟨s.toList, h, String.ofList_toList⟩
  rw [Token.ofQuoted?, pieces?_of_areWritten hw, Option.map_some, htext]

/-! ## Tokens -/

/-- The token is no number with a point, and no string that holds half a surrogate pair. -/
def Token.IsPlain : Token → Prop
  | .real _ => False
  | .str none => False
  | _ => True

/-- The token is a word or a number. -/
def Token.IsBare : Token → Prop
  | .null => True
  | .bool _ => True
  | .int _ => True
  | .real _ => True
  | _ => False

/-- The token is written in one way only: it is no string and no number with a point. -/
def Token.IsFixed : Token → Prop
  | .real _ => False
  | .str _ => False
  | _ => True

/-- How a token may be written. -/
inductive Token.IsSpelled : Token → List Char → Prop
  | fixed {t : Token} : t.IsFixed → IsSpelled t t.spell
  | real {w : List Char} : IsReal w → IsSpelled (.real w) w
  | str {x : Option String} {ps : List Piece} {w : List Char} : Piece.AreWritten ps w →
      (∀ s : String, x = some s ↔ Joins ps s.toList) → IsSpelled (.str x) ('"' :: (w ++ ['"']))

/-- A plain token may be written as it is written in a compact text. -/
theorem isSpelled_spell {t : Token} (h : t.IsPlain) : t.IsSpelled t.spell := by
  cases t with
  | real w => exact absurd h id
  | str x =>
    cases x with
    | none => exact absurd h id
    | some x =>
      refine .str (areWritten_flatMap x.toList) fun s => ?_
      rw [← join?_eq_some_iff, join?_eq_some_iff.2 (joins_map_char x.toList), Option.some.injEq,
        Option.some.injEq, String.toList_inj]
  | _ => exact .fixed trivial

/-- No word or number goes on at the beginning of the text. -/
def Closed (s : List Char) : Prop := ∀ c ∈ s.head?, isBare c = false

theorem isBare_of_isDigit {c : Char} (h : isDigit c = true) : isBare c = true := by
  have hd : c.isDigit = true := by
    rw [isDigit, Bool.and_eq_true, decide_eq_true_eq, decide_eq_true_eq] at h
    rw [Char.isDigit, Bool.and_eq_true, decide_eq_true_eq, decide_eq_true_eq]
    exact h
  rw [isBare, Char.isAlphanum, hd, Bool.or_true]
  rfl

theorem isBare_of_mem_integer {n : Int} {c : Char} (h : c ∈ integer n) : isBare c = true := by
  cases n with
  | ofNat n => exact isBare_of_isDigit (Decimal.isDigit_of_mem_natural h)
  | negSucc n =>
    obtain rfl | h := List.mem_cons.1 h
    · rfl
    · exact isBare_of_isDigit (Decimal.isDigit_of_mem_natural h)

theorem IsDigits.forall_isBare {ds : List Char} (h : IsDigits ds) : ∀ c ∈ ds, isBare c = true :=
  fun c hc => isBare_of_isDigit (h.isDigit_of_mem c hc)

theorem isBare_of_mem_isReal {w : List Char} (h : IsReal w) : ∀ c ∈ w, isBare c = true := by
  cases h with
  | minusZero => exact List.all_eq_true.1 rfl
  | @parts sign w f e hsign hw hf he _ =>
    simp only [List.forall_mem_append]
    refine ⟨?_, hw.forall_isBare, ?_, ?_⟩
    · obtain rfl | rfl := hsign <;> exact List.all_eq_true.1 rfl
    · cases hf with
      | nil => exact nofun
      | point hds => exact List.forall_mem_cons.2 ⟨rfl, hds.forall_isBare⟩
    · cases he with
      | nil => exact nofun
      | mark he hsign hds =>
        rw [List.forall_mem_cons, List.forall_mem_append]
        refine ⟨?_, ?_, hds.forall_isBare⟩
        · obtain rfl | rfl := he <;> rfl
        · obtain rfl | rfl | rfl := hsign <;> exact List.all_eq_true.1 rfl

theorem ofMark?_of_isBare {c : Char} (h : isBare c = true) :
    isSpace c = false ∧ c ≠ '"' ∧ Token.ofMark? c = none := by
  have hne : ∀ d, isBare d = false → c ≠ d := by
    rintro d hd rfl
    rw [h] at hd
    cases hd
  refine ⟨?_, hne _ (by decide), ?_⟩
  · simp only [isSpace, Bool.or_eq_false_iff, beq_eq_false_iff_ne]
    exact ⟨⟨⟨hne _ (by decide), hne _ (by decide)⟩, hne _ (by decide)⟩, hne _ (by decide)⟩
  · rw [Token.ofMark?, if_neg (hne _ (by decide)), if_neg (hne _ (by decide)),
      if_neg (hne _ (by decide)), if_neg (hne _ (by decide)), if_neg (hne _ (by decide)),
      if_neg (hne _ (by decide))]

theorem scan?_bare {t : Token} {w s : List Char} (hw : ∀ c ∈ w, isBare c = true)
    (ht : Token.ofBare? w = some t) (hs : Closed s) :
    scan? (w ++ s) = (scan? s).map (t :: ·) := by
  cases w with
  | nil => cases ht
  | cons c w =>
    rw [List.forall_mem_cons] at hw
    obtain ⟨hspace, hquote, hmark⟩ := ofMark?_of_isBare hw.1
    obtain ⟨htake, hdrop⟩ := span_of_stop hw.2 hs
    rw [List.cons_append, scan?, hspace, if_neg Bool.false_ne_true, if_neg hquote, hmark, htake,
      hdrop]
    simp only [ht, Option.bind_eq_bind, Option.bind_some]
    cases scan? s <;> rfl

theorem scan?_quoted {t : Token} {w s : List Char} (hw : closeQuote? (w ++ '"' :: s) = some (w, s))
    (ht : Token.ofQuoted? w = some t) :
    scan? ('"' :: (w ++ '"' :: s)) = (scan? s).map (t :: ·) := by
  rw [scan?, if_neg (by decide), if_pos rfl]
  split
  next hnone =>
    rw [hw] at hnone
    cases hnone
  next inside rest hsome =>
    rw [hw] at hsome
    obtain ⟨rfl, rfl⟩ := Prod.mk.inj (Option.some.inj hsome)
    simp only [ht, Option.bind_eq_bind, Option.bind_some]
    cases scan? s <;> rfl

theorem scan?_mark {t : Token} {c : Char} (h : Token.ofMark? c = some t) (s : List Char) :
    scan? (c :: s) = (scan? s).map (t :: ·) := by
  have hne : ∀ d, Token.ofMark? d = none → c ≠ d := by
    rintro d hd rfl
    rw [h] at hd
    cases hd
  have hspace : isSpace c = false := by
    simp only [isSpace, Bool.or_eq_false_iff, beq_eq_false_iff_ne]
    exact ⟨⟨⟨hne _ rfl, hne _ rfl⟩, hne _ rfl⟩, hne _ rfl⟩
  rw [scan?, hspace, if_neg Bool.false_ne_true, if_neg (hne _ rfl), h]

theorem scan?_fixed {t : Token} (ht : t.IsFixed) {s : List Char} (hs : t.IsBare → Closed s) :
    scan? (t.spell ++ s) = (scan? s).map (t :: ·) := by
  cases t with
  | null => exact scan?_bare (List.all_eq_true.1 rfl) rfl (hs trivial)
  | bool b => cases b <;> exact scan?_bare (List.all_eq_true.1 rfl) rfl (hs trivial)
  | int n => exact scan?_bare (fun c => isBare_of_mem_integer) (ofBare?_integer n) (hs trivial)
  | real w => exact absurd ht id
  | str x => exact absurd ht id
  | _ => exact scan?_mark rfl s

/-- **A token is read back from its spelling**, unless it is a word or a number and goes on behind
it. -/
theorem scan?_of_isSpelled {t : Token} {w : List Char} (ht : t.IsSpelled w) {s : List Char}
    (hs : t.IsBare → Closed s) : scan? (w ++ s) = (scan? s).map (t :: ·) := by
  cases ht with
  | fixed ht => exact scan?_fixed ht hs
  | real hw => exact scan?_bare (isBare_of_mem_isReal hw) (ofBare?_of_isReal hw) (hs trivial)
  | str hw hx =>
    rw [List.cons_append, List.append_assoc]
    exact scan?_quoted (closeQuote?_of_areWritten hw s) (ofQuoted?_of_areWritten hw hx)

theorem closed_of_isSpelled {t : Token} {w : List Char} (ht : t.IsSpelled w) (hb : ¬ t.IsBare)
    (s : List Char) : Closed (w ++ s) := by
  have hhead : ∀ (c : Char) (r : List Char), isBare c = false → Closed (c :: r) := by
    rintro c r hc d hd
    obtain rfl := Option.some.inj hd
    exact hc
  cases ht with
  | real => exact absurd trivial hb
  | str => exact hhead _ _ rfl
  | fixed ht =>
    cases t with
    | null => exact absurd trivial hb
    | bool b => exact absurd trivial hb
    | int n => exact absurd trivial hb
    | real w => exact absurd trivial hb
    | str x => exact absurd ht id
    | _ => exact hhead _ _ rfl

end Transducer.Json
