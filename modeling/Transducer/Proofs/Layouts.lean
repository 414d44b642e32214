import Mathlib.Data.List.Chain
import Transducer.Proofs.Spelling

/-!
# Tokens laid out in a text

A text of JSON has its tokens one behind the other, each written in any of its ways, with white space
anywhere between them.

* `IsGap`, `Lays`: white space, and the texts that some tokens are laid out in.
* `Spaced`: tokens of which no two words or numbers are neighbours.
* `scan?_append_of_lays`: **tokens are read from every text that they are laid out in**, whatever
  stands behind it.
* `Json.IsText`: the texts of a value.
* `read?_of_isText`: **a value is read from each of its texts.**
* `read?_append_of_isText`: **nothing but white space may stand behind an array or an object.**
* `read?_write`: **a value is read back from its compact text.**
-/

namespace Transducer.Json

/-! ## White space -/

/-- The text is white space. -/
def IsGap (s : List Char) : Prop := ∀ c ∈ s, isSpace c = true

theorem scan?_gap {gap : List Char} (h : IsGap gap) (s : List Char) : scan? (gap ++ s) = scan? s := by
  induction gap with
  | nil => rfl
  | cons c rest ih =>
    have hc := h c List.mem_cons_self
    have hrest : IsGap rest := fun d hd => h d (List.mem_cons_of_mem c hd)
    rw [List.cons_append, scan?, if_pos hc]
    exact ih hrest

theorem closed_gap {gap s : List Char} (h : IsGap gap) (hs : Closed s) : Closed (gap ++ s) := by
  cases gap with
  | nil => exact hs
  | cons d rest =>
    rintro c hc
    obtain rfl := Option.some.inj hc
    have hspace := h d List.mem_cons_self
    cases hbare : isBare d with
    | false => rfl
    | true =>
      rw [(ofMark?_of_isBare hbare).1] at hspace
      cases hspace

theorem isGap_of_scan? {s : List Char} (h : scan? s = some []) : IsGap s := by
  fun_induction scan? s with
  | case1 => exact nofun
  | case2 c s hc ih => exact List.forall_mem_cons.2 ⟨hc, ih h⟩
  | case3 => cases h
  | case4 =>
    simp only [Option.bind_eq_bind, Option.bind_eq_some_iff] at h
    obtain ⟨t, -, ts, -, hts⟩ := h
    cases hts
  | case5 =>
    obtain ⟨ts, -, hts⟩ := Option.map_eq_some_iff.1 h
    cases hts
  | case6 =>
    simp only [Option.bind_eq_bind, Option.bind_eq_some_iff] at h
    obtain ⟨t, -, ts, -, hts⟩ := h
    cases hts

/-! ## Tokens one behind the other -/

/-- The tokens are laid out in the text: white space stands in front of each and behind the last one,
or nothing does. -/
inductive Lays : List Token → List Char → Prop
  | nil {gap : List Char} : IsGap gap → Lays [] gap
  | cons {t : Token} {ts : List Token} {gap w s : List Char} : IsGap gap → t.IsSpelled w →
      Lays ts s → Lays (t :: ts) (gap ++ (w ++ s))

/-- No two neighbours are words or numbers. -/
abbrev Spaced (ts : List Token) : Prop := ts.IsChain fun t u => t.IsBare → ¬ u.IsBare

theorem lays_flatMap_spell {ts : List Token} (h : ∀ t ∈ ts, t.IsPlain) :
    Lays ts (ts.flatMap Token.spell) := by
  induction ts with
  | nil => exact .nil nofun
  | cons t rest ih =>
    rw [List.forall_mem_cons] at h
    have hgap : IsGap [] := nofun
    exact .cons hgap (isSpelled_spell h.1) (ih h.2)

theorem closed_of_lays {ts : List Token} {s rest : List Char} (h : Lays ts s)
    (hts : ∀ t ∈ ts.head?, ¬ t.IsBare) (hr : ts = [] → Closed rest) : Closed (s ++ rest) := by
  cases h with
  | nil hgap => exact closed_gap hgap (hr rfl)
  | cons hgap ht _ =>
    rw [List.append_assoc, List.append_assoc]
    exact closed_gap hgap (closed_of_isSpelled ht (hts _ rfl) _)

/-- **Tokens are read from every text that they are laid out in**, unless the last one is a word or a
number and goes on behind it. -/
theorem scan?_append_of_lays {ts : List Token} {s rest : List Char} (h : Lays ts s) (hs : Spaced ts)
    (hr : ∀ t ∈ ts.getLast?, t.IsBare → Closed rest) :
    scan? (s ++ rest) = (scan? rest).map (ts ++ ·) := by
  induction h with
  | nil hgap =>
    rw [scan?_gap hgap]
    cases scan? rest <;> rfl
  | @cons t ts gap w s hgap ht hlays ih =>
    -- the token ends where the next one begins, or, if it is the last one, where the rest does
    have hclosed : t.IsBare → Closed (s ++ rest) := by
      intro hb
      refine closed_of_lays hlays (fun u hu => ?_) ?_
      · exact (List.isChain_cons.1 hs).1 u hu hb
      · rintro rfl
        exact hr t rfl hb
    have hlast : ∀ u ∈ ts.getLast?, u.IsBare → Closed rest := by
      intro u hu
      refine hr u ?_
      cases ts with
      | nil => cases hu
      | cons v more => rwa [List.getLast?_cons_cons]
    rw [List.append_assoc, List.append_assoc, scan?_gap hgap, scan?_of_isSpelled ht hclosed,
      ih hs.tail hlast, Option.map_map]
    rfl

/-! ## Values -/

theorem spaced_cons {t : Token} {ts : List Token} (ht : ¬ t.IsBare) (h : Spaced ts) :
    Spaced (t :: ts) :=
  List.isChain_cons.2 ⟨fun _ _ hb => absurd hb ht, h⟩

theorem head_moreItemTokens (items : List Json) (rest : List Token) :
    ∀ t ∈ (moreItemTokens items ++ rest).head?, ¬ t.IsBare := by
  rintro t ht
  cases items with
  | nil =>
    obtain rfl := Option.some.inj ht
    exact id
  | cons j more =>
    obtain rfl := Option.some.inj ht
    exact id

theorem head_moreMemberTokens (members : List (Option String × Json)) (rest : List Token) :
    ∀ t ∈ (moreMemberTokens members ++ rest).head?, ¬ t.IsBare := by
  rintro t ht
  cases members with
  | nil =>
    obtain rfl := Option.some.inj ht
    exact id
  | cons m more =>
    obtain rfl := Option.some.inj ht
    exact id

mutual

/-- In front of no word and no number, the tokens of a value are spaced. -/
theorem spaced_tokens (j : Json) {rest : List Token} (h : Spaced rest)
    (hr : ∀ t ∈ rest.head?, ¬ t.IsBare) : Spaced (tokens j ++ rest) := by
  match j with
  | .null | .bool _ | .int _ | .real _ | .str _ =>
    exact List.isChain_cons.2 ⟨fun t ht _ => hr t ht, h⟩
  | .arr items =>
    match items with
    | [] => exact spaced_cons id (spaced_cons id h)
    | first :: more =>
      have hmore := spaced_moreItemTokens more h
      rw [tokens, itemTokens, List.cons_append, List.append_assoc]
      exact spaced_cons id (spaced_tokens first hmore (head_moreItemTokens more rest))
  | .obj members =>
    match members with
    | [] => exact spaced_cons id (spaced_cons id h)
    | (name, first) :: more =>
      have hmore := spaced_moreMemberTokens more h
      rw [tokens, memberTokens, List.cons_append, List.cons_append, List.cons_append,
        List.append_assoc]
      exact spaced_cons id (spaced_cons id (spaced_cons id
        (spaced_tokens first hmore (head_moreMemberTokens more rest))))

theorem spaced_moreItemTokens (items : List Json) {rest : List Token} (h : Spaced rest) :
    Spaced (moreItemTokens items ++ rest) := by
  match items with
  | [] => exact spaced_cons id h
  | j :: more =>
    have hmore := spaced_moreItemTokens more h
    rw [moreItemTokens, List.cons_append, List.append_assoc]
    exact spaced_cons id (spaced_tokens j hmore (head_moreItemTokens more rest))

theorem spaced_moreMemberTokens (members : List (Option String × Json)) {rest : List Token}
    (h : Spaced rest) : Spaced (moreMemberTokens members ++ rest) := by
  match members with
  | [] => exact spaced_cons id h
  | (name, j) :: more =>
    have hmore := spaced_moreMemberTokens more h
    rw [moreMemberTokens, List.cons_append, List.cons_append, List.cons_append, List.append_assoc]
    exact spaced_cons id (spaced_cons id (spaced_cons id
      (spaced_tokens j hmore (head_moreMemberTokens more rest))))

end

theorem spaced_tokens_self (j : Json) : Spaced j.tokens := by
  have h := spaced_tokens j List.isChain_nil nofun
  rwa [List.append_nil] at h

/-- The text is one of the value. -/
def IsText (j : Json) (s : String) : Prop := Lays j.tokens s.toList

/-- **A value is read from each of its texts.** -/
theorem read?_of_isText {j : Json} {s : String} (h : j.IsText s) : read? s.toList = some j := by
  have hclosed : Closed [] := nofun
  have hscan := scan?_append_of_lays h (spaced_tokens_self j) fun _ _ _ => hclosed
  rw [List.append_nil, scan?, Option.map_some, List.append_nil] at hscan
  rw [read?, hscan, Option.bind_some, ofTokens?_tokens]

/-- The value has no number with a point and no broken string, in its members' names neither. -/
def IsPlain (j : Json) : Prop := ∀ t ∈ j.tokens, t.IsPlain

theorem isText_write {j : Json} (h : j.IsPlain) : j.IsText (String.ofList j.write) := by
  rw [IsText, String.toList_ofList]
  exact lays_flatMap_spell h

theorem read?_write {j : Json} (h : j.IsPlain) : read? j.write = some j := by
  have hread := read?_of_isText (isText_write h)
  rwa [String.toList_ofList] at hread

/-! ## Text behind a value -/

/-- The value is an array or an object. -/
def IsContainer : Json → Prop
  | .arr _ => True
  | .obj _ => True
  | _ => False

theorem exists_moreItemTokens (items : List Json) :
    ∃ ts, moreItemTokens items = ts ++ [.closeArr] := by
  induction items with
  | nil => exact ⟨[], rfl⟩
  | cons j more ih =>
    obtain ⟨ts, hts⟩ := ih
    exact ⟨.comma :: (tokens j ++ ts), by rw [moreItemTokens, hts]; simp⟩

theorem exists_moreMemberTokens (members : List (Option String × Json)) :
    ∃ ts, moreMemberTokens members = ts ++ [.closeObj] := by
  induction members with
  | nil => exact ⟨[], rfl⟩
  | cons m more ih =>
    obtain ⟨ts, hts⟩ := ih
    exact ⟨.comma :: .str m.1 :: .colon :: (tokens m.2 ++ ts), by rw [moreMemberTokens, hts]; simp⟩

theorem getLast?_tokens {j : Json} (h : j.IsContainer) : ∀ t ∈ j.tokens.getLast?, ¬ t.IsBare := by
  have hlast : ∀ (ts : List Token) (u : Token), ¬ u.IsBare →
      ∀ t ∈ (ts ++ [u]).getLast?, ¬ t.IsBare := by
    intro ts u hu t ht
    rw [List.getLast?_concat] at ht
    exact Option.some.inj ht ▸ hu
  cases j with
  | arr items =>
    cases items with
    | nil => exact hlast [.openArr] .closeArr id
    | cons first more =>
      obtain ⟨ts, hts⟩ := exists_moreItemTokens more
      have heq : tokens (.arr (first :: more)) = (.openArr :: (tokens first ++ ts)) ++ [.closeArr] := by
        rw [tokens, itemTokens, hts]
        simp
      rw [heq]
      exact hlast _ .closeArr id
  | obj members =>
    cases members with
    | nil => exact hlast [.openObj] .closeObj id
    | cons m more =>
      obtain ⟨ts, hts⟩ := exists_moreMemberTokens more
      have heq : tokens (.obj (m :: more)) =
          (.openObj :: .str m.1 :: .colon :: (tokens m.2 ++ ts)) ++ [.closeObj] := by
        rw [tokens, memberTokens, hts]
        simp
      rw [heq]
      exact hlast _ .closeObj id
  | _ => exact absurd h id

theorem ofTokens?_tokens_append (j : Json) {ts : List Token} (h : ts ≠ []) :
    ofTokens? (j.tokens ++ ts) = none := by
  cases ts with
  | nil => exact absurd rfl h
  | cons t rest =>
    have hfeed : feed (.done j, []) t = none := by cases t <;> rfl
    rw [ofTokens?, foldlM_feed_tokens, List.foldlM_cons, hfeed]
    rfl

/-- **Nothing but white space may stand behind an array or an object.** -/
theorem read?_append_of_isText {j : Json} {s : String} (hj : j.IsContainer) (h : j.IsText s)
    {rest : List Char} (hr : ¬ IsGap rest) : read? (s.toList ++ rest) = none := by
  have hlast : ∀ t ∈ j.tokens.getLast?, t.IsBare → Closed rest :=
    fun t ht hb => absurd hb (getLast?_tokens hj t ht)
  rw [read?, scan?_append_of_lays h (spaced_tokens_self j) hlast]
  cases hscan : scan? rest with
  | none => rfl
  | some ts =>
    have hts : ts ≠ [] := by
      rintro rfl
      exact hr (isGap_of_scan? hscan)
    exact ofTokens?_tokens_append j hts

end Transducer.Json
