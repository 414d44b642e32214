import Transducer.Proofs.Readback

/-!
# The texts that are read as histories

A history has many values, and a value many texts. All of them are read as the history; a text with a
flaw in one of its records is read as none.

* `Transition.IsValue`, `History.IsValue`: fields in any order and among other members, or in an
  array, for each record on its own.
* `NoPlace`, `FlawedTransition`, `FlawedHistory`: the flaws.
* `decode?_of_isValue`: **a history is decoded from each of its values.**
* `decode?_of_flawed`: **no history is decoded from a flawed value.**
* `History.Accepts`: the texts that are read as histories over a type of states, and those that are
  refused.
* `History.accepts`: **it is so for texts, machine integers, truth values, and pairs of them.**
-/

namespace Transducer

open Json (Codec ReadsBack Records Misfits encode decode?)

/-! ## Values -/

/-- The fields of a transition and what stands for them. -/
def transitionFields (source target position : Json) : List (String × Json) :=
  [("from", source), ("to", target), ("position", position)]

/-- The field of a history and what stands for its transitions. -/
def historyFields (items : List Json) : List (String × Json) := [("transitions", .arr items)]

/-- The value is a number that no word of sixty-four bits holds: it is negative, or too large, or has
a fraction or an exponent. -/
inductive NoPlace : Json → Prop
  | negative {n : Int} : n < 0 → NoPlace (.int n)
  | tooLarge {n : Int} : 0xffffffffffffffff < n → NoPlace (.int n)
  | real {written : List Char} : NoPlace (.real written)

/-- The value is no transition: it does not fit the fields, or its place is none. -/
inductive FlawedTransition : Json → Prop
  | misfits {j : Json} : Misfits ["from", "to", "position"] j → FlawedTransition j
  | noPlace {source target position j : Json} : NoPlace position →
      Records (transitionFields source target position) j → FlawedTransition j

/-- The value is no history: it does not fit the field, or one of its items is no transition. -/
inductive FlawedHistory : Json → Prop
  | misfits {j : Json} : Misfits ["transitions"] j → FlawedHistory j
  | item {items : List Json} {item j : Json} : item ∈ items → FlawedTransition item →
      Records (historyFields items) j → FlawedHistory j

variable {σ : Type} [Codec σ]

/-- The value is one of the transition. -/
def Transition.IsValue (t : Transition σ) (j : Json) : Prop :=
  Records (transitionFields (encode t.source) (encode t.target) (.int t.position)) j

/-- The value is one of the history, each of whose transitions has a value of its own. -/
def History.IsValue (h : History σ) (j : Json) : Prop :=
  ∃ items, List.Forall₂ Transition.IsValue h.transitions items ∧ Records (historyFields items) j

/-! ## Reading the fields -/

theorem fields?_transition {source target position j : Json}
    (h : Records (transitionFields source target position) j) :
    Json.fields? ["from", "to", "position"] j = some [source, target, position] := by
  have hn : ((transitionFields source target position).map (·.1)).Nodup :=
    (by decide : ["from", "to", "position"].Nodup)
  exact Json.fields?_of_records hn h

theorem fields?_history {items : List Json} {j : Json} (h : Records (historyFields items) j) :
    Json.fields? ["transitions"] j = some [.arr items] := by
  have hn : ((historyFields items).map (·.1)).Nodup := (by decide : ["transitions"].Nodup)
  exact Json.fields?_of_records hn h

/-! ## Histories read -/

theorem decode?_transition_of_isValue {t : Transition σ} {j : Json} (hs : ∀ s : σ, ReadsBack s)
    (hp : t.position < UInt64.size) (h : t.IsValue j) : decode? j = some t :=
  decode?_transition (fields?_transition h) (hs t.source).decode_encode (hs t.target).decode_encode
    (Json.readsBack_nat hp).decode_encode

theorem mapM_decode? {ts : List (Transition σ)} {items : List Json}
    (h : List.Forall₂ (fun t j => decode? j = some t) ts items) : items.mapM decode? = some ts := by
  induction h with
  | nil => rfl
  | cons ht _ ih =>
    rw [List.mapM_cons, ht, ih]
    rfl

/-- **A history is decoded from each of its values.** -/
theorem decode?_of_isValue {h : History σ} {j : Json} (hs : ∀ s : σ, ReadsBack s) (hf : h.Fits)
    (hj : h.IsValue j) : decode? j = some h := by
  obtain ⟨items, hitems, hrecord⟩ := hj
  refine decode?_history (fields?_history hrecord) (mapM_decode? ?_)
  rw [List.forall₂_iff_get] at hitems ⊢
  refine ⟨hitems.1, fun i hi hi' => ?_⟩
  exact decode?_transition_of_isValue hs (hf _ (List.get_mem _ _)) (hitems.2 i hi hi')

/-! ## Flaws refused -/

theorem decode?_noPlace {j : Json} (h : NoPlace j) : (decode? j : Option Nat) = none := by
  have hwithin : ∀ n : Int, ¬ (0 ≤ n ∧ n ≤ 0xffffffffffffffff) →
      (decode? (.int n) : Option Nat) = none := by
    intro n hn
    change (Json.intWithin? 0 0xffffffffffffffff (.int n)).map Int.toNat = none
    rw [Json.intWithin?, if_neg hn]
    rfl
  cases h with
  | negative hn => exact hwithin _ (by omega)
  | tooLarge hn => exact hwithin _ (by omega)
  | real => rfl

theorem decode?_of_flawedTransition {j : Json} (h : FlawedTransition j) :
    (decode? j : Option (Transition σ)) = none := by
  cases h with
  | misfits h =>
    have hfields := Json.fields?_of_misfits h
    simp only [decode?, hfields]
  | @noPlace a b p _ hp h =>
    have hplace := decode?_noPlace hp
    simp only [decode?] at hplace ⊢
    simp only [fields?_transition h, hplace]
    cases (decode? a : Option σ) <;> cases (decode? b : Option σ) <;> rfl

/-- **No history is decoded from a flawed value.** -/
theorem decode?_of_flawed {j : Json} (h : FlawedHistory j) :
    (decode? j : Option (History σ)) = none := by
  cases h with
  | misfits h =>
    have hfields := Json.fields?_of_misfits h
    simp only [decode?, hfields]
  | @item items item _ hmem hitem h =>
    have hitems : (decode? (.arr items) : Option (List (Transition σ))) = none :=
      Json.mapM_eq_none hmem (decode?_of_flawedTransition hitem)
    simp only [decode?] at hitems ⊢
    simp only [fields?_history h, hitems]
    rfl

/-! ## Texts -/

theorem Json.isContainer_of_records {fields : List (String × Json)} {j : Json}
    (h : Records fields j) : j.IsContainer := by
  cases h <;> trivial

/-- What texts are read as histories over the states, and what texts are read as none. -/
structure History.Accepts (σ : Type) [Codec σ] : Prop where
  /-- Every text of every value of a history is read as that history. -/
  reads : ∀ (h : History σ) (j : Json) (s : String), h.Fits → h.IsValue j → j.IsText s →
    Json.parse? s = some h
  /-- The compact text of a history is one of these. -/
  compact : ∀ h : History σ, h.Fits → ∃ j, h.IsValue j ∧ j.IsText h.toJson
  /-- Every text of a flawed value is refused. -/
  refuses : ∀ (j : Json) (s : String), FlawedHistory j → j.IsText s →
    Json.parse? s = (none : Option (History σ))
  /-- A text of a value of a history is refused if more than white space stands behind it. -/
  refuses_more : ∀ (h : History σ) (j : Json) (s rest : String), h.IsValue j → j.IsText s →
    ¬ Json.IsGap rest.toList → Json.parse? (s ++ rest) = (none : Option (History σ))

theorem History.isValue_encode (h : History σ) : h.IsValue (encode h) := by
  refine ⟨h.transitions.map encode, ?_, Json.records_ofMembers _⟩
  rw [List.forall₂_map_right_iff, List.forall₂_same]
  exact fun t _ => Json.records_ofMembers _

theorem History.accepts_of_readsBack (hs : ∀ s : σ, ReadsBack s) : Accepts σ where
  reads h j s hf hj htext := by
    rw [Json.parse?, Json.read?_of_isText htext]
    exact decode?_of_isValue hs hf hj
  compact h hf := ⟨encode h, h.isValue_encode, Json.isText_write (hf.readsBack hs).isPlain⟩
  refuses j s hj htext := by
    rw [Json.parse?, Json.read?_of_isText htext]
    exact decode?_of_flawed hj
  refuses_more h j s rest hj htext hr := by
    obtain ⟨items, -, hrecord⟩ := hj
    rw [Json.parse?, String.toList_append,
      Json.read?_append_of_isText (Json.isContainer_of_records hrecord) htext hr]
    rfl

/-- **What texts are read as histories.** Each record in a text of a history may have its fields in
any order, and members of other names and any values among them, or be the array of its fields; white
space may stand between any two tokens. Every such text is read as that history. No text is read as a
history in which a field is missing or repeated, an array has another length, a place is negative, too
large, or has a fraction or an exponent, or more than white space stands behind the value. It is so
over texts of any characters, over the integers of sixty-four bits, over truth values, and over pairs
of a text and an integer. -/
theorem History.accepts :
    Accepts String ∧ Accepts Int64 ∧ Accepts Bool ∧ Accepts (String × Int64) := by
  refine ⟨?_, ?_, ?_, ?_⟩
  · exact accepts_of_readsBack Json.readsBack_string
  · exact accepts_of_readsBack Json.readsBack_int64
  · exact accepts_of_readsBack Json.readsBack_bool
  · exact accepts_of_readsBack fun s =>
      Json.readsBack_pair (Json.readsBack_string s.1) (Json.readsBack_int64 s.2)

example :
    Json.parse? "\t\x7b\"x\":[-0,1e9,\x7b\x7d],\"transitions\":[ [\"a\",\"\\u0062\",7] ]\x7d\n" =
      some (⟨[⟨"a", "b", 7⟩]⟩ : History String) := by
  cbv

end Transducer
