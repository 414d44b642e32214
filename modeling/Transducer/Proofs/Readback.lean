import Transducer.History.Json
import Transducer.Proofs.Layouts
import Transducer.Proofs.Records

/-!
# Histories read back

A history is the same after it has been written to JSON and read back, whatever its states and
places.

* `Json.IsPlain` for arrays and objects: what they hold is plain.
* `Json.ReadsBack`: a value is decoded from what it is encoded as, which is plain.
* `Json.parse?_write`: such a value is read back from its compact text.
* `readsBack_transition`, `readsBack_history`: records of values that are read back.
* `History.Restores`: **what is written of the histories over a type of states is read back, and no
  two are written alike.**
* `History.restores`: **it is so for texts, machine integers, truth values, and pairs of them.**
-/

namespace Transducer.Json

/-! ## Plain values -/

theorem isPlain_moreItemTokens {items : List Json} (h : ∀ j ∈ items, j.IsPlain) :
    ∀ t ∈ moreItemTokens items, t.IsPlain := by
  induction items with
  | nil =>
    intro t ht
    obtain rfl := List.mem_singleton.1 ht
    trivial
  | cons j more ih =>
    rw [List.forall_mem_cons] at h
    rw [moreItemTokens, List.forall_mem_cons, List.forall_mem_append]
    exact ⟨trivial, h.1, ih h.2⟩

theorem isPlain_arr {items : List Json} (h : ∀ j ∈ items, j.IsPlain) : (Json.arr items).IsPlain := by
  unfold IsPlain
  cases items with
  | nil =>
    rw [tokens, itemTokens, List.forall_mem_cons, List.forall_mem_singleton]
    exact ⟨trivial, trivial⟩
  | cons j more =>
    rw [List.forall_mem_cons] at h
    rw [tokens, itemTokens, List.forall_mem_cons, List.forall_mem_append]
    exact ⟨trivial, h.1, isPlain_moreItemTokens h.2⟩

theorem isPlain_moreMemberTokens {members : List (String × Json)} (h : ∀ m ∈ members, m.2.IsPlain) :
    ∀ t ∈ moreMemberTokens (members.map fun m => (some m.1, m.2)), t.IsPlain := by
  induction members with
  | nil =>
    intro t ht
    obtain rfl := List.mem_singleton.1 ht
    trivial
  | cons m more ih =>
    rw [List.forall_mem_cons] at h
    rw [List.map_cons, moreMemberTokens, List.forall_mem_cons, List.forall_mem_cons,
      List.forall_mem_cons, List.forall_mem_append]
    exact ⟨trivial, trivial, trivial, h.1, ih h.2⟩

theorem isPlain_ofMembers {members : List (String × Json)} (h : ∀ m ∈ members, m.2.IsPlain) :
    (ofMembers members).IsPlain := by
  unfold IsPlain
  cases members with
  | nil =>
    rw [ofMembers, List.map_nil, tokens, memberTokens, List.forall_mem_cons,
      List.forall_mem_singleton]
    exact ⟨trivial, trivial⟩
  | cons m more =>
    rw [List.forall_mem_cons] at h
    rw [ofMembers, List.map_cons, tokens, memberTokens, List.forall_mem_cons, List.forall_mem_cons,
      List.forall_mem_cons, List.forall_mem_append]
    exact ⟨trivial, trivial, trivial, h.1, isPlain_moreMemberTokens h.2⟩

/-! ## Values that are read back -/

section

variable {α β : Type} [Codec α] [Codec β]

/-- The value is decoded from what it is encoded as, which is plain. -/
structure ReadsBack (a : α) : Prop where
  decode_encode : decode? (encode a) = some a
  isPlain : (encode a).IsPlain

theorem parse?_write {a : α} (h : ReadsBack a) : parse? (String.ofList (encode a).write) = some a := by
  rw [parse?, String.toList_ofList, read?_write h.isPlain, Option.bind_some, h.decode_encode]

theorem eq_of_write_eq {a a' : α} (h : ReadsBack a) (h' : ReadsBack a')
    (hw : String.ofList (encode a).write = String.ofList (encode a').write) : a = a' := by
  have hread := parse?_write h
  rw [hw, parse?_write h'] at hread
  exact (Option.some.inj hread).symm

theorem readsBack_string (s : String) : ReadsBack s :=
  ⟨rfl, List.forall_mem_singleton.2 trivial⟩

theorem readsBack_bool (b : Bool) : ReadsBack b :=
  ⟨rfl, List.forall_mem_singleton.2 trivial⟩

theorem readsBack_int64 (n : Int64) : ReadsBack n := by
  refine ⟨?_, List.forall_mem_singleton.2 trivial⟩
  have hlo : -0x8000000000000000 ≤ n.toInt := n.le_toInt
  have hhi : n.toInt ≤ 0x7fffffffffffffff := n.toInt_le
  change (intWithin? _ _ (.int n.toInt)).map Int64.ofInt = some n
  rw [intWithin?, if_pos ⟨hlo, hhi⟩, Option.map_some, Int64.ofInt_toInt]

theorem readsBack_nat {n : Nat} (h : n < UInt64.size) : ReadsBack n := by
  refine ⟨?_, List.forall_mem_singleton.2 trivial⟩
  have hhi : (n : Int) ≤ 0xffffffffffffffff := Int.lt_add_one_iff.1 (Int.ofNat_lt.2 h)
  change (intWithin? _ _ (.int n)).map Int.toNat = some n
  rw [intWithin?, if_pos ⟨Int.natCast_nonneg n, hhi⟩, Option.map_some, Int.toNat_natCast]

theorem readsBack_pair {a : α} {b : β} (ha : ReadsBack a) (hb : ReadsBack b) : ReadsBack (a, b) := by
  refine ⟨?_, isPlain_arr ?_⟩
  · change (do return (← decode? (encode a), ← decode? (encode b))) = some (a, b)
    rw [ha.decode_encode, hb.decode_encode]
    rfl
  · rw [List.forall_mem_cons, List.forall_mem_singleton]
    exact ⟨ha.isPlain, hb.isPlain⟩

theorem readsBack_list {l : List α} (h : ∀ a ∈ l, ReadsBack a) : ReadsBack l := by
  refine ⟨?_, isPlain_arr ?_⟩
  · have hdecode : l.mapM (decode? ∘ encode) = some (l.map id) :=
      mapM_eq_some_map fun a ha => (h a ha).decode_encode
    change (l.map encode).mapM decode? = some l
    rw [List.mapM_map, hdecode, List.map_id]
  · rw [List.forall_mem_map]
    exact fun a ha => (h a ha).isPlain

end

end Transducer.Json

namespace Transducer

open Json (Codec ReadsBack encode decode?)

variable {σ : Type} [Codec σ]

/-! ## Transitions and histories -/

theorem decode?_transition {j a b c : Json} {t : Transition σ}
    (hf : Json.fields? ["from", "to", "position"] j = some [a, b, c])
    (ha : decode? a = some t.source) (hb : decode? b = some t.target)
    (hc : decode? c = some t.position) : decode? j = some t := by
  simp only [decode?] at hc ⊢
  simp only [hf, ha, hb, hc]
  rfl

theorem decode?_history {j a : Json} {h : History σ}
    (hf : Json.fields? ["transitions"] j = some [a]) (ha : decode? a = some h.transitions) :
    decode? j = some h := by
  simp only [decode?] at ha ⊢
  simp only [hf, ha]
  rfl

/-- A transition whose states read back reads back, if its place fits a word of sixty-four bits. -/
theorem readsBack_transition {t : Transition σ} (hs : ReadsBack t.source) (ht : ReadsBack t.target)
    (hp : t.position < UInt64.size) : ReadsBack t := by
  have hposition := Json.readsBack_nat hp
  let members : List (String × Json) :=
    [("from", encode t.source), ("to", encode t.target), ("position", encode t.position)]
  have hn : (members.map (·.1)).Nodup := (by decide : ["from", "to", "position"].Nodup)
  refine ⟨?_, Json.isPlain_ofMembers ?_⟩
  · exact decode?_transition (Json.fields?_of_records hn (Json.records_ofMembers _)) hs.decode_encode ht.decode_encode
      hposition.decode_encode
  · rw [List.forall_mem_cons, List.forall_mem_cons, List.forall_mem_singleton]
    exact ⟨hs.isPlain, ht.isPlain, hposition.isPlain⟩

theorem readsBack_history {h : History σ} (ht : ∀ t ∈ h.transitions, ReadsBack t) : ReadsBack h := by
  have htransitions := Json.readsBack_list ht
  let members : List (String × Json) := [("transitions", encode h.transitions)]
  have hn : (members.map (·.1)).Nodup := (by decide : ["transitions"].Nodup)
  refine ⟨?_, Json.isPlain_ofMembers ?_⟩
  · exact decode?_history (Json.fields?_of_records hn (Json.records_ofMembers _)) htransitions.decode_encode
  · rw [List.forall_mem_singleton]
    exact htransitions.isPlain

/-- All places of the history fit words of sixty-four bits. -/
def History.Fits (h : History σ) : Prop := ∀ t ∈ h.transitions, t.position < UInt64.size

/-- A history that fits reads back, if the states do. -/
theorem History.Fits.readsBack {h : History σ} (hf : h.Fits) (hs : ∀ s : σ, ReadsBack s) :
    ReadsBack h :=
  readsBack_history fun t ht => readsBack_transition (hs t.source) (hs t.target) (hf t ht)

/-- What is written of transitions and histories over the states is read back, and no two are written
alike. -/
structure History.Restores (σ : Type) [Codec σ] : Prop where
  transition : ∀ t : Transition σ, t.position < UInt64.size →
    Json.parse? (String.ofList (encode t).write) = some t
  history : ∀ h : History σ, h.Fits → Json.parse? h.toJson = some h
  transition_inj : ∀ t t' : Transition σ, t.position < UInt64.size → t'.position < UInt64.size →
    String.ofList (encode t).write = String.ofList (encode t').write → t = t'
  history_inj : ∀ h h' : History σ, h.Fits → h'.Fits → h.toJson = h'.toJson → h = h'

theorem History.restores_of_readsBack (hs : ∀ s : σ, ReadsBack s) : Restores σ := by
  have htransition : ∀ t : Transition σ, t.position < UInt64.size → ReadsBack t :=
    fun t => readsBack_transition (hs t.source) (hs t.target)
  have hhistory : ∀ h : History σ, h.Fits → ReadsBack h := fun h hf => hf.readsBack hs
  exact {
    transition := fun t ht => Json.parse?_write (htransition t ht)
    history := fun h hf => Json.parse?_write (hhistory h hf)
    transition_inj := fun t t' ht ht' => Json.eq_of_write_eq (htransition t ht) (htransition t' ht')
    history_inj := fun h h' hf hf' => Json.eq_of_write_eq (hhistory h hf) (hhistory h' hf') }

/-- **Histories are read back from their JSON text**, whatever their length, their states and their
places, and two that differ are never written alike; the same holds of single transitions. It is so
over texts of any characters, over the integers of sixty-four bits, over truth values, and over pairs
of a text and an integer. -/
theorem History.restores :
    Restores String ∧ Restores Int64 ∧ Restores Bool ∧ Restores (String × Int64) := by
  refine ⟨?_, ?_, ?_, ?_⟩
  · exact restores_of_readsBack Json.readsBack_string
  · exact restores_of_readsBack Json.readsBack_int64
  · exact restores_of_readsBack Json.readsBack_bool
  · exact restores_of_readsBack fun s =>
      Json.readsBack_pair (Json.readsBack_string s.1) (Json.readsBack_int64 s.2)

example : (⟨[⟨"\"\\\x01", "λ😀", 7⟩]⟩ : History String).toJson =
    "\x7b\"transitions\":[\x7b\"from\":\"\\\"\\\\\\u0001\",\"to\":\"λ😀\",\"position\":7\x7d]\x7d" := by
  decide

end Transducer
