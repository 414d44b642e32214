import Mathlib.Data.List.Count
import Mathlib.Data.List.Perm.Basic
import Transducer.Json.Codec

/-!
# Records in values

The values in which a record with given fields is written, and those that are no record of the names.

* `Records`: an object with the fields in any order, among members of other names, or the array of
  the fields' values.
* `Misfits`: an object in which a field is missing or repeated, or an array of another length.
* `fields?_of_records`: **the fields of a record are read from each of its values.**
* `fields?_of_misfits`: **nothing is read from a value that misfits.**
-/

namespace Transducer.Json

/-- The value is a record of the fields: an object that has them in any order, among any members of
other names, or the array of their values. -/
inductive Records (fields : List (String × Json)) : Json → Prop
  | members {members : List (String × Json)} :
      (members.filter fun m => decide (m.1 ∈ fields.map (·.1))).Perm fields →
      Records fields (.ofMembers members)
  | items : Records fields (.arr (fields.map (·.2)))

/-- The value is no record of the names: an object that lacks a member of one of them or has two, or
an array with fewer or more items than there are names. -/
inductive Misfits (names : List String) : Json → Prop
  | missing {members : List (Option String × Json)} {name : String} : name ∈ names →
      some name ∉ members.map (·.1) → Misfits names (.obj members)
  | repeated {members : List (Option String × Json)} {name : String} : name ∈ names →
      1 < (members.map (·.1)).count (some name) → Misfits names (.obj members)
  | length {items : List Json} : items.length ≠ names.length → Misfits names (.arr items)

/-! ## Lists of optional values -/

section

variable {α β : Type} {f : α → Option β} {l : List α}

theorem mapM_eq_some_map {k : α → β} (h : ∀ a ∈ l, f a = some (k a)) : l.mapM f = some (l.map k) := by
  induction l with
  | nil => rfl
  | cons a rest ih =>
    rw [List.forall_mem_cons] at h
    rw [List.mapM_cons, h.1, ih h.2]
    rfl

theorem mapM_eq_none {a : α} (ha : a ∈ l) (h : f a = none) : l.mapM f = none := by
  induction l with
  | nil => cases ha
  | cons b rest ih =>
    rw [List.mapM_cons]
    obtain rfl | ha := List.mem_cons.1 ha
    · rw [h]
      rfl
    · rw [ih ha]
      cases f b <;> rfl

end

/-! ## One field -/

theorem theField?_of_filter {members : List (String × Json)} {m : String × Json}
    (h : (members.filter fun x => x.1 == m.1) = [m]) :
    theField? (members.map fun x => (some x.1, x.2)) m.1 = some m.2 := by
  have hfilter : ((members.map fun x => (some x.1, x.2)).filter fun x => x.1 == some m.1) =
      [(some m.1, m.2)] := by
    rw [List.filter_map]
    change (members.filter fun x => some x.1 == some m.1).map _ = _
    simp only [Option.some_beq_some, h]
    rfl
  rw [theField?, hfilter]

theorem theField?_eq_none {members : List (Option String × Json)} {name : String}
    (h : (members.map (·.1)).count (some name) ≠ 1) : theField? members name = none := by
  have hlength : (members.filter fun m => m.1 == some name).length ≠ 1 := by
    rw [List.count, List.countP_map] at h
    rwa [← List.countP_eq_length_filter]
  rw [theField?]
  split
  next m heq => exact absurd (congrArg List.length heq) hlength
  next => rfl

/-! ## All fields -/

theorem filter_eq_singleton {fields : List (String × Json)} (hn : (fields.map (·.1)).Nodup)
    {m : String × Json} (hm : m ∈ fields) : (fields.filter fun x => x.1 == m.1) = [m] := by
  induction fields with
  | nil => cases hm
  | cons x rest ih =>
    rw [List.map_cons, List.nodup_cons] at hn
    obtain rfl | hm := List.mem_cons.1 hm
    · have hrest : (rest.filter fun x => x.1 == m.1) = [] := by
        rw [List.filter_eq_nil_iff]
        intro y hy he
        exact hn.1 (eq_of_beq he ▸ List.mem_map_of_mem hy)
      rw [List.filter_cons_of_pos (by simp), hrest]
    · have hx : x.1 ≠ m.1 := fun he => hn.1 (he ▸ List.mem_map_of_mem hm)
      rw [List.filter_cons_of_neg (by simpa using hx)]
      exact ih hn.2 hm

/-- **The fields of a record are read from each of its values**, if no two have the same name. -/
theorem fields?_of_records {fields : List (String × Json)} (hn : (fields.map (·.1)).Nodup) {j : Json}
    (h : Records fields j) : fields? (fields.map (·.1)) j = some (fields.map (·.2)) := by
  cases h with
  | items =>
    rw [fields?, if_pos]
    rw [List.length_map, List.length_map]
  | @members members hperm =>
    have hall : (members.map fun m => (some m.1, m.2)).all (fun m => m.1.isSome) = true := by simp
    rw [ofMembers, fields?, if_pos hall, List.mapM_map]
    refine mapM_eq_some_map fun m hm => theField?_of_filter ?_
    -- a member of the name is among those that the filter keeps
    have hnames : ∀ x : String × Json,
        (x.1 == m.1 && decide (x.1 ∈ fields.map (·.1))) = (x.1 == m.1) := by
      intro x
      rw [Bool.and_eq_left_iff_imp, decide_eq_true_eq]
      intro he
      exact eq_of_beq he ▸ List.mem_map_of_mem hm
    have hone := hperm.filter fun x => x.1 == m.1
    rw [List.filter_filter, filter_eq_singleton hn hm] at hone
    simp only [hnames] at hone
    exact List.perm_singleton.1 hone

theorem records_ofMembers (fields : List (String × Json)) : Records fields (ofMembers fields) := by
  refine .members ?_
  rw [List.filter_eq_self.2 fun m hm => decide_eq_true (List.mem_map_of_mem hm)]

/-- **Nothing is read from a value that misfits the names.** -/
theorem fields?_of_misfits {names : List String} {j : Json} (h : Misfits names j) :
    fields? names j = none := by
  have hcount : ∀ {members : List (Option String × Json)} {name : String}, name ∈ names →
      (members.map (·.1)).count (some name) ≠ 1 → fields? names (.obj members) = none := by
    intro members name hname hne
    rw [fields?, mapM_eq_none hname (theField?_eq_none hne), ite_self]
  cases h with
  | missing hname hmem =>
    refine hcount hname ?_
    rw [List.count_eq_zero_of_not_mem hmem]
    exact Nat.zero_ne_one
  | repeated hname hmany => exact hcount hname (Nat.ne_of_gt hmany)
  | length hne => rw [fields?, if_neg hne]

end Transducer.Json
