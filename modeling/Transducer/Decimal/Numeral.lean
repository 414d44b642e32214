/-!
# Decimal numerals

Natural numbers and integers written in base ten.

* `ofDigits`: the value of a run of digits.
* `natural`, `integer`: the numerals of a number, without leading zeros.
* `ofDigits_natural`: **a numeral reads back as its number.**
-/

namespace Transducer.Decimal

/-- An ASCII decimal digit. -/
def isDigit (c : Char) : Bool := decide ('0'.toNat ≤ c.toNat) && decide (c.toNat ≤ '9'.toNat)

/-- The value of a run of digits, the most significant first; the empty run has value zero. -/
def ofDigits (ds : List Char) : Nat := ds.foldl (fun n d => 10 * n + (d.toNat - '0'.toNat)) 0

/-- The digits of a number, without leading zeros. -/
def natural (n : Nat) : List Char := Nat.toDigits 10 n

/-- The digits of an integer, behind a minus sign if it is negative. -/
def integer : Int → List Char
  | .ofNat n => natural n
  | .negSucc n => '-' :: natural (n + 1)

theorem ofDigits_concat (ds : List Char) (d : Char) :
    ofDigits (ds ++ [d]) = 10 * ofDigits ds + (d.toNat - '0'.toNat) := by
  simp [ofDigits]

theorem digitChar_toNat {d : Nat} (h : d < 10) : (Nat.digitChar d).toNat - '0'.toNat = d := by
  have : ∀ d < 10, (Nat.digitChar d).toNat - '0'.toNat = d := by decide
  exact this d h

theorem natural_of_lt {n : Nat} (h : n < 10) : natural n = [Nat.digitChar n] :=
  Nat.toDigits_of_lt_base h

theorem natural_of_le {n : Nat} (h : 10 ≤ n) :
    natural n = natural (n / 10) ++ [Nat.digitChar (n % 10)] := by
  have hd := Nat.toDigits_append_toDigits (b := 10) (n := n / 10) (d := n % 10) (by decide)
    (by omega) (Nat.mod_lt _ (by decide))
  rw [Nat.toDigits_of_lt_base (Nat.mod_lt _ (by decide)), Nat.div_add_mod] at hd
  exact hd.symm

/-- **A numeral reads back as its number.** -/
theorem ofDigits_natural (n : Nat) : ofDigits (natural n) = n := by
  induction n using Nat.strongRecOn with
  | _ n ih =>
    by_cases h : n < 10
    · simpa [natural_of_lt h, ofDigits] using digitChar_toNat h
    · rw [natural_of_le (by omega), ofDigits_concat, ih (n / 10) (by omega),
        digitChar_toNat (Nat.mod_lt _ (by decide))]
      omega

end Transducer.Decimal
