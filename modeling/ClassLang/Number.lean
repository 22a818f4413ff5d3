/-!
Numbers of the language: whole numbers of 64 bits. Every operation either gives the exact result
or none at all.
-/

namespace ClassLang.Number

/-- The number with a given value, if 64 bits hold it. -/
def ofInt? (n : Int) : Option Int64 :=
  if Int64.minValue.toInt ≤ n ∧ n ≤ Int64.maxValue.toInt then some (Int64.ofInt n) else none

/-- The value of a digit. -/
def digitValue (c : Char) : Nat := c.toNat - '0'.toNat

/-- The value of a row of decimal digits. -/
def ofDigits (cs : List Char) : Nat := cs.foldl (fun n c => 10 * n + digitValue c) 0

theorem toInt_of_ofInt? {n : Int} {a : Int64} (h : ofInt? n = some a) : a.toInt = n := by
  unfold ofInt? at h
  split at h
  · rename_i hn
    obtain rfl := Option.some.inj h
    have h₁ : -2 ^ 63 ≤ n := hn.1
    have h₂ : n ≤ 2 ^ 63 - 1 := hn.2
    exact Int64.toInt_ofInt_of_le h₁ (by omega)
  · simp at h

theorem ofInt?_toInt (a : Int64) : ofInt? a.toInt = some a := by
  rw [ofInt?, if_pos ⟨Int64.minValue_le_toInt a, Int64.toInt_le a⟩, Int64.ofInt_toInt]

end ClassLang.Number
