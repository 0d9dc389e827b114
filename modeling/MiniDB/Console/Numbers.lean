import MiniDB.Model.Printing

/-!
# Printed numbers

* `printNat_injective`, `printInt64_injective`: **a number can be read off its digits**.
* `digit_of_mem_printNat`, `digit_of_mem_printInt64`: no other bytes stand there.
-/

namespace MiniDB

variable {b : UInt8} {m n : ℕ}

theorem ascii_eq_map (s : String) : ascii s = s.toList.map fun c => UInt8.ofNat c.toNat := rfl

theorem printNat_eq (n : ℕ) :
    printNat n = (Nat.toDigits 10 n).map fun c => UInt8.ofNat c.toNat := by
  rw [printNat, ascii_eq_map, Nat.toString_eq_repr, Nat.toList_repr]

/-- The code of a digit. -/
theorem toNat_digit {c : Char} (hc : c.isDigit = true) :
    (UInt8.ofNat c.toNat).toNat = c.toNat ∧ 48 ≤ c.toNat ∧ c.toNat ≤ 57 := by
  have hrange : 48 ≤ c.toNat ∧ c.toNat ≤ 57 := by
    simpa [Char.isDigit, UInt32.le_iff_toNat_le] using hc
  refine ⟨?_, hrange⟩
  rw [UInt8.toNat_ofNat']
  exact Nat.mod_eq_of_lt (by omega)

/-- A number is printed in digits. -/
theorem digit_of_mem_printNat (hb : b ∈ printNat n) : 48 ≤ b ∧ b ≤ 57 := by
  rw [printNat_eq] at hb
  obtain ⟨c, hc, rfl⟩ := List.mem_map.mp hb
  obtain ⟨heq, hrange⟩ := toNat_digit (Nat.isDigit_of_mem_toDigits (by decide) (by decide) hc)
  rw [UInt8.le_iff_toNat_le, UInt8.le_iff_toNat_le, heq]
  exact hrange

/-- The digits are found again. -/
theorem toDigits_eq (n : ℕ) : Nat.toDigits 10 n = (printNat n).map fun b => Char.ofNat b.toNat := by
  rw [printNat_eq, List.map_map]
  refine ((List.map_congr_left fun c hc => ?_).trans (List.map_id _)).symm
  have hdigit := toNat_digit (Nat.isDigit_of_mem_toDigits (by decide) (by decide) hc)
  rw [Function.comp_apply, hdigit.1, Char.ofNat_toNat, id]

/-- **A natural number can be read off its digits.** -/
theorem printNat_injective (h : printNat m = printNat n) : m = n := by
  calc m = Nat.ofDigitChars 10 (Nat.toDigits 10 m) 0 := Nat.ofDigitChars_ten_toDigits.symm
    _ = Nat.ofDigitChars 10 (Nat.toDigits 10 n) 0 := by rw [toDigits_eq, h, ← toDigits_eq]
    _ = n := Nat.ofDigitChars_ten_toDigits

/-- The number behind a minus sign, or the number alone. -/
theorem printInt64_eq (n : Int64) : printInt64 n =
    if 0 ≤ n.toInt then printNat n.toInt.toNat else 45 :: printNat (-n.toInt).toNat := by
  rw [printInt64]
  generalize n.toInt = z
  cases z with
  | ofNat m =>
    have hpos : 0 ≤ Int.ofNat m := Int.natCast_nonneg m
    rw [if_pos hpos]
    rfl
  | negSucc m =>
    have hminus : toString (Int.negSucc m) = "-" ++ toString (m + 1) := rfl
    rw [if_neg (by omega), hminus, ascii_eq_map, String.toList_append, List.map_append]
    rfl

/-- **A number can be read off its digits and its sign.** -/
theorem printInt64_injective {m n : Int64} (h : printInt64 m = printInt64 n) : m = n := by
  have hhead : ∀ k rest, printNat k ≠ 45 :: rest := fun k rest heq =>
    absurd (digit_of_mem_printNat (heq ▸ List.mem_cons_self)).1 (by decide)
  rw [printInt64_eq, printInt64_eq] at h
  rw [← Int64.toInt_inj]
  split at h <;> split at h
  · have hnat := printNat_injective h
    omega
  · exact absurd h (hhead _ _)
  · exact absurd h.symm (hhead _ _)
  · have hnat := printNat_injective (List.cons.inj h).2
    omega

/-- An integer is printed in digits, and with a minus sign. -/
theorem digit_of_mem_printInt64 {n : Int64} (hb : b ∈ printInt64 n) :
    b = 45 ∨ 48 ≤ b ∧ b ≤ 57 := by
  rw [printInt64_eq] at hb
  split at hb
  · exact Or.inr (digit_of_mem_printNat hb)
  · exact (List.mem_cons.mp hb).imp_right digit_of_mem_printNat

/-- No line ends inside a number. -/
theorem noBreak_printNat (n : ℕ) : 10 ∉ printNat n := fun hmem =>
  absurd (digit_of_mem_printNat hmem).1 (by decide)

theorem noBreak_printInt64 (n : Int64) : 10 ∉ printInt64 n := fun hmem =>
  absurd (digit_of_mem_printInt64 hmem) (by decide)

end MiniDB
