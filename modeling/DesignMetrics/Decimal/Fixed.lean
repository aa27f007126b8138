import DesignMetrics.Decimal.Binary

/-!
Fractions printed with a fixed number of places. The last place is rounded to nearest, and a half
goes to the even neighbour.
-/

namespace DesignMetrics.Decimal

def roundDiv (num den : Nat) : Nat :=
  let below := num / den
  let rest := 2 * (num % den)
  if rest < den ∨ (rest = den ∧ below % 2 = 0) then below else below + 1

/-- The nearest whole number, and the even one of two that are equally near. -/
theorem roundDiv_eq_iff {num den n : Nat} (pos : 0 < den)
    : roundDiv num den = n
      ↔ 2 * (n * den) ≤ 2 * num + den ∧ 2 * num ≤ 2 * (n * den) + den
        ∧ (2 * (n * den) = 2 * num + den ∨ 2 * num = 2 * (n * den) + den → n % 2 = 0) := by
  have parts := Nat.div_add_mod' num den
  have rest := Nat.mod_lt num pos
  have above : (num / den + 1) * den = num / den * den + den := Nat.succ_mul ..
  constructor
  · rintro rfl
    unfold roundDiv
    dsimp only
    split <;> omega
  · rintro ⟨low, high, even⟩
    have notBelow : num / den < n + 1 := by
      apply Nat.lt_of_mul_lt_mul_right (a := den)
      rw [Nat.succ_mul]
      omega
    have notAbove : n < num / den + 2 := by
      apply Nat.lt_of_mul_lt_mul_right (a := den)
      rw [Nat.add_mul]
      omega
    obtain rfl | rfl : n = num / den ∨ n = num / den + 1 := by omega
    · rw [roundDiv, if_pos (by omega)]
    · rw [roundDiv, if_neg (by omega)]

/-- Rounding is about the quotient alone. -/
theorem roundDiv_mul {num den k : Nat} (pos : 0 < k)
    : roundDiv (num * k) (den * k) = roundDiv num den := by
  have rest : 2 * (num % den * k) = 2 * (num % den) * k := (Nat.mul_assoc ..).symm
  simp only [roundDiv, Nat.mul_div_mul_right _ _ pos, Nat.mul_mod_mul_right, rest,
    Nat.mul_lt_mul_right pos, Nat.mul_left_inj (Nat.ne_of_gt pos)]

def fixed (places num den : Nat) : List Char :=
  let one := Nat.pow 10 places
  let units := roundDiv (num * one) den
  let fraction := Nat.toDigits 10 (units % one)
  Nat.toDigits 10 (units / one) ++ '.' ::
    (List.replicate (places - fraction.length) '0' ++ fraction)

end DesignMetrics.Decimal
