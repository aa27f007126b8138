import Mathlib.Algebra.Order.Field.Rat
import Mathlib.Data.List.DropRight
import Mathlib.Data.Nat.Cast.Field
import Mathlib.Tactic.FieldSimp
import Mathlib.Tactic.Linarith
import Mathlib.Tactic.Positivity
import DesignMetrics.Metric.Dependency
import DesignMetrics.Report.Value

/-! Ratios as they stand in a report for people.
A text of digits with a point can be taken apart in one way only, so it has one value, and this is no
further from the ratio than half a unit of the last place. Zeros are cut off at the end but the point is
not: a ratio that is rounded to a whole number without being one ends with a bare point.
-/

namespace DesignMetrics.Decimal

/-- A decimal as it is written: digits, and perhaps a point and the digits of a fraction. -/
@[ext] structure Written where
  whole : List Char
  point : Bool
  fraction : List Char
  whole_ne_nil : whole ≠ []
  whole_isDigit : ∀ c ∈ whole, c.isDigit
  fraction_isDigit : ∀ c ∈ fraction, c.isDigit
  fraction_eq_nil : point = false → fraction = []

theorem rdropWhile_append_cons {α : Type} {p : α → Bool} {stop : α} (h : p stop = false)
    (front rest : List α)
    : (front ++ stop :: rest).rdropWhile p = front ++ stop :: rest.rdropWhile p := by
  induction rest using List.reverseRecOn with
  | nil => rw [List.rdropWhile_concat_neg _ _ _ (by simp [h]), List.rdropWhile_nil]
  | append_singleton rest x ih =>
    rw [← List.cons_append, ← List.append_assoc, List.rdropWhile_concat, List.rdropWhile_concat, ih]
    split <;> simp

namespace Written

def tail (w : Written) : List Char := if w.point then '.' :: w.fraction else []

def text (w : Written) : List Char := w.whole ++ w.tail

def amount (w : Written) : ℚ :=
  Nat.ofDigitChars 10 (w.whole ++ w.fraction) 0 / 10 ^ w.fraction.length

/-- There are digits after the point if there is a point. -/
def IsNumeral (w : Written) : Prop := w.point = true → w.fraction ≠ []

theorem span_text (w : Written) : w.text.span Char.isDigit = (w.whole, w.tail) := by
  have stop : '.'.isDigit = false := rfl
  rw [text, List.span_eq_takeWhile_dropWhile, List.takeWhile_append_of_pos w.whole_isDigit,
    List.dropWhile_append_of_pos w.whole_isDigit, tail]
  split <;> simp [stop]

/-- A text can be taken apart in one way only. -/
theorem text_injective : Function.Injective text := by
  intro v w same
  have parts : (v.whole, v.tail) = (w.whole, w.tail) := by
    rw [← v.span_text, ← w.span_text, same]
  obtain ⟨whole, ends⟩ := Prod.mk.inj parts
  have point : v.point = w.point := by
    unfold tail at ends
    split at ends <;> split at ends <;> simp_all
  refine Written.ext whole point ?_
  cases pointed : w.point with
  | false => rw [v.fraction_eq_nil (point.trans pointed), w.fraction_eq_nil pointed]
  | true => simpa [tail, point, pointed] using ends

/-- Digits without a point. -/
def ofNat (n : ℕ) : Written where
  whole := Nat.toDigits 10 n
  point := false
  fraction := []
  whole_ne_nil := Nat.toDigits_ne_nil
  whole_isDigit _ := Nat.isDigit_of_mem_toDigits (by decide) (by decide)
  fraction_isDigit := by simp
  fraction_eq_nil _ := rfl

theorem text_ofNat (n : ℕ) : (ofNat n).text = Nat.toDigits 10 n := List.append_nil _

theorem amount_ofNat (n : ℕ) : (ofNat n).amount = n := by
  simp [amount, ofNat, Nat.ofDigitChars_ten_toDigits]

/-- The last places of a number of units, filled up with zeros. -/
def lastPlaces (places units : ℕ) : List Char :=
  let digits := Nat.toDigits 10 (units % 10 ^ places)
  List.replicate (places - digits.length) '0' ++ digits

theorem ofDigitChars_lastPlaces (places units : ℕ)
    : Nat.ofDigitChars 10 (lastPlaces places units) 0 = units % 10 ^ places := by
  rw [lastPlaces, Nat.ofDigitChars_append, Nat.ofDigitChars_replicate_zero, Nat.mul_zero,
    Nat.ofDigitChars_ten_toDigits]

theorem length_lastPlaces {places : ℕ} (pos : 0 < places) (units : ℕ)
    : (lastPlaces places units).length = places := by
  have fits : (Nat.toDigits 10 (units % 10 ^ places)).length ≤ places :=
    (Nat.length_toDigits_le_iff (by decide) pos).mpr (Nat.mod_lt _ (by positivity))
  simp [lastPlaces, fits]

/-- The places are all zero if there is nothing in them. -/
theorem lastPlaces_zero_iff (places units : ℕ)
    : (∀ c ∈ lastPlaces places units, c = '0') ↔ units % 10 ^ places = 0 := by
  constructor
  · intro zeros
    rw [← ofDigitChars_lastPlaces, List.eq_replicate_of_mem zeros,
      Nat.ofDigitChars_replicate_zero, Nat.mul_zero]
  · intro nothing
    rw [lastPlaces, nothing, Nat.toDigits_zero]
    grind

/-- A number of units of the last place. -/
def ofUnits (places units : ℕ) : Written where
  whole := Nat.toDigits 10 (units / 10 ^ places)
  point := true
  fraction := lastPlaces places units
  whole_ne_nil := Nat.toDigits_ne_nil
  whole_isDigit _ := Nat.isDigit_of_mem_toDigits (by decide) (by decide)
  fraction_isDigit c member := by
    rcases List.mem_append.mp member with zero | digit
    · exact (List.mem_replicate.mp zero).2 ▸ rfl
    · exact Nat.isDigit_of_mem_toDigits (by decide) (by decide) digit
  fraction_eq_nil := by simp

theorem text_ofUnits (places num den : ℕ)
    : (ofUnits places (roundDiv (num * 10 ^ places) den)).text = fixed places num den := rfl

theorem amount_ofUnits {places : ℕ} (pos : 0 < places) (units : ℕ)
    : (ofUnits places units).amount = units / 10 ^ places := by
  have digits : Nat.ofDigitChars 10 ((ofUnits places units).whole ++ lastPlaces places units) 0
      = units := by
    rw [Nat.ofDigitChars_append, Nat.ofDigitChars_eq_ofDigitChars_zero, ofDigitChars_lastPlaces,
      length_lastPlaces pos, ofUnits, Nat.ofDigitChars_ten_toDigits, Nat.div_add_mod]
  rw [amount, show (ofUnits places units).fraction = lastPlaces places units from rfl, digits,
    length_lastPlaces pos]

/-- A decimal without the zeros at the end of its fraction. -/
def trimmed (w : Written) : Written :=
  { w with
    fraction := w.fraction.rdropWhile (· == '0')
    fraction_isDigit c member := w.fraction_isDigit c ((List.rdropWhile_prefix _ _).subset member)
    fraction_eq_nil unpointed := by rw [w.fraction_eq_nil unpointed, List.rdropWhile_nil] }

/-- No zero before the point is cut off. -/
theorem text_trimmed {w : Written} (pointed : w.point = true)
    : w.trimmed.text = w.text.rdropWhile (· == '0') := by
  have point : w.trimmed.point = true := pointed
  rw [text, text, tail, tail, if_pos point, if_pos pointed, rdropWhile_append_cons (by decide)]
  rfl

/-- Zeros at the end do not count. -/
theorem amount_trimmed (w : Written) : w.trimmed.amount = w.amount := by
  obtain ⟨zeros, cut⟩ : ∃ zeros, w.trimmed.fraction ++ List.replicate zeros '0' = w.fraction := by
    have zero : ∀ c ∈ w.fraction.rtakeWhile (· == '0'), c = '0' := fun c member => by
      simpa using List.mem_rtakeWhile_imp member
    refine ⟨(w.fraction.rtakeWhile (· == '0')).length, ?_⟩
    rw [← List.eq_replicate_of_mem zero]
    exact List.rdropWhile_append_rtakeWhile
  have digits : Nat.ofDigitChars 10 (w.whole ++ w.fraction) 0
      = 10 ^ zeros * Nat.ofDigitChars 10 (w.whole ++ w.trimmed.fraction) 0 := by
    rw [← cut, ← List.append_assoc, Nat.ofDigitChars_append, Nat.ofDigitChars_replicate_zero]
  have length : w.fraction.length = zeros + w.trimmed.fraction.length := by
    rw [← cut, List.length_append, List.length_replicate, Nat.add_comm]
  rw [amount, amount, digits, length, pow_add, Nat.cast_mul, Nat.cast_pow, Nat.cast_ofNat,
    mul_div_mul_left _ _ (by positivity), show w.trimmed.whole = w.whole from rfl]

end Written

/-- Rounding is off by half a unit at most. -/
theorem abs_roundDiv_sub_le (places num : ℕ) {den : ℕ} (pos : 0 < den)
    : |(roundDiv (num * 10 ^ places) den : ℚ) / 10 ^ places - num / den|
      ≤ 1 / (2 * 10 ^ places) := by
  obtain ⟨low, high, -⟩ := (roundDiv_eq_iff pos).mp (rfl : roundDiv (num * 10 ^ places) den = _)
  generalize roundDiv (num * 10 ^ places) den = units at low high
  have low : 2 * (units * den : ℚ) ≤ 2 * (num * 10 ^ places) + den := by exact_mod_cast low
  have high : 2 * (num * 10 ^ places : ℚ) ≤ 2 * (units * den) + den := by exact_mod_cast high
  rw [abs_sub_le_iff, sub_le_iff_le_add, sub_le_iff_le_add]
  constructor
  · field_simp
    linarith
  · field_simp
    linarith

/-- Ratios below one are rounded to a whole number near zero and near one. -/
theorem roundDiv_thousandths {p q : ℕ} (lt : p < q)
    : roundDiv (p * 1000) q % 1000 = 0 ↔ 2000 * p ≤ q ∨ 2000 * (q - p) ≤ q := by
  have pos : 0 < q := Nat.zero_lt_of_lt lt
  have bound : roundDiv (p * 1000) q < 1001 := by
    obtain ⟨low, -, -⟩ := (roundDiv_eq_iff pos).mp (rfl : roundDiv (p * 1000) q = _)
    apply Nat.lt_of_mul_lt_mul_right (a := q)
    omega
  have zero : roundDiv (p * 1000) q = 0 ↔ _ := roundDiv_eq_iff pos
  have one : roundDiv (p * 1000) q = 1000 ↔ _ := roundDiv_eq_iff pos
  omega

/-- If the value is one, it is found with the first digit. -/
theorem Interval.nearest?_one {i : Interval} (one : i.value = i.den) (low : i.low < i.den)
    (high : i.den < i.high) (next : i.high < 2 * i.den) : i.nearest? 0 = some 1 := by
  have here : i.contains i.den = true := by
    simp [contains, low, high, low.le, high.le]
  have above : i.contains (2 * i.den) = false := by
    simp [contains, next, next.le]
  have same : i.rescale 0 = i := by simp [rescale]
  have quotient : i.value / i.den = 1 := by rw [one, Nat.div_self (Nat.zero_lt_of_lt low)]
  simp only [nearest?, same, quotient, Nat.one_mul, here, above]
  rfl

namespace Binary

/-- A number is equal to a fraction. -/
def IsRatio (b : Binary) (p q : ℕ) : Prop := b.negative = false ∧ b.ratio.1 * q = p * b.ratio.2

variable {b : Binary}

theorem ratio_pos : 0 < b.ratio.2 := Nat.two_pow_pos _

theorem exists_of_one (one : b.ratio.1 = b.ratio.2)
    : ∃ k : ℕ, b.mantissa = 2 ^ k ∧ b.exponent = -k := by
  simp only [ratio, Nat.pow_eq] at one
  obtain ⟨k, same | same⟩ := Int.eq_nat_or_neg b.exponent <;> rw [same] at one ⊢
  · have unit : b.mantissa = 1 ∧ 2 ^ k = 1 := by simpa using one
    have zero : k = 0 := by simpa using unit.2
    exact ⟨0, by simp [unit.1], by simp [zero]⟩
  · exact ⟨k, by simpa using one, rfl⟩

/-- The neighbours of one are nearer to it than any other whole number. -/
theorem shortest_of_one (one : b.ratio.1 = b.ratio.2) : shortest b = ⟨['1'], 0⟩ := by
  obtain ⟨k, mantissa, exponent⟩ := exists_of_one one
  have large : 0 < 2 ^ k := by positivity
  have scale : (b.exponent - 2).toNat = 0 := by omega
  have den : (Interval.around b).den = 4 * 2 ^ k := by
    have scale : (2 - b.exponent).toNat = k + 2 := by omega
    simp [Interval.around, scale, pow_add, mul_comm]
  have value : (Interval.around b).value = 4 * 2 ^ k := by
    simp [Interval.around, scale, mantissa]
  have high : (Interval.around b).high = 4 * 2 ^ k + 2 := by
    simp [Interval.around, scale, mantissa]
  have low : (Interval.around b).low < 4 * 2 ^ k := by
    simp only [Interval.around, scale, mantissa, Nat.pow_eq, pow_zero, mul_one]
    split <;> omega
  have found : (Interval.around b).nearest? 0 = some 1 :=
    Interval.nearest?_one (value.trans den.symm) (by omega) (by omega) (by omega)
  have top : magnitude (Interval.around b).value (Interval.around b).den = 0 := by
    rw [value, den, magnitude, if_pos le_rfl, Nat.div_self (by omega)]
    rfl
  rw [shortest]
  simp only [top, List.range_succ_eq_map, List.map_cons, Nat.cast_zero, sub_zero,
    List.findSome?_cons, found]
  rfl

end Binary

end DesignMetrics.Decimal

namespace DesignMetrics.Report

open Decimal

/-- What is printed of a fraction: a whole number without places, any other with up to three. -/
def ratioDigits (num den : ℕ) : List Char :=
  if num % den = 0 then Nat.toDigits 10 (num / den) else fractionDigits num den

theorem ratioDigits_mul {num den k : ℕ} (pos : 0 < k)
    : ratioDigits (num * k) (den * k) = ratioDigits num den := by
  have whole : num * k % (den * k) = 0 ↔ num % den = 0 := by
    rw [Nat.mul_mod_mul_right, Nat.mul_eq_zero]
    omega
  have scaled (one : ℕ) : num * k * one = num * one * k := Nat.mul_right_comm ..
  simp only [ratioDigits, whole, Nat.mul_div_mul_right _ _ pos, fractionDigits, fixed, scaled,
    roundDiv_mul pos]

/-- Equal fractions are printed alike. -/
theorem ratioDigits_congr {num den p q : ℕ} (posDen : 0 < den) (posQ : 0 < q)
    (same : num * q = p * den) : ratioDigits num den = ratioDigits p q := by
  rw [← ratioDigits_mul posQ, same, Nat.mul_comm den, ratioDigits_mul posDen]

theorem digits_eq_ratioDigits {b : Binary} (le : b.ratio.1 ≤ b.ratio.2)
    : (if b.isWhole then wholeDigits b else fractionDigits b.ratio.1 b.ratio.2)
      = ratioDigits b.ratio.1 b.ratio.2 := by
  rw [Binary.isWhole, ratioDigits]
  simp only [beq_iff_eq]
  split
  · rename_i whole
    -- of the whole numbers only zero and one are left
    rcases Nat.eq_or_lt_of_le le with one | less
    · have size : b.mantissa ≠ 0 := by
        obtain ⟨k, mantissa, -⟩ := Binary.exists_of_one one
        simp [mantissa]
      rw [wholeDigits, if_neg size, Binary.shortest_of_one one, one,
        Nat.div_self Binary.ratio_pos]
      rfl
    · have zero : b.ratio.1 = 0 := by rwa [Nat.mod_eq_of_lt less] at whole
      have size : b.mantissa = 0 := by simpa [Binary.ratio] using zero
      rw [wholeDigits, if_pos size, zero, Nat.zero_div, Nat.toDigits_zero]
  · rfl

/-- A double between zero and one is printed as the fraction that it is. -/
theorem value_eq_ratioDigits {p q : ℕ} (le : p ≤ q) (pos : 0 < q) {x : Float}
    (h : (Binary.ofBits x.toBits).IsRatio p q) : value x = String.ofList (ratioDigits p q) := by
  rw [value]
  generalize Binary.ofBits x.toBits = b at h ⊢
  obtain ⟨positive, same⟩ := h
  have small : b.ratio.1 ≤ b.ratio.2 := by
    apply Nat.le_of_mul_le_mul_right _ pos
    rw [same, Nat.mul_comm b.ratio.2]
    exact Nat.mul_le_mul_right _ le
  simp only [positive, digits_eq_ratioDigits small]
  rw [ratioDigits_congr Binary.ratio_pos pos same]
  rfl

/-- What is printed of a fraction, taken apart. -/
def ratioWritten (num den : ℕ) : Written :=
  if num % den = 0 then .ofNat (num / den)
  else (Written.ofUnits places (roundDiv (num * 10 ^ places) den)).trimmed

theorem text_ratioWritten (num den : ℕ) : (ratioWritten num den).text = ratioDigits num den := by
  unfold ratioWritten ratioDigits
  split
  · exact Written.text_ofNat _
  · rw [Written.text_trimmed rfl, Written.text_ofUnits]
    rfl

theorem abs_amount_ratioWritten_sub_le (num : ℕ) {den : ℕ} (pos : 0 < den)
    : |(ratioWritten num den).amount - num / den| ≤ 1 / 2000 := by
  unfold ratioWritten
  split
  · rename_i whole
    rw [Written.amount_ofNat, Nat.cast_div (Nat.dvd_of_mod_eq_zero whole)
      (by exact_mod_cast pos.ne'), sub_self, abs_zero]
    norm_num
  · rw [Written.amount_trimmed, Written.amount_ofUnits (by decide)]
    exact (abs_roundDiv_sub_le places num pos).trans (by norm_num [places])

/-- A ratio ends with a bare point if it is rounded to zero or one without being it. -/
theorem isNumeral_ratioWritten_iff {p q : ℕ} (le : p ≤ q)
    : (ratioWritten p q).IsNumeral
      ↔ ¬ (0 < p ∧ p < q ∧ (2000 * p ≤ q ∨ 2000 * (q - p) ≤ q)) := by
  unfold ratioWritten
  split
  · rename_i whole
    have ends : ¬ (0 < p ∧ p < q) := by
      rintro ⟨pos, less⟩
      rw [Nat.mod_eq_of_lt less] at whole
      omega
    simp only [Written.IsNumeral, Written.ofNat]
    tauto
  · rename_i broken
    have less : p < q := lt_of_le_of_ne le fun same => broken (same ▸ Nat.mod_self p)
    have pos : 0 < p := Nat.pos_of_ne_zero fun zero => broken (zero ▸ Nat.zero_mod q)
    have bare : (Written.ofUnits places (roundDiv (p * 10 ^ places) q)).trimmed.fraction = []
        ↔ 2000 * p ≤ q ∨ 2000 * (q - p) ≤ q := by
      rw [← roundDiv_thousandths less, Written.trimmed, List.rdropWhile_eq_nil_iff]
      simp only [beq_iff_eq]
      exact Written.lastPlaces_zero_iff places _
    simp only [Written.IsNumeral, ne_eq, bare, pos, less, true_and]
    exact ⟨fun h => h rfl, fun h _ => h⟩

/-- The text of a ratio, which can be taken apart in one way, is within half a thousandth of it. It is
a numeral unless the ratio is rounded to zero or one without being it. A double that is the ratio is
printed so. -/
theorem ratio_numeral_iff {p q : ℕ} (le : p ≤ q) (pos : 0 < q)
    : ∃ w : Written, w.text = ratioDigits p q ∧ (∀ v : Written, v.text = w.text → v = w)
      ∧ |w.amount - p / q| ≤ 1 / 2000
      ∧ (w.IsNumeral ↔ ¬ (0 < p ∧ p < q ∧ (2000 * p ≤ q ∨ 2000 * (q - p) ≤ q)))
      ∧ ∀ x : Float, (Binary.ofBits x.toBits).IsRatio p q → value x = String.ofList w.text := by
  have text := text_ratioWritten p q
  refine ⟨ratioWritten p q, text, fun v same => Written.text_injective same,
    abs_amount_ratioWritten_sub_le p pos, isNumeral_ratioWritten_iff le, fun x same => ?_⟩
  rw [text, value_eq_ratioDigits le pos same]

/-- One type in sixteen lies half way between two numbers of thousandths. -/
theorem ratio_numeral_iff_sixteenth
    : (Binary.ofBits (NamespaceRecord.part 1 16).toBits).IsRatio 1 16
      ∧ ∃ w : Written, w.text = ['0', '.', '0', '6', '2'] ∧ w.IsNumeral
        ∧ |w.amount - (1 : ℕ) / (16 : ℕ)| ≤ 1 / 2000
        ∧ value (NamespaceRecord.part 1 16) = String.ofList w.text := by
  have same : (Binary.ofBits (NamespaceRecord.part 1 16).toBits).IsRatio 1 16 := by
    constructor <;> decide +kernel
  obtain ⟨w, text, -, near, numeral, printed⟩ :=
    ratio_numeral_iff (p := 1) (q := 16) (by decide) (by decide)
  exact ⟨same, w, text.trans (by decide), numeral.mpr (by decide), near, printed _ same⟩

/-- One abstract type among 2500 leaves a bare point. -/
theorem rare_abstraction_bare_point
    : value (NamespaceRecord.part 1 2500) = "0." ∧ ratioDigits 1 2500 = ['0', '.']
      ∧ ¬ ∃ w : Written, w.text = ratioDigits 1 2500 ∧ w.IsNumeral := by
  refine ⟨by decide +kernel, by decide, ?_⟩
  rintro ⟨w, same, numeral⟩
  obtain rfl := Written.text_injective (same.trans (text_ratioWritten 1 2500).symm)
  exact (isNumeral_ratioWritten_iff (by decide)).mp numeral (by decide)

end DesignMetrics.Report
