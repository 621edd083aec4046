/-
  Rounding of rational numbers to a number of decimals: half to even (Python's
  `round`) and half away from zero (PostgreSQL's `NUMERIC`).  Both are
  monotone, keep the numbers that need no rounding, and so keep the bounds
  `0` and `1`.
-/
import Mathlib.Data.Int.ConditionallyCompleteOrder
import Mathlib.Data.Rat.Floor
import Mathlib.Algebra.Order.Round
import Mathlib.Tactic.Linarith
import Mathlib.Tactic.Positivity
import Mathlib.Tactic.FieldSimp
import Mathlib.Tactic.Ring

namespace Decimal

/-- The nearest integer, halves to the even one. -/
def halfEven (q : ℚ) : ℤ :=
  if q - ⌊q⌋ < 1 / 2 then ⌊q⌋
  else if 1 / 2 < q - ⌊q⌋ then ⌊q⌋ + 1
  else if ⌊q⌋ % 2 = 0 then ⌊q⌋ else ⌊q⌋ + 1

/-- The nearest integer, halves away from zero. -/
def halfAway (q : ℚ) : ℤ := if 0 ≤ q then ⌊q + 1 / 2⌋ else -⌊-q + 1 / 2⌋

/-- `round(q, n)`. -/
def round (n : ℕ) (q : ℚ) : ℚ := halfEven (q * 10 ^ n) / 10 ^ n

/-- The value of `q` in a `NUMERIC(_, n)` column. -/
def numeric (n : ℕ) (q : ℚ) : ℚ := halfAway (q * 10 ^ n) / 10 ^ n

theorem halfEven_intCast (z : ℤ) : halfEven z = z := by
  simp [halfEven]

theorem halfAway_intCast (z : ℤ) : halfAway z = z := by
  have h : ⌊(z : ℚ) + 1 / 2⌋ = z := by rw [Int.floor_intCast_add]; norm_num
  have h' : ⌊-(z : ℚ) + 1 / 2⌋ = -z := by
    rw [← Int.cast_neg, Int.floor_intCast_add]; norm_num
  unfold halfAway
  split_ifs
  · exact h
  · rw [h', neg_neg]

/-- The nearest integer is within a half. -/
theorem halfEven_bounds (q : ℚ) : q - 1 / 2 ≤ halfEven q ∧ (halfEven q : ℚ) ≤ q + 1 / 2 := by
  have h₁ := Int.floor_le q
  have h₂ := Int.lt_floor_add_one q
  unfold halfEven
  split_ifs <;> push_cast <;> constructor <;> linarith

theorem halfEven_mono : Monotone halfEven := by
  intro p q hpq
  by_contra hlt
  push Not at hlt
  have hp := halfEven_bounds p
  have hq := halfEven_bounds q
  have h1 : (halfEven q : ℚ) + 1 ≤ halfEven p := by exact_mod_cast hlt
  -- then both are the midpoint of the two integers, so they are equal
  have he : p = q := by linarith
  rw [he] at hlt
  exact lt_irrefl _ hlt

theorem halfAway_mono : Monotone halfAway := by
  intro p q hpq
  unfold halfAway
  split_ifs with hp hq hq
  · exact Int.floor_mono (by linarith)
  · linarith
  · have h1 : 0 ≤ ⌊-p + 1 / 2⌋ := Int.floor_nonneg.2 (by linarith)
    have h2 : 0 ≤ ⌊q + 1 / 2⌋ := Int.floor_nonneg.2 (by linarith)
    linarith
  · exact neg_le_neg (Int.floor_mono (by linarith))

/-! ## Comparison with an integer -/

/-- Half an odd number goes to the even neighbour. -/
theorem halfEven_midpoint (z : ℤ) : halfEven (z + 1 / 2) = if z % 2 = 0 then z else z + 1 := by
  have hfloor : ⌊(z : ℚ) + 1 / 2⌋ = z := by rw [Int.floor_intCast_add]; norm_num
  have hfrac : (z : ℚ) + 1 / 2 - z = 1 / 2 := by ring
  simp only [halfEven, hfloor, hfrac, lt_irrefl, if_false]

theorem le_halfEven_iff {z : ℤ} {q : ℚ} :
    z ≤ halfEven q ↔ (z : ℚ) - 1 / 2 < q ∨ ((z : ℚ) - 1 / 2 = q ∧ z % 2 = 0) := by
  obtain ⟨hlow, hupp⟩ := halfEven_bounds q
  -- the value when `q` is the midpoint below `z`
  have hmid : (z : ℚ) - 1 / 2 = q → halfEven q = if (z - 1) % 2 = 0 then z - 1 else z := by
    rintro rfl
    have hq : (z : ℚ) - 1 / 2 = ((z - 1 : ℤ) : ℚ) + 1 / 2 := by push_cast; ring
    rw [hq, halfEven_midpoint, sub_add_cancel]
  constructor
  · intro h
    have hz : (z : ℚ) ≤ halfEven q := by exact_mod_cast h
    rcases (show (z : ℚ) - 1 / 2 ≤ q by linarith).lt_or_eq with hlt | heq
    · exact Or.inl hlt
    · refine Or.inr ⟨heq, ?_⟩
      rw [hmid heq] at h
      split_ifs at h <;> omega
  · rintro (hlt | ⟨heq, heven⟩)
    · have hz : (z : ℚ) - 1 < halfEven q := by linarith
      have hz : z - 1 < halfEven q := by exact_mod_cast hz
      omega
    · rw [hmid heq, if_neg (by omega)]

/-- Up to the first midpoint a number goes to `0`. -/
theorem halfEven_eq_zero_iff {q : ℚ} (h : 0 ≤ q) : halfEven q = 0 ↔ q ≤ 1 / 2 := by
  have h₀ : 0 ≤ halfEven q := by
    have hmono := halfEven_mono h
    rwa [show halfEven 0 = 0 by simpa using halfEven_intCast 0] at hmono
  have h₁ : 1 ≤ halfEven q ↔ 1 / 2 < q := by
    have hodd : ¬ (1 : ℤ) % 2 = 0 := by decide
    rw [le_halfEven_iff, Int.cast_one]
    simp only [hodd, and_false, or_false]
    norm_num
  rw [← not_lt, ← h₁]
  omega

theorem le_halfAway_iff {z : ℤ} {q : ℚ} (hz : 0 < z) : z ≤ halfAway q ↔ (z : ℚ) - 1 / 2 ≤ q := by
  have hz' : (1 : ℚ) ≤ z := by exact_mod_cast hz
  unfold halfAway
  split_ifs with hq
  · rw [Int.le_floor]
    constructor <;> intro h <;> linarith
  · -- below zero both sides fail
    have hfloor : 0 ≤ ⌊-q + 1 / 2⌋ := Int.floor_nonneg.2 (by linarith)
    constructor
    · intro h
      omega
    · intro h
      linarith

section
variable (n : ℕ)

/-- A number with `n` decimals is below the rounded value, in units of the last
    decimal. -/
theorem le_round_iff {z : ℤ} {q : ℚ} : (z : ℚ) / 10 ^ n ≤ round n q ↔ z ≤ halfEven (q * 10 ^ n) := by
  rw [round, div_le_div_iff_of_pos_right (by positivity), Int.cast_le]

theorem le_numeric_iff {z : ℤ} {q : ℚ} :
    (z : ℚ) / 10 ^ n ≤ numeric n q ↔ z ≤ halfAway (q * 10 ^ n) := by
  rw [numeric, div_le_div_iff_of_pos_right (by positivity), Int.cast_le]

theorem round_eq_zero_iff {q : ℚ} (h : 0 ≤ q) : round n q = 0 ↔ q * 10 ^ n ≤ 1 / 2 := by
  have hpow : (10 : ℚ) ^ n ≠ 0 := by positivity
  rw [← halfEven_eq_zero_iff (by positivity), round, div_eq_zero_iff]
  simp [hpow]

theorem round_mono : Monotone (round n) := fun p q h => by
  have : (0 : ℚ) < 10 ^ n := by positivity
  unfold round
  gcongr
  exact halfEven_mono (by gcongr)

theorem numeric_mono : Monotone (numeric n) := fun p q h => by
  have : (0 : ℚ) < 10 ^ n := by positivity
  unfold numeric
  gcongr
  exact halfAway_mono (by gcongr)

theorem round_intCast (z : ℤ) : round n z = z := by
  have h : (z : ℚ) * 10 ^ n = ((z * 10 ^ n : ℤ) : ℚ) := by push_cast; rfl
  rw [round, h, halfEven_intCast]
  push_cast
  field_simp

theorem numeric_intCast (z : ℤ) : numeric n z = z := by
  have h : (z : ℚ) * 10 ^ n = ((z * 10 ^ n : ℤ) : ℚ) := by push_cast; rfl
  rw [numeric, h, halfAway_intCast]
  push_cast
  field_simp

/-- A column keeps the value that it holds. -/
theorem numeric_numeric (q : ℚ) : numeric n (numeric n q) = numeric n q := by
  have h : (halfAway (q * 10 ^ n) : ℚ) / 10 ^ n * 10 ^ n = halfAway (q * 10 ^ n) :=
    div_mul_cancel₀ _ (by positivity)
  rw [numeric, numeric, h, halfAway_intCast]

/-- **Rounding keeps the unit interval.** -/
theorem round_mem_unit {q : ℚ} (h₀ : 0 ≤ q) (h₁ : q ≤ 1) : 0 ≤ round n q ∧ round n q ≤ 1 := by
  have h0 := round_mono n h₀
  have h1 := round_mono n h₁
  rw [show (0 : ℚ) = ((0 : ℤ) : ℚ) by simp, round_intCast] at h0
  rw [show (1 : ℚ) = ((1 : ℤ) : ℚ) by simp, round_intCast] at h1
  exact ⟨by simpa using h0, by simpa using h1⟩

theorem numeric_mem_unit {q : ℚ} (h₀ : 0 ≤ q) (h₁ : q ≤ 1) : 0 ≤ numeric n q ∧ numeric n q ≤ 1 := by
  have h0 := numeric_mono n h₀
  have h1 := numeric_mono n h₁
  rw [show (0 : ℚ) = ((0 : ℤ) : ℚ) by simp, numeric_intCast] at h0
  rw [show (1 : ℚ) = ((1 : ℤ) : ℚ) by simp, numeric_intCast] at h1
  exact ⟨by simpa using h0, by simpa using h1⟩

end

end Decimal
