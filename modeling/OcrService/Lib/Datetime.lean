/-
  An instant as a Python `datetime` in UTC, and its text.

  `isoformat_injective`: the text determines the instant, although it leaves out
  the microseconds when there are none.
-/
import Mathlib.Data.String.Basic
import Mathlib.Tactic.Ring

namespace PyDatetime

/-- The days of a month. -/
def daysIn (year month : ℕ) : ℕ :=
  if month = 2 then
    if year % 4 = 0 ∧ (year % 100 ≠ 0 ∨ year % 400 = 0) then 29 else 28
  else if month ∈ [4, 6, 9, 11] then 30
  else 31

@[ext]
structure Datetime where
  year : ℕ
  month : ℕ
  day : ℕ
  hour : ℕ := 0
  minute : ℕ := 0
  second : ℕ := 0
  microsecond : ℕ := 0
  year_mem : 1 ≤ year ∧ year ≤ 9999 := by decide
  month_mem : 1 ≤ month ∧ month ≤ 12 := by decide
  day_mem : 1 ≤ day ∧ day ≤ daysIn year month := by decide
  hour_lt : hour < 24 := by decide
  minute_lt : minute < 60 := by decide
  second_lt : second < 60 := by decide
  microsecond_lt : microsecond < 1000000 := by decide
  deriving DecidableEq

/-- A number in `k` decimal digits. -/
def pad : ℕ → ℕ → List Char
  | 0, _ => []
  | k + 1, n => pad k (n / 10) ++ [Char.ofNat (48 + n % 10)]

theorem length_pad (k n : ℕ) : (pad k n).length = k := by
  induction k generalizing n with
  | zero => rfl
  | succ k ih => simp [pad, ih]

theorem digit_inj : ∀ m < 10, ∀ n < 10, Char.ofNat (48 + m) = Char.ofNat (48 + n) → m = n := by decide

theorem pad_inj {k : ℕ} : ∀ {m n : ℕ}, m < 10 ^ k → n < 10 ^ k → pad k m = pad k n → m = n := by
  induction k with
  | zero => intro m n hm hn _; omega
  | succ k ih =>
    intro m n hm hn h
    obtain ⟨hhigh, hlow⟩ := List.append_singleton_inj.1 h
    have hdigit := digit_inj _ (Nat.mod_lt m (by decide)) _ (Nat.mod_lt n (by decide)) hlow
    have := ih (Nat.div_lt_of_lt_mul (by rwa [← pow_succ'])) (Nat.div_lt_of_lt_mul (by rwa [← pow_succ'])) hhigh
    omega

theorem pad_append_inj {k m n : ℕ} {s t : List Char} (h : pad k m ++ s = pad k n ++ t)
    (hm : m < 10 ^ k) (hn : n < 10 ^ k) : m = n ∧ s = t := by
  obtain ⟨hpad, hst⟩ := List.append_inj h (by rw [length_pad, length_pad])
  exact ⟨pad_inj hm hn hpad, hst⟩

namespace Datetime

/-- The microseconds, if there are any, and the offset of UTC. -/
def fraction (us : ℕ) : List Char :=
  (if us = 0 then [] else '.' :: pad 6 us) ++ ['+', '0', '0', ':', '0', '0']

/-- `isoformat`, of a time in UTC. -/
def isoformat (d : Datetime) : String :=
  String.ofList (pad 4 d.year ++ '-' :: (pad 2 d.month ++ '-' :: (pad 2 d.day ++
    'T' :: (pad 2 d.hour ++ ':' :: (pad 2 d.minute ++ ':' :: (pad 2 d.second ++
      fraction d.microsecond))))))

/-- The fields as one number: instants are in the order of these numbers. -/
def rank (d : Datetime) : ℕ :=
  (((((d.year * 12 + d.month) * 31 + d.day) * 24 + d.hour) * 60 + d.minute) * 60 + d.second) * 1000000 +
    d.microsecond

instance : LE Datetime := ⟨fun d e => d.rank ≤ e.rank⟩

instance : DecidableLE Datetime := fun d e => inferInstanceAs (Decidable (d.rank ≤ e.rank))

theorem fraction_inj {m n : ℕ} (hm : m < 1000000) (hn : n < 1000000) (h : fraction m = fraction n) :
    m = n := by
  by_cases hm₀ : m = 0 <;> by_cases hn₀ : n = 0
  · rw [hm₀, hn₀]
  · simp [fraction, hm₀, hn₀] at h
  · simp [fraction, hm₀, hn₀] at h
  · simp only [fraction, if_neg hm₀, if_neg hn₀, List.cons_append] at h
    exact (pad_append_inj (List.cons.inj h).2 hm hn).1

theorem daysIn_le (year month : ℕ) : daysIn year month ≤ 31 := by
  unfold daysIn
  split_ifs <;> decide

theorem day_lt (d : Datetime) : d.day < 100 := by
  have := d.day_mem.2
  have := daysIn_le d.year d.month
  omega

/-- **The text determines the instant.** -/
theorem isoformat_injective : Function.Injective isoformat := by
  intro d e h
  have hmonth (f : Datetime) : f.month < 10 ^ 2 := by have := f.month_mem; omega
  obtain ⟨hyear, h⟩ := pad_append_inj (String.ofList_injective h)
    (by have := d.year_mem; omega) (by have := e.year_mem; omega)
  obtain ⟨hmonth, h⟩ := pad_append_inj (List.cons.inj h).2 (hmonth d) (hmonth e)
  obtain ⟨hday, h⟩ := pad_append_inj (List.cons.inj h).2 d.day_lt e.day_lt
  obtain ⟨hhour, h⟩ := pad_append_inj (List.cons.inj h).2
    (d.hour_lt.trans (by decide)) (e.hour_lt.trans (by decide))
  obtain ⟨hminute, h⟩ := pad_append_inj (List.cons.inj h).2
    (d.minute_lt.trans (by decide)) (e.minute_lt.trans (by decide))
  obtain ⟨hsecond, h⟩ := pad_append_inj (List.cons.inj h).2
    (d.second_lt.trans (by decide)) (e.second_lt.trans (by decide))
  exact Datetime.ext hyear hmonth hday hhour hminute hsecond (fraction_inj d.microsecond_lt e.microsecond_lt h)

end Datetime

end PyDatetime
