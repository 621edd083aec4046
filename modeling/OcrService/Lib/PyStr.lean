/-
  Python strings, as far as text cleaning needs them: white space, `strip`,
  `split`, hexadecimal digits, `repr`, and strings free of U+0000.
-/
import Mathlib.Data.List.Basic
import Mathlib.Tactic.IntervalCases

namespace PyStr

/-- The character U+0000. -/
def nul : Char := Char.ofNat 0

/-- `s` has no U+0000. -/
def NulFree (s : String) : Prop := nul ∉ s.toList

instance (s : String) : Decidable (NulFree s) := inferInstanceAs (Decidable (_ ∉ _))

theorem nulFree_append {s t : String} : NulFree (s ++ t) ↔ NulFree s ∧ NulFree t := by
  simp [NulFree, String.toList_append]

/-- `c.isspace()`. -/
def isSpace (c : Char) : Bool :=
  let n := c.toNat
  (9 ≤ n && n ≤ 13) || (28 ≤ n && n ≤ 32) || n == 0x85 || n == 0xa0 || n == 0x1680 ||
    (0x2000 ≤ n && n ≤ 0x200a) || n == 0x2028 || n == 0x2029 || n == 0x202f || n == 0x205f ||
    n == 0x3000

/-- `s.strip()`. -/
def strip (s : List Char) : List Char :=
  ((s.dropWhile isSpace).reverse.dropWhile isSpace).reverse

/-- `s.split()`: the maximal runs of characters that are not white space. -/
def split : List Char → List (List Char)
  | [] => []
  | c :: cs =>
    if isSpace c then split cs
    else match cs with
      | [] => [[c]]
      | d :: _ =>
        if isSpace d then [c] :: split cs
        else match split cs with
          | [] => [[c]]
          | w :: ws => (c :: w) :: ws

/-- A hexadecimal digit. -/
def hexDigit (n : ℕ) : Char := if n < 10 then Char.ofNat (48 + n) else Char.ofNat (87 + n)

/-- The last `k` hexadecimal digits of `n`. -/
def hex : ℕ → ℕ → List Char
  | 0, _ => []
  | k + 1, n => hex k (n / 16) ++ [hexDigit (n % 16)]

theorem length_hex (k n : ℕ) : (hex k n).length = k := by
  induction k generalizing n with
  | zero => rfl
  | succ k ih => simp [hex, ih]

theorem mem_hex {c : Char} : ∀ {k n : ℕ}, c ∈ hex k n → ∃ m < 16, c = hexDigit m
  | 0, _, h => absurd h (List.not_mem_nil)
  | k + 1, n, h => by
    rcases List.mem_append.1 h with h | h
    · exact mem_hex h
    · exact ⟨n % 16, Nat.mod_lt _ (by decide), List.mem_singleton.1 h⟩

theorem hexDigit_inj : ∀ m < 16, ∀ n < 16, hexDigit m = hexDigit n → m = n := by decide

/-- The digits determine the number, up to its higher digits. -/
theorem hex_inj {k : ℕ} : ∀ {m n : ℕ}, hex k m = hex k n → m % 16 ^ k = n % 16 ^ k := by
  induction k with
  | zero => intro m n _; rw [pow_zero, Nat.mod_one, Nat.mod_one]
  | succ k ih =>
    intro m n h
    obtain ⟨hhigh, hlow⟩ := List.append_singleton_inj.1 h
    have hdigit := hexDigit_inj _ (Nat.mod_lt m (by decide)) _ (Nat.mod_lt n (by decide)) hlow
    rw [pow_succ', Nat.mod_mul, Nat.mod_mul, hdigit, ih hhigh]

/-- The backslash, the single and the double quote. -/
def backslash : Char := Char.ofNat 92
def quote : Char := Char.ofNat 39
def dquote : Char := Char.ofNat 34

/-- How `repr` shows one character between quotes `q`; `printable` is
    `str.isprintable`, used above ASCII only. -/
def reprChar (printable : Char → Bool) (q c : Char) : List Char :=
  if c = q ∨ c = backslash then [backslash, c]
  else if c.toNat = 9 then [backslash, 't']
  else if c.toNat = 10 then [backslash, 'n']
  else if c.toNat = 13 then [backslash, 'r']
  else if c.toNat < 32 ∨ c.toNat = 127 then backslash :: 'x' :: hex 2 c.toNat
  else if c.toNat < 127 ∨ printable c then [c]
  else if c.toNat < 256 then backslash :: 'x' :: hex 2 c.toNat
  else if c.toNat < 65536 then backslash :: 'u' :: hex 4 c.toNat
  else backslash :: 'U' :: hex 8 c.toNat

/-- `repr(s)`: single quotes, unless the text has a single quote and no double
    one. -/
def repr (printable : Char → Bool) (s : List Char) : List Char :=
  let q := if quote ∈ s ∧ dquote ∉ s then dquote else quote
  q :: s.flatMap (reprChar printable q) ++ [q]

theorem hexDigit_ne_nul (n : ℕ) (h : n < 16) : hexDigit n ≠ nul := by
  interval_cases n <;> decide

theorem nul_notMem_hex : ∀ k n, nul ∉ hex k n
  | 0, _ => by simp [hex]
  | k + 1, n => by
    have := hexDigit_ne_nul (n % 16) (Nat.mod_lt _ (by decide))
    simp only [hex, List.mem_append, List.mem_singleton, not_or]
    exact ⟨nul_notMem_hex k (n / 16), this.symm⟩

theorem nul_notMem_reprChar (printable : Char → Bool) (q c : Char) (hq : q ≠ nul) :
    nul ∉ reprChar printable q c := by
  have hx := nul_notMem_hex
  unfold reprChar
  split_ifs with h₁ h₂ h₃ h₄ h₅ h₆ h₇ h₈
  · rcases h₁ with rfl | rfl
    · simp only [List.mem_cons, List.not_mem_nil, or_false, not_or]
      exact ⟨by decide, hq.symm⟩
    · decide
  · decide
  · decide
  · decide
  · simp only [List.mem_cons, hx, or_false, not_or]; exact ⟨by decide, by decide⟩
  · -- a character shown as itself is not a control character
    have hc : c ≠ nul := by
      rintro rfl
      exact h₅ (Or.inl (by decide))
    simpa using hc.symm
  all_goals simp only [List.mem_cons, hx, or_false, not_or]; exact ⟨by decide, by decide⟩

/-- **`repr` escapes U+0000.** -/
theorem nul_notMem_repr (printable : Char → Bool) (s : List Char) : nul ∉ repr printable s := by
  have hq : (if quote ∈ s ∧ dquote ∉ s then dquote else quote) ≠ nul := by split_ifs <;> decide
  simp only [repr, List.cons_append, List.mem_cons, List.mem_append, List.mem_flatMap,
    List.not_mem_nil, or_false, not_or, not_exists, not_and]
  exact ⟨hq.symm, fun c _ => nul_notMem_reprChar printable _ c hq, hq.symm⟩

end PyStr
