/-
  `str` and `repr` of JSON values, as Python shows them.  The digits of a float
  are those of the interpreter (`Printer`).
-/
import Mathlib.Tactic.FinCases
import OcrService.Lib.Json

namespace PyData

/-- What the interpreter knows of printing: `repr` of a float, which has at most
    17 significant digits, and the printable characters. -/
structure Printer where
  float : ℚ → String
  printable : Char → Bool
  length_float : ∀ q, (float q).length ≤ 24

instance : Inhabited Printer := ⟨⟨fun _ => "0.0", fun _ => true, fun _ => by decide⟩⟩

variable (P : Printer)

/-- `repr` of a string. -/
def reprStr (s : String) : String := String.ofList (PyStr.repr P.printable s.toList)

mutual
/-- `repr(v)`. -/
def Json.repr : Json → String
  | .null => "None"
  | .bool true => "True"
  | .bool false => "False"
  | .int n => toString n
  | .float q => P.float q
  | .str s => reprStr P s
  | .arr xs => "[" ++ reprItems xs ++ "]"
  | .obj kvs => "\x7b" ++ reprEntries kvs ++ "\x7d"

def reprItems : List Json → String
  | [] => ""
  | [x] => x.repr
  | x :: xs => x.repr ++ ", " ++ reprItems xs

def reprEntries : List (String × Json) → String
  | [] => ""
  | [(k, v)] => reprStr P k ++ ": " ++ v.repr
  | (k, v) :: kvs => reprStr P k ++ ": " ++ v.repr ++ ", " ++ reprEntries kvs
end

/-- `str(v)`. -/
def Json.pyStr : Json → String
  | .str s => s
  | v => v.repr P

/-- `str(d.get(k))`. -/
def strGet (d : Obj) (k : String) : String := ((d.get? k).getD .null).pyStr P

/-- The text of an integer has at most one hyphen. -/
theorem count_hyphen_int (n : ℤ) : (toString n).toList.count '-' ≤ 1 := by
  have hnat (m : ℕ) : (Nat.repr m).toList.count '-' = 0 := by
    rw [List.count_eq_zero]
    intro h
    rw [Nat.repr, String.toList_ofList] at h
    exact absurd (Nat.isDigit_of_mem_toDigits (by decide) (by decide) h) (by decide)
  cases n with
  | ofNat m =>
    show (Nat.repr m).toList.count '-' ≤ 1
    rw [hnat]
    exact zero_le_one
  | negSucc m =>
    show ("-" ++ Nat.repr (m + 1)).toList.count '-' ≤ 1
    rw [String.toList_append, List.count_append, hnat]
    decide

/-- **A text that no other value has**: one with at least 25 characters, two
    hyphens and no bracket or brace is the `str` of itself only. -/
theorem pyStr_eq_iff {s : String} (hlen : 25 ≤ s.length) (hhyphen : 2 ≤ s.toList.count '-')
    (hbracket : '[' ∉ s.toList) (hbrace : Char.ofNat 123 ∉ s.toList) {v : Json} :
    v.pyStr P = s ↔ v = .str s := by
  constructor
  · rintro rfl
    cases v with
    | null => exact absurd hlen (show ¬ 25 ≤ "None".length by decide)
    | bool b =>
      cases b with
      | true => exact absurd hlen (show ¬ 25 ≤ "True".length by decide)
      | false => exact absurd hlen (show ¬ 25 ≤ "False".length by decide)
    | int n => exact absurd (hhyphen.trans (count_hyphen_int n)) (by decide)
    | float q => exact absurd (hlen.trans (P.length_float q)) (by decide)
    | str s => rfl
    | arr xs => exact absurd (by simp [Json.pyStr, Json.repr, String.toList_append]) hbracket
    | obj kvs => exact absurd (by simp [Json.pyStr, Json.repr, String.toList_append]) hbrace
  · rintro rfl
    rfl

end PyData
