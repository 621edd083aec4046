/-
  `json.dumps` with sorted keys and compact separators, in ASCII.

  `dumps_perm`: the text does not depend on the order in which a dictionary got
  its keys.
-/
import Mathlib.Data.List.Sort
import Mathlib.Data.String.Basic
import OcrService.Lib.Show

namespace PyData

open PyStr

/-- How a character stands in a JSON string; what is above U+FFFF is written as
    a surrogate pair. -/
def escapeChar (c : Char) : List Char :=
  let n := c.toNat
  if c = dquote ∨ c = backslash then [backslash, c]
  else if n = 10 then [backslash, 'n']
  else if n = 13 then [backslash, 'r']
  else if n = 9 then [backslash, 't']
  else if n = 12 then [backslash, 'f']
  else if n = 8 then [backslash, 'b']
  else if 32 ≤ n ∧ n ≤ 126 then [c]
  else if n < 0x10000 then backslash :: 'u' :: hex 4 n
  else
    let m := n - 0x10000
    backslash :: 'u' :: hex 4 (0xd800 + m / 1024) ++ backslash :: 'u' :: hex 4 (0xdc00 + m % 1024)

def dumpsStr (s : String) : String :=
  String.ofList (dquote :: s.toList.flatMap escapeChar ++ [dquote])

/-- The entries in the order of their keys. -/
def sortKeys {α : Type} (entries : List (String × α)) : List (String × α) :=
  entries.insertionSort fun e e' => e.1 ≤ e'.1

variable (P : Printer)

mutual
/-- `json.dumps(v, sort_keys=True, separators=(",", ":"))`. -/
def Json.dumps : Json → String
  | .null => "null"
  | .bool true => "true"
  | .bool false => "false"
  | .int n => toString n
  | .float q => P.float q
  | .str s => dumpsStr s
  | .arr xs => "[" ++ ",".intercalate (dumpsItems xs) ++ "]"
  | .obj kvs =>
    "\x7b" ++ ",".intercalate ((sortKeys (dumpsEntries kvs)).map fun e => dumpsStr e.1 ++ ":" ++ e.2) ++
      "\x7d"

def dumpsItems : List Json → List String
  | [] => []
  | x :: xs => x.dumps :: dumpsItems xs

/-- The text of every value, under its key. -/
def dumpsEntries : List (String × Json) → List (String × String)
  | [] => []
  | (k, v) :: kvs => (k, v.dumps) :: dumpsEntries kvs
end

variable {P}

theorem dumpsEntries_eq (d : Obj) : dumpsEntries P d = d.map fun e => (e.1, e.2.dumps P) := by
  induction d with
  | nil => rfl
  | cons e d ih => rw [dumpsEntries, ih, List.map_cons]

/-- **Sorting forgets the order** of entries with distinct keys. -/
theorem sortKeys_perm {α : Type} {d d' : List (String × α)} (hkeys : (d.map Prod.fst).Nodup)
    (hperm : d.Perm d') : sortKeys d = sortKeys d' := by
  have htotal : Std.Total fun e e' : String × α => e.1 ≤ e'.1 := ⟨fun e e' => le_total e.1 e'.1⟩
  have htrans : IsTrans (String × α) fun e e' => e.1 ≤ e'.1 := ⟨fun _ _ _ h h' => le_trans h h'⟩
  have hsame : (sortKeys d).Perm (sortKeys d') :=
    (List.perm_insertionSort _ d).trans (hperm.trans (List.perm_insertionSort _ d').symm)
  refine hsame.eq_of_pairwise ?_ (List.pairwise_insertionSort _ d) (List.pairwise_insertionSort _ d')
  intro e e' he he' hle hle'
  have hmem : e ∈ d := (List.perm_insertionSort _ d).mem_iff.1 he
  have hmem' : e' ∈ d := hperm.mem_iff.2 ((List.perm_insertionSort _ d').mem_iff.1 he')
  exact List.inj_on_of_nodup_map hkeys hmem hmem' (le_antisymm hle hle')

theorem dumps_perm {d d' : Obj} (hkeys : (d.map Prod.fst).Nodup) (hperm : d.Perm d') :
    (Json.obj d).dumps P = (Json.obj d').dumps P := by
  have hkeys' : ((d.map fun e => (e.1, e.2.dumps P)).map Prod.fst).Nodup := by
    rwa [List.map_map, show Prod.fst ∘ (fun e : String × Json => (e.1, e.2.dumps P)) = Prod.fst from rfl]
  simp only [Json.dumps, dumpsEntries_eq]
  rw [sortKeys_perm hkeys' (hperm.map _)]

end PyData
