/-
  JSON values and Python dictionaries of them.

  A dictionary is the list of its entries in insertion order.  A dotted path
  `a.b.c` visits the keys `Path.keys`; `Obj.lookup` is the value a path
  addresses, and `Obj.mapStr f` replaces the string a path addresses by its
  image under a transformation that may fail.
-/
import OcrService.Lib.PyStr

namespace PyData

open PyStr

/-- A JSON value; numbers keep their Python type. -/
inductive Json where
  | null
  | bool (b : Bool)
  | int (n : ℤ)
  | float (q : ℚ)
  | str (s : String)
  | arr (xs : List Json)
  | obj (kvs : List (String × Json))

/-- A dictionary with string keys. -/
abbrev Obj := List (String × Json)

mutual
/-- Equality of JSON values, and of lists and entries of them, is decidable. -/
def Json.decEq : (a b : Json) → Decidable (a = b)
  | .null, .null => isTrue rfl
  | .bool a, .bool b => decidable_of_iff (a = b) (by simp)
  | .int a, .int b => decidable_of_iff (a = b) (by simp)
  | .float a, .float b => decidable_of_iff (a = b) (by simp)
  | .str a, .str b => decidable_of_iff (a = b) (by simp)
  | .arr xs, .arr ys => @decidable_of_iff _ (xs = ys) (by simp) (decEqItems xs ys)
  | .obj xs, .obj ys => @decidable_of_iff _ (xs = ys) (by simp) (decEqEntries xs ys)
  | .null, .bool _ | .null, .int _ | .null, .float _ | .null, .str _ | .null, .arr _
  | .null, .obj _ | .bool _, .null | .bool _, .int _ | .bool _, .float _ | .bool _, .str _
  | .bool _, .arr _ | .bool _, .obj _ | .int _, .null | .int _, .bool _ | .int _, .float _
  | .int _, .str _ | .int _, .arr _ | .int _, .obj _ | .float _, .null | .float _, .bool _
  | .float _, .int _ | .float _, .str _ | .float _, .arr _ | .float _, .obj _ | .str _, .null
  | .str _, .bool _ | .str _, .int _ | .str _, .float _ | .str _, .arr _ | .str _, .obj _
  | .arr _, .null | .arr _, .bool _ | .arr _, .int _ | .arr _, .float _ | .arr _, .str _
  | .arr _, .obj _ | .obj _, .null | .obj _, .bool _ | .obj _, .int _ | .obj _, .float _
  | .obj _, .str _ | .obj _, .arr _ => isFalse (by simp)

def decEqItems : (xs ys : List Json) → Decidable (xs = ys)
  | [], [] => isTrue rfl
  | [], _ :: _ | _ :: _, [] => isFalse (by simp)
  | x :: xs, y :: ys =>
    @decidable_of_iff _ (x = y ∧ xs = ys) (by simp)
      (@instDecidableAnd _ _ (x.decEq y) (decEqItems xs ys))

def decEqEntries : (xs ys : List (String × Json)) → Decidable (xs = ys)
  | [], [] => isTrue rfl
  | [], _ :: _ | _ :: _, [] => isFalse (by simp)
  | (k, x) :: xs, (l, y) :: ys =>
    @decidable_of_iff _ (k = l ∧ x = y ∧ xs = ys) (by simp [and_assoc])
      (@instDecidableAnd _ _ (instDecidableEqString k l)
        (@instDecidableAnd _ _ (x.decEq y) (decEqEntries xs ys)))
end

instance : DecidableEq Json := Json.decEq

/-! ## U+0000 -/

mutual
/-- No string of the value, keys included, has a U+0000. -/
def Json.nulFree : Json → Bool
  | .str s => decide (NulFree s)
  | .arr xs => nulFreeItems xs
  | .obj kvs => nulFreeEntries kvs
  | .null | .bool _ | .int _ | .float _ => true

def nulFreeItems : List Json → Bool
  | [] => true
  | x :: xs => x.nulFree && nulFreeItems xs

def nulFreeEntries : List (String × Json) → Bool
  | [] => true
  | (k, v) :: kvs => decide (NulFree k) && v.nulFree && nulFreeEntries kvs
end

/-- No string of the dictionary, keys included, has a U+0000. -/
def Obj.nulFree (d : Obj) : Bool := nulFreeEntries d

/-! ## Entries -/

namespace Obj

/-- `d.get(k)`. -/
def get? : Obj → String → Option Json
  | [], _ => none
  | (k', v) :: d, k => if k' = k then some v else get? d k

/-- `d[k] = v`. -/
def set : Obj → String → Json → Obj
  | [], k, v => [(k, v)]
  | (k', v') :: d, k, v => if k' = k then (k', v) :: d else (k', v') :: set d k v

@[simp] theorem get?_set_self (d : Obj) (k : String) (v : Json) : (d.set k v).get? k = some v := by
  induction d with
  | nil => simp [set, get?]
  | cons e d ih =>
    obtain ⟨k', v'⟩ := e
    by_cases h : k' = k <;> simp [set, get?, h, ih]

theorem get?_set_of_ne (d : Obj) {k k' : String} (v : Json) (h : k ≠ k') :
    (d.set k v).get? k' = d.get? k' := by
  induction d with
  | nil => simp [set, get?, h]
  | cons e d ih =>
    obtain ⟨k₀, v₀⟩ := e
    by_cases h₀ : k₀ = k
    · subst h₀; simp [set, get?, h]
    · by_cases h₁ : k₀ = k'
      · subst h₁; simp [set, get?, h₀]
      · simp [set, get?, h₀, h₁, ih]

theorem set_get?_self {d : Obj} {k : String} {v : Json} (h : d.get? k = some v) : d.set k v = d := by
  induction d with
  | nil => simp [get?] at h
  | cons e d ih =>
    obtain ⟨k', v'⟩ := e
    by_cases hk : k' = k
    · simp only [get?, hk, if_true, Option.some.injEq] at h
      simp [set, hk, h]
    · simp only [get?, hk, if_false] at h
      simp [set, hk, ih h]

end Obj

/-! ## Dotted paths -/

namespace Path

/-- `s.partition(".")`: the text before the first dot and the text after it. -/
def partition : List Char → List Char × List Char
  | [] => ([], [])
  | c :: cs => if c = '.' then ([], cs) else (c :: (partition cs).1, (partition cs).2)

/-- Put a character in front of the first key. -/
def consHead (c : Char) : List (List Char) → List (List Char)
  | [] => [[c]]
  | k :: ks => (c :: k) :: ks

/-- The keys visited by repeatedly splitting off the text before the first
    dot, until nothing is left. -/
def keysOf : List Char → List (List Char)
  | [] => [[]]
  | c :: cs =>
    if c = '.' then (if cs = [] then [[]] else [] :: keysOf cs) else consHead c (keysOf cs)

/-- The keys of a dotted path. -/
def keys (path : String) : List String := (keysOf path.toList).map String.ofList

theorem consHead_eq (c : Char) {k : List Char} {l ks : List (List Char)} (h : l = k :: ks) :
    consHead c l = (c :: k) :: ks := by rw [h]; rfl

/-- The keys are those of the partition at the first dot. -/
theorem keysOf_eq (p : List Char) :
    keysOf p = (partition p).1 :: if (partition p).2 = [] then [] else keysOf (partition p).2 := by
  induction p with
  | nil => rfl
  | cons c cs ih =>
    by_cases hc : c = '.'
    · by_cases hs : cs = [] <;> simp [keysOf, partition, hc, hs]
    · simp only [keysOf, partition, hc, if_false]
      exact consHead_eq c ih

/-- Every path begins with a key. -/
theorem keys_eq_cons (path : String) : ∃ k ks, keys path = k :: ks := by
  rw [keys, keysOf_eq]
  exact ⟨_, _, rfl⟩

end Path

namespace Obj

/-- The value at the end of a path of keys, through dictionaries only. -/
def lookup : Obj → List String → Option Json
  | _, [] => none
  | d, [k] => d.get? k
  | d, k :: k' :: ks =>
    match d.get? k with
    | some (.obj c) => lookup c (k' :: ks)
    | _ => none

variable {ε : Type}

/-- Replace the string at the end of a path by its image; anything else stays. -/
def mapStr (f : String → Except ε String) : List String → Obj → Except ε Obj
  | [], d => .ok d
  | [k], d =>
    match d.get? k with
    | some (.str s) => (f s).map fun s' => d.set k (.str s')
    | _ => .ok d
  | k :: k' :: ks, d =>
    match d.get? k with
    | some (.obj c) => (mapStr f (k' :: ks) c).map fun c' => d.set k (.obj c')
    | _ => .ok d

/-- Setting a key, seen from a path. -/
theorem lookup_set (d : Obj) (k : String) (v : Json) (k₀ : String) (ks : List String) :
    (d.set k v).lookup (k₀ :: ks) = if k = k₀ then lookup [(k, v)] (k₀ :: ks) else d.lookup (k₀ :: ks) := by
  split_ifs with h
  · subst h; cases ks <;> simp [lookup, get?]
  · cases ks <;> simp [lookup, get?_set_of_ne d v h]

end Obj

end PyData
