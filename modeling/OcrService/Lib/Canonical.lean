/-
  What the text of `json.dumps(v, sort_keys=True, separators=(",", ":"))` says of
  the value.

  The floats are those of any type, with a text for each (`FloatPrinter`).

  * `readChar_escapeChar`: an escaped character can be read back;
  * `JsonTree.unique`: a printed value ends where no number goes on, and what is
    printed is determined up to the order of keys;
  * `print_eq_iff`: two values have one text iff they are the same but for the
    order of keys, at every depth.
-/
import OcrService.Lib.Dumps

namespace PyData

open PyStr

/-! ## Strings -/

/-- The value of a hexadecimal digit. -/
def hexVal (c : Char) : ℕ := if c.toNat < 58 then c.toNat - 48 else c.toNat - 87

theorem hexVal_hexDigit : ∀ m < 16, hexVal (hexDigit m) = m := by decide

/-- The number of four hexadecimal digits. -/
def unhex (a b c d : Char) : ℕ := ((hexVal a * 16 + hexVal b) * 16 + hexVal c) * 16 + hexVal d

theorem hex_four {n : ℕ} (hn : n < 0x10000) :
    ∃ a b c d, hex 4 n = [a, b, c, d] ∧ unhex a b c d = n := by
  refine ⟨hexDigit (n / 16 / 16 / 16 % 16), hexDigit (n / 16 / 16 % 16), hexDigit (n / 16 % 16),
    hexDigit (n % 16), rfl, ?_⟩
  simp only [unhex, hexVal_hexDigit _ (Nat.mod_lt _ (by decide : 0 < 16))]
  omega

/-- The character whose code stands behind a backslash and a `u`, and what is
    left; a high surrogate is the first half of a pair. -/
def readCode (n : ℕ) (cs : List Char) : Option (Char × List Char) :=
  if 0xd800 ≤ n ∧ n < 0xdc00 then
    match cs with
    | _ :: _ :: a :: b :: c :: d :: cs =>
      some (Char.ofNat (0x10000 + (n - 0xd800) * 1024 + (unhex a b c d - 0xdc00)), cs)
    | _ => none
  else some (Char.ofNat n, cs)

/-- The character that stands behind a backslash, and what is left. -/
def readEscape : List Char → Option (Char × List Char)
  | 'n' :: cs => some (Char.ofNat 10, cs)
  | 'r' :: cs => some (Char.ofNat 13, cs)
  | 't' :: cs => some (Char.ofNat 9, cs)
  | 'f' :: cs => some (Char.ofNat 12, cs)
  | 'b' :: cs => some (Char.ofNat 8, cs)
  | 'u' :: a :: b :: c :: d :: cs => readCode (unhex a b c d) cs
  | c :: cs => some (c, cs)
  | [] => none

/-- The character that a string goes on with, and what is left. -/
def readChar : List Char → Option (Char × List Char)
  | [] => none
  | c :: cs => if c = backslash then readEscape cs else some (c, cs)

/-- A Unicode scalar value is no surrogate. -/
theorem toNat_valid (c : Char) : c.toNat < 0xd800 ∨ 0xdfff < c.toNat ∧ c.toNat < 0x110000 := c.valid

theorem ofNat_eq {c : Char} {n : ℕ} (h : c.toNat = n) : Char.ofNat n = c := by
  rw [← h, Char.ofNat_toNat]

/-- **An escaped character can be read back.** -/
theorem readChar_escapeChar (c : Char) (cs : List Char) :
    readChar (escapeChar c ++ cs) = some (c, cs) := by
  have hvalid := toNat_valid c
  have hescape (l : List Char) : readChar (backslash :: l) = readEscape l := by
    rw [readChar, if_pos rfl]
  unfold escapeChar
  dsimp only
  split_ifs with h₁ h₂ h₃ h₄ h₅ h₆ h₇ h₈
  · rcases h₁ with rfl | rfl <;> rfl
  · rw [← ofNat_eq h₂]; rfl
  · rw [← ofNat_eq h₃]; rfl
  · rw [← ofNat_eq h₄]; rfl
  · rw [← ofNat_eq h₅]; rfl
  · rw [← ofNat_eq h₆]; rfl
  · exact if_neg fun h => h₁ (Or.inr h)
  · obtain ⟨a, b, d, e, hhex, hn⟩ := hex_four h₈
    have hscalar : ¬ (0xd800 ≤ c.toNat ∧ c.toNat < 0xdc00) := by omega
    rw [hhex]
    show readChar (backslash :: 'u' :: a :: b :: d :: e :: cs) = _
    rw [hescape, readEscape, hn]
    unfold readCode
    rw [if_neg hscalar, Char.ofNat_toNat]
  · -- the two halves of a surrogate pair
    obtain ⟨a, b, d, e, hhex, hn⟩ := hex_four (n := 0xd800 + (c.toNat - 0x10000) / 1024) (by omega)
    obtain ⟨a', b', d', e', hhex', hn'⟩ :=
      hex_four (n := 0xdc00 + (c.toNat - 0x10000) % 1024) (by omega)
    have hhigh : 0xd800 ≤ 0xd800 + (c.toNat - 0x10000) / 1024 ∧
        0xd800 + (c.toNat - 0x10000) / 1024 < 0xdc00 := by omega
    rw [hhex, hhex']
    show readChar (backslash :: 'u' :: a :: b :: d :: e :: backslash :: 'u' :: a' :: b' :: d' :: e' :: cs) = _
    rw [hescape, readEscape, hn]
    unfold readCode
    rw [if_pos hhigh]
    dsimp only
    rw [hn', ofNat_eq (c := c) (by omega)]

/-- The code of a character is no closing quote. -/
theorem escapeChar_head (c : Char) : ∃ d cs, escapeChar c = d :: cs ∧ d ≠ dquote := by
  have hne : backslash ≠ dquote := by decide
  unfold escapeChar
  dsimp only
  split_ifs with h₁ h₂ h₃ h₄ h₅ h₆ h₇ h₈
  · exact ⟨_, _, rfl, hne⟩
  · exact ⟨_, _, rfl, hne⟩
  · exact ⟨_, _, rfl, hne⟩
  · exact ⟨_, _, rfl, hne⟩
  · exact ⟨_, _, rfl, hne⟩
  · exact ⟨_, _, rfl, hne⟩
  · exact ⟨_, _, rfl, fun h => h₁ (Or.inl h)⟩
  · exact ⟨_, _, rfl, hne⟩
  · exact ⟨_, _, rfl, hne⟩

/-- The text between the quotes determines the string. -/
theorem escapes_inj {xs ys s t : List Char}
    (h : xs.flatMap escapeChar ++ dquote :: s = ys.flatMap escapeChar ++ dquote :: t) :
    xs = ys ∧ s = t := by
  have hquote (c : Char) (l r : List Char) : dquote :: l ≠ escapeChar c ++ r := by
    obtain ⟨d, cs, hd, hne⟩ := escapeChar_head c
    rw [hd]
    intro h
    exact hne (List.cons.inj h).1.symm
  induction xs generalizing ys with
  | nil =>
    cases ys with
    | nil => exact ⟨rfl, (List.cons.inj h).2⟩
    | cons y ys =>
      rw [List.flatMap_cons, List.append_assoc] at h
      exact absurd h (hquote y _ _)
  | cons x xs ih =>
    rw [List.flatMap_cons, List.append_assoc] at h
    cases ys with
    | nil => exact absurd h.symm (hquote x _ _)
    | cons y ys =>
      rw [List.flatMap_cons, List.append_assoc] at h
      have hread := congrArg readChar h
      rw [readChar_escapeChar, readChar_escapeChar, Option.some.injEq, Prod.mk.injEq] at hread
      obtain ⟨rfl, hrest⟩ := hread
      obtain ⟨rfl, hst⟩ := ih hrest
      exact ⟨rfl, hst⟩

/-- **A printed string** determines the string, and where it ends. -/
theorem dumpsStr_append_inj {k l : String} {s t : List Char}
    (h : (dumpsStr k).toList ++ s = (dumpsStr l).toList ++ t) : k = l ∧ s = t := by
  rw [dumpsStr, dumpsStr, String.toList_ofList, String.toList_ofList] at h
  simp only [List.cons_append, List.append_assoc, List.nil_append] at h
  obtain ⟨hkl, hst⟩ := escapes_inj (List.cons.inj h).2
  exact ⟨String.toList_inj.1 hkl, hst⟩

/-! ## Numbers -/

/-- The characters of a printed number. -/
def isNumeric (c : Char) : Bool := c.isDigit || c == '-' || c == '+' || c == '.' || c == 'e'

/-- What follows goes on with no number. -/
def Closed (s : List Char) : Prop := ∀ c ∈ s.head?, isNumeric c = false

theorem closed_nil : Closed [] := by simp [Closed]

theorem closed_cons {c : Char} (hc : isNumeric c = false) (s : List Char) : Closed (c :: s) := by
  simpa [Closed] using hc

/-- A number ends where its characters do. -/
theorem numeric_append_inj {a b s t : List Char} (ha : ∀ c ∈ a, isNumeric c = true)
    (hb : ∀ c ∈ b, isNumeric c = true) (hs : Closed s) (ht : Closed t) (h : a ++ s = b ++ t) :
    a = b ∧ s = t := by
  induction a generalizing b with
  | nil =>
    cases b with
    | nil => exact ⟨rfl, h⟩
    | cons d b =>
      obtain rfl : s = d :: (b ++ t) := h
      have hd := hs d rfl
      rw [hb d List.mem_cons_self] at hd
      cases hd
  | cons c a ih =>
    obtain ⟨hc, ha⟩ := List.forall_mem_cons.1 ha
    cases b with
    | nil =>
      obtain rfl : c :: (a ++ s) = t := h
      have hd := ht c rfl
      rw [hc] at hd
      cases hd
    | cons d b =>
      obtain ⟨rfl, hrest⟩ := List.cons.inj h
      obtain ⟨rfl, hst⟩ := ih ha (List.forall_mem_cons.1 hb).2 hrest
      exact ⟨rfl, hst⟩

theorem natRepr_inj {m n : ℕ} (h : m.repr = n.repr) : m = n := by
  have hdigits := congrArg String.toList h
  rw [Nat.toList_repr, Nat.toList_repr] at hdigits
  rw [← Nat.ofDigitChars_ten_toDigits (n := m), hdigits, Nat.ofDigitChars_ten_toDigits]

theorem isDigit_natRepr {n : ℕ} : ∀ c ∈ n.repr.toList, c.isDigit = true := by
  intro c hc
  rw [Nat.toList_repr] at hc
  exact Nat.isDigit_of_mem_toDigits (by decide) (by decide) hc

/-- The digits of a natural number, after a minus sign if it is negative. -/
theorem toList_intRepr (n : ℤ) :
    ∃ m : ℕ, n = m ∧ (toString n).toList = m.repr.toList ∨
      n = Int.negSucc m ∧ (toString n).toList = '-' :: (m + 1).repr.toList := by
  cases n with
  | ofNat m => exact ⟨m, Or.inl ⟨rfl, rfl⟩⟩
  | negSucc m =>
    refine ⟨m, Or.inr ⟨rfl, ?_⟩⟩
    show ("-" ++ (m + 1).repr).toList = _
    rw [String.toList_append]
    rfl

theorem intRepr_inj {m n : ℤ} (h : toString m = toString n) : m = n := by
  have hlist := congrArg String.toList h
  have hminus (k l : ℕ) : k.repr.toList ≠ '-' :: l.repr.toList := by
    intro h
    have hdigit := isDigit_natRepr '-' (h ▸ List.mem_cons_self)
    cases hdigit
  obtain ⟨a, ⟨rfl, ha⟩ | ⟨rfl, ha⟩⟩ := toList_intRepr m <;>
    obtain ⟨b, ⟨rfl, hb⟩ | ⟨rfl, hb⟩⟩ := toList_intRepr n <;> rw [ha, hb] at hlist
  · rw [natRepr_inj (String.toList_inj.1 hlist)]
  · exact absurd hlist (hminus _ _)
  · exact absurd hlist.symm (hminus _ _)
  · have hsucc := natRepr_inj (String.toList_inj.1 (List.cons.inj hlist).2)
    rw [Nat.succ_injective hsucc]

/-- An integer is printed with digits and a minus sign. -/
theorem mem_intRepr {n : ℤ} : ∀ c ∈ (toString n).toList, c.isDigit = true ∨ c = '-' := by
  intro c hc
  obtain ⟨m, ⟨-, h⟩ | ⟨-, h⟩⟩ := toList_intRepr n <;> rw [h] at hc
  · exact Or.inl (isDigit_natRepr c hc)
  · rcases List.mem_cons.1 hc with rfl | hc
    · exact Or.inr rfl
    · exact Or.inl (isDigit_natRepr c hc)

theorem intRepr_ne_nil (n : ℤ) : (toString n).toList ≠ [] := by
  have hrepr (m : ℕ) : m.repr.toList ≠ [] := by
    rw [Nat.toList_repr]
    exact Nat.toDigits_ne_nil
  obtain ⟨m, ⟨-, h⟩ | ⟨-, h⟩⟩ := toList_intRepr n <;> rw [h]
  · exact hrepr m
  · exact List.cons_ne_nil _ _

/-- The finite floats, with the text that `repr` gives of each: it can be read
    back, and has a point or an exponent. -/
structure FloatPrinter (φ : Type) where
  text : φ → String
  injective : Function.Injective text
  numeric : ∀ x, ∀ c ∈ (text x).toList, isNumeric c = true
  marked : ∀ x, '.' ∈ (text x).toList ∨ 'e' ∈ (text x).toList

/-- A float is not printed as an integer. -/
theorem FloatPrinter.text_ne_toString {φ : Type} (F : FloatPrinter φ) (x : φ) (n : ℤ) :
    (F.text x).toList ≠ (toString n).toList := by
  intro h
  have hno (c : Char) (hc : c ∈ (F.text x).toList) : c.isDigit = true ∨ c = '-' :=
    mem_intRepr c (h ▸ hc)
  rcases F.marked x with hc | hc
  · exact absurd (hno _ hc) (by decide)
  · exact absurd (hno _ hc) (by decide)

/-! ## Lists of texts -/

section
variable {α : Type}

/-- The text of `x` ends where no number goes on, and determines `x` up to `R`. -/
def UniqueAt (text : α → List Char) (R : α → α → Prop) (x : α) : Prop :=
  ∀ y s t, Closed s → Closed t → text x ++ s = text y ++ t → R x y ∧ s = t

variable {text : α → List Char} {R : α → α → Prop} {close : Char} {xs ys : List α} {s t : List Char}

/-- What follows a text in a list is a comma or the end. -/
theorem closed_tails (hclose : isNumeric close = false) (xs : List α) (s : List Char) :
    Closed (xs.flatMap (fun x => ',' :: text x) ++ close :: s) := by
  cases xs with
  | nil => exact closed_cons hclose s
  | cons x xs => exact closed_cons (by decide) _

theorem tails_unique (hclose : isNumeric close = false ∧ close ≠ ',')
    (hxs : ∀ x ∈ xs, UniqueAt text R x)
    (h : xs.flatMap (fun x => ',' :: text x) ++ close :: s =
      ys.flatMap (fun x => ',' :: text x) ++ close :: t) : List.Forall₂ R xs ys ∧ s = t := by
  induction xs generalizing ys with
  | nil =>
    cases ys with
    | nil => exact ⟨.nil, (List.cons.inj h).2⟩
    | cons y ys => exact absurd (List.cons.inj h).1 hclose.2
  | cons x xs ih =>
    obtain ⟨hx, hxs⟩ := List.forall_mem_cons.1 hxs
    cases ys with
    | nil => exact absurd (List.cons.inj h).1.symm hclose.2
    | cons y ys =>
      simp only [List.flatMap_cons, List.cons_append, List.append_assoc, List.cons.injEq,
        true_and] at h
      obtain ⟨hxy, hrest⟩ := hx y _ _ (closed_tails hclose.1 xs s) (closed_tails hclose.1 ys t) h
      obtain ⟨hall, hst⟩ := ih hxs hrest
      exact ⟨.cons hxy hall, hst⟩

theorem intercalate_cons (x : List Char) (xs : List (List Char)) :
    [','].intercalate (x :: xs) = x ++ xs.flatMap fun y => ',' :: y := by
  induction xs generalizing x with
  | nil => simp
  | cons y xs ih =>
    rw [List.intercalate_cons_cons, ih, List.flatMap_cons, List.append_assoc]
    rfl

/-- **A list of texts** with commas between them, up to its closing bracket. -/
theorem intercalate_unique (hclose : isNumeric close = false ∧ close ≠ ',')
    (hfirst : ∀ x, ∃ c cs, text x = c :: cs ∧ c ≠ close) (hxs : ∀ x ∈ xs, UniqueAt text R x)
    (h : [','].intercalate (xs.map text) ++ close :: s = [','].intercalate (ys.map text) ++ close :: t) :
    List.Forall₂ R xs ys ∧ s = t := by
  have hne (x : α) (l r : List Char) : close :: l ≠ text x ++ r := by
    obtain ⟨c, cs, hx, hc⟩ := hfirst x
    rw [hx]
    exact fun h => hc (List.cons.inj h).1.symm
  cases xs with
  | nil =>
    cases ys with
    | nil => exact ⟨.nil, (List.cons.inj h).2⟩
    | cons y ys =>
      rw [List.map_cons, intercalate_cons, List.append_assoc] at h
      exact absurd h (hne y _ _)
  | cons x xs =>
    obtain ⟨hx, hxs⟩ := List.forall_mem_cons.1 hxs
    rw [List.map_cons, intercalate_cons, List.flatMap_map, List.append_assoc] at h
    cases ys with
    | nil => exact absurd h.symm (hne x _ _)
    | cons y ys =>
      rw [List.map_cons, intercalate_cons, List.flatMap_map, List.append_assoc] at h
      obtain ⟨hxy, hrest⟩ := hx y _ _ (closed_tails hclose.1 xs s) (closed_tails hclose.1 ys t) h
      obtain ⟨hall, hst⟩ := tails_unique hclose hxs hrest
      exact ⟨.cons hxy hall, hst⟩

end

/-! ## Values -/

/-- A JSON value, with floats of type `φ`. -/
inductive JsonTree (φ : Type) where
  | null
  | bool (b : Bool)
  | int (n : ℤ)
  | float (x : φ)
  | str (s : String)
  | arr (xs : List (JsonTree φ))
  | obj (entries : List (String × JsonTree φ))

namespace JsonTree
variable {φ : Type}

/-- Induction, with the hypothesis for every member of a list or dictionary. -/
theorem inductMembers {motive : JsonTree φ → Prop} (null : motive .null)
    (bool : ∀ b, motive (.bool b)) (int : ∀ n, motive (.int n)) (float : ∀ x, motive (.float x))
    (str : ∀ s, motive (.str s)) (arr : ∀ xs, (∀ x ∈ xs, motive x) → motive (.arr xs))
    (obj : ∀ es, (∀ e ∈ es, motive e.2) → motive (.obj es)) (x : JsonTree φ) : motive x := by
  refine @JsonTree.rec φ motive (fun xs => ∀ x ∈ xs, motive x) (fun es => ∀ e ∈ es, motive e.2)
    (fun e => motive e.2) null bool int float str arr obj ?_ ?_ ?_ ?_ ?_ x
  · simp
  · exact fun x xs hx hxs => List.forall_mem_cons.2 ⟨hx, hxs⟩
  · simp
  · exact fun e es he hes => List.forall_mem_cons.2 ⟨he, hes⟩
  · exact fun _ _ h => h

section
variable (text : φ → String)

mutual
/-- `json.dumps(v, sort_keys=True, separators=(",", ":"))`. -/
def print : JsonTree φ → String
  | .null => "null"
  | .bool true => "true"
  | .bool false => "false"
  | .int n => toString n
  | .float x => text x
  | .str s => dumpsStr s
  | .arr xs => "[" ++ ",".intercalate (printItems xs) ++ "]"
  | .obj es =>
    "\x7b" ++ ",".intercalate ((sortKeys (printEntries es)).map fun e => dumpsStr e.1 ++ ":" ++ e.2) ++
      "\x7d"

def printItems : List (JsonTree φ) → List String
  | [] => []
  | x :: xs => x.print :: printItems xs

/-- The text of every value, under its key. -/
def printEntries : List (String × JsonTree φ) → List (String × String)
  | [] => []
  | (k, v) :: es => (k, v.print) :: printEntries es
end

/-- The text of an entry. -/
def entryText (e : String × JsonTree φ) : List Char :=
  (dumpsStr e.1).toList ++ ':' :: (e.2.print text).toList

end

/-- The same value, but for the order of the keys at every depth. -/
inductive Same : JsonTree φ → JsonTree φ → Prop
  | null : Same .null .null
  | bool (b : Bool) : Same (.bool b) (.bool b)
  | int (n : ℤ) : Same (.int n) (.int n)
  | float (x : φ) : Same (.float x) (.float x)
  | str (s : String) : Same (.str s) (.str s)
  | arr {xs ys : List (JsonTree φ)} (h : List.Forall₂ Same xs ys) : Same (.arr xs) (.arr ys)
  | obj {es es' fs fs' : List (String × JsonTree φ)} (hes : es.Perm es') (hfs : fs.Perm fs')
      (hkeys : es'.map Prod.fst = fs'.map Prod.fst)
      (hvalues : List.Forall₂ Same (es'.map Prod.snd) (fs'.map Prod.snd)) :
      Same (.obj es) (.obj fs)

mutual
/-- No dictionary has a key twice. -/
def Keyed : JsonTree φ → Prop
  | .arr xs => KeyedItems xs
  | .obj es => (es.map Prod.fst).Nodup ∧ KeyedEntries es
  | _ => True

def KeyedItems : List (JsonTree φ) → Prop
  | [] => True
  | x :: xs => x.Keyed ∧ KeyedItems xs

def KeyedEntries : List (String × JsonTree φ) → Prop
  | [] => True
  | (_, v) :: es => v.Keyed ∧ KeyedEntries es
end

theorem keyedItems_iff {xs : List (JsonTree φ)} : KeyedItems xs ↔ ∀ x ∈ xs, x.Keyed := by
  induction xs with
  | nil => simp [KeyedItems]
  | cons x xs ih => rw [KeyedItems, ih, List.forall_mem_cons]

theorem keyedEntries_iff {es : List (String × JsonTree φ)} :
    KeyedEntries es ↔ ∀ e ∈ es, e.2.Keyed := by
  induction es with
  | nil => simp [KeyedEntries]
  | cons e es ih =>
    obtain ⟨k, v⟩ := e
    rw [KeyedEntries, ih, List.forall_mem_cons]

/-! ### Printing -/

section
variable {F : FloatPrinter φ}

theorem printItems_eq (xs : List (JsonTree φ)) : printItems F.text xs = xs.map (print F.text) := by
  induction xs with
  | nil => rfl
  | cons x xs ih => rw [printItems, ih, List.map_cons]

theorem printEntries_eq (es : List (String × JsonTree φ)) :
    printEntries F.text es = es.map fun e => (e.1, e.2.print F.text) := by
  induction es with
  | nil => rfl
  | cons e es ih => rw [printEntries, ih, List.map_cons]

/-- Sorting by key looks at the keys only. -/
theorem sortKeys_map {α β : Type} (f : α → β) (es : List (String × α)) :
    sortKeys (es.map fun e => (e.1, f e.2)) = (sortKeys es).map fun e => (e.1, f e.2) :=
  (List.map_insertionSort (fun e e' : String × α => e.1 ≤ e'.1) (fun e e' : String × β => e.1 ≤ e'.1)
    (fun e => (e.1, f e.2)) es fun _ _ _ _ => Iff.rfl).symm

theorem toList_print_arr (xs : List (JsonTree φ)) :
    ((JsonTree.arr xs).print F.text).toList =
      '[' :: ([','].intercalate (xs.map fun x => (x.print F.text).toList) ++ [']']) := by
  rw [print, printItems_eq]
  simp [String.toList_intercalate, Function.comp_def]

theorem toList_print_obj (es : List (String × JsonTree φ)) :
    ((JsonTree.obj es).print F.text).toList =
      '\x7b' :: ([','].intercalate ((sortKeys es).map (entryText F.text)) ++ ['\x7d']) := by
  have hentry (e : String × JsonTree φ) :
      entryText F.text e = (dumpsStr e.1 ++ ":" ++ e.2.print F.text).toList := by simp [entryText]
  rw [print, printEntries_eq, sortKeys_map, funext hentry]
  simp [String.toList_intercalate, Function.comp_def]

/-! ### The first character -/

/-- What the first character of a text tells about the value. -/
inductive Kind where
  | null
  | bool (b : Bool)
  | number
  | str
  | arr
  | obj
  /-- no value begins so -/
  | none

def Kind.ofFirst (c : Char) : Kind :=
  if c = 'n' then .null
  else if c = 't' then .bool true
  else if c = 'f' then .bool false
  else if c = dquote then .str
  else if c = '[' then .arr
  else if c = '\x7b' then .obj
  else if isNumeric c then .number
  else .none

def kind : JsonTree φ → Kind
  | .null => .null
  | .bool b => .bool b
  | .int _ | .float _ => .number
  | .str _ => .str
  | .arr _ => .arr
  | .obj _ => .obj

theorem ofFirst_numeric {c : Char} (hc : isNumeric c = true) : Kind.ofFirst c = .number := by
  unfold Kind.ofFirst
  split_ifs with h h h h h h
  · exact absurd hc (h ▸ by decide)
  · exact absurd hc (h ▸ by decide)
  · exact absurd hc (h ▸ by decide)
  · exact absurd hc (h ▸ by decide)
  · exact absurd hc (h ▸ by decide)
  · exact absurd hc (h ▸ by decide)
  · rfl

theorem numeric_int {n : ℤ} : ∀ c ∈ ((JsonTree.int n : JsonTree φ).print F.text).toList, isNumeric c = true := by
  intro c hc
  rw [print] at hc
  rcases mem_intRepr c hc with h | rfl
  · simp [isNumeric, h]
  · decide

/-- **The first character** of a text tells the kind of its value. -/
theorem print_first (x : JsonTree φ) :
    ∃ c cs, (x.print F.text).toList = c :: cs ∧ Kind.ofFirst c = x.kind := by
  cases x with
  | null => exact ⟨'n', "ull".toList, by rw [print]; decide +kernel, rfl⟩
  | bool b =>
    cases b
    · exact ⟨'f', "alse".toList, by rw [print]; decide +kernel, rfl⟩
    · exact ⟨'t', "rue".toList, by rw [print]; decide +kernel, rfl⟩
  | int n =>
    obtain ⟨c, cs, h⟩ := List.exists_cons_of_ne_nil (intRepr_ne_nil n)
    have hc := numeric_int (F := F) (n := n) c (by rw [print, h]; exact List.mem_cons_self)
    exact ⟨c, cs, h, ofFirst_numeric hc⟩
  | float x =>
    have hne : (F.text x).toList ≠ [] := by
      rcases F.marked x with h | h <;> exact List.ne_nil_of_mem h
    obtain ⟨c, cs, h⟩ := List.exists_cons_of_ne_nil hne
    exact ⟨c, cs, h, ofFirst_numeric (F.numeric x c (by rw [h]; exact List.mem_cons_self))⟩
  | str s => exact ⟨dquote, _, by rw [print, dumpsStr, String.toList_ofList]; rfl, rfl⟩
  | arr xs => exact ⟨'[', _, toList_print_arr xs, rfl⟩
  | obj es => exact ⟨'\x7b', _, toList_print_obj es, rfl⟩

/-- Values with one text, and more after it, are of one kind. -/
theorem kind_eq {x y : JsonTree φ} {s t : List Char}
    (h : (x.print F.text).toList ++ s = (y.print F.text).toList ++ t) : x.kind = y.kind := by
  obtain ⟨c, cs, hx, hc⟩ := print_first (F := F) x
  obtain ⟨d, ds, hy, hd⟩ := print_first (F := F) y
  rw [hx, hy] at h
  rw [← hc, ← hd, (List.cons.inj h).1]

/-- A text does not begin with the bracket that closes a list. -/
theorem print_ne_close (x : JsonTree φ) : ∃ c cs, (x.print F.text).toList = c :: cs ∧ c ≠ ']' := by
  obtain ⟨c, cs, hx, hc⟩ := print_first (F := F) x
  refine ⟨c, cs, hx, ?_⟩
  rintro rfl
  replace hc : Kind.none = x.kind := hc
  cases x <;> cases hc

/-! ### What a text determines -/

theorem forall₂_entries {es fs : List (String × JsonTree φ)}
    (h : List.Forall₂ (fun e f => e.1 = f.1 ∧ Same e.2 f.2) es fs) :
    es.map Prod.fst = fs.map Prod.fst ∧ List.Forall₂ Same (es.map Prod.snd) (fs.map Prod.snd) := by
  induction h with
  | nil => exact ⟨rfl, .nil⟩
  | cons hef _ ih => exact ⟨by rw [List.map_cons, List.map_cons, hef.1, ih.1], .cons hef.2 ih.2⟩

theorem entryText_ne_close (e : String × JsonTree φ) :
    ∃ c cs, entryText F.text e = c :: cs ∧ c ≠ '\x7d' :=
  ⟨dquote, _, by rw [entryText, dumpsStr, String.toList_ofList]; rfl, by decide⟩

/-- The key is read first, and the text of the value behind the colon. -/
theorem entry_unique {e : String × JsonTree φ}
    (hvalue : UniqueAt (fun x => (x.print F.text).toList) Same e.2) :
    UniqueAt (entryText F.text) (fun e f => e.1 = f.1 ∧ Same e.2 f.2) e := by
  intro f s t hs ht h
  simp only [entryText, List.append_assoc] at h
  obtain ⟨hkey, hrest⟩ := dumpsStr_append_inj h
  obtain ⟨hsame, hst⟩ := hvalue f.2 s t hs ht (List.cons.inj hrest).2
  exact ⟨⟨hkey, hsame⟩, hst⟩

/-- **Unique decoding**: a text ends where no number goes on, and determines the
    value up to the order of keys. -/
theorem unique (x : JsonTree φ) : UniqueAt (fun x => (x.print F.text).toList) Same x := by
  induction x using inductMembers with
  | null =>
    intro y s t _ _ h
    have hkind := kind_eq h
    cases y with
    | null => exact ⟨.null, List.append_cancel_left h⟩
    | _ => cases hkind
  | bool b =>
    intro y s t _ _ h
    have hkind := kind_eq h
    cases y with
    | bool b' =>
      obtain rfl := Kind.bool.inj hkind
      exact ⟨.bool b, List.append_cancel_left h⟩
    | _ => cases hkind
  | int n =>
    intro y s t hs ht h
    have hkind := kind_eq h
    cases y with
    | int m =>
      obtain ⟨hnm, hst⟩ := numeric_append_inj numeric_int numeric_int hs ht h
      obtain rfl := intRepr_inj (String.toList_inj.1 hnm)
      exact ⟨.int n, hst⟩
    | float x =>
      obtain ⟨hnx, -⟩ := numeric_append_inj numeric_int (F.numeric x) hs ht h
      exact absurd hnx.symm (F.text_ne_toString x n)
    | _ => cases hkind
  | float x =>
    intro y s t hs ht h
    have hkind := kind_eq h
    cases y with
    | int m =>
      obtain ⟨hxm, -⟩ := numeric_append_inj (F.numeric x) numeric_int hs ht h
      exact absurd hxm (F.text_ne_toString x m)
    | float y =>
      obtain ⟨hxy, hst⟩ := numeric_append_inj (F.numeric x) (F.numeric y) hs ht h
      obtain rfl := F.injective (String.toList_inj.1 hxy)
      exact ⟨.float x, hst⟩
    | _ => cases hkind
  | str k =>
    intro y s t _ _ h
    have hkind := kind_eq h
    cases y with
    | str l =>
      obtain ⟨rfl, hst⟩ := dumpsStr_append_inj h
      exact ⟨.str k, hst⟩
    | _ => cases hkind
  | arr xs ih =>
    intro y s t _ _ h
    have hkind := kind_eq h
    cases y with
    | arr ys =>
      simp only [toList_print_arr, List.cons_append, List.append_assoc, List.nil_append,
        List.cons.injEq, true_and] at h
      obtain ⟨hall, hst⟩ := intercalate_unique (by decide) print_ne_close ih h
      exact ⟨.arr hall, hst⟩
    | _ => cases hkind
  | obj es ih =>
    intro y s t _ _ h
    have hkind := kind_eq h
    cases y with
    | obj fs =>
      simp only [toList_print_obj, List.cons_append, List.append_assoc, List.nil_append,
        List.cons.injEq, true_and] at h
      have hentries : ∀ e ∈ sortKeys es,
          UniqueAt (entryText F.text) (fun e f => e.1 = f.1 ∧ Same e.2 f.2) e :=
        fun e he => entry_unique (ih e ((List.perm_insertionSort _ es).mem_iff.1 he))
      obtain ⟨hall, hst⟩ := intercalate_unique (by decide) entryText_ne_close hentries h
      obtain ⟨hkeys, hvalues⟩ := forall₂_entries hall
      exact ⟨.obj (List.perm_insertionSort _ es).symm (List.perm_insertionSort _ fs).symm hkeys hvalues,
        hst⟩
    | _ => cases hkind

/-! ### What a text forgets -/

theorem map_eq_of_forall₂ {α β γ : Type} {f : α → γ} {g : β → γ} {R : α → β → Prop} {xs : List α}
    {ys : List β} (h : List.Forall₂ R xs ys) (hR : ∀ x ∈ xs, ∀ y, R x y → f x = g y) :
    xs.map f = ys.map g := by
  induction h with
  | nil => rfl
  | cons hxy _ ih =>
    obtain ⟨hx, hxs⟩ := List.forall_mem_cons.1 hR
    rw [List.map_cons, List.map_cons, hx _ hxy, ih hxs]

/-- The same values have one text, if no dictionary has a key twice. -/
theorem print_eq_of_same {x y : JsonTree φ} (hkeyed : x.Keyed) (h : Same x y) :
    x.print F.text = y.print F.text := by
  induction x using inductMembers generalizing y with
  | null | bool b | int n | float x | str s => cases h; rfl
  | arr xs ih =>
    cases h with
    | arr hall =>
      rw [Keyed, keyedItems_iff] at hkeyed
      have hitems : xs.map (print F.text) = _ :=
        map_eq_of_forall₂ hall fun x hx y hxy => ih x hx (hkeyed x hx) hxy
      rw [print, print, printItems_eq, printItems_eq, hitems]
  | obj es ih =>
    cases h with
    | @obj _ es' fs fs' hes hfs hkeys hvalues =>
      rw [Keyed, keyedEntries_iff] at hkeyed
      obtain ⟨hnodup, hkeyed⟩ := hkeyed
      have hvalue : ∀ v ∈ es'.map Prod.snd, ∀ w, Same v w → v.print F.text = w.print F.text := by
        intro v hv w hvw
        obtain ⟨e, he, rfl⟩ := List.mem_map.1 hv
        have hmem : e ∈ es := hes.mem_iff.2 he
        exact ih e hmem (hkeyed e hmem) hvw
      have htexts : es'.map (fun e => (e.1, e.2.print F.text)) = fs'.map fun e => (e.1, e.2.print F.text) := by
        have hsnd := map_eq_of_forall₂ hvalues hvalue
        rw [List.map_map, List.map_map] at hsnd
        have hzip := congrArg₂ List.zip hkeys hsnd
        rwa [List.zip_map', List.zip_map'] at hzip
      have hperm : (es.map fun e => (e.1, e.2.print F.text)).Perm (fs.map fun e => (e.1, e.2.print F.text)) :=
        (hes.map _).trans (htexts ▸ (hfs.map _).symm)
      have hkeys' : ((es.map fun e => (e.1, e.2.print F.text)).map Prod.fst).Nodup := by
        rw [List.map_map]
        exact hnodup
      rw [print, print, printEntries_eq, printEntries_eq, sortKeys_perm hkeys' hperm]

/-- **The text identifies the value**, but for the order of keys. -/
theorem print_eq_iff {x y : JsonTree φ} (hkeyed : x.Keyed) : x.print F.text = y.print F.text ↔ Same x y := by
  constructor
  · intro h
    have hlist : (x.print F.text).toList ++ [] = (y.print F.text).toList ++ [] := by rw [h]
    exact (unique x y [] [] closed_nil closed_nil hlist).1
  · exact print_eq_of_same hkeyed

end

end JsonTree

/-! ### Values with rational floats -/

mutual
/-- A value, with its floats as rational numbers. -/
def Json.tree : Json → JsonTree ℚ
  | .null => .null
  | .bool b => .bool b
  | .int n => .int n
  | .float q => .float q
  | .str s => .str s
  | .arr xs => .arr (treeItems xs)
  | .obj kvs => .obj (treeEntries kvs)

def treeItems : List Json → List (JsonTree ℚ)
  | [] => []
  | x :: xs => x.tree :: treeItems xs

def treeEntries : Obj → List (String × JsonTree ℚ)
  | [] => []
  | (k, v) :: kvs => (k, v.tree) :: treeEntries kvs
end

mutual
/-- `Json.dumps` prints the tree of a value. -/
theorem dumps_eq_print (P : Printer) : ∀ v : Json, v.dumps P = v.tree.print P.float
  | .null => by rw [Json.dumps, Json.tree, JsonTree.print]
  | .bool true => by rw [Json.dumps, Json.tree, JsonTree.print]
  | .bool false => by rw [Json.dumps, Json.tree, JsonTree.print]
  | .int n => by rw [Json.dumps, Json.tree, JsonTree.print]
  | .float q => by rw [Json.dumps, Json.tree, JsonTree.print]
  | .str s => by rw [Json.dumps, Json.tree, JsonTree.print]
  | .arr xs => by rw [Json.dumps, Json.tree, JsonTree.print, dumpsItems_eq_print P xs]
  | .obj kvs => by rw [Json.dumps, Json.tree, JsonTree.print, dumpsEntries_eq_print P kvs]

theorem dumpsItems_eq_print (P : Printer) : ∀ xs : List Json,
    dumpsItems P xs = JsonTree.printItems P.float (treeItems xs)
  | [] => by rw [dumpsItems, treeItems, JsonTree.printItems]
  | x :: xs => by
    rw [dumpsItems, treeItems, JsonTree.printItems, dumps_eq_print P x, dumpsItems_eq_print P xs]

theorem dumpsEntries_eq_print (P : Printer) : ∀ kvs : Obj,
    dumpsEntries P kvs = JsonTree.printEntries P.float (treeEntries kvs)
  | [] => by rw [dumpsEntries, treeEntries, JsonTree.printEntries]
  | (k, v) :: kvs => by
    rw [dumpsEntries, treeEntries, JsonTree.printEntries, dumps_eq_print P v,
      dumpsEntries_eq_print P kvs]
end

end PyData
