/-
  Regular expressions, searched and substituted as by Python's `re`.

  A text is matched between the characters before it, in reverse, and those
  after it: `r.Matches word before m after`.  The matcher lists where a match
  can end, in the order in which backtracking tries (`ends`), and the first of
  these is what a search finds.

  * `mem_ends_iff`: the matcher finds exactly the matches;
  * `Matches.context`: a match depends on its surroundings only through the word
    boundaries, and not at all if the pattern has none (`Matches.anywhere`);
  * `Replaced.match_of_output`: what a pattern matches in the result of a
    substitution it matched in the text, where nothing was replaced;
  * `not_contains_sub`, `contains_of_sub`, `sub_eq_self`: a substitution leaves
    no match of its pattern, makes none of another, and changes nothing where
    there is none.
-/
import Mathlib.Data.List.Basic

namespace PyStr

/-- A regular expression; repetitions are greedy. -/
inductive Regex where
  /-- the empty text -/
  | nil
  /-- `\b` -/
  | boundary
  /-- a character class -/
  | one (p : Char → Bool)
  /-- a character class at least `lo` times -/
  | many (p : Char → Bool) (lo : ℕ)
  | seq (r q : Regex)
  | alt (r q : Regex)
  /-- a pattern `lo` to `hi` times -/
  | rep (r : Regex) (lo hi : ℕ)

/-- A position in a text: the characters before it, the nearest first, and those
    after it. -/
structure Cursor where
  before : List Char
  after : List Char
  deriving DecidableEq

/-- The classes `\w` and `\d` of the Unicode tables. -/
structure CharTables where
  word : Char → Bool
  digit : Char → Bool
  word_of_digit : ∀ c, digit c = true → word c = true
  word_ascii : ∀ c : Char, c.toNat < 128 → word c = (c.isAlphanum || c == '_')
  digit_ascii : ∀ c : Char, c.toNat < 128 → digit c = c.isDigit

/-- The tables of ASCII. -/
def CharTables.ascii : CharTables where
  word c := c.isAlphanum || c == '_'
  digit := Char.isDigit
  word_of_digit c h := by simp [Char.isAlphanum, h]
  word_ascii _ _ := rfl
  digit_ascii _ _ := rfl

theorem CharTables.word_isUpper (T : CharTables) {c : Char} (hc : c.isUpper = true) :
    T.word c = true := by
  have hascii : c.toNat < 128 := by
    have hle : c.toNat ≤ 90 := (of_decide_eq_true hc).2
    omega
  rw [T.word_ascii c hascii]
  show ((c.isUpper || c.isLower) || c.isDigit || c == '_') = true
  rw [hc]
  rfl

section
variable (word : Char → Bool)

/-- Whether the nearest character is one of a word. -/
def headWord : List Char → Bool
  | [] => false
  | c :: _ => word c

namespace Regex

/-! ## The matcher -/

/-- Where a class can end, most characters first. -/
def manyEnds (p : Char → Bool) : ℕ → List Char → List Char → List Cursor
  | lo, before, [] => if lo = 0 then [⟨before, []⟩] else []
  | lo, before, c :: cs =>
    (if p c then manyEnds p (lo - 1) (c :: before) cs else []) ++
      if lo = 0 then [⟨before, c :: cs⟩] else []

/-- Where a repetition can end, most rounds first. -/
def repEnds (step : Cursor → List Cursor) : ℕ → ℕ → Cursor → List Cursor
  | lo, 0, x => if lo = 0 then [x] else []
  | lo, hi + 1, x => (step x).flatMap (repEnds step (lo - 1) hi) ++ if lo = 0 then [x] else []

/-- Where a match from `x` can end, in the order in which backtracking tries. -/
def ends : Regex → Cursor → List Cursor
  | nil, x => [x]
  | boundary, x => if headWord word x.before = headWord word x.after then [] else [x]
  | one _, ⟨_, []⟩ => []
  | one p, ⟨before, c :: cs⟩ => if p c then [⟨c :: before, cs⟩] else []
  | many p lo, x => manyEnds p lo x.before x.after
  | seq r q, x => (r.ends x).flatMap q.ends
  | alt r q, x => r.ends x ++ q.ends x
  | rep r lo hi, x => repEnds r.ends lo hi x

/-- Search from a position on. -/
def searchFrom (r : Regex) : List Char → List Char → Bool
  | before, [] => !(r.ends word ⟨before, []⟩).isEmpty
  | before, c :: cs => !(r.ends word ⟨before, c :: cs⟩).isEmpty || searchFrom r (c :: before) cs

/-- `re.search(r, s) is not None`. -/
def search (r : Regex) (s : String) : Bool := r.searchFrom word [] s.toList

/-- `re.search(r, s).group(0)`, from a position on. -/
def findFrom (r : Regex) : List Char → List Char → Option (List Char)
  | before, [] => (r.ends word ⟨before, []⟩).head?.map fun _ => []
  | before, c :: cs =>
    match (r.ends word ⟨before, c :: cs⟩).head? with
    | some x => some ((c :: cs).take ((c :: cs).length - x.after.length))
    | none => findFrom r (c :: before) cs

/-- `re.search(r, s).group(0)`. -/
def find (r : Regex) (s : String) : Option (List Char) := r.findFrom word [] s.toList

/-- Substitute from a position on; the next `skip` characters belong to the last
    match.  The patterns match no empty text. -/
def subFrom (r : Regex) (repl : List Char) : ℕ → List Char → List Char → List Char
  | _, _, [] => []
  | skip + 1, before, c :: cs => subFrom r repl skip (c :: before) cs
  | 0, before, c :: cs =>
    match (r.ends word ⟨before, c :: cs⟩).head? with
    | none => c :: subFrom r repl 0 (c :: before) cs
    | some x => repl ++ subFrom r repl (cs.length - x.after.length) (c :: before) cs

/-- `re.sub(r, repl, s)`. -/
def sub (r : Regex) (repl s : String) : String :=
  String.ofList (r.subFrom word repl.toList 0 [] s.toList)

/-! ## What a pattern matches -/

/-- The rounds of a repetition of `R`. -/
def RepMatches (R : List Char → List Char → List Char → Prop) :
    ℕ → ℕ → List Char → List Char → List Char → Prop
  | lo, 0, _, m, _ => lo = 0 ∧ m = []
  | lo, hi + 1, before, m, after =>
    (lo = 0 ∧ m = []) ∨
      ∃ m₁ m₂, m = m₁ ++ m₂ ∧ R before m₁ (m₂ ++ after) ∧
        RepMatches R (lo - 1) hi (m₁.reverse ++ before) m₂ after

/-- The pattern matches `m` between `before` (in reverse) and `after`. -/
def Matches : Regex → List Char → List Char → List Char → Prop
  | nil, _, m, _ => m = []
  | boundary, before, m, after => m = [] ∧ headWord word before ≠ headWord word after
  | one p, _, m, _ => ∃ c, m = [c] ∧ p c = true
  | many p lo, _, m, _ => lo ≤ m.length ∧ ∀ c ∈ m, p c = true
  | seq r q, before, m, after =>
    ∃ m₁ m₂, m = m₁ ++ m₂ ∧ r.Matches before m₁ (m₂ ++ after) ∧
      q.Matches (m₁.reverse ++ before) m₂ after
  | alt r q, before, m, after => r.Matches before m after ∨ q.Matches before m after
  | rep r lo hi, before, m, after => RepMatches r.Matches lo hi before m after

/-- A part of the text matches. -/
def Contains (r : Regex) (s : String) : Prop :=
  ∃ u m v, s.toList = u ++ m ++ v ∧ r.Matches word u.reverse m v

end Regex

end

variable {word : Char → Bool}

theorem headWord_append {m : List Char} (h : m ≠ []) (l : List Char) :
    headWord word (m ++ l) = headWord word m := by
  cases m with
  | nil => exact absurd rfl h
  | cons c m => rfl

theorem headWord_append_congr {l l' : List Char} (m : List Char)
    (h : headWord word l = headWord word l') :
    headWord word (m ++ l) = headWord word (m ++ l') := by
  cases m with
  | nil => exact h
  | cons c m => rfl

namespace Regex

/-! ## The matcher finds exactly the matches -/

/-- From `x` to `y` the pattern matches what is between them. -/
def Spans (R : List Char → List Char → List Char → Prop) (x y : Cursor) : Prop :=
  ∃ m, x.after = m ++ y.after ∧ y.before = m.reverse ++ x.before ∧ R x.before m y.after

theorem spans_nil {x y : Cursor} {P : Prop} :
    Spans (fun _ m _ => m = [] ∧ P) x y ↔ y = x ∧ P := by
  constructor
  · rintro ⟨m, hafter, hbefore, rfl, hP⟩
    obtain ⟨before, after⟩ := x
    obtain ⟨before', after'⟩ := y
    simp only [List.nil_append, List.reverse_nil] at hafter hbefore
    exact ⟨by rw [hafter, hbefore], hP⟩
  · rintro ⟨rfl, hP⟩
    exact ⟨[], rfl, rfl, rfl, hP⟩

/-- One match after the other. -/
theorem spans_seq {R Q : List Char → List Char → List Char → Prop} {x z : Cursor} :
    Spans (fun before m after => ∃ m₁ m₂, m = m₁ ++ m₂ ∧ R before m₁ (m₂ ++ after) ∧
        Q (m₁.reverse ++ before) m₂ after) x z ↔
      ∃ y, Spans R x y ∧ Spans Q y z := by
  constructor
  · rintro ⟨_, hafter, hbefore, m₁, m₂, rfl, hR, hQ⟩
    refine ⟨⟨m₁.reverse ++ x.before, m₂ ++ z.after⟩, ⟨m₁, ?_, rfl, hR⟩, m₂, rfl, ?_, hQ⟩
    · rw [hafter, List.append_assoc]
    · rw [hbefore, List.reverse_append, List.append_assoc]
  · rintro ⟨y, ⟨m₁, hafter₁, hbefore₁, hR⟩, m₂, hafter₂, hbefore₂, hQ⟩
    refine ⟨m₁ ++ m₂, ?_, ?_, m₁, m₂, rfl, ?_, ?_⟩
    · rw [hafter₁, hafter₂, List.append_assoc]
    · rw [hbefore₂, hbefore₁, List.reverse_append, List.append_assoc]
    · rwa [← hafter₂]
    · rwa [← hbefore₁]

theorem mem_manyEnds_iff {p : Char → Bool} {y : Cursor} :
    ∀ {lo : ℕ} {before after : List Char}, y ∈ manyEnds p lo before after ↔
      Spans (fun _ m _ => lo ≤ m.length ∧ ∀ c ∈ m, p c = true) ⟨before, after⟩ y := by
  intro lo before after
  have hstop (lo : ℕ) (x : Cursor) : (y ∈ if lo = 0 then [x] else []) ↔ lo = 0 ∧ y = x := by
    split_ifs with h <;> simp [h]
  induction after generalizing lo before with
  | nil =>
    rw [manyEnds, hstop]
    constructor
    · rintro ⟨rfl, rfl⟩
      exact ⟨[], rfl, rfl, by simp⟩
    · rintro ⟨m, hafter, hbefore, hlo, -⟩
      obtain ⟨rfl, hy⟩ := List.nil_eq_append_iff.1 hafter
      obtain ⟨before', after'⟩ := y
      exact ⟨Nat.le_zero.1 hlo, by simp_all⟩
  | cons c cs ih =>
    rw [manyEnds, List.mem_append, hstop]
    constructor
    · rintro (h | ⟨rfl, rfl⟩)
      · split_ifs at h with hc
        · obtain ⟨m, hafter, hbefore, hlo, hm⟩ := ih.1 h
          refine ⟨c :: m, by simpa using hafter, by simpa using hbefore, ?_, ?_⟩
          · rw [List.length_cons]; omega
          · exact List.forall_mem_cons.2 ⟨hc, hm⟩
        · cases h
      · exact ⟨[], rfl, rfl, by simp⟩
    · rintro ⟨m, hafter, hbefore, hlo, hm⟩
      cases m with
      | nil =>
        right
        obtain ⟨before', after'⟩ := y
        simp only [List.nil_append, List.reverse_nil] at hafter hbefore
        exact ⟨Nat.le_zero.1 hlo, by rw [hafter, hbefore]⟩
      | cons d m =>
        left
        obtain ⟨rfl, hcs⟩ := List.cons.inj hafter
        obtain ⟨hc, hm⟩ := List.forall_mem_cons.1 hm
        rw [if_pos hc]
        refine ih.2 ⟨m, hcs, by simpa using hbefore, ?_, hm⟩
        rw [List.length_cons] at hlo
        omega

theorem mem_repEnds_iff {R : List Char → List Char → List Char → Prop}
    {step : Cursor → List Cursor} (hstep : ∀ x y, y ∈ step x ↔ Spans R x y) {lo hi : ℕ} {x y : Cursor} :
    y ∈ repEnds step lo hi x ↔ Spans (RepMatches R lo hi) x y := by
  induction hi generalizing lo x with
  | zero =>
    have hspans : Spans (RepMatches R lo 0) x y ↔ y = x ∧ lo = 0 := by
      rw [← spans_nil]
      simp only [Spans, RepMatches, and_comm]
    rw [repEnds, hspans]
    split_ifs with h <;> simp [h]
  | succ hi ih =>
    have hspans : Spans (RepMatches R lo (hi + 1)) x y ↔
        (∃ z, Spans R x z ∧ Spans (RepMatches R (lo - 1) hi) z y) ∨ y = x ∧ lo = 0 := by
      rw [← spans_seq, ← spans_nil]
      constructor
      · rintro ⟨m, hafter, hbefore, h | h⟩
        · exact Or.inr ⟨m, hafter, hbefore, h.2, h.1⟩
        · exact Or.inl ⟨m, hafter, hbefore, h⟩
      · rintro (⟨m, hafter, hbefore, h⟩ | ⟨m, hafter, hbefore, h⟩)
        · exact ⟨m, hafter, hbefore, Or.inr h⟩
        · exact ⟨m, hafter, hbefore, Or.inl ⟨h.2, h.1⟩⟩
    rw [repEnds, hspans, List.mem_append, List.mem_flatMap]
    simp only [hstep, ih]
    refine or_congr Iff.rfl ?_
    split_ifs with h <;> simp [h]

/-- **The matcher finds exactly the matches.** -/
theorem mem_ends_iff {r : Regex} {x y : Cursor} : y ∈ r.ends word x ↔ Spans (r.Matches word) x y := by
  induction r generalizing x y with
  | nil =>
    have hspans : Spans (nil.Matches word) x y ↔ y = x ∧ True := by
      rw [← spans_nil]
      simp only [Spans, Matches, and_true]
    rw [hspans, ends, List.mem_singleton, and_true]
  | boundary =>
    have hspans : Spans (boundary.Matches word) x y ↔
        y = x ∧ headWord word x.before ≠ headWord word x.after := by
      constructor
      · rintro ⟨m, hafter, hbefore, rfl, hne⟩
        obtain ⟨rfl, -⟩ := spans_nil.1 ⟨[], hafter, hbefore, rfl, trivial⟩
        exact ⟨rfl, hne⟩
      · rintro ⟨rfl, hne⟩
        exact ⟨[], rfl, rfl, rfl, hne⟩
    rw [hspans, ends]
    split_ifs with h <;> simp [h]
  | one p =>
    obtain ⟨before, _ | ⟨c, cs⟩⟩ := x
    · rw [ends]
      refine iff_of_false (by simp) ?_
      rintro ⟨_, hafter, -, c, rfl, -⟩
      cases hafter
    · rw [ends]
      constructor
      · intro h
        split_ifs at h with hc
        · obtain rfl := List.mem_singleton.1 h
          exact ⟨[c], rfl, rfl, c, rfl, hc⟩
        · cases h
      · rintro ⟨_, hafter, hbefore, d, rfl, hd⟩
        obtain ⟨rfl, rfl⟩ := List.cons.inj hafter
        rw [if_pos hd, List.mem_singleton]
        obtain ⟨before', after'⟩ := y
        simp only at hbefore
        rw [hbefore]
        rfl
  | many p lo => exact mem_manyEnds_iff
  | seq r q ihr ihq =>
    rw [ends, List.mem_flatMap]
    simp only [ihr, ihq]
    exact spans_seq.symm
  | alt r q ihr ihq =>
    rw [ends, List.mem_append, ihr, ihq]
    constructor
    · rintro (⟨m, hafter, hbefore, h⟩ | ⟨m, hafter, hbefore, h⟩)
      · exact ⟨m, hafter, hbefore, Or.inl h⟩
      · exact ⟨m, hafter, hbefore, Or.inr h⟩
    · rintro ⟨m, hafter, hbefore, h | h⟩
      · exact Or.inl ⟨m, hafter, hbefore, h⟩
      · exact Or.inr ⟨m, hafter, hbefore, h⟩
  | rep r lo hi ih => exact mem_repEnds_iff fun _ _ => ih

theorem head?_ends_eq_none {r : Regex} {before after : List Char}
    (h : (r.ends word ⟨before, after⟩).head? = none) {m v : List Char} (hafter : after = m ++ v) :
    ¬ r.Matches word before m v := by
  intro hm
  have hmem : ⟨m.reverse ++ before, v⟩ ∈ r.ends word ⟨before, after⟩ :=
    mem_ends_iff.2 ⟨m, hafter, rfl, hm⟩
  rw [List.head?_eq_none_iff.1 h] at hmem
  cases hmem

theorem searchFrom_iff {r : Regex} {before after : List Char} :
    r.searchFrom word before after = true ↔
      ∃ u m v, after = u ++ m ++ v ∧ r.Matches word (u.reverse ++ before) m v := by
  have hhere (before after : List Char) : (!(r.ends word ⟨before, after⟩).isEmpty) = true ↔
      ∃ m v, after = m ++ v ∧ r.Matches word before m v := by
    rw [Bool.not_eq_true', List.isEmpty_eq_false_iff_exists_mem]
    simp only [mem_ends_iff]
    constructor
    · rintro ⟨y, m, hafter, -, hm⟩
      exact ⟨m, _, hafter, hm⟩
    · rintro ⟨m, v, hafter, hm⟩
      exact ⟨⟨m.reverse ++ before, v⟩, m, hafter, rfl, hm⟩
  induction after generalizing before with
  | nil =>
    rw [searchFrom, hhere]
    constructor
    · rintro ⟨m, v, hafter, hm⟩
      exact ⟨[], m, v, hafter, hm⟩
    · rintro ⟨u, m, v, hafter, hm⟩
      obtain ⟨hum, rfl⟩ := List.nil_eq_append_iff.1 hafter
      obtain ⟨rfl, rfl⟩ := List.append_eq_nil_iff.1 hum
      exact ⟨[], [], rfl, hm⟩
  | cons c cs ih =>
    rw [searchFrom, Bool.or_eq_true, hhere]
    refine (or_congr Iff.rfl ih).trans ?_
    constructor
    · rintro (⟨m, v, hafter, hm⟩ | ⟨u, m, v, hafter, hm⟩)
      · exact ⟨[], m, v, hafter, hm⟩
      · exact ⟨c :: u, m, v, by rw [hafter]; rfl, by simpa using hm⟩
    · rintro ⟨u, m, v, hafter, hm⟩
      cases u with
      | nil => exact Or.inl ⟨m, v, hafter, hm⟩
      | cons d u =>
        obtain ⟨rfl, hcs⟩ := List.cons.inj hafter
        exact Or.inr ⟨u, m, v, hcs, by simpa using hm⟩

/-- **A search finds a match iff there is one.** -/
theorem search_iff {r : Regex} {s : String} : r.search word s = true ↔ r.Contains word s := by
  rw [search, searchFrom_iff]
  simp only [List.append_nil, Contains]

/-- What a search finds is a match. -/
theorem findFrom_eq_some {r : Regex} {before after m : List Char}
    (h : r.findFrom word before after = some m) :
    ∃ u v, after = u ++ m ++ v ∧ r.Matches word (u.reverse ++ before) m v := by
  induction after generalizing before with
  | nil =>
    obtain ⟨x, hx, rfl⟩ := Option.map_eq_some_iff.1 h
    obtain ⟨m, hafter, -, hm⟩ := mem_ends_iff.1 (List.mem_of_head? hx)
    obtain ⟨rfl, hx'⟩ := List.nil_eq_append_iff.1 hafter
    rw [hx'] at hm
    exact ⟨[], [], rfl, hm⟩
  | cons c cs ih =>
    rw [findFrom] at h
    cases hhead : (r.ends word ⟨before, c :: cs⟩).head? with
    | some x =>
      rw [hhead] at h
      obtain rfl := Option.some.inj h
      obtain ⟨m, hafter, -, hm⟩ := mem_ends_iff.1 (List.mem_of_head? hhead)
      have hafter : c :: cs = m ++ x.after := hafter
      have htake : (c :: cs).take ((c :: cs).length - x.after.length) = m := by
        rw [hafter, List.length_append, Nat.add_sub_cancel_right, List.take_left]
      rw [htake]
      exact ⟨[], x.after, hafter, hm⟩
    | none =>
      rw [hhead] at h
      obtain ⟨u, v, hafter, hm⟩ := ih h
      exact ⟨c :: u, v, by rw [hafter]; rfl, by simpa using hm⟩

theorem findFrom_isSome {r : Regex} {before after : List Char} :
    (r.findFrom word before after).isSome = r.searchFrom word before after := by
  induction after generalizing before with
  | nil =>
    rw [findFrom, searchFrom, Option.isSome_map]
    cases r.ends word ⟨before, []⟩ <;> rfl
  | cons c cs ih =>
    rw [findFrom, searchFrom, ← ih]
    cases r.ends word ⟨before, c :: cs⟩ <;> rfl

/-- **A search finds nothing iff there is no match.** -/
theorem find_eq_none {r : Regex} {s : String} : r.find word s = none ↔ ¬ r.Contains word s := by
  rw [← search_iff, search, ← findFrom_isSome, Bool.not_eq_true, Option.isSome_eq_false_iff, Option.isNone_iff_eq_none]
  rfl

theorem find_eq_some {r : Regex} {s : String} {m : List Char} (h : r.find word s = some m) :
    ∃ u v, s.toList = u ++ m ++ v ∧ r.Matches word u.reverse m v := by
  obtain ⟨u, v, hs, hm⟩ := findFrom_eq_some h
  exact ⟨u, v, hs, by simpa using hm⟩

/-! ## Surroundings -/

/-- The pattern has no `\b`. -/
def boundaryFree : Regex → Bool
  | boundary => false
  | nil | one _ | many _ _ => true
  | seq r q | alt r q => r.boundaryFree && q.boundaryFree
  | rep r _ _ => r.boundaryFree

section
variable {E : List Char → List Char → Prop} {r : Regex} {before before' m after after' : List Char}

theorem RepMatches.transport {R : List Char → List Char → List Char → Prop}
    (happend : ∀ {l l'} m, E l l' → E (m ++ l) (m ++ l'))
    (hR : ∀ {before before' m after after'}, R before m after → E before before' → E after after' →
      R before' m after') {lo hi : ℕ} (hm : RepMatches R lo hi before m after)
    (hbefore : E before before') (hafter : E after after') : RepMatches R lo hi before' m after' := by
  induction hi generalizing lo before before' m with
  | zero => exact hm
  | succ hi ih =>
    rcases hm with h | ⟨m₁, m₂, rfl, h₁, h₂⟩
    · exact Or.inl h
    · exact Or.inr ⟨m₁, m₂, rfl, hR h₁ hbefore (happend m₂ hafter),
        ih h₂ (happend _ hbefore)⟩

/-- A match stays one in other surroundings, if these look alike to the word
    boundaries of the pattern. -/
theorem Matches.transport (happend : ∀ {l l'} m, E l l' → E (m ++ l) (m ++ l'))
    (hr : r.boundaryFree = true ∨ ∀ {l l'}, E l l' → headWord word l = headWord word l')
    (hm : r.Matches word before m after) (hbefore : E before before') (hafter : E after after') :
    r.Matches word before' m after' := by
  induction r generalizing before before' m after after' with
  | nil | one _ | many _ _ => exact hm
  | boundary =>
    obtain ⟨rfl, hne⟩ := hm
    rcases hr with hr | hr
    · cases hr
    · exact ⟨rfl, by rwa [← hr hbefore, ← hr hafter]⟩
  | seq r q ihr ihq =>
    obtain ⟨m₁, m₂, rfl, h₁, h₂⟩ := hm
    have hfree (h : (seq r q).boundaryFree = true) := Bool.and_eq_true_iff.1 h
    exact ⟨m₁, m₂, rfl, ihr (hr.imp_left fun h => (hfree h).1) h₁ hbefore (happend m₂ hafter),
      ihq (hr.imp_left fun h => (hfree h).2) h₂ (happend _ hbefore) hafter⟩
  | alt r q ihr ihq =>
    have hfree (h : (alt r q).boundaryFree = true) := Bool.and_eq_true_iff.1 h
    rcases hm with h | h
    · exact Or.inl (ihr (hr.imp_left fun h => (hfree h).1) h hbefore hafter)
    · exact Or.inr (ihq (hr.imp_left fun h => (hfree h).2) h hbefore hafter)
  | rep r lo hi ih =>
    exact RepMatches.transport (R := r.Matches word) happend (fun h hb ha => ih hr h hb ha) hm hbefore
      hafter

/-- A match sees of its surroundings only whether they continue a word. -/
theorem Matches.context (hm : r.Matches word before m after)
    (hbefore : headWord word before = headWord word before')
    (hafter : headWord word after = headWord word after') : r.Matches word before' m after' :=
  hm.transport (E := fun l l' => headWord word l = headWord word l') headWord_append_congr
    (Or.inr id) hbefore hafter

/-- A pattern without `\b` matches anywhere what it matches somewhere. -/
theorem Matches.anywhere (hr : r.boundaryFree = true) (hm : r.Matches word before m after) :
    r.Matches word before' m after' :=
  hm.transport (E := fun _ _ => True) (fun _ _ => trivial) (Or.inl hr) trivial trivial

/-- Nothing around a text hides what a pattern without `\b` matches in it. -/
theorem Contains.of_infix {s t : String} (hr : r.boundaryFree = true) (h : r.Contains word s)
    (hst : s.toList <:+: t.toList) : r.Contains word t := by
  obtain ⟨u, m, v, hs, hm⟩ := h
  obtain ⟨u', v', ht⟩ := hst
  refine ⟨u' ++ u, m, v ++ v', ?_, hm.anywhere hr⟩
  rw [← ht, hs]
  simp only [List.append_assoc]

/-! ## The characters of a match -/

/-- The characters that a match can have. -/
def alphabet : Regex → Char → Bool
  | nil, _ | boundary, _ => false
  | one p, c | many p _, c => p c
  | seq r q, c | alt r q, c => r.alphabet c || q.alphabet c
  | rep r _ _, c => r.alphabet c

theorem RepMatches.forall_mem {R : List Char → List Char → List Char → Prop} {p : Char → Bool}
    (hR : ∀ {before m after}, R before m after → ∀ c ∈ m, p c = true) {lo hi : ℕ}
    (hm : RepMatches R lo hi before m after) : ∀ c ∈ m, p c = true := by
  induction hi generalizing lo before m with
  | zero => simp [hm.2]
  | succ hi ih =>
    rcases hm with ⟨-, rfl⟩ | ⟨m₁, m₂, rfl, h₁, h₂⟩
    · simp
    · exact List.forall_mem_append.2 ⟨hR h₁, ih h₂⟩

theorem Matches.forall_mem (hm : r.Matches word before m after) : ∀ c ∈ m, r.alphabet c = true := by
  induction r generalizing before m after with
  | nil =>
    obtain rfl : m = [] := hm
    simp
  | boundary => simp [hm.1]
  | one p =>
    obtain ⟨c, rfl, hc⟩ := hm
    simpa [alphabet] using hc
  | many p lo => exact hm.2
  | seq r q ihr ihq =>
    obtain ⟨m₁, m₂, rfl, h₁, h₂⟩ := hm
    rintro c hc
    rcases List.mem_append.1 hc with hc | hc
    · simp [alphabet, ihr h₁ c hc]
    · simp [alphabet, ihq h₂ c hc]
  | alt r q ihr ihq =>
    rintro c hc
    rcases hm with h | h
    · simp [alphabet, ihr h c hc]
    · simp [alphabet, ihq h c hc]
  | rep r lo hi ih => exact RepMatches.forall_mem (fun h => ih h) hm

/-- A repetition that may not stop at once begins with a round. -/
theorem RepMatches.first {R : List Char → List Char → List Char → Prop} {lo hi : ℕ}
    (hm : RepMatches R (lo + 1) hi before m after) :
    ∃ m₁ m₂, m = m₁ ++ m₂ ∧ R before m₁ (m₂ ++ after) := by
  cases hi with
  | zero => cases hm.1
  | succ hi =>
    rcases hm with ⟨h, -⟩ | ⟨m₁, m₂, rfl, h, -⟩
    · cases h
    · exact ⟨m₁, m₂, rfl, h⟩

/-! ## Walls -/

/-- `\br\b`. -/
def walled (r : Regex) : Regex := seq boundary (seq r boundary)

/-- A match begins and ends at a word boundary, with a character of a word. -/
structure Walled (word : Char → Bool) (r : Regex) : Prop where
  starts : ∀ {before m after}, r.Matches word before m after →
    headWord word before = false ∧ headWord word m = true
  ends : ∀ {before m after}, r.Matches word before m after →
    headWord word m.reverse ≠ headWord word after

theorem ne_nil_of_headWord {l : List Char} (h : headWord word l = true) : l ≠ [] := by
  rintro rfl
  cases h

theorem Walled.ne_nil (hr : r.Walled word) (hm : r.Matches word before m after) : m ≠ [] :=
  ne_nil_of_headWord (hr.starts hm).2

theorem walled_matches : r.walled.Matches word before m after ↔
    headWord word before ≠ headWord word (m ++ after) ∧ r.Matches word before m after ∧
      headWord word (m.reverse ++ before) ≠ headWord word after := by
  constructor
  · rintro ⟨_, _, rfl, ⟨rfl, hstart⟩, m₁, _, rfl, hm, rfl, hend⟩
    simp only [List.append_nil, List.nil_append, List.reverse_nil] at hstart hm hend ⊢
    exact ⟨hstart, hm, hend⟩
  · rintro ⟨hstart, hm, hend⟩
    exact ⟨[], m, rfl, ⟨rfl, hstart⟩, m, [], by simp, by simpa using hm, rfl, by simpa using hend⟩

theorem walled_walled
    (hr : ∀ {before m after}, r.Matches word before m after → headWord word m = true) :
    r.walled.Walled word where
  starts h := by
    obtain ⟨hstart, hm, -⟩ := walled_matches.1 h
    have hword := hr hm
    rw [headWord_append (ne_nil_of_headWord hword), hword] at hstart
    exact ⟨Bool.eq_false_iff.2 hstart, hword⟩
  ends h := by
    obtain ⟨-, hm, hend⟩ := walled_matches.1 h
    have hne := ne_nil_of_headWord (hr hm)
    rwa [headWord_append (by simpa using hne)] at hend

end

/-! ## Substitution -/

/-- The text `after` with matches replaced; where a character is kept, no match
    begins. -/
inductive Replaced (word : Char → Bool) (r : Regex) (repl : List Char) :
    List Char → List Char → List Char → Prop
  | nil {before : List Char} : Replaced word r repl before [] []
  | keep {before : List Char} {c : Char} {cs out : List Char}
      (hno : ∀ m v, c :: cs = m ++ v → ¬ r.Matches word before m v)
      (hrest : Replaced word r repl (c :: before) cs out) :
      Replaced word r repl before (c :: cs) (c :: out)
  | hit {before m v out : List Char} (hm : r.Matches word before m v)
      (hrest : Replaced word r repl (m.reverse ++ before) v out) :
      Replaced word r repl before (m ++ v) (repl ++ out)

section
variable {r q : Regex} {repl before before' after out u m v : List Char}

theorem subFrom_skip (m : List Char) :
    r.subFrom word repl m.length before (m ++ v) = r.subFrom word repl 0 (m.reverse ++ before) v := by
  induction m generalizing before with
  | nil => rfl
  | cons c m ih =>
    rw [List.length_cons, List.cons_append, subFrom, ih, List.reverse_cons, List.append_assoc]
    rfl

/-- What `sub` does, for a pattern that matches no empty text. -/
theorem replaced_subFrom (hr : ∀ {before after}, ¬ r.Matches word before [] after) :
    Replaced word r repl before after (r.subFrom word repl 0 before after) := by
  induction hn : after.length using Nat.strongRecOn generalizing before after with
  | ind n ih =>
    cases after with
    | nil => exact .nil
    | cons c cs =>
      rw [List.length_cons] at hn
      rw [subFrom]
      cases hhead : (r.ends word ⟨before, c :: cs⟩).head? with
      | none => exact .keep (fun m v h => head?_ends_eq_none hhead h) (ih _ (by omega) rfl)
      | some x =>
        obtain ⟨m, hafter, -, hm⟩ := mem_ends_iff.1 (List.mem_of_mem_head? hhead)
        cases m with
        | nil => exact absurd hm hr
        | cons d m =>
          obtain ⟨rfl, hcs⟩ := List.cons.inj hafter
          replace hcs : cs = m ++ x.after := hcs
          subst hcs
          have hskip : (m ++ x.after).length - x.after.length = m.length := by simp
          rw [List.length_append] at hn
          show Replaced word r repl before (c :: m ++ x.after) _
          simp only [hskip, subFrom_skip]
          refine .hit hm ?_
          rw [List.reverse_cons, List.append_assoc]
          exact ih _ (by omega) rfl

/-- `q` matches no part of the replacement `opening inner closing`, and nothing
    that begins or ends in it. -/
structure Avoids (word : Char → Bool) (q : Regex) (opening : Char) (inner : List Char) (closing : Char) :
    Prop where
  ne_nil : ∀ {before m after}, q.Matches word before m after → m ≠ []
  opening : ∀ {before m after}, q.Matches word before m after → opening ∉ m
  closing : ∀ {before m after}, q.Matches word before m after → closing ∉ m
  inner : ∀ {before m after}, q.Matches word before m after → ¬ m <:+: inner

variable {opening closing : Char} {inner : List Char}

/-- A pattern avoids a replacement that begins and ends with characters it never
    matches, and has inside none of some class that it always does. -/
theorem avoids_of_alphabet (hopening : q.alphabet opening = false) (hclosing : q.alphabet closing = false)
    {p : Char → Bool} (hinner : ∀ c ∈ inner, p c = false)
    (hp : ∀ {before m after}, q.Matches word before m after → ∃ c ∈ m, p c = true) :
    q.Avoids word opening inner closing where
  ne_nil hm := by
    obtain ⟨c, hc, -⟩ := hp hm
    exact List.ne_nil_of_mem hc
  opening hm hmem := by
    rw [hm.forall_mem _ hmem] at hopening
    cases hopening
  closing hm hmem := by
    rw [hm.forall_mem _ hmem] at hclosing
    cases hclosing
  inner hm hpart := by
    obtain ⟨c, hc, hpc⟩ := hp hm
    rw [hinner c (hpart.subset hc)] at hpc
    cases hpc

/-- What has none of the opening characters comes from the text as it is. -/
theorem Replaced.of_append (h : Replaced word r (opening :: inner ++ [closing]) before after out)
    (hout : out = m ++ v) (hm : opening ∉ m) :
    ∃ v', after = m ++ v' ∧
      Replaced word r (opening :: inner ++ [closing]) (m.reverse ++ before) v' v := by
  induction m generalizing before after out with
  | nil =>
    obtain rfl : out = v := hout
    exact ⟨after, rfl, h⟩
  | cons c m ih =>
    rw [List.mem_cons, not_or] at hm
    cases h with
    | nil => cases hout
    | keep hno hrest =>
      obtain ⟨rfl, rfl⟩ := List.cons.inj hout
      obtain ⟨v', rfl, hv⟩ := ih hrest rfl hm.2
      exact ⟨v', rfl, by simpa using hv⟩
    | hit hm' hrest => exact absurd (List.cons.inj hout).1 hm.1

/-- The next character is kept, or is that of a replacement that begins where a
    word begins. -/
theorem Replaced.headWord_cases (hr : r.Walled word) (hopening : word opening = false)
    (h : Replaced word r (opening :: inner ++ [closing]) before after out) :
    headWord word out = headWord word after ∨
      headWord word out = false ∧ headWord word before = false := by
  cases h with
  | nil | keep => exact Or.inl rfl
  | hit hm hrest => exact Or.inr ⟨hopening, (hr.starts hm).1⟩

/-- A match after a replacement has begun lies behind it. -/
theorem Avoids.behind (hq : q.Avoids word opening inner closing) (hm : q.Matches word before m after)
    (h : opening :: inner ++ [closing] ++ out = u ++ m ++ v) :
    ∃ u', u = opening :: inner ++ [closing] ++ u' ∧ out = u' ++ m ++ v := by
  rw [List.append_assoc u] at h
  rcases List.append_eq_append_iff.1 h with ⟨u', hu, hout⟩ | ⟨a, hrepl, hmv⟩
  · exact ⟨u', hu, by rw [hout, List.append_assoc]⟩
  · rcases List.eq_nil_or_concat a with rfl | ⟨a, d, rfl⟩
    · exact ⟨[], by rw [hrepl, List.append_nil, List.append_nil], by rw [List.nil_append]; exact hmv.symm⟩
    · -- the match begins in the replacement, before its closing character
      rw [List.concat_eq_append, ← List.append_assoc] at hrepl
      obtain ⟨hopened, hd⟩ := List.append_inj' hrepl rfl
      obtain rfl := List.head_eq_of_cons_eq hd
      rw [List.concat_eq_append, List.append_assoc] at hmv
      have hpart : ∃ t, a = m ++ t := by
        rcases List.append_eq_append_iff.1 hmv with ⟨t, ha, -⟩ | ⟨t, hmt, hclosing⟩
        · exact ⟨t, ha⟩
        · cases t with
          | nil => exact ⟨[], by rw [hmt]; simp⟩
          | cons e t =>
            obtain ⟨rfl, -⟩ := List.cons.inj hclosing
            exact absurd (hmt ▸ by simp) (hq.closing hm)
      obtain ⟨t, rfl⟩ := hpart
      exfalso
      cases u with
      | nil =>
        cases m with
        | nil => exact hq.ne_nil hm rfl
        | cons e m =>
          obtain ⟨rfl, -⟩ := List.cons.inj hopened
          exact hq.opening hm List.mem_cons_self
      | cons e u =>
        obtain ⟨-, hinner⟩ := List.cons.inj hopened
        exact hq.inner hm ⟨u, t, (List.append_assoc u m t).trans hinner.symm⟩

/-- A match of `q` in the result is one in the text, between what surrounds it
    there. -/
theorem Matches.between (hm : q.Matches word before' m v) {v' : List Char}
    (hwalls : q.boundaryFree = true ∨ q.Walled word)
    (hbefore : q.boundaryFree = true ∨ headWord word before' = headWord word before ∨
      headWord word (m ++ v') = false)
    (hafter : q.boundaryFree = true ∨ headWord word v = headWord word v' ∨
      headWord word v = false ∧ headWord word (m.reverse ++ before) = false) :
    q.Matches word before m v' := by
  by_cases hfree : q.boundaryFree = true
  · exact hm.anywhere hfree
  · have hq := hwalls.resolve_left hfree
    obtain ⟨-, hstart⟩ := hq.starts hm
    have hend := hq.ends hm
    have hne := ne_nil_of_headWord hstart
    refine hm.context ?_ ?_
    · rcases hbefore.resolve_left hfree with h | h
      · exact h
      · rw [headWord_append hne, hstart] at h
        cases h
    · rcases hafter.resolve_left hfree with h | ⟨hv, hlast⟩
      · exact h
      · rw [headWord_append (by simpa using hne)] at hlast
        rw [hv, hlast] at hend
        exact absurd rfl hend

/-- **What `q` matches in the result of a substitution** of `r`, it matches in the
    text, where `r` matches nothing. -/
theorem Replaced.match_of_output (hq : q.Avoids word opening inner closing)
    (hwalls : q.boundaryFree = true ∨
      q.Walled word ∧ r.Walled word ∧ word opening = false ∧ word closing = false)
    (h : Replaced word r (opening :: inner ++ [closing]) before after out)
    (hbefore : q.boundaryFree = true ∨ headWord word before' = headWord word before ∨
      headWord word after = false)
    (hout : out = u ++ m ++ v) (hm : q.Matches word (u.reverse ++ before') m v) :
    ∃ u' v', after = u' ++ m ++ v' ∧ q.Matches word (u'.reverse ++ before) m v' ∧
      ∀ m₂ v₂, m ++ v' = m₂ ++ v₂ → ¬ r.Matches word (u'.reverse ++ before) m₂ v₂ := by
  induction h generalizing before' u with
  | nil =>
    obtain ⟨hum, -⟩ := List.nil_eq_append_iff.1 hout
    exact absurd (List.append_eq_nil_iff.1 hum).2 (hq.ne_nil hm)
  | @keep before c cs out hno hrest ih =>
    cases u with
    | nil =>
      obtain ⟨v', hafter, hv⟩ := (Replaced.keep hno hrest).of_append hout (hq.opening hm)
      refine ⟨[], v', hafter, ?_, fun m₂ v₂ h => hno m₂ v₂ (hafter.trans h)⟩
      rw [hafter] at hbefore
      refine Matches.between hm (hwalls.imp_right And.left) hbefore ?_
      exact hwalls.imp_right fun ⟨_, hr, hopening, _⟩ => hv.headWord_cases hr hopening
    | cons d u =>
      obtain ⟨rfl, hrest'⟩ := List.cons.inj hout
      rw [List.reverse_cons, List.append_assoc] at hm
      have hsame : headWord word (c :: before') = headWord word (c :: before) := rfl
      obtain ⟨u', v', hafter, hm', hno'⟩ := ih (Or.inr (Or.inl hsame)) hrest' hm
      refine ⟨c :: u', v', by rw [hafter]; rfl, ?_, ?_⟩
      · simpa using hm'
      · simpa using hno'
  | @hit before m' v' out hm' hrest ih =>
    obtain ⟨u', rfl, hout'⟩ := hq.behind hm hout
    rw [List.reverse_append, List.append_assoc] at hm
    have hedge : q.boundaryFree = true ∨
        headWord word ((opening :: inner ++ [closing]).reverse ++ before') =
          headWord word (m'.reverse ++ before) ∨ headWord word v' = false := by
      refine hwalls.imp_right fun ⟨_, hr, _, hclosing⟩ => ?_
      have hend := hr.ends hm'
      rw [← headWord_append (by simpa using hr.ne_nil hm') before] at hend
      rw [List.reverse_append, List.append_assoc]
      show word closing = _ ∨ _
      rw [hclosing]
      cases hlast : headWord word (m'.reverse ++ before) with
      | false => exact Or.inl rfl
      | true =>
        rw [hlast] at hend
        exact Or.inr (Bool.eq_false_iff.2 (Ne.symm hend))
    obtain ⟨u'', v'', hafter, hm'', hno⟩ := ih hedge hout' hm
    refine ⟨m' ++ u'', v'', by rw [hafter]; simp, ?_, ?_⟩
    · simpa using hm''
    · simpa using hno

/-- Where nothing matches, nothing is replaced. -/
theorem subFrom_eq_self
    (h : ∀ u m v, after = u ++ m ++ v → ¬ r.Matches word (u.reverse ++ before) m v) :
    r.subFrom word repl 0 before after = after := by
  induction after generalizing before with
  | nil => rfl
  | cons c cs ih =>
    rw [subFrom]
    cases hhead : (r.ends word ⟨before, c :: cs⟩).head? with
    | none =>
      simp only [List.cons.injEq, true_and]
      apply ih
      intro u m v hcs hm
      refine h (c :: u) m v (by rw [hcs]; rfl) ?_
      rwa [List.reverse_cons, List.append_assoc]
    | some x =>
      obtain ⟨m, hafter, -, hm⟩ := mem_ends_iff.1 (List.mem_of_mem_head? hhead)
      exact absurd hm (h [] m x.after hafter)

end

/-! ## Substitution in strings -/

section
variable {r q : Regex} {repl s : String} {opening closing : Char} {inner : List Char}

theorem sub_eq_self (h : ¬ r.Contains word s) : r.sub word repl s = s := by
  have hsame : r.subFrom word repl.toList 0 [] s.toList = s.toList :=
    subFrom_eq_self fun u m v hs hm => h ⟨u, m, v, hs, by rwa [List.append_nil] at hm⟩
  rw [sub, hsame, String.ofList_toList]

/-- What `q` finds after a substitution it found before, where nothing matched. -/
theorem contains_sub (hrepl : repl.toList = opening :: inner ++ [closing])
    (hr : r.Avoids word opening inner closing) (hq : q.Avoids word opening inner closing)
    (hwalls : q.boundaryFree = true ∨
      q.Walled word ∧ r.Walled word ∧ word opening = false ∧ word closing = false)
    (h : q.Contains word (r.sub word repl s)) :
    ∃ u m v, s.toList = u ++ m ++ v ∧ q.Matches word u.reverse m v ∧
      ¬ r.Matches word u.reverse m v := by
  obtain ⟨u, m, v, hout, hm⟩ := h
  rw [sub, String.toList_ofList, hrepl] at hout
  have hreplaced : Replaced word r (opening :: inner ++ [closing]) [] s.toList
      (r.subFrom word (opening :: inner ++ [closing]) 0 [] s.toList) :=
    replaced_subFrom fun hm => hr.ne_nil hm rfl
  rw [← List.append_nil u.reverse] at hm
  obtain ⟨u', v', hs, hm', hno⟩ :=
    hreplaced.match_of_output hq hwalls (Or.inr (Or.inl rfl)) hout hm
  rw [List.append_nil] at hm'
  refine ⟨u', m, v', hs, hm', ?_⟩
  have hhere := hno m v' rfl
  rwa [List.append_nil] at hhere

/-- **A substitution leaves no match.** -/
theorem not_contains_sub (hrepl : repl.toList = opening :: inner ++ [closing])
    (hr : r.Avoids word opening inner closing)
    (hwalls : r.boundaryFree = true ∨
      r.Walled word ∧ word opening = false ∧ word closing = false) :
    ¬ r.Contains word (r.sub word repl s) := by
  intro h
  obtain ⟨_, _, _, -, hm, hno⟩ :=
    contains_sub hrepl hr hr (hwalls.imp_right fun ⟨hr, h⟩ => ⟨hr, hr, h⟩) h
  exact hno hm

/-- **A substitution makes no match of another pattern.** -/
theorem contains_of_sub (hrepl : repl.toList = opening :: inner ++ [closing])
    (hr : r.Avoids word opening inner closing) (hq : q.Avoids word opening inner closing)
    (hwalls : q.boundaryFree = true ∨
      q.Walled word ∧ r.Walled word ∧ word opening = false ∧ word closing = false)
    (h : q.Contains word (r.sub word repl s)) : q.Contains word s := by
  obtain ⟨u, m, v, hs, hm, -⟩ := contains_sub hrepl hr hq hwalls h
  exact ⟨u, m, v, hs, hm⟩

end

end Regex

end PyStr
