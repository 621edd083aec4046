/-
  Overwriting the strings of a JSON value at the ends of paths.

  A path goes through dictionaries only.  `Json.at? q` is the value at the end
  of the path `q`, `Json.strAt q` the string there, and `Json.put t q` writes
  `t` over that string; a value without a string there stays as it is.

  * `put_comm`, `put_put_self`, `strAt_put_of_ne`: writes at two paths are
    independent, and of two writes at one path the second counts;
  * `Obj.redact`: every string at the end of a listed path blanked; a write at
    a listed path leaves `redact` alone (`redact_put`), and a dictionary is
    determined by what `redact` leaves and its strings at the listed paths
    (`eq_of_redact`);
  * `Obj.mapStrs`: one `mapStr` after another, with what a run of them does to
    the string at a path (`mapStrs_strAt`), when it fails
    (`mapStrs_eq_error_iff`), and that it puts no U+0000 into a dictionary
    (`nulFree_mapStrs`).
-/
import Mathlib.Data.List.Count
import OcrService.Lib.Json

namespace PyData

/-! ## One entry -/

namespace Obj

/-- Apply a function to the value of a key, if the key is there. -/
def adjust (k : String) (g : Json → Json) : Obj → Obj
  | [] => []
  | (k', v) :: d => if k' = k then (k', g v) :: d else (k', v) :: adjust k g d

@[simp] theorem get?_adjust_self (k : String) (g : Json → Json) (d : Obj) :
    (d.adjust k g).get? k = (d.get? k).map g := by
  induction d with
  | nil => rfl
  | cons e d ih => by_cases h : e.1 = k <;> simp [adjust, get?, h, ih]

theorem get?_adjust_of_ne {k l : String} (h : k ≠ l) (g : Json → Json) (d : Obj) :
    (d.adjust k g).get? l = d.get? l := by
  induction d with
  | nil => rfl
  | cons e d ih =>
    by_cases hk : e.1 = k
    · simp [adjust, get?, hk, h]
    · simp [adjust, get?, hk, ih]

theorem adjust_adjust_self (k : String) (g h : Json → Json) (d : Obj) :
    (d.adjust k h).adjust k g = d.adjust k (g ∘ h) := by
  induction d with
  | nil => rfl
  | cons e d ih => by_cases hk : e.1 = k <;> simp [adjust, hk, ih]

theorem adjust_comm {k l : String} (hkl : k ≠ l) (g h : Json → Json) (d : Obj) :
    (d.adjust l h).adjust k g = (d.adjust k g).adjust l h := by
  induction d with
  | nil => rfl
  | cons e d ih =>
    by_cases hk : e.1 = k
    · have hl : e.1 ≠ l := fun h => hkl (hk.symm.trans h)
      simp [adjust, hk, hkl]
    · by_cases hl : e.1 = l
      · simp [adjust, hl, hkl.symm]
      · simp [adjust, hk, hl, ih]

theorem adjust_congr {k : String} {g h : Json → Json} {d : Obj}
    (hgh : ∀ v, d.get? k = some v → g v = h v) : d.adjust k g = d.adjust k h := by
  induction d with
  | nil => rfl
  | cons e d ih =>
    by_cases hk : e.1 = k
    · simp [adjust, hk, hgh e.2 (by simp [get?, hk])]
    · simp only [adjust, hk, if_false, List.cons.injEq, true_and]
      exact ih fun v hv => hgh v (by simpa [get?, hk] using hv)

theorem adjust_of_fixed {k : String} {g : Json → Json} {d : Obj}
    (hg : ∀ v, d.get? k = some v → g v = v) : d.adjust k g = d := by
  rw [adjust_congr (h := id) hg]
  induction d with
  | nil => rfl
  | cons e d ih =>
    by_cases hk : e.1 = k
    · rw [adjust, if_pos hk]
      rfl
    · rw [adjust, if_neg hk, ih fun v hv => hg v (by simpa [get?, hk] using hv)]

/-- Assigning to a key that is there. -/
theorem set_eq_adjust {k : String} {v : Json} {d : Obj} (h : d.get? k = some v) (w : Json) :
    d.set k w = d.adjust k fun _ => w := by
  induction d with
  | nil => cases h
  | cons e d ih =>
    by_cases hk : e.1 = k
    · simp [set, adjust, hk]
    · simp only [get?, hk, if_false] at h
      simp [set, adjust, hk, ih h]

theorem keys_adjust (k : String) (g : Json → Json) (d : Obj) :
    (d.adjust k g).map Prod.fst = d.map Prod.fst := by
  induction d with
  | nil => rfl
  | cons e d ih => by_cases hk : e.1 = k <;> simp [adjust, hk, ih]

end Obj

/-! ## The end of a path -/

namespace Json

/-- The value at the end of a path, through dictionaries only. -/
def at? : List String → Json → Option Json
  | [], v => some v
  | k :: ks, .obj c => (Obj.get? c k).bind (at? ks)
  | _ :: _, _ => none

/-- The text of a string. -/
def str? : Json → Option String
  | .str s => some s
  | _ => none

/-- The string at the end of a path. -/
def strAt (q : List String) (v : Json) : Option String := (v.at? q).bind str?

/-- Write a text over the string at the end of a path. -/
def put (t : String) : List String → Json → Json
  | [], .str _ => .str t
  | k :: ks, .obj c => .obj (Obj.adjust k (put t ks) c)
  | _, v => v

@[simp] theorem at?_nil (v : Json) : v.at? [] = some v := by cases v <;> rfl

@[simp] theorem at?_obj (k : String) (ks : List String) (c : Obj) :
    (obj c).at? (k :: ks) = (c.get? k).bind (at? ks) := rfl

@[simp] theorem put_obj (t k : String) (ks : List String) (c : Obj) :
    (obj c).put t (k :: ks) = obj (c.adjust k (put t ks)) := rfl

@[simp] theorem put_str (t s : String) : (str s).put t [] = str t := rfl

theorem at?_append (p q : List String) (v : Json) :
    v.at? (p ++ q) = (v.at? p).bind (at? q) := by
  induction p generalizing v with
  | nil => simp
  | cons k p ih =>
    cases v with
    | obj c => cases h : Obj.get? c k <;> simp [h, ih]
    | _ => rfl

@[simp] theorem str?_eq_some {v : Json} {s : String} : v.str? = some s ↔ v = str s := by
  cases v <;> simp [str?]

theorem strAt_eq_some {q : List String} {v : Json} {s : String} :
    v.strAt q = some s ↔ v.at? q = some (str s) := by
  simp [strAt, Option.bind_eq_some_iff]

@[simp] theorem strAt_obj (k : String) (ks : List String) (c : Obj) :
    (obj c).strAt (k :: ks) = (c.get? k).bind (strAt ks) := by
  simp only [strAt, at?_obj, Option.bind_assoc]
  rfl

/-! ## Writes -/

/-- Without a string at the end of the path nothing is written. -/
theorem put_of_strAt_none {t : String} {q : List String} {v : Json} (h : v.strAt q = none) :
    v.put t q = v := by
  induction q generalizing v with
  | nil => cases v <;> simp_all [put, strAt, str?]
  | cons k q ih =>
    cases v with
    | obj c =>
      rw [strAt_obj, Option.bind_eq_none_iff] at h
      rw [put_obj, Obj.adjust_of_fixed fun w hw => ih (h w hw)]
    | _ => rfl

/-- Writing the string that is there. -/
theorem put_of_strAt {s : String} {q : List String} {v : Json} (h : v.strAt q = some s) :
    v.put s q = v := by
  induction q generalizing v with
  | nil =>
    rw [strAt_eq_some, at?_nil, Option.some.injEq] at h
    rw [h, put_str]
  | cons k q ih =>
    cases v with
    | obj c =>
      rw [strAt_obj, Option.bind_eq_some_iff] at h
      obtain ⟨w, hw, hs⟩ := h
      rw [put_obj, Obj.adjust_of_fixed fun w' hw' => ?_]
      rw [hw, Option.some.injEq] at hw'
      exact hw' ▸ ih hs
    | _ => rfl

/-- The second of two writes at one path counts. -/
theorem put_put_self (s t : String) (q : List String) (v : Json) :
    (v.put s q).put t q = v.put t q := by
  induction q generalizing v with
  | nil => cases v <;> rfl
  | cons k q ih =>
    cases v with
    | obj c =>
      rw [put_obj, put_obj, put_obj, Obj.adjust_adjust_self]
      exact congrArg obj (Obj.adjust_congr fun w _ => ih w)
    | _ => rfl

/-- **Writes at two paths commute.** -/
theorem put_comm {p q : List String} (h : p ≠ q) (s t : String) (v : Json) :
    (v.put s q).put t p = (v.put t p).put s q := by
  induction p generalizing q v with
  | nil =>
    cases q with
    | nil => exact absurd rfl h
    | cons k q => cases v <;> rfl
  | cons k p ih =>
    cases q with
    | nil => cases v <;> rfl
    | cons l q =>
      cases v with
      | obj c =>
        simp only [put_obj]
        by_cases hkl : k = l
        · subst hkl
          have hpq : p ≠ q := fun e => h (congrArg _ e)
          rw [Obj.adjust_adjust_self, Obj.adjust_adjust_self]
          exact congrArg obj (Obj.adjust_congr fun w _ => ih hpq w)
        · rw [Obj.adjust_comm hkl]
      | _ => rfl

/-- The string at the path written. -/
theorem strAt_put_self (t : String) (q : List String) (v : Json) :
    (v.put t q).strAt q = (v.strAt q).map fun _ => t := by
  induction q generalizing v with
  | nil => cases v <;> rfl
  | cons k q ih =>
    cases v with
    | obj c =>
      rw [put_obj, strAt_obj, strAt_obj, Obj.get?_adjust_self]
      cases Obj.get? c k with
      | none => rfl
      | some w => exact ih w
    | _ => rfl

/-- The string at any other path. -/
theorem strAt_put_of_ne {p q : List String} (h : p ≠ q) (t : String) (v : Json) :
    (v.put t q).strAt p = v.strAt p := by
  induction q generalizing p v with
  | nil =>
    cases p with
    | nil => exact absurd rfl h
    | cons k p => cases v <;> rfl
  | cons l q ih =>
    cases v with
    | obj c =>
      cases p with
      | nil => rfl
      | cons k p =>
        rw [put_obj, strAt_obj, strAt_obj]
        by_cases hlk : l = k
        · subst hlk
          have hpq : p ≠ q := fun e => h (congrArg _ e)
          rw [Obj.get?_adjust_self]
          cases Obj.get? c l with
          | none => rfl
          | some w => exact ih hpq w
        · rw [Obj.get?_adjust_of_ne hlk]
    | _ => rfl

/-- What a write of strings cannot change: the kind of a value, the keys of a
    dictionary, and any other value but a string. -/
def shape : Json → Json
  | .str _ => .str ""
  | .obj c => .obj (c.map fun e => (e.1, .null))
  | v => v

theorem shape_obj_adjust (k : String) (g : Json → Json) (c : Obj) :
    (obj (c.adjust k g)).shape = (obj c).shape := by
  have hkeys := congrArg (List.map fun k => (k, Json.null)) (Obj.keys_adjust k g c)
  rw [List.map_map, List.map_map] at hkeys
  exact congrArg obj hkeys

theorem shape_put (t : String) (q : List String) (v : Json) : (v.put t q).shape = v.shape := by
  cases q with
  | nil => cases v <;> rfl
  | cons k q =>
    cases v with
    | obj c => exact shape_obj_adjust k _ c
    | _ => rfl

/-- **A write changes the shape of no value**, at whatever path. -/
theorem shape_at?_put (t : String) (q p : List String) (v : Json) :
    ((v.put t q).at? p).map shape = (v.at? p).map shape := by
  induction p generalizing q v with
  | nil => simp [shape_put]
  | cons k p ih =>
    cases q with
    | nil => cases v <;> rfl
    | cons l q =>
      cases v with
      | obj c =>
        rw [put_obj, at?_obj, at?_obj]
        by_cases hlk : l = k
        · subst hlk
          rw [Obj.get?_adjust_self]
          cases Obj.get? c l with
          | none => rfl
          | some w => exact ih q w
        · rw [Obj.get?_adjust_of_ne hlk]
      | _ => rfl

end Json

/-! ## One transformation -/

namespace Obj

/-- Write a text over the string at the end of a path. -/
def put (t : String) : List String → Obj → Obj
  | [], d => d
  | k :: ks, d => d.adjust k (Json.put t ks)

theorem obj_put (t : String) (q : List String) (d : Obj) :
    Json.obj (d.put t q) = (Json.obj d).put t q := by
  cases q <;> rfl

/-- A write below a key, as an assignment to it. -/
theorem set_eq_put {k : String} {v : Json} {d : Obj} (hv : d.get? k = some v) (t : String)
    (ks : List String) : d.set k (v.put t ks) = d.put t (k :: ks) := by
  rw [set_eq_adjust hv]
  refine adjust_congr fun w hw => ?_
  rw [hv, Option.some.injEq] at hw
  rw [hw]

theorem lookup_eq_at? : ∀ (q : List String) (d : Obj), q ≠ [] → d.lookup q = (Json.obj d).at? q
  | [], _, h => absurd rfl h
  | [k], d, _ => by cases h : d.get? k <;> simp [lookup, h]
  | k :: k' :: ks, d, _ => by
    rw [lookup, Json.at?_obj]
    cases d.get? k with
    | none => rfl
    | some v =>
      cases v with
      | obj c => exact lookup_eq_at? (k' :: ks) c (List.cons_ne_nil _ _)
      | _ => rfl

theorem lookup_eq_str {d : Obj} {q : List String} {s : String} :
    d.lookup q = some (.str s) ↔ (Json.obj d).strAt q = some s := by
  rw [Json.strAt_eq_some]
  cases q with
  | nil => simp [lookup]
  | cons k q => rw [lookup_eq_at? _ _ (List.cons_ne_nil _ _)]

variable {ε : Type}

/-- `mapStr` writes the image of the string at the end of its path. -/
theorem mapStr_eq_put {f : String → Except ε String} : ∀ {q : List String} {d : Obj},
    d.mapStr f q =
      match (Json.obj d).strAt q with
      | none => .ok d
      | some s => (f s).map fun t => d.put t q
  | [], _ => rfl
  | [k], d => by
    rw [mapStr, Json.strAt_obj]
    cases hv : d.get? k with
    | none => rfl
    | some v =>
      cases v with
      | str s =>
        have hput : ∀ t, d.set k (.str t) = d.put t [k] := fun t => set_eq_put hv t []
        simp only [hput]
        rfl
      | _ => rfl
  | k :: k' :: ks, d => by
    rw [mapStr, Json.strAt_obj]
    cases hv : d.get? k with
    | none => rfl
    | some v =>
      cases v with
      | obj c =>
        have hput : ∀ t, d.set k (.obj (put t (k' :: ks) c)) = d.put t (k :: k' :: ks) :=
          fun t => set_eq_put hv t (k' :: ks)
        simp only [mapStr_eq_put (q := k' :: ks) (d := c), Option.bind_some]
        cases (Json.obj c).strAt (k' :: ks) with
        | none => exact congrArg Except.ok (set_get?_self hv)
        | some s => cases hf : f s <;> simp [hf, Except.map, hput]
      | _ => rfl

/-- A walk that succeeds found no string, or wrote the image of the one it found. -/
theorem mapStr_ok {f : String → Except ε String} {q : List String} {d d' : Obj}
    (h : d.mapStr f q = .ok d') :
    ((Json.obj d).strAt q = none ∧ d' = d) ∨
      ∃ s t, (Json.obj d).strAt q = some s ∧ f s = .ok t ∧ d' = d.put t q := by
  rw [mapStr_eq_put] at h
  cases hs : (Json.obj d).strAt q with
  | none =>
    rw [hs] at h
    cases h; exact Or.inl ⟨rfl, rfl⟩
  | some s =>
    rw [hs] at h
    cases hf : f s with
    | error e => simp [hf, Except.map] at h
    | ok t =>
      simp only [hf, Except.map, Except.ok.injEq] at h
      exact Or.inr ⟨s, t, rfl, hf, h.symm⟩

/-- `mapStr` fails exactly where the transformation fails on the string its
    path addresses. -/
theorem mapStr_eq_error {f : String → Except ε String} {q : List String} {d : Obj} {e : ε} :
    d.mapStr f q = .error e ↔ ∃ s, d.lookup q = some (.str s) ∧ f s = .error e := by
  simp only [lookup_eq_str]
  rw [mapStr_eq_put]
  cases (Json.obj d).strAt q with
  | none => simp
  | some s => cases hf : f s <;> simp [hf, Except.map]

/-- Writing the string that is there. -/
theorem put_of_strAt {q : List String} {d : Obj} {s : String} (hs : (Json.obj d).strAt q = some s) :
    d.put s q = d :=
  Json.obj.inj ((obj_put s q d).trans (Json.put_of_strAt hs))

/-- A transformation that returns the string its path addresses changes nothing. -/
theorem mapStr_of_fixed {f : String → Except ε String} {q : List String} {d : Obj}
    (h : ∀ s, d.lookup q = some (.str s) → f s = .ok s) : d.mapStr f q = .ok d := by
  rw [mapStr_eq_put]
  cases hs : (Json.obj d).strAt q with
  | none => rfl
  | some s =>
    dsimp only
    rw [h s (lookup_eq_str.2 hs), Except.map, put_of_strAt hs]

end Obj

/-! ## Redaction -/

namespace Json

/-- The value with the string at the end of every listed path blanked. -/
def redact : List (List String) → Json → Json
  | [], v => v
  | q :: qs, v => redact qs (v.put "" q)

/-- A write at a listed path is blanked. -/
theorem redact_put {qs : List (List String)} {q : List String} (hq : q ∈ qs) (t : String)
    (v : Json) : (v.put t q).redact qs = v.redact qs := by
  induction qs generalizing v with
  | nil => cases hq
  | cons p qs ih =>
    rw [redact, redact]
    by_cases hp : p = q
    · rw [hp, put_put_self]
    · rw [put_comm hp]
      exact ih ((List.mem_cons.1 hq).resolve_left (Ne.symm hp)) _

theorem strAt_redact {qs : List (List String)} {p : List String} (hp : p ∉ qs) (v : Json) :
    (v.redact qs).strAt p = v.strAt p := by
  induction qs generalizing v with
  | nil => rfl
  | cons q qs ih =>
    rw [List.mem_cons, not_or] at hp
    rw [redact, ih hp.2, strAt_put_of_ne hp.1]

theorem shape_at?_redact (qs : List (List String)) (p : List String) (v : Json) :
    ((v.redact qs).at? p).map shape = (v.at? p).map shape := by
  induction qs generalizing v with
  | nil => rfl
  | cons q qs ih => rw [redact, ih, shape_at?_put]

/-- **What is blanked and what is not determine a value.** -/
theorem eq_of_redact {qs : List (List String)} {v w : Json} (h : v.redact qs = w.redact qs)
    (hstr : ∀ q ∈ qs, v.strAt q = w.strAt q) : v = w := by
  induction qs generalizing v w with
  | nil => exact h
  | cons q qs ih =>
    have hq := hstr q List.mem_cons_self
    have hput : v.put "" q = w.put "" q := by
      refine ih h fun p hp => ?_
      by_cases hpq : p = q
      · rw [hpq, strAt_put_self, strAt_put_self, hq]
      · rw [strAt_put_of_ne hpq, strAt_put_of_ne hpq]
        exact hstr p (List.mem_cons_of_mem _ hp)
    cases hs : w.strAt q with
    | none =>
      rw [put_of_strAt_none (hq.trans hs), put_of_strAt_none hs] at hput
      exact hput
    | some s =>
      have hput' := congrArg (put s q) hput
      rw [put_put_self, put_put_self, put_of_strAt (hq.trans hs), put_of_strAt hs] at hput'
      exact hput'

end Json

/-! ## One transformation after another -/

namespace Obj
variable {ε : Type}

/-- Transform the strings at the ends of the listed paths one after another;
    the `i`-th path is given the transformation `f i`. -/
def mapStrs : (f : ℕ → String → Except ε String) → List (List String) → Obj → Except ε Obj
  | _, [], d => .ok d
  | f, q :: qs, d =>
    match d.mapStr (f 0) q with
    | .error e => .error e
    | .ok d' => mapStrs (fun i => f (i + 1)) qs d'

/-- What those transformations do to the string at the end of the path `p`. -/
def runAt : (f : ℕ → String → Except ε String) → (p : List String) → List (List String) →
    String → Except ε String
  | _, _, [], s => .ok s
  | f, p, q :: qs, s =>
    if q = p then
      match f 0 s with
      | .error e => .error e
      | .ok s' => runAt (fun i => f (i + 1)) p qs s'
    else runAt (fun i => f (i + 1)) p qs s

/-- A run changes only strings at the ends of listed paths. -/
theorem mapStrs_redact {f : ℕ → String → Except ε String} {qs rs : List (List String)} {d d' : Obj}
    (hrs : ∀ q ∈ qs, q ∈ rs) (h : mapStrs f qs d = .ok d') :
    (Json.obj d').redact rs = (Json.obj d).redact rs := by
  induction qs generalizing f d with
  | nil => cases h; rfl
  | cons q qs ih =>
    rw [mapStrs] at h
    split at h
    · cases h
    · rename_i d₁ h₁
      rw [ih (fun p hp => hrs p (List.mem_cons_of_mem _ hp)) h]
      obtain ⟨-, rfl⟩ | ⟨s, t, -, -, rfl⟩ := mapStr_ok h₁
      · rfl
      · rw [obj_put, Json.redact_put (hrs q List.mem_cons_self)]

/-- **The string at a path after a run** is the outcome of its own run. -/
theorem mapStrs_strAt {f : ℕ → String → Except ε String} {qs : List (List String)} {d d' : Obj}
    (h : mapStrs f qs d = .ok d') (p : List String) :
    ((Json.obj d).strAt p = none ∧ (Json.obj d').strAt p = none) ∨
      ∃ s s', (Json.obj d).strAt p = some s ∧ runAt f p qs s = .ok s' ∧
        (Json.obj d').strAt p = some s' := by
  induction qs generalizing f d with
  | nil =>
    obtain rfl := Except.ok.inj h
    cases hs : (Json.obj d).strAt p with
    | none => exact Or.inl ⟨rfl, rfl⟩
    | some s => exact Or.inr ⟨s, s, rfl, rfl, rfl⟩
  | cons q qs ih =>
    rw [mapStrs] at h
    split at h
    · cases h
    · rename_i d₁ h₁
      have ih := ih h
      obtain ⟨hn, rfl⟩ | ⟨s, t, hs, hf, rfl⟩ := mapStr_ok h₁
      · rcases ih with hl | ⟨s, s', hs, hr, hs'⟩
        · exact Or.inl hl
        · have hqp : q ≠ p := by
            rintro rfl
            rw [hn] at hs; cases hs
          exact Or.inr ⟨s, s', hs, by rw [runAt, if_neg hqp]; exact hr, hs'⟩
      · rw [obj_put] at ih
        by_cases hqp : q = p
        · subst hqp
          rw [Json.strAt_put_self, hs] at ih
          rcases ih with ⟨hn, -⟩ | ⟨t', s', ht, hr, hs'⟩
          · cases hn
          · cases ht
            exact Or.inr ⟨s, s', hs, by simp only [runAt, if_true, hf]; exact hr, hs'⟩
        · rw [Json.strAt_put_of_ne (Ne.symm hqp)] at ih
          rcases ih with hl | ⟨s₀, s', hs₀, hr, hs'⟩
          · exact Or.inl hl
          · exact Or.inr ⟨s₀, s', hs₀, by rw [runAt, if_neg hqp]; exact hr, hs'⟩

/-- **Where a run fails**: at the first listed path whose string, as the paths
    before left it, has no image. -/
theorem mapStrs_eq_error_iff {f : ℕ → String → Except ε String} {qs : List (List String)} {d : Obj}
    {e : ε} :
    mapStrs f qs d = .error e ↔
      ∃ pre q post d₁ m, qs = pre ++ q :: post ∧ mapStrs f pre d = .ok d₁ ∧
        (Json.obj d₁).strAt q = some m ∧ f pre.length m = .error e := by
  induction qs generalizing f d with
  | nil => simp [mapStrs]
  | cons q qs ih =>
    constructor
    · intro h
      rw [mapStrs] at h
      split at h
      · rename_i e' he
        cases h
        obtain ⟨s, hs, hf⟩ := mapStr_eq_error.1 he
        exact ⟨[], q, qs, d, s, rfl, rfl, lookup_eq_str.1 hs, hf⟩
      · rename_i d₀ h₀
        obtain ⟨pre, p, post, d₁, m, rfl, hd₁, hm, hf⟩ := ih.1 h
        exact ⟨q :: pre, p, post, d₁, m, rfl, by rw [mapStrs, h₀]; exact hd₁, hm, hf⟩
    · rintro ⟨pre, p, post, d₁, m, hqs, hd₁, hm, hf⟩
      cases pre with
      | nil =>
        obtain ⟨rfl, rfl⟩ := List.cons.inj hqs
        obtain rfl := Except.ok.inj hd₁
        have hfail : d.mapStr (f 0) q = .error e := mapStr_eq_error.2 ⟨m, lookup_eq_str.2 hm, hf⟩
        rw [mapStrs, hfail]
      | cons q' pre =>
        obtain ⟨rfl, rfl⟩ := List.cons.inj hqs
        rw [mapStrs] at hd₁ ⊢
        split at hd₁
        · cases hd₁
        · rename_i d₀ h₀
          exact ih.2 ⟨pre, p, post, d₁, m, rfl, hd₁, hm, hf⟩

/-- Where every string at a listed path fails, and there is one, the run fails. -/
theorem mapStrs_eq_error_of_forall {f : ℕ → String → Except ε String} {qs : List (List String)}
    {d : Obj} {e : ε}
    (hfail : ∀ q ∈ qs, ∀ s, (Json.obj d).strAt q = some s → ∀ i, f i s = .error e)
    (hsome : ∃ q ∈ qs, ∃ s, (Json.obj d).strAt q = some s) : mapStrs f qs d = .error e := by
  induction qs generalizing f with
  | nil =>
    obtain ⟨q, hq, -⟩ := hsome
    cases hq
  | cons q qs ih =>
    rw [mapStrs, mapStr_eq_put]
    cases hs : (Json.obj d).strAt q with
    | some s => simp only [hfail q List.mem_cons_self s hs 0, Except.map]
    | none =>
      refine ih (fun p hp s hs i => hfail p (List.mem_cons_of_mem _ hp) s hs (i + 1)) ?_
      obtain ⟨p, hp, s, hps⟩ := hsome
      rcases List.mem_cons.1 hp with rfl | hp
      · rw [hs] at hps; cases hps
      · exact ⟨p, hp, s, hps⟩

theorem runAt_append (f : ℕ → String → Except ε String) (p : List String)
    (pre post : List (List String)) (s : String) :
    runAt f p (pre ++ post) s =
      match runAt f p pre s with
      | .error e => .error e
      | .ok s' => runAt (fun i => f (i + pre.length)) p post s' := by
  induction pre generalizing f s with
  | nil => rfl
  | cons q pre ih =>
    rw [List.cons_append, runAt, runAt]
    split_ifs
    · cases f 0 s with
      | error e => rfl
      | ok s' => exact ih _ s'
    · exact ih _ s

/-- **A run succeeds** iff the run at every path does. -/
theorem mapStrs_isOk_iff {f : ℕ → String → Except ε String} {qs : List (List String)} {d : Obj} :
    (∃ d', mapStrs f qs d = .ok d') ↔
      ∀ p s, (Json.obj d).strAt p = some s → ∃ s', runAt f p qs s = .ok s' := by
  constructor
  · rintro ⟨d', h⟩ p s hs
    obtain ⟨hn, -⟩ | ⟨s₀, s', hs₀, hr, -⟩ := mapStrs_strAt h p
    · rw [hs] at hn; cases hn
    · rw [hs, Option.some.injEq] at hs₀
      exact ⟨s', hs₀ ▸ hr⟩
  · intro hall
    cases h : mapStrs f qs d with
    | ok d' => exact ⟨d', rfl⟩
    | error e =>
      obtain ⟨pre, q, post, d₁, m, rfl, hd₁, hm, hf⟩ := mapStrs_eq_error_iff.1 h
      obtain ⟨-, hn⟩ | ⟨s, s', hs, hr, hs'⟩ := mapStrs_strAt hd₁ q
      · rw [hm] at hn; cases hn
      · rw [hm, Option.some.injEq] at hs'
        obtain ⟨t, ht⟩ := hall q s hs
        rw [runAt_append, hr, ← hs'] at ht
        simp [runAt, hf] at ht

/-- Strings that every transformation returns stay. -/
theorem runAt_of_fixed {f : ℕ → String → Except ε String} {p : List String}
    {qs : List (List String)} {s : String} (hs : ∀ i, f i s = .ok s) : runAt f p qs s = .ok s := by
  induction qs generalizing f with
  | nil => rfl
  | cons q qs ih => simp [runAt, hs, ih fun i => hs (i + 1)]

theorem runAt_of_notMem {f : ℕ → String → Except ε String} {p : List String}
    {qs : List (List String)} (hp : p ∉ qs) (s : String) : runAt f p qs s = .ok s := by
  induction qs generalizing f with
  | nil => rfl
  | cons q qs ih =>
    rw [List.mem_cons, not_or] at hp
    rw [runAt, if_neg (Ne.symm hp.1)]
    exact ih hp.2

/-- At a listed path the run is one transformation, if no later one changes its
    outcome. -/
theorem runAt_of_mem {f : ℕ → String → Except ε String} {p : List String}
    {qs : List (List String)} (hp : p ∈ qs) {s : String}
    (hf : ∀ i t, f i s = .ok t → ∀ j, f j t = .ok t) : ∃ i, runAt f p qs s = f i s := by
  induction qs generalizing f with
  | nil => cases hp
  | cons q qs ih =>
    by_cases hqp : q = p
    · refine ⟨0, ?_⟩
      rw [runAt, if_pos hqp]
      cases h : f 0 s with
      | error e => rfl
      | ok t => exact runAt_of_fixed fun i => hf 0 t h (i + 1)
    · have hp' := (List.mem_cons.1 hp).resolve_left (Ne.symm hqp)
      obtain ⟨i, hi⟩ := ih (f := fun i => f (i + 1)) hp' fun i t h j => hf (i + 1) t h (j + 1)
      exact ⟨i + 1, by rw [runAt, if_neg hqp]; exact hi⟩

end Obj

/-! ## U+0000 -/

section
open PyStr
variable {ε : Type} {k t s : String} {v : Json} {d d' : Obj} {q : List String}

theorem Obj.nulFree_cons {e : String × Json} :
    Obj.nulFree (e :: d) = true ↔ NulFree e.1 ∧ e.2.nulFree = true ∧ d.nulFree = true := by
  simp [Obj.nulFree, nulFreeEntries, and_assoc]

theorem Obj.nulFree_get? (h : d.nulFree = true) (hv : d.get? k = some v) : v.nulFree = true := by
  induction d with
  | nil => cases hv
  | cons e d ih =>
    obtain ⟨-, hval, hd⟩ := nulFree_cons.1 h
    rw [get?] at hv
    split_ifs at hv
    · cases hv
      exact hval
    · exact ih hd hv

theorem Obj.nulFree_adjust {g : Json → Json} (hg : ∀ v, v.nulFree = true → (g v).nulFree = true)
    (h : d.nulFree = true) : (d.adjust k g).nulFree = true := by
  induction d with
  | nil => rfl
  | cons e d ih =>
    obtain ⟨hkey, hval, hd⟩ := nulFree_cons.1 h
    rw [adjust]
    split_ifs
    · exact nulFree_cons.2 ⟨hkey, hg _ hval, hd⟩
    · exact nulFree_cons.2 ⟨hkey, hval, ih hd⟩

theorem Json.nulFree_put (ht : NulFree t) (h : v.nulFree = true) : (v.put t q).nulFree = true := by
  induction q generalizing v with
  | nil =>
    cases v with
    | str s => simpa [Json.nulFree] using ht
    | _ => exact h
  | cons k ks ih =>
    cases v with
    | obj c => exact Obj.nulFree_adjust (fun v hv => ih hv) h
    | _ => exact h

theorem Json.nulFree_strAt (h : v.nulFree = true) (hs : v.strAt q = some s) : NulFree s := by
  induction q generalizing v with
  | nil =>
    cases v with
    | str s' =>
      cases hs
      simpa [Json.nulFree] using h
    | _ => cases hs
  | cons k ks ih =>
    cases v with
    | obj c =>
      obtain ⟨v, hv, hstr⟩ := Option.bind_eq_some_iff.1 hs
      obtain ⟨u, hu, hat⟩ := Option.bind_eq_some_iff.1 hv
      refine ih (Obj.nulFree_get? h hu) ?_
      rw [strAt, hat]
      exact hstr
    | _ => cases hs

/-- Transformations that put no U+0000 into a string put none into a dictionary. -/
theorem Obj.nulFree_mapStrs {f : ℕ → String → Except ε String} {qs : List (List String)}
    (hf : ∀ i s t, NulFree s → f i s = .ok t → NulFree t) (h : d.nulFree = true)
    (hd : d.mapStrs f qs = .ok d') : d'.nulFree = true := by
  induction qs generalizing f d with
  | nil =>
    cases hd
    exact h
  | cons q qs ih =>
    rw [mapStrs] at hd
    split at hd
    · cases hd
    · rename_i d₁ h₁
      refine ih (fun i => hf (i + 1)) ?_ hd
      obtain ⟨-, rfl⟩ | ⟨s, t, hs, ht, rfl⟩ := mapStr_ok h₁
      · exact h
      · have hobj : (Json.obj d).nulFree = true := h
        have hput := Json.nulFree_put (q := q) (hf 0 s t (Json.nulFree_strAt hobj hs) ht) hobj
        rw [← obj_put] at hput
        exact hput

end

end PyData
