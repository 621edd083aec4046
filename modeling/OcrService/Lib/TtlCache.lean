/-
  A cache whose entries are good for some time and whose size is bounded.

  An entry is stored with the last instant at which it is good; `get` drops one
  that it finds too old, and `set` clears a full cache before it stores.  The
  lemmas say where an entry comes from and that the bound is kept.
-/
import Mathlib.Data.List.AList
import Mathlib.Order.Lattice

namespace Ttl

variable {κ ν T : Type} [DecidableEq κ]

structure Cache (κ ν T : Type) where
  ttl : T
  maxsize : ℕ
  data : AList fun _ : κ => T × ν := ∅

namespace Cache
variable (c : Cache κ ν T) (now : T) (k : κ) (v : ν)

/-- The value stored for a key, with the last instant at which it is good. -/
def entry : Option (T × ν) := c.data.lookup k

def size : ℕ := c.data.keys.length

def evict : Cache κ ν T := { c with data := c.data.erase k }

def clear : Cache κ ν T := { c with data := ∅ }

/-- The value of a key, if there is one that is good. -/
def get [LinearOrder T] : Option ν × Cache κ ν T :=
  match c.entry k with
  | none => (none, c)
  | some (expires, v) => if expires < now then (none, c.evict k) else (some v, c)

def set [Add T] : Cache κ ν T :=
  { c with data := (if c.maxsize ≤ c.size then ∅ else c.data).insert k (now + c.ttl, v) }

variable {c now k v} {k' : κ} {e : T × ν}

theorem entry_evict (h : (c.evict k).entry k' = some e) : c.entry k' = some e := by
  by_cases hk : k' = k
  · subst hk
    rw [entry, evict, AList.lookup_erase] at h
    cases h
  · rwa [entry, evict, AList.lookup_erase_ne hk] at h

theorem entry_clear : c.clear.entry k = none := AList.lookup_empty k

theorem size_evict_le : (c.evict k).size ≤ c.size := by
  rw [size, evict, AList.keys_erase]
  exact List.length_erase_le

/-! ## Asking -/

section
variable [LinearOrder T]

/-- **A hit** is an entry that is still good. -/
theorem get_eq_some : (c.get now k).1 = some v ↔ ∃ expires, c.entry k = some (expires, v) ∧ now ≤ expires := by
  unfold get
  cases hentry : c.entry k with
  | none => simp
  | some e =>
    obtain ⟨expires, v'⟩ := e
    dsimp only
    split_ifs with hlt
    · constructor
      · rintro ⟨⟩
      · rintro ⟨x, hx, hle⟩
        cases hx
        exact absurd hlt (not_lt.2 hle)
    · constructor
      · rintro ⟨⟩
        exact ⟨expires, rfl, not_lt.1 hlt⟩
      · rintro ⟨x, hx, -⟩
        cases hx
        rfl

/-- Asking at most drops the key. -/
theorem get_snd (c : Cache κ ν T) (now : T) (k : κ) : (c.get now k).2 = c ∨ (c.get now k).2 = c.evict k := by
  unfold get
  split
  · exact Or.inl rfl
  · split_ifs
    · exact Or.inr rfl
    · exact Or.inl rfl

theorem entry_get (h : (c.get now k).2.entry k' = some e) : c.entry k' = some e := by
  rcases c.get_snd now k with hget | hget <;> rw [hget] at h
  · exact h
  · exact entry_evict h

end

/-! ## Storing -/

section
variable [Add T]

/-- The key that is stored. -/
theorem entry_set_self : (c.set now k v).entry k = some (now + c.ttl, v) := AList.lookup_insert _

/-- **Where an entry comes from.** -/
theorem entry_set (h : (c.set now k v).entry k' = some e) :
    k' = k ∧ e = (now + c.ttl, v) ∨ c.entry k' = some e := by
  by_cases hk : k' = k
  · subst hk
    rw [entry_set_self] at h
    exact Or.inl ⟨rfl, (Option.some.inj h).symm⟩
  · rw [entry, set, AList.lookup_insert_ne hk] at h
    split_ifs at h
    · rw [AList.lookup_empty] at h
      cases h
    · exact Or.inr h

/-- **The bound is kept.** -/
theorem size_set_le (hmax : 1 ≤ c.maxsize) : (c.set now k v).size ≤ c.maxsize := by
  rw [size, set, AList.keys_insert, List.length_cons]
  split_ifs with hfull
  · simpa using hmax
  · have hle : (c.data.keys.erase k).length ≤ c.size := List.length_erase_le
    omega

end

end Cache

end Ttl
