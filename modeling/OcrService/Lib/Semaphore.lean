/-
  Counting semaphores and their users.

  A user of a semaphore waits for a slot, holds one, or is done.  What a
  semaphore has free and what its users hold add up to its `slots`, which
  nothing changes once it has been created (`slots_enter`, `slots_leave`).
  Users have a key; `reach` is how many users of a key can hold a semaphore at
  the same time, and the holders of a key are bounded by it (`holding_le`).
-/
import Mathlib.Algebra.BigOperators.Group.Finset.Piecewise
import Mathlib.Algebra.Order.BigOperators.Group.Finset

namespace Semaphore

open Finset

/-- Where a user is. -/
inductive Stage where
  | waiting
  | holding
  | done
  deriving DecidableEq

/-- A user of the semaphore `sem`. -/
structure User (κ : Type) where
  key : κ
  sem : ℕ
  stage : Stage := .waiting

/-- The counters of the semaphores, and their users. -/
structure Table (κ : Type) where
  values : List ℕ := []
  users : List (User κ) := []

namespace Table

variable {κ : Type}

/-! ## Operations -/

section
variable (s : Table κ)

/-- The free slots of a semaphore. -/
def value (o : ℕ) : ℕ := s.values.getD o 0

/-- A new semaphore. -/
def create (limit : ℕ) : Table κ := { s with values := s.values ++ [limit] }

/-- A new user of a semaphore. -/
def join (key : κ) (o : ℕ) : Table κ := { s with users := s.users ++ [{ key, sem := o }] }

/-- A user gets a slot, if one is free. -/
def enter (i : ℕ) : Option (Table κ) :=
  match s.users[i]? with
  | none => none
  | some u =>
    if u.stage = .waiting ∧ 0 < s.value u.sem then
      some { values := s.values.set u.sem (s.value u.sem - 1), users := s.users.set i { u with stage := .holding } }
    else none

/-- A user gives its slot back. -/
def leave (i : ℕ) : Option (Table κ) :=
  match s.users[i]? with
  | none => none
  | some u =>
    if u.stage = .holding then
      some { values := s.values.set u.sem (s.value u.sem + 1), users := s.users.set i { u with stage := .done } }
    else none

/-! ## Counts -/

/-- The holders of a semaphore. -/
def holdingOn (o : ℕ) : ℕ := s.users.countP fun u => u.sem = o ∧ u.stage = .holding

/-- What a semaphore has free and what is held of it. -/
def slots (o : ℕ) : ℕ := s.value o + s.holdingOn o

/-- Every user's semaphore exists. -/
def Valid : Prop := ∀ u ∈ s.users, u.sem < s.values.length

variable [DecidableEq κ] (k : κ)

/-- The users with the key `k` that hold a slot. -/
def holding : ℕ := s.users.countP fun u => u.key = k ∧ u.stage = .holding

/-- The users with the key `k` of a semaphore that are not done. -/
def pendingOn (o : ℕ) : ℕ := s.users.countP fun u => u.key = k ∧ u.sem = o ∧ u.stage ≠ .done

/-- How many users with the key `k` can hold a semaphore at the same time. -/
def reach (o : ℕ) : ℕ := min (s.slots o) (s.pendingOn k o)

end

/-- Nobody with the key `k` waits for a slot that is free. -/
def Full (k : κ) (s : Table κ) : Prop := ∀ u ∈ s.users, u.key = k → u.stage = .waiting → s.value u.sem = 0

/-- The users of a semaphore have the key of its owner. -/
def Owned (owner : ℕ → κ) (s : Table κ) : Prop := ∀ u ∈ s.users, u.key = owner u.sem

/-! ## Counting in lists -/

section
variable {α : Type} {p : α → Bool} {l : List α} {i : ℕ} {a b : α}

theorem countP_set_add (h : l[i]? = some a) :
    (l.set i b).countP p + (if p a then 1 else 0) = l.countP p + if p b then 1 else 0 := by
  obtain ⟨hi, rfl⟩ := List.getElem?_eq_some_iff.1 h
  rw [List.countP_set hi]
  have hpos : (if p l[i] then 1 else 0) ≤ l.countP p := by
    split_ifs with hp
    · exact List.countP_pos_iff.2 ⟨_, List.getElem_mem hi, hp⟩
    · exact Nat.zero_le _
  omega

theorem countP_set_same (h : l[i]? = some a) (hab : p a = p b) : (l.set i b).countP p = l.countP p := by
  have := countP_set_add (p := p) (b := b) h
  rw [hab] at this
  omega

theorem countP_set_gain (h : l[i]? = some a) (ha : p a = false) (hb : p b = true) :
    (l.set i b).countP p = l.countP p + 1 := by
  have := countP_set_add (p := p) (b := b) h
  simpa [ha, hb] using this

theorem countP_set_loss (h : l[i]? = some a) (ha : p a = true) (hb : p b = false) :
    (l.set i b).countP p + 1 = l.countP p := by
  have := countP_set_add (p := p) (b := b) h
  simpa [ha, hb] using this

end

/-- What is counted in a list is the sum of what is counted at each value of `f`. -/
theorem countP_eq_sum {α : Type} {p : α → Bool} {f : α → ℕ} {n : ℕ} {l : List α} (h : ∀ x ∈ l, f x < n) :
    l.countP p = ∑ o ∈ range n, l.countP fun x => p x && decide (f x = o) := by
  induction l with
  | nil => simp
  | cons x l ih =>
    have hx : f x < n := h x List.mem_cons_self
    have hone : ∑ o ∈ range n, (if (p x && decide (f x = o)) = true then 1 else 0) =
        if p x = true then 1 else 0 := by
      cases p x with
      | true => simp only [Bool.true_and, decide_eq_true_eq, sum_ite_eq, mem_range, hx, if_true]
      | false => simp
    simp only [List.countP_cons, sum_add_distrib, hone]
    rw [ih fun y hy => h y (List.mem_cons_of_mem _ hy)]

/-! ## What the operations keep -/

section
variable {s s' : Table κ} {i o limit : ℕ} {u : User κ}

theorem enter_eq_some (h : s.enter i = some s') :
    ∃ u, s.users[i]? = some u ∧ u.stage = .waiting ∧ 0 < s.value u.sem ∧
      s'.values = s.values.set u.sem (s.value u.sem - 1) ∧
      s'.users = s.users.set i { u with stage := .holding } := by
  unfold enter at h
  cases hu : s.users[i]? with
  | none => rw [hu] at h; cases h
  | some u =>
    rw [hu] at h
    dsimp only at h
    split_ifs at h with hfree
    cases h
    exact ⟨u, rfl, hfree.1, hfree.2, rfl, rfl⟩

theorem leave_eq_some (h : s.leave i = some s') :
    ∃ u, s.users[i]? = some u ∧ u.stage = .holding ∧
      s'.values = s.values.set u.sem (s.value u.sem + 1) ∧
      s'.users = s.users.set i { u with stage := .done } := by
  unfold leave at h
  cases hu : s.users[i]? with
  | none => rw [hu] at h; cases h
  | some u =>
    rw [hu] at h
    dsimp only at h
    split_ifs at h with hholds
    cases h
    exact ⟨u, rfl, hholds, rfl, rfl⟩

theorem Valid.create (h : s.Valid) : (s.create limit).Valid := fun u hu => by
  have := h u hu
  simp only [Table.create, List.length_append, List.length_singleton]
  omega

theorem Valid.join {k : κ} (h : s.Valid) (ho : o < s.values.length) : (s.join k o).Valid := by
  intro u hu
  rcases List.mem_append.1 hu with hu | hu
  · exact h u hu
  · rw [List.mem_singleton.1 hu]
    exact ho

theorem Valid.enter (h : s.Valid) (he : s.enter i = some s') : s'.Valid := by
  obtain ⟨u, hu, -, -, hvalues, husers⟩ := enter_eq_some he
  intro v hv
  rw [husers] at hv
  rw [hvalues, List.length_set]
  rcases List.mem_or_eq_of_mem_set hv with hv | rfl
  · exact h v hv
  · exact h u (List.mem_of_getElem? hu)

theorem Valid.leave (h : s.Valid) (hl : s.leave i = some s') : s'.Valid := by
  obtain ⟨u, hu, -, hvalues, husers⟩ := leave_eq_some hl
  intro v hv
  rw [husers] at hv
  rw [hvalues, List.length_set]
  rcases List.mem_or_eq_of_mem_set hv with hv | rfl
  · exact h v hv
  · exact h u (List.mem_of_getElem? hu)

theorem value_set {n : ℕ} {values : List ℕ} (ho : o < values.length) (x : ℕ) :
    (values.set o n).getD x 0 = if x = o then n else values.getD x 0 := by
  simp only [List.getD_eq_getElem?_getD]
  by_cases h : x = o
  · subst h
    rw [List.getElem?_set_self ho, if_pos rfl, Option.getD_some]
  · rw [List.getElem?_set_ne (Ne.symm h), if_neg h]

/-- **An acquired slot stays a slot** of its semaphore. -/
theorem slots_enter (h : s.Valid) (he : s.enter i = some s') (o : ℕ) : s'.slots o = s.slots o := by
  obtain ⟨u, hu, hwait, hfree, hvalues, husers⟩ := enter_eq_some he
  have hsem := h u (List.mem_of_getElem? hu)
  unfold slots holdingOn value at *
  rw [hvalues, husers, value_set hsem]
  by_cases ho : u.sem = o
  · subst ho
    rw [if_pos rfl, countP_set_gain hu (by simp [hwait]) (by simp)]
    omega
  · rw [if_neg (Ne.symm ho), countP_set_same hu (by simp [ho])]

/-- **A slot given back stays a slot** of its semaphore. -/
theorem slots_leave (h : s.Valid) (hl : s.leave i = some s') (o : ℕ) : s'.slots o = s.slots o := by
  obtain ⟨u, hu, hholds, hvalues, husers⟩ := leave_eq_some hl
  have hsem := h u (List.mem_of_getElem? hu)
  unfold slots holdingOn value at *
  rw [hvalues, husers, value_set hsem]
  by_cases ho : u.sem = o
  · subst ho
    rw [if_pos rfl, ← countP_set_loss hu (b := { u with stage := .done }) (by simp [hholds]) (by simp)]
    omega
  · rw [if_neg (Ne.symm ho), countP_set_same hu (by simp [ho])]

@[simp] theorem slots_join (k : κ) (o x : ℕ) : (s.join k o).slots x = s.slots x := by
  simp [slots, holdingOn, join, value]

theorem slots_create (ho : o < s.values.length) : (s.create limit).slots o = s.slots o := by
  simp [slots, holdingOn, create, value, List.getElem?_append_left ho]

/-- The slots of a new semaphore. -/
theorem slots_created (h : s.Valid) : (s.create limit).slots s.values.length = limit := by
  have hnone : s.holdingOn s.values.length = 0 := by
    refine List.countP_eq_zero.2 fun u hu => ?_
    simp [(h u hu).ne]
  have hnone' : (s.create limit).holdingOn s.values.length = 0 := hnone
  rw [slots, hnone', value, create]
  simp

theorem Owned.enter {owner : ℕ → κ} (h : Owned owner s) (he : s.enter i = some s') : Owned owner s' := by
  obtain ⟨u, hu, -, -, -, husers⟩ := enter_eq_some he
  intro v hv
  rw [husers] at hv
  rcases List.mem_or_eq_of_mem_set hv with hv | rfl
  · exact h v hv
  · exact h u (List.mem_of_getElem? hu)

theorem Owned.leave {owner : ℕ → κ} (h : Owned owner s) (hl : s.leave i = some s') : Owned owner s' := by
  obtain ⟨u, hu, -, -, husers⟩ := leave_eq_some hl
  intro v hv
  rw [husers] at hv
  rcases List.mem_or_eq_of_mem_set hv with hv | rfl
  · exact h v hv
  · exact h u (List.mem_of_getElem? hu)

theorem Owned.join {owner : ℕ → κ} (h : Owned owner s) (o : ℕ) : Owned owner (s.join (owner o) o) := by
  intro u hu
  rcases List.mem_append.1 hu with hu | hu
  · exact h u hu
  · rw [List.mem_singleton.1 hu]

/-- Somebody who waits for a free slot gets it. -/
theorem enter_of_waiting (hu : s.users[i]? = some u) (hwait : u.stage = .waiting) (hfree : 0 < s.value u.sem) :
    ∃ s', s.enter i = some s' ∧
      (s'.users.countP fun u => u.stage = .waiting) + 1 = s.users.countP fun u => u.stage = .waiting := by
  refine ⟨_, by rw [enter, hu]; exact if_pos ⟨hwait, hfree⟩, ?_⟩
  exact countP_set_loss hu (by simp [hwait]) (by simp)

variable [DecidableEq κ] {k : κ}

/-- The users that are not done stay so when one enters. -/
theorem pendingOn_enter (he : s.enter i = some s') (k : κ) (o : ℕ) : s'.pendingOn k o = s.pendingOn k o := by
  obtain ⟨u, hu, hwait, -, -, husers⟩ := enter_eq_some he
  unfold pendingOn
  rw [husers]
  exact countP_set_same hu (by simp [hwait])

theorem pendingOn_leave (hl : s.leave i = some s') (k : κ) (o : ℕ) : s'.pendingOn k o ≤ s.pendingOn k o := by
  obtain ⟨u, hu, -, -, husers⟩ := leave_eq_some hl
  have hcount := countP_set_add (p := fun u => decide (u.key = k ∧ u.sem = o ∧ u.stage ≠ .done))
    (b := { u with stage := .done }) hu
  unfold pendingOn
  rw [husers]
  simp only [ne_eq, not_true_eq_false, and_false, decide_false, Bool.false_eq_true, if_false, add_zero] at hcount
  exact hcount ▸ Nat.le_add_right _ _

theorem pendingOn_join_self (k : κ) (o : ℕ) : (s.join k o).pendingOn k o = s.pendingOn k o + 1 := by
  simp [pendingOn, join, List.countP_append]

theorem pendingOn_join {k' : κ} {x : ℕ} (h : k' ≠ k ∨ o ≠ x) : (s.join k' o).pendingOn k x = s.pendingOn k x := by
  have hnew : ¬ (k' = k ∧ o = x) := fun ⟨hk, ho⟩ => h.elim (· hk) (· ho)
  simp only [pendingOn, join, List.countP_append, List.countP_singleton]
  simp only [ne_eq, reduceCtorEq, not_false_eq_true, and_true, hnew, decide_false, Bool.false_eq_true,
    if_false, add_zero]

/-- Nobody uses a new semaphore yet. -/
theorem pendingOn_new (h : s.Valid) (k : κ) : s.pendingOn k s.values.length = 0 := by
  refine List.countP_eq_zero.2 fun u hu => ?_
  simp [(h u hu).ne]

/-- **The holders of a key** are no more than can hold each semaphore. -/
theorem holding_le (h : s.Valid) (k : κ) :
    s.holding k ≤ ∑ o ∈ range s.values.length, s.reach k o := by
  unfold holding
  rw [countP_eq_sum h]
  refine sum_le_sum fun o _ => le_min (le_add_left ?_) ?_
  · refine List.countP_mono_left fun u _ hu => ?_
    simp only [Bool.and_eq_true, decide_eq_true_eq] at hu ⊢
    exact ⟨hu.2, hu.1.2⟩
  · refine List.countP_mono_left fun u _ hu => ?_
    simp only [Bool.and_eq_true, decide_eq_true_eq] at hu ⊢
    exact ⟨hu.1.1, hu.2, by rw [hu.1.2]; decide⟩

/-- In a full table a semaphore is held by as many as can hold it. -/
theorem reach_le_of_full {owner : ℕ → κ} (hown : Owned owner s) (hfull : s.Full k) (o : ℕ) :
    s.reach k o ≤ s.users.countP fun u => decide (u.key = k ∧ u.stage = .holding) && decide (u.sem = o) := by
  by_cases hwait : ∃ u ∈ s.users, u.key = k ∧ u.sem = o ∧ u.stage = .waiting
  · obtain ⟨u, hu, rfl, rfl, hstage⟩ := hwait
    have hnone : s.value u.sem = 0 := hfull u hu rfl hstage
    refine (min_le_left _ _).trans ?_
    rw [slots, hnone, Nat.zero_add]
    refine List.countP_mono_left fun v hv hheld => ?_
    simp only [Bool.and_eq_true, decide_eq_true_eq] at hheld ⊢
    refine ⟨⟨?_, hheld.2⟩, hheld.1⟩
    rw [hown v hv, hown u hu, hheld.1]
  · refine (min_le_right _ _).trans (List.countP_mono_left fun v hv hpending => ?_)
    simp only [Bool.and_eq_true, decide_eq_true_eq] at hpending ⊢
    obtain ⟨hk, ho, hdone⟩ := hpending
    refine ⟨⟨hk, ?_⟩, ho⟩
    cases hstage : v.stage with
    | waiting => exact absurd ⟨v, hv, hk, ho, hstage⟩ hwait
    | holding => rfl
    | done => exact absurd hstage hdone

/-- **The holders of a key in a full table** are as many as can hold its semaphores. -/
theorem sum_reach_le {owner : ℕ → κ} (h : s.Valid) (hown : Owned owner s) (hfull : s.Full k) :
    ∑ o ∈ range s.values.length, s.reach k o ≤ s.holding k := by
  unfold holding
  rw [countP_eq_sum h]
  exact sum_le_sum fun o _ => reach_le_of_full hown hfull o

end

/-! ## The users of one key

  What a table is to the users of a key: a table of their own, whose semaphores
  are some of its semaphores, under other numbers. -/

section
variable {α : Type} {p : α → Bool} {l : List α} {i : ℕ} {a b : α}

theorem filter_get (h : l[i]? = some a) (ha : p a) : (l.filter p)[(l.take i).countP p]? = some a := by
  obtain ⟨hi, rfl⟩ := List.getElem?_eq_some_iff.1 h
  have hsplit : l.filter p = (l.take i).filter p ++ l[i] :: (l.drop (i + 1)).filter p := by
    rw [← List.filter_cons_of_pos ha, ← List.filter_append, List.getElem_cons_drop, List.take_append_drop]
  rw [hsplit, List.countP_eq_length_filter, List.getElem?_append_right le_rfl, Nat.sub_self]
  rfl

theorem filter_set (h : l[i]? = some a) (ha : p a) (hb : p b) :
    (l.set i b).filter p = (l.filter p).set ((l.take i).countP p) b := by
  induction l generalizing i with
  | nil => simp at h
  | cons x l ih =>
    cases i with
    | zero =>
      obtain rfl := Option.some.inj h
      simp [hb, ha]
    | succ i =>
      have hrest := ih (i := i) h
      by_cases hx : p x
      · simp [hx, hrest]
      · simp [hx, hrest]

theorem filter_set_other (h : l[i]? = some a) (ha : ¬ p a) (hb : ¬ p b) : (l.set i b).filter p = l.filter p := by
  induction l generalizing i with
  | nil => rfl
  | cons x l ih =>
    cases i with
    | zero =>
      obtain rfl := Option.some.inj h
      simp [ha, hb]
    | succ i => simp [List.filter_cons, ih (i := i) h]

end

section
variable [DecidableEq κ] {k k' : κ} {f : ℕ → ℕ} {s s' t : Table κ} {i o limit : ℕ} {u : User κ}

/-- The users with the key `k` before a user. -/
def rank (k : κ) (s : Table κ) (i : ℕ) : ℕ := (s.users.take i).countP fun u => u.key = k

/-- The users with the key `k` of `s` are those of `s'`, and the semaphore `o` of
    `s'` is the semaphore `f o` of `s`, which nobody else uses. -/
structure Shares (k : κ) (f : ℕ → ℕ) (s s' : Table κ) : Prop where
  valid : s'.Valid
  users : s.users.filter (fun u => u.key = k) = s'.users.map fun u => { u with sem := f u.sem }
  value : ∀ o < s'.values.length, s.value (f o) = s'.value o
  lt : ∀ o < s'.values.length, f o < s.values.length
  inj : ∀ o < s'.values.length, ∀ o' < s'.values.length, f o = f o' → o = o'
  own : ∀ u ∈ s.users, ∀ o < s'.values.length, u.sem = f o → u.key = k

namespace Shares

theorem empty (k : κ) (f : ℕ → ℕ) : Shares k f {} {} where
  valid := fun _ hu => absurd hu List.not_mem_nil
  users := rfl
  value := fun o ho => absurd ho (Nat.not_lt_zero o)
  lt := fun o ho => absurd ho (Nat.not_lt_zero o)
  inj := fun o ho => absurd ho (Nat.not_lt_zero o)
  own := fun _ hu => absurd hu List.not_mem_nil

theorem key (h : Shares k f s s') : ∀ u ∈ s'.users, u.key = k := by
  intro u hu
  have hmem : ({ u with sem := f u.sem } : User κ) ∈ s.users.filter fun u => u.key = k := by
    rw [h.users]
    exact List.mem_map_of_mem hu
  exact of_decide_eq_true (List.mem_filter.1 hmem).2

theorem stages (h : Shares k f s s') :
    (s.users.filter fun u => u.key = k).map User.stage = s'.users.map User.stage := by
  rw [h.users, List.map_map]
  rfl

theorem holding (h : Shares k f s s') : s.holding k = s'.holding k := by
  have hcount (t : Table κ) : t.holding k =
      ((t.users.filter fun u => u.key = k).map User.stage).countP fun x => x = .holding := by
    unfold Table.holding
    rw [List.countP_map, List.countP_filter]
    refine List.countP_congr fun u _ => ?_
    simp [and_comm]
  have hall : s'.users.filter (fun u => u.key = k) = s'.users :=
    List.filter_eq_self.2 fun u hu => decide_eq_true (h.key u hu)
  rw [hcount, hcount, h.stages, hall]

/-- A user with the key, and what a change of its semaphore's value and of its stage leaves. -/
theorem set_own (h : Shares k f s s') (hu : s.users[i]? = some u) (hk : u.key = k) :
    ∃ u', s'.users[s.rank k i]? = some u' ∧ u'.stage = u.stage ∧ s'.value u'.sem = s.value u.sem ∧
      ∀ n stage,
        Shares k f { values := s.values.set u.sem n, users := s.users.set i { u with stage } }
          { values := s'.values.set u'.sem n, users := s'.users.set (s.rank k i) { u' with stage } } := by
  have hget : (s.users.filter fun u => u.key = k)[s.rank k i]? = some u :=
    filter_get hu (decide_eq_true hk)
  rw [h.users, List.getElem?_map] at hget
  obtain ⟨u', hu', rfl⟩ := Option.map_eq_some_iff.1 hget
  have hsem : u'.sem < s'.values.length := h.valid u' (List.mem_of_getElem? hu')
  refine ⟨u', hu', rfl, (h.value _ hsem).symm, fun n stage => ?_⟩
  refine ⟨fun v hv => ?_, ?_, fun o ho => ?_, fun o ho => ?_, fun o ho o' ho' => ?_, fun v hv o ho => ?_⟩
  · rw [List.length_set]
    rcases List.mem_or_eq_of_mem_set hv with hv | rfl
    · exact h.valid v hv
    · exact hsem
  · dsimp only
    rw [filter_set hu (decide_eq_true hk) (decide_eq_true hk), h.users, List.map_set]
    rfl
  · rw [List.length_set] at ho
    unfold Table.value
    rw [value_set (h.lt _ hsem), value_set hsem]
    by_cases heq : o = u'.sem
    · rw [heq, if_pos rfl, if_pos rfl]
    · rw [if_neg heq, if_neg fun hf => heq (h.inj o ho _ hsem hf)]
      exact h.value o ho
  · rw [List.length_set] at ho ⊢
    exact h.lt o ho
  · rw [List.length_set] at ho ho'
    exact h.inj o ho o' ho'
  · rw [List.length_set] at ho
    rcases List.mem_or_eq_of_mem_set hv with hv | rfl
    · exact h.own v hv o ho
    · intro _
      exact hk

/-- A user with another key changes nothing of it. -/
theorem set_other (h : Shares k f s s') (hs : s.Valid) (hu : s.users[i]? = some u) (hk : u.key ≠ k)
    (n : ℕ) (stage : Stage) :
    Shares k f { values := s.values.set u.sem n, users := s.users.set i { u with stage } } s' := by
  have hmem := List.mem_of_getElem? hu
  refine ⟨h.valid, ?_, fun o ho => ?_, fun o ho => ?_, h.inj, fun v hv o ho => ?_⟩
  · rw [← h.users]
    exact filter_set_other hu (by simp [hk]) (by simp [hk])
  · unfold Table.value
    rw [value_set (hs u hmem), if_neg fun hf => hk (h.own u hmem o ho hf.symm)]
    exact h.value o ho
  · rw [List.length_set]
    exact h.lt o ho
  · rcases List.mem_or_eq_of_mem_set hv with hv | rfl
    · exact h.own v hv o ho
    · exact h.own u hmem o ho

/-- A user with the key gets a slot exactly if it gets one in the table of its own. -/
theorem enter_own (h : Shares k f s s') (hu : s.users[i]? = some u) (hk : u.key = k) :
    (s.enter i = none ∧ s'.enter (s.rank k i) = none) ∨
      ∃ t t', s.enter i = some t ∧ s'.enter (s.rank k i) = some t' ∧ Shares k f t t' := by
  obtain ⟨u', hu', hstage, hvalue, hset⟩ := h.set_own hu hk
  unfold enter
  rw [hu, hu']
  dsimp only
  rw [hstage, hvalue]
  by_cases hfree : u.stage = .waiting ∧ 0 < s.value u.sem
  · rw [if_pos hfree, if_pos hfree]
    exact Or.inr ⟨_, _, rfl, rfl, hset _ _⟩
  · rw [if_neg hfree, if_neg hfree]
    exact Or.inl ⟨rfl, rfl⟩

theorem leave_own (h : Shares k f s s') (hu : s.users[i]? = some u) (hk : u.key = k) :
    (s.leave i = none ∧ s'.leave (s.rank k i) = none) ∨
      ∃ t t', s.leave i = some t ∧ s'.leave (s.rank k i) = some t' ∧ Shares k f t t' := by
  obtain ⟨u', hu', hstage, hvalue, hset⟩ := h.set_own hu hk
  unfold leave
  rw [hu, hu']
  dsimp only
  rw [hstage, hvalue]
  by_cases hholds : u.stage = .holding
  · rw [if_pos hholds, if_pos hholds]
    exact Or.inr ⟨_, _, rfl, rfl, hset _ _⟩
  · rw [if_neg hholds, if_neg hholds]
    exact Or.inl ⟨rfl, rfl⟩

theorem enter_other (h : Shares k f s s') (hs : s.Valid) (hu : s.users[i]? = some u) (hk : u.key ≠ k)
    (he : s.enter i = some t) : Shares k f t s' := by
  obtain ⟨v, hv, -, -, hvalues, husers⟩ := enter_eq_some he
  obtain rfl := Option.some.inj (hu.symm.trans hv)
  have hset := h.set_other hs hu hk (s.value u.sem - 1) .holding
  rwa [← hvalues, ← husers] at hset

theorem leave_other (h : Shares k f s s') (hs : s.Valid) (hu : s.users[i]? = some u) (hk : u.key ≠ k)
    (hl : s.leave i = some t) : Shares k f t s' := by
  obtain ⟨v, hv, -, hvalues, husers⟩ := leave_eq_some hl
  obtain rfl := Option.some.inj (hu.symm.trans hv)
  have hset := h.set_other hs hu hk (s.value u.sem + 1) .done
  rwa [← hvalues, ← husers] at hset

theorem join_own (h : Shares k f s s') (ho : o < s'.values.length) :
    Shares k f (s.join k (f o)) (s'.join k o) := by
  refine ⟨h.valid.join ho, ?_, h.value, h.lt, h.inj, fun v hv o' ho' => ?_⟩
  · simp only [join, List.filter_append, h.users, List.map_append]
    simp
  · rcases List.mem_append.1 hv with hv | hv
    · exact h.own v hv o' ho'
    · intro _
      rw [List.mem_singleton.1 hv]

theorem join_other (h : Shares k f s s') (hk : k' ≠ k) (ho : ∀ o' < s'.values.length, f o' ≠ o) :
    Shares k f (s.join k' o) s' := by
  refine ⟨h.valid, ?_, h.value, h.lt, h.inj, fun v hv o' ho' => ?_⟩
  · simp only [join, List.filter_append, h.users]
    simp [hk]
  · rcases List.mem_append.1 hv with hv | hv
    · exact h.own v hv o' ho'
    · rw [List.mem_singleton.1 hv]
      intro heq
      exact absurd heq.symm (ho o' ho')

/-- A semaphore for the users with the key. -/
theorem create_own (h : Shares k f s s') (hs : s.Valid) (limit : ℕ) :
    Shares k (Function.update f s'.values.length s.values.length) (s.create limit) (s'.create limit) := by
  have hnew {o : ℕ} (ho : o < s'.values.length) :
      Function.update f s'.values.length s.values.length o = f o := Function.update_of_ne ho.ne ..
  have hlength (s : Table κ) : (s.create limit).values.length = s.values.length + 1 := by simp [create]
  have hlast (s : Table κ) : (s.create limit).value s.values.length = limit := by simp [create, Table.value]
  have hold (s : Table κ) {o : ℕ} (ho : o < s.values.length) : (s.create limit).value o = s.value o := by
    simp [create, Table.value, List.getElem?_append_left ho]
  have hcases {o : ℕ} (ho : o < (s'.create limit).values.length) : o < s'.values.length ∨ o = s'.values.length := by
    rw [hlength] at ho
    omega
  refine ⟨h.valid.create, ?_, fun o ho => ?_, fun o ho => ?_, fun o ho o' ho' => ?_, fun u hu o ho => ?_⟩
  · have husers : (s.create limit).users = s.users ∧ (s'.create limit).users = s'.users := ⟨rfl, rfl⟩
    rw [husers.1, husers.2, h.users]
    refine List.map_congr_left fun u hu => ?_
    rw [hnew (h.valid u hu)]
  · rcases hcases ho with ho | rfl
    · rw [hnew ho, hold s (h.lt o ho), hold s' ho]
      exact h.value o ho
    · rw [Function.update_self, hlast, hlast]
  · rw [hlength]
    rcases hcases ho with ho | rfl
    · rw [hnew ho]
      exact (h.lt o ho).trans (Nat.lt_succ_self _)
    · rw [Function.update_self]
      exact Nat.lt_succ_self _
  · rcases hcases ho with ho | rfl <;> rcases hcases ho' with ho' | rfl
    · rw [hnew ho, hnew ho']
      exact h.inj o ho o' ho'
    · rw [hnew ho, Function.update_self]
      intro heq
      exact absurd heq (h.lt o ho).ne
    · rw [hnew ho', Function.update_self]
      intro heq
      exact absurd heq.symm (h.lt o' ho').ne
    · intro _
      rfl
  · rcases hcases ho with ho | rfl
    · rw [hnew ho]
      exact h.own u hu o ho
    · rw [Function.update_self]
      intro heq
      exact absurd heq (hs u hu).ne

/-- A semaphore for other users. -/
theorem create_other (h : Shares k f s s') (limit : ℕ) : Shares k f (s.create limit) s' := by
  refine ⟨h.valid, h.users, fun o ho => ?_, fun o ho => ?_, h.inj, h.own⟩
  · rw [← h.value o ho]
    simp [create, Table.value, List.getElem?_append_left (h.lt o ho)]
  · have := h.lt o ho
    simp only [create, List.length_append, List.length_singleton]
    omega

end Shares

end

end Table

end Semaphore
