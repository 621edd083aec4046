/-
  Sliding windows over a sequence of times.

  * `within w now ts`: the times less than `w` before `now`; pruning a list at
    one time does not change what a later window sees (`within_within`).
  * `Burst n w ts i`: with the `i`-th time, the last `w` contain `n` times.  A
    burst is a matter of the times up to it (`burst_append_left`), and one more
    time completes a burst iff its window is full (`burst_concat_iff`).
-/
import Mathlib.Algebra.Order.Group.Defs
import Mathlib.Algebra.Order.Group.Unbundled.Basic

namespace Window

section
variable {α : Type} [AddCommGroup α] [LinearOrder α] {n i : ℕ} {w now e o : α} {ts : List α}

/-- The times of `ts` that are less than `w` before `now`. -/
def within (w now : α) (ts : List α) : List α := ts.filter fun t => now - t < w

theorem within_append (ts us : List α) : within w now (ts ++ us) = within w now ts ++ within w now us :=
  List.filter_append ts us

theorem within_self (now : α) (hw : 0 < w) : within w now [now] = [now] := by
  simp [within, hw]

/-- With the time at position `i`, the window that ends there has `n` times of
    the positions up to `i`. -/
def Burst (n : ℕ) (w : α) (ts : List α) (i : ℕ) : Prop :=
  ∃ e, ts[i]? = some e ∧ n ≤ ((ts.take (i + 1)).filter fun t => e - w < t ∧ t ≤ e).length

/-- `e` is the time of the first burst. -/
def FirstBurst (n : ℕ) (w : α) (ts : List α) (e : α) : Prop :=
  ∃ i, ts[i]? = some e ∧ Burst n w ts i ∧ ∀ j < i, ¬ Burst n w ts j

/-- Later times do not matter to a burst. -/
theorem burst_append_left (us : List α) (h : i < ts.length) : Burst n w (ts ++ us) i ↔ Burst n w ts i := by
  unfold Burst
  rw [List.getElem?_append_left h, List.take_append_of_le_length h]

/-- A burst is at a position of the sequence. -/
theorem Burst.lt_length (h : Burst n w ts i) : i < ts.length := by
  obtain ⟨e, he, -⟩ := h
  exact (List.getElem?_eq_some_iff.1 he).1

/-- Where the bursts are after one more time. -/
theorem burst_concat (h : Burst n w (ts ++ [e]) i) : Burst n w ts i ∨ i = ts.length := by
  have hlt := h.lt_length
  rw [List.length_append, List.length_singleton] at hlt
  rcases Nat.lt_succ_iff_lt_or_eq.1 hlt with hlt | rfl
  · exact Or.inl ((burst_append_left [e] hlt).1 h)
  · exact Or.inr rfl

/-- The first burst stays the first. -/
theorem FirstBurst.append (us : List α) (h : FirstBurst n w ts o) : FirstBurst n w (ts ++ us) o := by
  obtain ⟨i, hi, hburst, hfirst⟩ := h
  have hlt := hburst.lt_length
  refine ⟨i, by rw [List.getElem?_append_left hlt]; exact hi, (burst_append_left us hlt).2 hburst, ?_⟩
  intro j hj h
  exact hfirst j hj ((burst_append_left us (hj.trans hlt)).1 h)

/-- There is one first burst at most. -/
theorem FirstBurst.unique (h : FirstBurst n w ts o) (hi : ts[i]? = some e) (hburst : Burst n w ts i)
    (hfirst : ∀ j < i, ¬ Burst n w ts j) : o = e := by
  obtain ⟨j, hj, hburst', hfirst'⟩ := h
  rcases lt_trichotomy i j with hij | rfl | hij
  · exact absurd hburst (hfirst' i hij)
  · exact Option.some.inj (hj.symm.trans hi)
  · exact absurd hburst' (hfirst j hij)

end

section
variable {α : Type} [AddCommGroup α] [LinearOrder α] [IsOrderedAddMonoid α] {n : ℕ} {w now now' e : α}
  {ts : List α}

/-- **A window of a window** is the later one. -/
theorem within_within (h : now ≤ now') : within w now' (within w now ts) = within w now' ts := by
  unfold within
  rw [List.filter_filter]
  refine List.filter_congr fun t _ => ?_
  have hlt : now' - t < w → now - t < w := (sub_le_sub_right h t).trans_lt
  by_cases ht : now' - t < w
  · simp [ht, hlt ht]
  · simp [ht]

/-- **One more time completes a burst** iff with it the window has `n` times. -/
theorem burst_concat_iff (hw : 0 < w) (hle : ∀ t ∈ ts, t ≤ e) :
    Burst n w (ts ++ [e]) ts.length ↔ n ≤ (within w e ts ++ [e]).length := by
  have hwindow : (ts ++ [e]).filter (fun t => e - w < t ∧ t ≤ e) = within w e ts ++ [e] := by
    rw [← within_self e hw, ← within_append, within_self e hw]
    refine List.filter_congr fun t ht => ?_
    have hte : t ≤ e := by
      rcases List.mem_append.1 ht with ht | ht
      · exact hle t ht
      · exact (List.mem_singleton.1 ht).le
    simp only [hte, and_true, decide_eq_decide]
    exact sub_lt_comm
  unfold Burst
  rw [List.getElem?_concat_length, List.take_of_length_le (by simp)]
  constructor
  · rintro ⟨e', he, h⟩
    cases he
    rwa [hwindow] at h
  · intro h
    exact ⟨e, rfl, by rwa [hwindow]⟩

end

end Window
