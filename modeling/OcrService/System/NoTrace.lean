/-
  The trace of a review action that does not commit.

  A call that ends without committing leaves the database alone, so the other
  tasks go on as if it had not been made: its steps can be left out of the
  schedule.  What stays is the example that a correction writes to the vector
  store in the middle of its transaction (`uncommitted_no_trace_iff`).
-/
import OcrService.System.Changes
import OcrService.System.Decisions

namespace OcrService

open Trans

/-- Step `i` is the upsert of a correction that goes through. -/
def Upserts (q : System) (i : ℕ) : Prop :=
  ∃ r draft corrected document, q.tasks[i]? = some (.review r) ∧
    r.pc = .upsert draft corrected document ∧ r.raises .embed = false ∧ r.raises .upsert = false

/-- The worlds differ in their points only: `w` has more if `b`, and otherwise the
    same. -/
structure Ahead (b : Prop) (w w' : World) : Prop where
  same : w = { w' with points := w.points }
  level : ¬ b → w.points = w'.points
  ahead : b → w'.points.length < w.points.length

/-! ## One step -/

section
variable {S : Site} {b : Prop} {w w' : World} {c : Change} {x : Task}

/-- No task looks at the points. -/
theorem Task.move_points (points : List Point) : x.move S { w with points } = x.move S w := by
  cases x <;> rfl

/-- A change of another task keeps the difference, unless it deletes points. -/
theorem Ahead.apply (h : Ahead b w w') (hc : ∀ t d, c ≠ .deletePoints t d) :
    Ahead b (w.apply c) (w'.apply c) := by
  obtain ⟨hsame, hlevel, hahead⟩ := h
  generalize w.points = points at hsame hlevel hahead
  subst hsame
  cases c with
  | deletePoints t d => exact absurd rfl (hc t d)
  | commit ws =>
    cases hdb : w'.db.commit ws with
    | error e =>
      rw [World.apply_commit_error hdb, World.apply_commit_error (w := { w' with points }) hdb]
      exact ⟨rfl, hlevel, hahead⟩
    | ok db =>
      rw [World.apply_commit_ok hdb, World.apply_commit_ok (w := { w' with points }) hdb]
      exact ⟨rfl, hlevel, hahead⟩
  | upsertPoint point =>
    refine ⟨rfl, fun hb => ?_, fun hb => ?_⟩
    · show points ++ [point] = w'.points ++ [point]
      rw [hlevel hb]
    · show (w'.points ++ [point]).length < (points ++ [point]).length
      have := hahead hb
      simp only [List.length_append]
      omega
  | _ => exact ⟨rfl, hlevel, hahead⟩

/-- A point more. -/
theorem Ahead.upsert (h : Ahead b w w') (point : Point) :
    Ahead True (w.apply (.upsertPoint point)) w' := by
  obtain ⟨hsame, hlevel, hahead⟩ := h
  refine ⟨?_, fun hb => absurd trivial hb, fun _ => ?_⟩
  · show ({ w with points := w.points ++ [point] } : World) = { w' with points := w.points ++ [point] }
    rw [hsame]
  · show w'.points.length < (w.points ++ [point]).length
    rw [List.length_append, List.length_singleton]
    by_cases hb : b
    · exact Nat.lt_succ_of_lt (hahead hb)
    · rw [hlevel hb]
      exact Nat.lt_succ_self _

theorem Ahead.congr {b' : Prop} (h : Ahead b w w') (hb : b ↔ b') : Ahead b' w w' :=
  ⟨h.same, fun h' => h.level fun hb' => h' (hb.1 hb'), fun h' => h.ahead (hb.2 h')⟩

/-- A step of a call commits and returns, or leaves the world alone but for the
    example that it writes. -/
theorem ReviewRequest.move_trace {r : ReviewRequest} :
    (∃ ws, (r.move S w).change = .commit ws ∧ (r.move S w).task.pc = .done .returned) ∨
      ((∃ point, (r.move S w).change = .upsertPoint point) ∧
        ∃ draft corrected document, r.pc = .upsert draft corrected document ∧ r.raises .embed = false ∧
          r.raises .upsert = false) ∨
      ((r.move S w).change = .idle ∧ ∀ draft corrected document, r.pc = .upsert draft corrected document →
        ¬ (r.raises .embed = false ∧ r.raises .upsert = false)) := by
  cases hpc : r.pc <;> simp only [move, hpc]
  case commit ws =>
    split_ifs
    · exact Or.inr (Or.inr ⟨rfl, fun _ _ _ h => by cases h⟩)
    · cases w.db.commit ws with
      | error e => exact Or.inr (Or.inr ⟨rfl, fun _ _ _ h => by cases h⟩)
      | ok db => exact Or.inl ⟨ws, rfl, rfl⟩
  case upsert draft corrected document =>
    right
    by_cases hraise : r.raises .embed = true ∨ r.raises .upsert = true
    · right
      rw [if_pos hraise]
      refine ⟨rfl, fun _ _ _ _ hfalse => ?_⟩
      rcases hraise with h | h
      · rw [hfalse.1] at h
        cases h
      · rw [hfalse.2] at h
        cases h
    · left
      rw [if_neg hraise]
      rw [not_or, Bool.not_eq_true, Bool.not_eq_true] at hraise
      exact ⟨⟨_, rfl⟩, draft, corrected, document, rfl, hraise⟩
  case done o => exact Or.inr (Or.inr ⟨trivial, fun _ _ _ h => by cases h⟩)
  all_goals
    right; right
    repeat' split
    all_goals exact ⟨rfl, fun _ _ _ h => by cases h⟩

/-- Only an erasure deletes points. -/
theorem Task.deletes_none (hx : ∀ e, x ≠ .erase e) (t d : Uuid) :
    (x.move S w).change ≠ .deletePoints t d := by
  have h := x.makes (S := S) (w := w)
  intro hc
  rw [hc] at h
  cases h
  exact hx _ rfl

end

/-! ## The run without the call -/

section
variable {S : Site} {b : Prop} {q q' q₁ : System} {i j : ℕ} {l : List ℕ} {r : ReviewRequest}

/-- A call that has committed has committed for good. -/
theorem committed_exec (h : exec (System.step S) q l = some q₁) (hc : Committed q j) : Committed q₁ j := by
  refine (reach_of_exec h).invariant (I := fun q => Committed q j) hc ?_
  rintro q k q' ⟨r, hr, hpc⟩ - hs
  rcases Pool.moved_or_same_of_step hs hr with ⟨-, hr'⟩ | ⟨-, hr'⟩
  · refine ⟨_, hr', ?_⟩
    simp only [ReviewRequest.move, hpc]
  · exact ⟨r, hr', hpc⟩

/-- No erasure is among the tasks after a step if none was before. -/
theorem unerasing_step (h : ∀ e, Task.erase e ∉ q.tasks) (hs : System.step S q i = some q') :
    ∀ e, Task.erase e ∉ q'.tasks := by
  obtain ⟨x, hx, -⟩ := Pool.step_eq_some hs
  have hmem := List.mem_of_getElem? hx
  intro e he
  rcases Pool.mem_of_step hs hx he with hmoved | hspawned | hbefore
  · cases x with
    | erase e' => exact h e' hmem
    | _ => cases hmoved
  · cases x with
    | run r => obtain ⟨t, -, ht⟩ := List.mem_map.1 hspawned; cases ht
    | extract x => obtain ⟨t, -, ht⟩ := List.mem_map.1 hspawned; cases ht
    | retry y => obtain ⟨t, -, ht⟩ := List.mem_map.1 hspawned; cases ht
    | _ => cases hspawned
  · exact h e hbefore

/-- **One step of the call**, taken in the first world only. -/
theorem call_step (hagree : Pool.AgreeBut (Ahead b) j q q') (hr : q.tasks[j]? = some (.review r))
    (hs : System.step S q j = some q₁) (hnot : ¬ Committed q₁ j) :
    Pool.AgreeBut (Ahead (b ∨ Upserts q j)) j q₁ q' := by
  refine hagree.step_own hs ?_
  intro x hx
  cases Option.some.inj (hr.symm.trans hx)
  refine ⟨?_, rfl⟩
  show Ahead _ (q.shared.apply (r.move S q.shared).change) q'.shared
  rcases r.move_trace (S := S) (w := q.shared) with ⟨ws, -, hdone⟩ | ⟨⟨point, hc⟩, hup⟩ | ⟨hc, hup⟩
  · exact absurd ⟨_, Pool.moved_of_step hs hr, hdone⟩ hnot
  · obtain ⟨draft, corrected, document, hpc, hraises⟩ := hup
    rw [hc]
    refine (hagree.shared.upsert point).congr (iff_of_true trivial (Or.inr ?_))
    exact ⟨r, draft, corrected, document, hr, hpc, hraises⟩
  · rw [hc]
    refine hagree.shared.congr (or_iff_left ?_).symm
    rintro ⟨r', draft, corrected, document, hr', hpc, hraises⟩
    cases Option.some.inj (hr.symm.trans hr')
    exact hup draft corrected document hpc hraises

/-- **One step of another task**, taken in both worlds. -/
theorem other_step (hagree : Pool.AgreeBut (Ahead b) j q q') (hi : i ≠ j)
    (herase : ∀ e, Task.erase e ∉ q.tasks) (hs : System.step S q i = some q₁) :
    ∃ q₁', System.step S q' i = some q₁' ∧ Pool.AgreeBut (Ahead b) j q₁ q₁' := by
  refine hagree.step_other hi hs ?_
  intro x hx
  have hmove : x.move S q.shared = x.move S q'.shared := by
    rw [hagree.shared.same]
    exact Task.move_points _
  refine ⟨?_, congrArg Move.task hmove, congrArg Move.spawned hmove⟩
  show Ahead b (q.shared.apply (x.move S q.shared).change) (q'.shared.apply (x.move S q'.shared).change)
  rw [← hmove]
  refine hagree.shared.apply (Task.deletes_none ?_)
  rintro e rfl
  exact herase e (List.mem_of_getElem? hx)

/-- The run without the call, step by step. -/
theorem exec_without (h : exec (System.step S) q l = some q₁) (hnot : ¬ Committed q₁ j)
    (hr : q.tasks[j]? = some (.review r)) (herase : ∀ e, Task.erase e ∉ q.tasks)
    (hagree : Pool.AgreeBut (Ahead b) j q q') :
    ∃ q₁', exec (System.step S) q' (l.filter fun i => i ≠ j) = some q₁' ∧
      Pool.AgreeBut (Ahead (b ∨ ¬ Along (System.step S) (fun p i => ¬ (i = j ∧ Upserts p i)) q l)) j
        q₁ q₁' := by
  induction l generalizing q q' r b with
  | nil =>
    cases h
    refine ⟨q', rfl, hagree.shared.congr (or_iff_left ?_).symm, hagree.length, hagree.tasks⟩
    exact fun hnot => hnot trivial
  | cons i l ih =>
    rw [exec_cons] at h
    obtain ⟨q₂, hs, h⟩ := Option.bind_eq_some_iff.1 h
    rw [along_cons hs]
    have hkind : ∃ r', q₂.tasks[j]? = some (.review r') := by
      rcases Pool.moved_or_same_of_step hs hr with ⟨-, hr'⟩ | ⟨-, hr'⟩
      · exact ⟨_, hr'⟩
      · exact ⟨r, hr'⟩
    obtain ⟨r', hr'⟩ := hkind
    by_cases hi : i = j
    · subst hi
      have hopen : ¬ Committed q₂ i := fun hc => hnot (committed_exec h hc)
      have hstep := call_step hagree hr hs hopen
      obtain ⟨q₁', hq₁', hagree'⟩ := ih h hr' (unerasing_step herase hs) hstep
      refine ⟨q₁', ?_, ?_⟩
      · rw [List.filter_cons_of_neg (by simp)]
        exact hq₁'
      · refine ⟨hagree'.shared.congr ?_, hagree'.length, hagree'.tasks⟩
        tauto
    · obtain ⟨q₂', hs', hstep⟩ := other_step hagree hi herase hs
      obtain ⟨q₁', hq₁', hagree'⟩ := ih h hr' (unerasing_step herase hs) hstep
      refine ⟨q₁', ?_, ?_⟩
      · rw [List.filter_cons_of_pos (by simpa using hi), exec_cons, hs']
        exact hq₁'
      · refine ⟨hagree'.shared.congr ?_, hagree'.length, hagree'.tasks⟩
        tauto

/-- **A review action that does not commit** leaves no trace iff it wrote no
    example: without its steps, the other tasks go the same way, and the world is
    the same up to its points. -/
theorem uncommitted_no_trace_iff (h : exec (System.step S) q l = some q₁)
    (hr : q.tasks[j]? = some (.review r)) (hnot : ¬ Committed q₁ j)
    (herase : ∀ e, Task.erase e ∉ q.tasks) :
    ∃ q₁', exec (System.step S) q (l.filter fun i => i ≠ j) = some q₁' ∧
      (∀ k, k ≠ j → q₁'.tasks[k]? = q₁.tasks[k]?) ∧
      q₁.shared = { q₁'.shared with points := q₁.shared.points } ∧
      (q₁.shared = q₁'.shared ↔
        Along (System.step S) (fun p i => ¬ (i = j ∧ Upserts p i)) q l) := by
  have hself : Pool.AgreeBut (Ahead False) j q q :=
    ⟨⟨rfl, fun _ => rfl, False.elim⟩, rfl, fun _ _ => rfl⟩
  obtain ⟨q₁', hq₁', hagree⟩ := exec_without h hnot hr herase hself
  refine ⟨q₁', hq₁', fun k hk => (hagree.tasks k hk).symm, hagree.shared.same, ?_⟩
  constructor
  · intro heq
    by_contra hup
    have hlt := hagree.shared.ahead (Or.inr hup)
    rw [heq] at hlt
    exact absurd hlt (lt_irrefl _)
  · intro hall
    have hpoints := hagree.shared.level (by tauto)
    rw [hagree.shared.same, hpoints]

end

namespace Sample

/-- A reviewer rejects while another corrects. -/
def contested : System :=
  ⟨openWorld, [.review (reviewCall (.reject (some "unreadable")) 1),
    .review (reviewCall (.correct (some [("name", [("new", .str "Bo")])])) 1)]⟩

end Sample

/-- The rejection loses: it is as if it had not been made. -/
theorem uncommitted_no_trace_iff_rejection :
    ∃ q q', exec (System.step Sample.site) Sample.contested [0, 1, 1, 1, 1, 1, 1, 0, 0] = some q ∧
      ¬ Committed q 0 ∧
      exec (System.step Sample.site) Sample.contested
        ([0, 1, 1, 1, 1, 1, 1, 0, 0].filter fun i => i ≠ 0) = some q' ∧
      q.shared = q'.shared ∧
      Along (System.step Sample.site) (fun p i => ¬ (i = 0 ∧ Upserts p i))
        Sample.contested [0, 1, 1, 1, 1, 1, 1, 0, 0] := by
  obtain ⟨q, hq, q', hq', hshared, r, hr, hpc⟩ :
      ∃ q, exec (System.step Sample.site) Sample.contested [0, 1, 1, 1, 1, 1, 1, 0, 0] = some q ∧
        ∃ q', exec (System.step Sample.site) Sample.contested
            ([0, 1, 1, 1, 1, 1, 1, 0, 0].filter fun i => i ≠ 0) = some q' ∧
          q.shared = q'.shared ∧ ∃ r, q.tasks[0]? = some (.review r) ∧ r.pc = .done .raised :=
    ⟨_, rfl, _, rfl, rfl, _, rfl, rfl⟩
  have hnot : ¬ Committed q 0 := by
    rintro ⟨r', hr', hpc'⟩
    cases Option.some.inj (hr.symm.trans hr')
    cases hpc.symm.trans hpc'
  obtain ⟨q₁', hq₁', -, -, hiff⟩ :=
    uncommitted_no_trace_iff (j := 0) hq rfl hnot (by simp [Sample.contested])
  cases hq'.symm.trans hq₁'
  exact ⟨q, q', hq, hnot, hq', hshared, hiff.1 hshared⟩

/-- The correction loses, and its example stays in the vector store. -/
theorem lost_correction_leaves_example :
    ∃ q q', exec (System.step Sample.site) Sample.contested [1, 1, 1, 1, 1, 0, 0, 0, 1] = some q ∧
      Refused q 1 ∧
      exec (System.step Sample.site) Sample.contested
        ([1, 1, 1, 1, 1, 0, 0, 0, 1].filter fun i => i ≠ 1) = some q' ∧
      q'.shared.points = [] ∧ q.shared.points.length = 1 :=
  ⟨_, _, rfl, ⟨_, rfl, rfl⟩, rfl, rfl, rfl⟩

end OcrService
