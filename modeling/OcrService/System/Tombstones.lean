/-
  The tombstone of an erased document.

  The last transaction of `erase_document` deletes the row and appends the
  `ERASURE_COMPLETED` event; no other transaction deletes a row or writes that
  event, and no id is given out twice.

  * `absent_iff_tombstone`: a document that was committed has its row or a
    tombstone, and never both, whatever else is going on;
  * `one_tombstone_iff`: the deletion of zero rows commits too, so an erasure
    that comes late to its last transaction appends another tombstone.
-/
import OcrService.System.Erased

namespace OcrService

open Trans PyData

/-! ## Tombstones -/

/-- The `ERASURE_COMPLETED` events of document `d`. -/
def Db.tombstones (db : Db) (d : Uuid) : List AuditLog :=
  db.auditLog.filter fun row => row.eventType = "ERASURE_COMPLETED" ∧ row.documentId = some d

/-- Document `d` was committed, and its row is not there. -/
def Db.Gone (db : Db) (d : Uuid) : Prop :=
  d ∈ db.issued ∧ Rows.find Document.id db.documents d = none

/-- Document `d` has no tombstone, and if it was committed its row is there. -/
structure Unerased (d : Uuid) (db : Db) : Prop where
  keys : PinsAgree d db
  row : d ∈ db.issued → Rows.find Document.id db.documents d ≠ none
  log : db.tombstones d = []

/-- Step `i` commits the last transaction of an erasure of document `d`. -/
def Deletes (d : Uuid) (q : System) (i : ℕ) : Prop :=
  ∃ e, q.tasks[i]? = some (.erase e) ∧ e.documentId = d ∧ e.pc = .delete ∧ e.raises .delete = false

/-- It does so when the row is gone. -/
def LateDelete (d : Uuid) (q : System) (i : ℕ) : Prop :=
  Deletes d q i ∧ Rows.find Document.id q.shared.db.documents d = none

/-! ## One write -/

section
variable {S : Site} {d : Uuid} {db db' db'' : Db} {w : Write} {e : EraseTask}

/-- Nothing happens to the row of document `d` or to its tombstones. -/
structure Unaltered (d : Uuid) (db db' : Db) : Prop where
  tombstones : db'.tombstones d = db.tombstones d
  gone : db'.Gone d ↔ db.Gone d

theorem Unaltered.refl (d : Uuid) (db : Db) : Unaltered d db db := ⟨rfl, Iff.rfl⟩

theorem Unaltered.trans (h : Unaltered d db db') (h' : Unaltered d db' db'') : Unaltered d db db'' :=
  ⟨h'.tombstones.trans h.tombstones, h'.gone.trans h.gone⟩

/-- A write that does not delete the document and is no tombstone of it. -/
theorem unaltered_apply (hkeep : w.KeepsId) (hdelete : ∀ t, w ≠ .deleteDocument t d)
    (hevent : ∀ row, w = .insertAuditLog row → row.eventType = "ERASURE_COMPLETED" →
      row.documentId ≠ some d) (h : w.apply db = .ok db') : Unaltered d db db' := by
  constructor
  · unfold Db.tombstones
    cases performed_of_apply h with
    | @insertAuditLog row =>
      rw [List.filter_append, List.filter_cons_of_neg, List.filter_nil, List.append_nil]
      simpa using hevent row rfl
    | _ => rfl
  · unfold Db.Gone
    cases documents_apply h with
    | same hdocs hi => rw [hdocs, hi]
    | @updated old new row hne hrow hv hdocs hi =>
      have hkey : Document.id { new.stored with version := old.version + 1 } = old.id := hkeep old new rfl
      rw [hdocs, hi]
      by_cases hid : old.id = d
      · subst hid
        rw [Rows.find_replace_self hrow hkey, hrow]
        exact and_congr_right fun _ => iff_of_false (Option.some_ne_none _) (Option.some_ne_none _)
      · rw [Rows.find_replace_other _ hkey hid]
    | @inserted row hnew hdocs hi =>
      rw [hdocs, hi]
      by_cases hid : row.id = d
      · refine iff_of_false ?_ fun h => hnew (hid ▸ h.1)
        rintro ⟨-, h⟩
        exact Rows.find_eq_none.1 h row.stored (List.mem_append_right _ List.mem_cons_self) hid
      · rw [Rows.find_append_other (r := row.stored) _ hid, List.mem_cons,
          or_iff_right fun h => hid h.symm]
    | @deleted t id row hrow hdocs hi =>
      have hne : id ≠ d := by
        rintro rfl
        exact hdelete t rfl
      rw [hdocs, hi, Rows.find_delete_other _ hne]

/-! ## The last transaction -/

/-- It always commits. -/
theorem commit_deleteWrites (S : Site) (e : EraseTask) (db : Db) :
    ∃ db', db.commit (e.deleteWrites S) = .ok db' :=
  ⟨_, Db.commit_cons_ok.2 ⟨_, rfl, rfl⟩⟩

/-- **The last transaction of the tenant's erasure** leaves no row and one more
    tombstone. -/
theorem deleted_commit (hissued : e.documentId ∈ db.issued)
    (howner : ∀ row ∈ db.documents, row.id = e.documentId → row.tenantId = e.tenantId)
    (h : db.commit (e.deleteWrites S) = .ok db') :
    (db'.tombstones e.documentId).length = (db.tombstones e.documentId).length + 1 ∧
      db'.Gone e.documentId := by
  obtain ⟨db₁, h₁, h₂⟩ := Db.commit_cons_ok.1 h
  have hgone : Rows.find Document.id db₁.documents e.documentId = none := by
    cases hfind : Rows.find Document.id db₁.documents e.documentId with
    | none => rfl
    | some row =>
      obtain ⟨hrow, hother⟩ := find_deleteDocument h₁ hfind
      exact absurd (howner row (Rows.mem_of_find hrow) (Rows.key_of_find hrow)) hother
  have hgiven : e.documentId ∈ db₁.issued := issued_mono h₁ hissued
  have hlog : db₁.tombstones e.documentId = db.tombstones e.documentId := by
    obtain ⟨-, rfl⟩ := Write.apply_ok.1 h₁
    simp only [Write.perform]
    cases db.document? e.tenantId e.documentId <;> rfl
  obtain ⟨-, rfl⟩ := Write.apply_ok.1 (commit_one.1 h₂)
  refine ⟨?_, hgiven, hgone⟩
  rw [← hlog]
  show (List.filter _ (db₁.auditLog ++ [_])).length = _
  rw [List.filter_append, List.filter_cons_of_pos, List.length_append]
  · rfl
  · simp

theorem EraseTask.raises_of_delete {w : World} {ws : List Write} (hpc : e.pc = .delete)
    (h : (e.move S w).change = .commit ws) : e.raises .delete = false := by
  simp only [EraseTask.move, hpc] at h
  split_ifs at h with hr
  exact Bool.eq_false_iff.2 hr

end

/-! ## One step -/

section
variable {S : Site} {d : Uuid} {q₀ q q' : System} {i : ℕ}

/-- **A step deletes the document for good, or leaves row and tombstones alone.** -/
theorem tombstones_step (hpins : PinsAgree d q.shared.db)
    (hholds : ∀ x ∈ q.tasks, x.Holds S (Known.agree d q.shared.db))
    (hs : System.step S q i = some q') :
    (Deletes d q i ∧ d ∈ q.shared.db.issued ∧ q'.shared.db.Gone d ∧
      (q'.shared.db.tombstones d).length = (q.shared.db.tombstones d).length + 1) ∨
    (¬ Deletes d q i ∧ Unaltered d q.shared.db q'.shared.db) := by
  obtain ⟨x, hx, -⟩ := Pool.step_eq_some hs
  have hsh := System.shared_step hs hx
  have hx' := hholds x (List.mem_of_getElem? hx)
  rw [hsh]
  by_cases hdel : Deletes d q i
  · left
    refine ⟨hdel, ?_⟩
    obtain ⟨e, he, rfl, hpc, hr⟩ := hdel
    obtain rfl := Option.some.inj (hx.symm.trans he)
    obtain ⟨document, hknown, hid, ht⟩ : ∃ document,
        (Known.agree e.documentId q.shared.db).document document ∧ document.id = e.documentId ∧
          document.tenantId = e.tenantId := by
      simpa only [Task.Holds, EraseTask.Holds, hpc] using hx'
    have hagree := hknown hid
    obtain ⟨db', hdb⟩ := commit_deleteWrites S e q.shared.db
    have hchange : ((Task.erase e).move S q.shared).change = .commit (e.deleteWrites S) := by
      simp [Task.move, EraseTask.move, hpc, hr, hdb]
    rw [hchange, World.apply_commit_ok hdb]
    obtain ⟨hlength, hgone⟩ := deleted_commit hagree.issued
      (fun row hrow hrid => (congrArg Prod.fst (hagree.pins row hrow hrid)).trans ht) hdb
    exact ⟨hagree.issued, hgone, hlength⟩
  · right
    refine ⟨hdel, ?_⟩
    rcases World.db_apply (w := q.shared) (x.move S q.shared).change with hdb | ⟨ws, hc, hdb⟩
    · rw [hdb]
      exact .refl d _
    have hws := (Task.move_holds hx' (reads_agree hpins)).2 ws hc
    have hnot : ∀ e, x = .erase e → e.documentId = d → e.pc ≠ .delete := by
      rintro e rfl hid hpc
      exact hdel ⟨e, hx, hid, hpc, EraseTask.raises_of_delete hpc hc⟩
    refine Db.commit_induction (P := Unaltered d q.shared.db) hdb (.refl d _) ?_
    intro w hw db₁ db₂ h₁ h₂
    refine h₁.trans (unaltered_apply (hws.written hw).keepsId ?_ ?_ h₂)
    · rintro t rfl
      cases hws.written hw with
      | persist _ _ _ _ _ h => cases h
      | webhook h => exact h.elim
      | delete hpc => exact hnot _ rfl rfl hpc
    · rintro row rfl he hid
      obtain ⟨e, hxe, hed, hpc⟩ := (hws.written hw).tombstone_of he hid
      exact hnot e hxe hed hpc

/-- **Row or tombstone.**  In every state reached, a document has a tombstone iff
    it was committed and its row is gone. -/
theorem tombstones_iff_gone {ok : System → ℕ → Prop} (h₀ : Unerased d q₀.shared.db)
    (hfresh : ∀ x ∈ q₀.tasks, x.Fresh) (h : Reach (System.step S) ok q₀ q) :
    1 ≤ (q.shared.db.tombstones d).length ↔ q.shared.db.Gone d := by
  refine (h.strengthen fun _ => pins_agree h₀.keys hfresh).invariant
    (I := fun q => 1 ≤ (q.shared.db.tombstones d).length ↔ q.shared.db.Gone d) ?_ ?_
  · rw [h₀.log]
    exact iff_of_false (by simp) fun hgone => h₀.row hgone.1 hgone.2
  · rintro q i q' hq ⟨⟨hpins, hholds⟩, -⟩ hs
    rcases tombstones_step hpins hholds hs with ⟨-, -, hgone, hlength⟩ | ⟨-, hsame⟩
    · refine iff_of_true ?_ hgone
      omega
    · rw [hsame.tombstones, hsame.gone]
      exact hq

/-- **Row absent iff tombstone.**  Whatever runs, reviews, retries and erasures
    do, and wherever they stop, the row of a document that was committed is
    absent iff the document has a tombstone. -/
theorem absent_iff_tombstone (h₀ : Unerased d q₀.shared.db) (hfresh : ∀ x ∈ q₀.tasks, x.Fresh)
    (h : Reach (System.step S) (fun _ _ => True) q₀ q) (hissued : d ∈ q.shared.db.issued) :
    Rows.find Document.id q.shared.db.documents d = none ↔
      ∃ row ∈ q.shared.db.auditLog,
        row.eventType = "ERASURE_COMPLETED" ∧ row.documentId = some d := by
  have hiff := tombstones_iff_gone h₀ hfresh h
  rw [Db.Gone, and_iff_right hissued] at hiff
  rw [← hiff, Nat.one_le_iff_ne_zero, ← Nat.pos_iff_ne_zero, List.length_pos_iff_exists_mem]
  constructor
  · rintro ⟨row, hrow⟩
    obtain ⟨hmem, htomb⟩ := List.mem_filter.1 hrow
    exact ⟨row, hmem, of_decide_eq_true htomb⟩
  · rintro ⟨row, hmem, htomb⟩
    exact ⟨row, List.mem_filter.2 ⟨hmem, decide_eq_true htomb⟩⟩

/-- **One tombstone.**  A document has at most one tombstone iff no erasure has
    committed its last transaction when the row was gone. -/
theorem one_tombstone_iff (h₀ : Unerased d q₀.shared.db) (hfresh : ∀ x ∈ q₀.tasks, x.Fresh)
    (h : Reach (System.step S) (fun _ _ => True) q₀ q) :
    (q.shared.db.tombstones d).length ≤ 1 ↔
      ¬ Passed (System.step S) (fun _ _ => True) (LateDelete d) q₀ q := by
  rw [← h.iff_passed (I := fun q => 2 ≤ (q.shared.db.tombstones d).length)]
  · omega
  · rw [h₀.log]
    simp
  · intro q i q' hr _ hs
    obtain ⟨hpins, hholds⟩ := pins_agree h₀.keys hfresh hr
    have hgone := tombstones_iff_gone h₀ hfresh hr
    rcases tombstones_step hpins hholds hs with ⟨hdel, hissued, -, hlength⟩ | ⟨hdel, hsame⟩
    · -- the erasure is late iff there is a tombstone
      have hlate : LateDelete d q i ↔ 1 ≤ (q.shared.db.tombstones d).length := by
        rw [hgone, LateDelete, Db.Gone, and_iff_right hdel, and_iff_right hissued]
      rw [hlate]
      omega
    · rw [hsame.tombstones, or_iff_left fun hlate => hdel hlate.1]

end

namespace Sample

theorem unerased : Unerased documentId (world []).db where
  keys := pinsAgree []
  row _ := by decide
  log := rfl

end Sample

/-- A run that is overtaken by an erasure. -/
theorem absent_iff_tombstone_sample :
    ∃ q, Reach (System.step Sample.site) (fun _ _ => True)
        ⟨Sample.world [], [.run Sample.run, .erase Sample.erase]⟩ q ∧
      Rows.find Document.id q.shared.db.documents Sample.documentId = none ∧
        ∃ row ∈ q.shared.db.auditLog,
          row.eventType = "ERASURE_COMPLETED" ∧ row.documentId = some Sample.documentId := by
  have hreach : Reach (System.step Sample.site) (fun _ _ => True)
      ⟨Sample.world [], [.run Sample.run, .erase Sample.erase]⟩ _ :=
    reach_of_exec (l := [0, 0, 0, 1, 1, 1, 1, 1, 1, 1, 0]) rfl
  have hfresh : ∀ x ∈ [Task.run Sample.run, .erase Sample.erase], x.Fresh := by
    intro x hx
    rcases List.mem_cons.1 hx with rfl | hx
    · rfl
    · rw [List.mem_singleton.1 hx]
      rfl
  have hiff := absent_iff_tombstone Sample.unerased hfresh hreach (List.mem_singleton_self _)
  exact ⟨_, hreach, rfl, hiff.1 rfl⟩

/-- A second erasure that comes after the first leaves one tombstone and is not late;
    one that has read the row before leaves two, and is. -/
theorem one_tombstone_sample :
    (∃ q, Reach (System.step Sample.site) (fun _ _ => True)
        ⟨Sample.world [], [.erase Sample.erase, .erase Sample.erase]⟩ q ∧
      (q.shared.db.tombstones Sample.documentId).length = 1 ∧
        ¬ Passed (System.step Sample.site) (fun _ _ => True) (LateDelete Sample.documentId)
          ⟨Sample.world [], [.erase Sample.erase, .erase Sample.erase]⟩ q) ∧
    ∃ q, Reach (System.step Sample.site) (fun _ _ => True)
        ⟨Sample.world [], [.erase Sample.erase, .erase Sample.erase]⟩ q ∧
      (q.shared.db.tombstones Sample.documentId).length = 2 ∧
        Passed (System.step Sample.site) (fun _ _ => True) (LateDelete Sample.documentId)
          ⟨Sample.world [], [.erase Sample.erase, .erase Sample.erase]⟩ q := by
  have hfresh : ∀ x ∈ [Task.erase Sample.erase, .erase Sample.erase], x.Fresh := by
    simp [Task.Fresh, Sample.erase]
  have hafter : Reach (System.step Sample.site) (fun _ _ => True)
      ⟨Sample.world [], [.erase Sample.erase, .erase Sample.erase]⟩ _ :=
    reach_of_exec (l := [0, 0, 0, 0, 0, 0, 0, 0, 1, 1]) rfl
  have hlate : Reach (System.step Sample.site) (fun _ _ => True)
      ⟨Sample.world [], [.erase Sample.erase, .erase Sample.erase]⟩ _ :=
    reach_of_exec (l := [0, 0, 0, 1, 1, 1, 0, 0, 0, 0, 1, 1, 1, 1]) rfl
  constructor
  · exact ⟨_, hafter, rfl, (one_tombstone_iff Sample.unerased hfresh hafter).1 le_rfl⟩
  · refine ⟨_, hlate, rfl, ?_⟩
    by_contra hnone
    have hone := (one_tombstone_iff Sample.unerased hfresh hlate).2 hnone
    exact absurd hone (by decide)

/-- Two erasures that both read the row leave two tombstones. -/
theorem overlapping_erasures_two_tombstones :
    ∃ q, Reach (System.step Sample.site) (fun _ _ => True)
        ⟨Sample.world [], [.erase Sample.erase, .erase Sample.erase]⟩ q ∧
      (q.shared.db.tombstones Sample.documentId).length = 2 :=
  ⟨_, reach_of_exec (l := [0, 0, 0, 1, 1, 1, 0, 0, 0, 0, 1, 1, 1, 1]) rfl, rfl⟩

end OcrService
