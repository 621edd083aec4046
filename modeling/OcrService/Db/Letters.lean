/-
  The tables as one document sees them: its row, its dead letters, its review
  task.

  For each of the three, a predicate on writes says which of them leave it
  alone, and a lemma about whole transactions follows (`row_commit`,
  `letters_commit`, `reviews_commit`); `row_put` says what any transaction makes
  of the row.  `Addressed` is what the service relies on when it looks a dead
  letter up: the ids are keys, and the letters of a document are its tenant's.
-/
import OcrService.Db.Writes

namespace OcrService

namespace Db
variable (db : Db) (d : Uuid)

def statusOf : Option DocumentStatus := (Rows.find Document.id db.documents d).map Document.status

/-- The number of dead letters of the document in status `pending`. -/
def pendingLetters : ℕ := db.dlq.countP fun e => e.documentId = d ∧ e.status = .pending

/-- Some dead letter of the document is in status `retrying`. -/
def Retrying : Prop := ∃ e ∈ db.dlq, e.documentId = d ∧ e.status = .retrying

def UnderReview : Prop := ∃ row ∈ db.reviewTasks, row.documentId = d

instance : Decidable (db.Retrying d) := inferInstanceAs (Decidable (∃ e ∈ db.dlq, _))

end Db

/-! ## Writes that leave a document alone -/

section
variable (d t : Uuid)

/-- The write leaves the row of document `d` alone. -/
def Write.KeepsRow : Write → Prop
  | .updateDocument old new => new.id = old.id ∧ old.id ≠ d
  | .insertDocument _ | .deleteDocument _ _ => False
  | _ => True

/-- The write leaves the dead letters of document `d` alone. -/
def Write.KeepsLetters : Write → Prop
  | .insertDeadLetter row => row.documentId ≠ d
  | .updateDeadLetter _ _ | .deleteDocument _ _ => False
  | _ => True

/-- The write adds no review task of document `d`. -/
def Write.KeepsReviews : Write → Prop
  | .insertReviewTask documentId _ => documentId ≠ d
  | .updateReviewTask _ new => new.documentId ≠ d
  | _ => True

/-- The row of document `d` and its dead letters are of tenant `t`, and the ids
    of dead letters are keys. -/
structure Addressed (db : Db) : Prop where
  row : ∃ row, Rows.find Document.id db.documents d = some row ∧ row.tenantId = t
  nodup : (db.dlq.map DeadLetter.id).Nodup
  issued : ∀ e ∈ db.dlq, e.id < db.nextId
  tenant : ∀ e ∈ db.dlq, e.documentId = d → e.tenantId = t

/-- The write keeps that. -/
def Write.KeepsAddress : Write → Prop
  | .updateDocument old new => new.id = old.id ∧ (old.id = d → new.tenantId = t)
  | .updateDeadLetter old new => new.id = old.id ∧ (new.documentId = d → new.tenantId = t)
  | .insertDeadLetter row => row.documentId = d → row.tenantId = t
  | .insertDocument _ | .deleteDocument _ _ => False
  | _ => True

end

section
variable {d t : Uuid} {db db' : Db} {w : Write} {ws : List Write}

theorem row_keeps (hw : w.KeepsRow d) (h : w.apply db = .ok db') :
    Rows.find Document.id db'.documents d = Rows.find Document.id db.documents d := by
  cases documents_apply h with
  | same hdocs => rw [hdocs]
  | @updated old new row hne hrow hv hdocs =>
    rw [hdocs]
    exact Rows.find_replace_other _ hw.1 hw.2
  | inserted => exact hw.elim
  | deleted => exact hw.elim

theorem row_commit (hws : ∀ w ∈ ws, w.KeepsRow d) (h : db.commit ws = .ok db') :
    Rows.find Document.id db'.documents d = Rows.find Document.id db.documents d := by
  refine Db.commit_induction (P := fun db₁ => Rows.find Document.id db₁.documents d =
    Rows.find Document.id db.documents d) h rfl ?_
  intro w hw db₁ db₂ h₁ h₂
  exact (row_keeps (hws w hw) h₂).trans h₁

/-- The dead letters of a document are those of before. -/
structure SameLetters (d : Uuid) (db db' : Db) : Prop where
  pending : db'.pendingLetters d = db.pendingLetters d
  retrying : db'.Retrying d → db.Retrying d

theorem SameLetters.refl : SameLetters d db db := ⟨rfl, id⟩

theorem SameLetters.trans {db'' : Db} (h : SameLetters d db db') (h' : SameLetters d db' db'') :
    SameLetters d db db'' :=
  ⟨h'.pending.trans h.pending, fun hr => h.retrying (h'.retrying hr)⟩

theorem SameLetters.of_eq (h : db'.dlq = db.dlq) : SameLetters d db db' := by
  constructor
  · simp only [Db.pendingLetters, h]
  · simp only [Db.Retrying, h, imp_self]

theorem letters_keeps (hw : w.KeepsLetters d) (h : w.apply db = .ok db') : SameLetters d db db' := by
  cases performed_of_apply h with
  | updateDeadLetter => exact hw.elim
  | deleteDocument => exact hw.elim
  | @insertDeadLetter row =>
    have hne : row.documentId ≠ d := hw
    constructor
    · simp [Db.pendingLetters, List.countP_append, hne]
    · rintro ⟨e, he, hd, hs⟩
      rcases List.mem_append.1 he with he | he
      · exact ⟨e, he, hd, hs⟩
      · rw [List.mem_singleton.1 he] at hd
        exact absurd hd hne
  | _ => exact .of_eq rfl

theorem letters_commit (hws : ∀ w ∈ ws, w.KeepsLetters d) (h : db.commit ws = .ok db') :
    SameLetters d db db' := by
  refine Db.commit_induction (P := SameLetters d db) h .refl ?_
  intro w hw db₁ db₂ h₁ h₂
  exact h₁.trans (letters_keeps (hws w hw) h₂)

theorem reviews_commit (hws : ∀ w ∈ ws, w.KeepsReviews d) (h : db.commit ws = .ok db') :
    db'.UnderReview d → db.UnderReview d := by
  refine Db.commit_induction (P := fun db₁ => db₁.UnderReview d → db.UnderReview d) h id ?_
  rintro w hw db₁ db₂ h₁ h₂ ⟨row, hrow, hd⟩
  have hkeeps := hws w hw
  rcases mem_reviewTasks_apply h₂ hrow with hrow | ⟨old, new, rfl, rfl⟩ | ⟨result, -, rfl, -⟩
  · exact h₁ ⟨row, hrow, hd⟩
  · exact absurd hd hkeeps
  · exact absurd hd hkeeps

/-- The write concerns none of the three. -/
def Write.Spares (d : Uuid) (w : Write) : Prop := w.KeepsRow d ∧ w.KeepsLetters d ∧ w.KeepsReviews d

/-- The tables are as before for the document, but for review tasks that went. -/
structure Unmoved (d : Uuid) (db db' : Db) : Prop where
  row : Rows.find Document.id db'.documents d = Rows.find Document.id db.documents d
  letters : SameLetters d db db'
  reviews : db'.UnderReview d → db.UnderReview d

theorem Unmoved.refl : Unmoved d db db := ⟨rfl, .refl, id⟩

theorem unmoved_commit (hws : ∀ w ∈ ws, w.Spares d) (h : db.commit ws = .ok db') : Unmoved d db db' where
  row := row_commit (fun w hw => (hws w hw).1) h
  letters := letters_commit (fun w hw => (hws w hw).2.1) h
  reviews := reviews_commit (fun w hw => (hws w hw).2.2) h

/-! ## The row -/

/-- **A transaction that updates the row once** sets its status. -/
theorem statusOf_update {ws' : List Write} {old new : Document} (hws : ∀ w ∈ ws, w.KeepsRow d)
    (hws' : ∀ w ∈ ws', w.KeepsRow d) (hfind : Rows.find Document.id db.documents d = some old)
    (hid : new.id = old.id) (h : db.commit (ws ++ .updateDocument old new :: ws') = .ok db') :
    db'.statusOf d = some new.status := by
  obtain ⟨db₁, h₁, h⟩ := Db.commit_append_ok.1 h
  obtain ⟨db₂, h₂, h₃⟩ := Db.commit_cons_ok.1 h
  obtain ⟨-, rfl⟩ := Write.apply_ok.1 h₂
  have hold : old.id = d := Rows.key_of_find hfind
  subst hold
  have hrow := find_updateDocument old new hid ((row_commit hws h₁).trans hfind)
  rw [Db.statusOf, row_commit hws' h₃, hrow, Option.map_some]
  split_ifs with hsame
  · rw [hsame]
  · rfl

/-- What a write puts in the row of document `d`. -/
def Write.puts (d : Uuid) : Write → Option Document
  | .updateDocument old new =>
    if old.id = d then some { new.stored with version := old.version + 1 } else none
  | .insertDocument row => if row.id = d then some row.stored else none
  | _ => none

/-- **The row after a transaction** is that of before, or what a write of it put
    there, or it is gone. -/
theorem row_put (hkeep : ∀ w ∈ ws, w.KeepsId) (h : db.commit ws = .ok db') :
    Rows.find Document.id db'.documents d = Rows.find Document.id db.documents d ∨
      Rows.find Document.id db'.documents d = none ∨
      ∃ w ∈ ws, ∃ row, w.puts d = some row ∧ Rows.find Document.id db'.documents d = some row := by
  refine Db.commit_induction (P := fun db₁ => Rows.find Document.id db₁.documents d =
    Rows.find Document.id db.documents d ∨ Rows.find Document.id db₁.documents d = none ∨
      ∃ w ∈ ws, ∃ row, w.puts d = some row ∧ Rows.find Document.id db₁.documents d = some row)
    h (Or.inl rfl) ?_
  intro w hw db₁ db₂ h₁ h₂
  cases documents_apply h₂ with
  | same hdocs =>
    rw [hdocs]
    exact h₁
  | @updated old new row hne hrow hv hdocs =>
    have hkey : Document.id { new.stored with version := old.version + 1 } = old.id :=
      hkeep _ hw old new rfl
    rw [hdocs]
    by_cases hid : old.id = d
    · subst hid
      refine Or.inr (Or.inr ⟨_, hw, _, if_pos rfl, ?_⟩)
      exact Rows.find_replace_self hrow hkey
    · rw [Rows.find_replace_other _ hkey hid]
      exact h₁
  | @inserted row hnew hdocs =>
    rw [hdocs, Rows.find_append_one]
    cases hfind : Rows.find Document.id db₁.documents d with
    | some row' =>
      rw [hfind] at h₁
      exact h₁
    | none =>
      by_cases hid : row.id = d
      · refine Or.inr (Or.inr ⟨_, hw, row.stored, if_pos hid, ?_⟩)
        exact if_pos hid
      · exact Or.inr (Or.inl (if_neg hid))
  | @deleted tenantId id row hrow hdocs =>
    rw [hdocs]
    by_cases hid : id = d
    · subst hid
      exact Or.inr (Or.inl (Rows.find_delete_self _))
    · rw [Rows.find_delete_other _ hid]
      exact h₁

/-! ## One write to a letter -/

/-- A letter arrives in status `pending`. -/
theorem letters_append {e : DeadLetter} (h : db'.dlq = db.dlq ++ [e]) (hd : e.documentId = d)
    (hs : e.status = .pending) :
    db'.pendingLetters d = db.pendingLetters d + 1 ∧ (db'.Retrying d → db.Retrying d) := by
  constructor
  · simp [Db.pendingLetters, h, List.countP_append, hd, hs]
  · rintro ⟨e', he', hd', hs'⟩
    rw [h] at he'
    rcases List.mem_append.1 he' with he' | he'
    · exact ⟨e', he', hd', hs'⟩
    · rw [List.mem_singleton.1 he', hs] at hs'
      cases hs'

theorem letters_insert {row : DeadLetter} (h : Write.apply db (.insertDeadLetter row) = .ok db')
    (hd : row.documentId = d) (hs : row.status = .pending) :
    db'.pendingLetters d = db.pendingLetters d + 1 ∧ (db'.Retrying d → db.Retrying d) := by
  obtain ⟨-, rfl⟩ := Write.apply_ok.1 h
  exact letters_append (e := { row with id := db.nextId }) rfl hd hs

/-- A pending letter of the document counts. -/
theorem pendingLetters_pos {entry : DeadLetter} {k : RowId}
    (hfind : Rows.find DeadLetter.id db.dlq k = some entry) (hs : entry.status = .pending) :
    0 < db.pendingLetters entry.documentId := by
  refine List.countP_pos_iff.2 ⟨entry, Rows.mem_of_find hfind, ?_⟩
  simp [hs]

/-- **A retry takes a pending letter of its document**, and none of another. -/
theorem pendingLetters_retry {entry : DeadLetter} {n : ℕ} (hnodup : (db.dlq.map DeadLetter.id).Nodup)
    (hfind : Rows.find DeadLetter.id db.dlq entry.id = some entry) (hs : entry.status = .pending)
    (h : db'.dlq = Rows.replace DeadLetter.id db.dlq entry.id
      { entry with status := .retrying, retryCount := n }) :
    db'.pendingLetters d + (if entry.documentId = d then 1 else 0) = db.pendingLetters d := by
  have hcount := Rows.countP_replace (fun e : DeadLetter => decide (e.documentId = d ∧ e.status = .pending))
    { entry with status := .retrying, retryCount := n } hnodup hfind
  simp only [Db.pendingLetters, h]
  simpa [hs] using hcount

/-! ## Keys and tenants -/

/-- The tenant finds its document. -/
theorem Addressed.document (h : Addressed d t db) : ∃ document, db.document? t d = some document := by
  obtain ⟨row, hrow, htenant⟩ := h.row
  refine ⟨row, ?_⟩
  simp [Db.document?, hrow, htenant]

/-- The tenant of the document stays. -/
theorem row_tenant (h : ∃ row, Rows.find Document.id db.documents d = some row ∧ row.tenantId = t)
    (hw : w.KeepsAddress d t) (hdb : w.apply db = .ok db') :
    ∃ row, Rows.find Document.id db'.documents d = some row ∧ row.tenantId = t := by
  obtain ⟨row, hrow, htenant⟩ := h
  cases documents_apply hdb with
  | same hdocs => exact ⟨row, by rw [hdocs, hrow], htenant⟩
  | @updated old new row' hne hold hv hdocs =>
    rw [hdocs]
    by_cases hid : old.id = d
    · subst hid
      exact ⟨_, Rows.find_replace_self hrow hw.1, hw.2 rfl⟩
    · exact ⟨row, by rw [← hrow]; exact Rows.find_replace_other _ hw.1 hid, htenant⟩
  | inserted => exact hw.elim
  | deleted => exact hw.elim

theorem addressed_keeps (h : Addressed d t db) (hw : w.KeepsAddress d t) (hdb : w.apply db = .ok db') :
    Addressed d t db' := by
  have hrow := row_tenant h.row hw hdb
  have hnext := nextId_mono hdb
  cases performed_of_apply hdb with
  | @updateDeadLetter old new hne =>
    refine ⟨hrow, ?_, ?_, ?_⟩
    · show ((Rows.replace DeadLetter.id db.dlq old.id new).map DeadLetter.id).Nodup
      rw [Rows.map_key_replace _ hw.1]
      exact h.nodup
    · intro e he
      obtain ⟨e₀, he₀, rfl⟩ := List.mem_map.1 he
      have hissued := h.issued e₀ he₀
      split_ifs with hid
      · rw [hw.1, ← hid]
        exact hissued
      · exact hissued
    · intro e he hd
      rcases Rows.mem_replace he with rfl | he
      · exact hw.2 hd
      · exact h.tenant e he hd
  | @insertDeadLetter row =>
    refine ⟨hrow, ?_, ?_, ?_⟩
    · show ((db.dlq ++ [{ row with id := db.nextId }]).map DeadLetter.id).Nodup
      rw [List.map_append, List.nodup_append]
      refine ⟨h.nodup, List.nodup_singleton _, ?_⟩
      intro k hk k' hk'
      obtain ⟨e, he, rfl⟩ := List.mem_map.1 hk
      rw [List.mem_singleton.1 hk']
      exact (h.issued e he).ne
    · intro e he
      rcases List.mem_append.1 he with he | he
      · exact (h.issued e he).trans_le hnext
      · rw [List.mem_singleton.1 he]
        exact Nat.lt_succ_self _
    · intro e he hd
      rcases List.mem_append.1 he with he | he
      · exact h.tenant e he hd
      · rw [List.mem_singleton.1 he] at hd ⊢
        exact hw hd
  | insertDocument => exact hw.elim
  | deleteDocument => exact hw.elim
  | _ => exact ⟨hrow, h.nodup, fun e he => (h.issued e he).trans_le hnext, h.tenant⟩

theorem addressed_commit (h : Addressed d t db) (hws : ∀ w ∈ ws, w.KeepsAddress d t)
    (hdb : db.commit ws = .ok db') : Addressed d t db' :=
  Db.commit_induction hdb h fun w hw _ _ h₁ h₂ => addressed_keeps h₁ (hws w hw) h₂

end

end OcrService
