/-
  Encryption at rest.

  `_write_extraction_result` encrypts the PII fields of an extraction before it
  stores it; `_apply_corrections` overwrites fields of the stored extraction with
  what the reviewer sent, and copies the result to the vector store.  So the PII
  of a document stays encrypted as long as no correction puts a plaintext at a
  path of its schema's `pii_fields` (`stays_encrypted`).

  * `sealed_applyCorrections_iff`: which corrections keep a sealed extraction sealed;
  * `Linked`: a review task refers to the extraction result of its own document.
-/
import OcrService.System.Changes
import OcrService.System.PinnedContract

namespace OcrService

open Trans PyData

/-! ## Corrections of a sealed extraction -/

/-- Each entry that the corrections set is sealed by itself. -/
def SealedCorrections (P : List String) (cs : Corrections) : Prop :=
  ∀ c ∈ cs, ∀ v, c.2.get? "new" = some v → Sealed P [(c.1, v)]

section
variable {P : List String} {d : Obj} {k : String} {v : Json} {c : String × Obj} {cs : Corrections}

theorem sealed_set (h : Sealed P d) (hv : Sealed P [(k, v)]) : Sealed P (d.set k v) := by
  intro p hp s hs
  obtain ⟨k₀, ks, hk⟩ := Path.keys_eq_cons p
  rw [hk, Obj.lookup_set, ← hk] at hs
  split_ifs at hs
  · exact hv p hp s hs
  · exact h p hp s hs

theorem applyCorrections_cons : applyCorrections d (c :: cs) =
    applyCorrections (match c.2.get? "new" with | some v => d.set c.1 v | none => d) cs := rfl

/-- Corrections leave the other entries alone. -/
theorem lookup_applyCorrections {ks : List String} (h : k ∉ cs.map Prod.fst) :
    (applyCorrections d cs).lookup (k :: ks) = d.lookup (k :: ks) := by
  induction cs generalizing d with
  | nil => rfl
  | cons c cs ih =>
    simp only [List.map_cons, List.mem_cons, not_or] at h
    rw [applyCorrections_cons, ih h.2]
    cases c.2.get? "new" with
    | none => rfl
    | some v => rw [Obj.lookup_set, if_neg (Ne.symm h.1)]

theorem sealed_applyCorrections (h : Sealed P d) (hcs : SealedCorrections P cs) :
    Sealed P (applyCorrections d cs) := by
  induction cs generalizing d with
  | nil => exact h
  | cons c cs ih =>
    obtain ⟨hc, hcs⟩ := List.forall_mem_cons.1 hcs
    rw [applyCorrections_cons]
    refine ih ?_ hcs
    cases hnew : c.2.get? "new" with
    | none => exact h
    | some v => exact sealed_set h (hc v hnew)

/-- **Which corrections keep a sealed extraction sealed.** -/
theorem sealed_applyCorrections_iff (h : Sealed P d) (hkeys : (cs.map Prod.fst).Nodup) :
    Sealed P (applyCorrections d cs) ↔ SealedCorrections P cs := by
  refine ⟨fun hs => ?_, sealed_applyCorrections h⟩
  induction cs generalizing d with
  | nil => intro c hc; cases hc
  | cons c cs ih =>
    simp only [List.map_cons, List.nodup_cons] at hkeys
    rw [applyCorrections_cons] at hs
    have hc : ∀ v, c.2.get? "new" = some v → Sealed P [(c.1, v)] := by
      intro v hnew p hp s hlookup
      obtain ⟨k₀, ks, hk⟩ := Path.keys_eq_cons p
      refine hs p hp s ?_
      rw [hk] at hlookup ⊢
      by_cases hk₀ : c.1 = k₀
      · subst hk₀
        simp only [lookup_applyCorrections hkeys.1, hnew, Obj.lookup_set, if_true]
        exact hlookup
      · cases ks <;> simp [Obj.lookup, Obj.get?, hk₀] at hlookup
    refine List.forall_mem_cons.2 ⟨hc, ih ?_ hkeys.2 hs⟩
    cases hnew : c.2.get? "new" with
    | none => exact h
    | some v => exact sealed_set h (hc v hnew)

end

/-! ## Whose the extraction results are -/

/-- The extraction results with this id are of document `d`, and no other will
    have it. -/
structure Belongs (db : Db) (id : RowId) (d : Uuid) : Prop where
  issued : id < db.nextId
  unique : ∀ x ∈ db.extractionResults, x.id = id → x.documentId = d

/-- A review task refers to the extraction result of its own document. -/
structure Linked (db : Db) : Prop where
  results : ∀ x ∈ db.extractionResults, Belongs db x.id x.documentId
  reviews : ∀ row ∈ db.reviewTasks, Belongs db row.extractionResultId row.documentId

/-- A write that updates extraction results in place. -/
def Write.InPlace (db : Db) (w : Write) : Prop :=
  ∀ old new, w = .updateExtractionResult old new →
    new.id = old.id ∧ new.documentId = old.documentId ∧ Belongs db old.id old.documentId

section
variable {db db' : Db} {w : Write} {id : RowId} {d : Uuid} {P : List String}

theorem belongs_apply (h : Belongs db id d) (hw : w.InPlace db) (hdb : w.apply db = .ok db') :
    Belongs db' id d := by
  refine ⟨h.issued.trans_le (nextId_mono hdb), fun x hx hid => ?_⟩
  rcases mem_extractionResults_apply hdb hx with hx | ⟨old, new, rfl, rfl, row, hrow, hold⟩ |
    ⟨new, rfl, rfl⟩
  · exact h.unique x hx hid
  · obtain ⟨hnew, hdoc, hbelongs⟩ := hw old new rfl
    have hid : old.id = id := hnew.symm.trans hid
    exact hdoc.trans ((hbelongs.unique row hrow hold).symm.trans (h.unique row hrow (hold.trans hid)))
  · exact absurd hid (Nat.ne_of_gt h.issued)

theorem linked_apply (h : Linked db) (hw : w.InPlace db)
    (hreview : ∀ old new, w = .updateReviewTask old new →
      Belongs db new.extractionResultId new.documentId)
    (hdb : w.apply db = .ok db') : Linked db' where
  results x hx := by
    rcases mem_extractionResults_apply hdb hx with hx | ⟨old, new, rfl, rfl, -⟩ | ⟨new, rfl, rfl⟩
    · exact belongs_apply (h.results x hx) hw hdb
    · obtain ⟨hid, hdoc, hbelongs⟩ := hw old new rfl
      have := belongs_apply hbelongs hw hdb
      rw [← hid, ← hdoc] at this
      exact this
    · -- the id is the next one
      obtain ⟨-, rfl⟩ := Write.apply_ok.1 hdb
      refine ⟨Nat.lt_succ_self _, fun y hy hid => ?_⟩
      rcases List.mem_append.1 hy with hy | hy
      · exact absurd hid (Nat.ne_of_lt (h.results y hy).issued)
      · rw [List.mem_singleton.1 hy]
  reviews row hrow := by
    rcases mem_reviewTasks_apply hdb hrow with hrow | ⟨old, new, rfl, rfl⟩ |
      ⟨result, hresult, -, hid, -⟩
    · exact belongs_apply (h.reviews row hrow) hw hdb
    · exact belongs_apply (hreview old new rfl) hw hdb
    · have := belongs_apply (h.results result (Rows.mem_of_find hresult)) hw hdb
      rw [hid, ← show result.documentId = row.documentId from Rows.key_of_find hresult]
      exact this

end

/-! ## The invariant -/

/-- The stored extractions of document `d` are sealed. -/
def SealedResults (d : Uuid) (P : List String) (db : Db) : Prop :=
  ∀ x ∈ db.extractionResults, x.documentId = d → IfSome (Sealed P) x.extractedJson

/-- The PII of document `d` is encrypted where it is stored. -/
structure AtRest (d : Uuid) (P : List String) (w : World) : Prop where
  results : SealedResults d P w.db
  points : ∀ p ∈ w.points, p.documentId = d → p.source = .correction → Sealed P p.expectedJson

/-- Step `i` applies no correction that puts a plaintext at a path of `P` to the
    extraction of document `d`. -/
def SealsCorrections (d : Uuid) (P : List String) (q : System) (i : ℕ) : Prop :=
  ∀ r draft corrections row, q.tasks[i]? = some (.review r) → r.pc = .readExtraction draft corrections →
    q.shared.db.extractionResult? r.tenantId draft.old.extractionResultId = some row →
      draft.old.documentId = d → SealedCorrections P corrections

/-- A node returns no PII fields. -/
theorem node_piiFields {K : Components} {n : NodeName} {s u : ExtractionState}
    (h : (n.run K s).result = .ok u) : u.piiFields = none := by
  cases n <;> simp only [NodeName.run, Nodes.parseNode, Nodes.guardrailNode, Nodes.extractNode,
    Nodes.scoreNode, Nodes.routeNode, Nodes.deliverNode, Nodes.reviewNode, Nodes.dlqNode,
    Nodes.deadLettered] at h
  all_goals
    repeat' split at h
    all_goals cases h
    all_goals rfl

/-- What is known of the rows while the PII of a document is encrypted. -/
def Known.atRest (document : Document) (P : List String) (db : Db) : Known where
  document row := row.id = document.id → row.pins = document.pins
  reset row := row.id = document.id → row.pins = document.pins
  review row := Belongs db row.extractionResultId row.documentId
  extraction review x := x.documentId = review.documentId ∧ Belongs db x.id x.documentId ∧
    (x.documentId = document.id → IfSome (Sealed P) x.extractedJson)
  corrections review cs := review.documentId = document.id → SealedCorrections P cs
  state d s := d = document.id → s.piiFields = some P
  channels h hd := by simp [OcrService.channels, ExtractionState.update, h hd]
  node h hs hd := by simp [ExtractionState.update, node_piiFields h, hs hd]

/-- The invariant of the world: the pins of the document, the PII fields of its
    schema, whose the extraction results are, and that they are encrypted. -/
structure Guarded (document : Document) (contract : Contract) (w : World) : Prop where
  pins : PinsAgree document.id w.db
  row : Agree document.id w.db document
  schema : HasContract document.tenantId document.schemaId contract w.db
  linked : Linked w.db
  atRest : AtRest document.id contract.piiFields w

/-! ## One step -/

section
variable {S : Site} {q : System} {i : ℕ} {x : Task} {document : Document} {k : Contract}
  {P : List String} {db db' : Db}

theorem Known.atRest_le (h : ∀ id d, Belongs db id d → Belongs db' id d) :
    (Known.atRest document P db).Le (Known.atRest document P db') :=
  ⟨id, id, h _ _, fun hx => ⟨hx.1, h _ _ hx.2.1, hx.2.2⟩, id, id, id⟩

theorem Known.atRest_pinned : (Known.atRest document P db).Le (Known.pinned document) :=
  ⟨id, id, fun _ => trivial, fun _ => trivial, fun _ => trivial, id, fun _ => trivial⟩

/-- What a task reads is known. -/
theorem reads_atRest (h : Guarded document k q.shared) (hx : q.tasks[i]? = some x)
    (hok : SealsCorrections document.id k.piiFields q i)
    (hholds : x.Holds S (Known.atRest document k.piiFields q.shared.db)) :
    x.Reads (Known.atRest document k.piiFields q.shared.db) q.shared := by
  have hread {t d : Uuid} : ∀ row, q.shared.db.document? t d = some row → row.id = document.id →
      row.pins = document.pins := fun row hrow => h.row.pins row (mem_of_document? hrow)
  unfold Task.Reads
  cases x with
  | run r =>
    cases hpc : r.pc <;> simp only [hpc]
    case loadDocument | persist => exact hread
    case loadSchema copy =>
      simp only [Task.Holds, RunTask.Holds, hpc] at hholds
      obtain ⟨hcopy, hid, htenant⟩ := hholds
      intro hd
      have := initialState_contract (d := r.documentId) h.schema (hcopy (hid.trans hd)) htenant
      exact congrArg (fun k => some k.piiFields) this
  | erase e =>
    cases hpc : e.pc <;> simp only [hpc]
    case read => exact hread
  | review r =>
    cases hpc : r.pc <;> simp only [hpc]
    case readReview =>
      intro row hrow
      exact h.linked.reviews row (Rows.mem_of_find (Option.filter_eq_some_iff.1 hrow).1)
    case readExtraction draft corrections =>
      simp only [Task.Holds, ReviewRequest.Holds, hpc] at hholds
      intro row hrow
      have hfind := (Option.filter_eq_some_iff.1 hrow).1
      have hmem := Rows.mem_of_find hfind
      exact ⟨⟨hholds.review.unique row hmem (Rows.key_of_find hfind), h.linked.results row hmem,
        h.atRest.results row hmem⟩, hok r draft corrections row hx hpc hrow⟩
    case readDocument => exact hread
  | retry y =>
    cases hpc : y.pc <;> simp only [hpc]
    case readEntry => exact fun _ _ => trivial
    case readDocument entry => exact hread
  | webhook | extract | schema => trivial

/-- Corrections made from known rows are sealed. -/
theorem Corrected.sealed {review : ReviewTask} {extraction : ExtractionResult} {corrected : Obj}
    (h : Corrected (Known.atRest document P db) review extraction corrected)
    (hd : review.documentId = document.id) : Sealed P corrected := by
  obtain ⟨⟨hdoc, -, hsealed⟩, extracted, corrections, hx, hcs, rfl⟩ := h
  exact sealed_applyCorrections (hsealed (hdoc.trans hd) extracted hx) (hcs hd)

/-- The extraction that a run stores is sealed. -/
theorem encryptedExtraction_sealed {t : Uuid} {nonces : ℕ → Bytes} {f : ExtractionState} {extracted : Obj}
    (h : encryptedExtraction S t nonces f = .ok extracted) : Sealed (f.piiFields.getD []) extracted := by
  unfold encryptedExtraction at h
  dsimp only at h
  split_ifs at h with hnone
  · rw [hnone]
    intro p hp
    cases hp
  · exact encryptFields_envelope h

section
variable {w : Write} {db₁ db₂ : Db}

/-- The extraction results are updated in place. -/
theorem Written.inPlace (h : Written S (Known.atRest document P db) x w)
    (hle : ∀ id d, Belongs db id d → Belongs db₁ id d) : w.InPlace db₁ := by
  rintro old new rfl
  cases h with
  | persist _ _ _ _ _ h => cases h
  | webhook h => exact h.elim
  | correction _ h => exact ⟨rfl, rfl, hle _ _ h.1.2.1⟩

/-- Review tasks keep their extraction result. -/
theorem Written.linked (h : Written S (Known.atRest document P db) x w)
    (hle : ∀ id d, Belongs db id d → Belongs db₁ id d) {old new : ReviewTask}
    (hw : w = .updateReviewTask old new) : Belongs db₁ new.extractionResultId new.documentId := by
  subst hw
  cases h with
  | persist _ _ _ _ _ h => cases h
  | webhook h => exact h.elim
  | reviewTask hdraft =>
    obtain ⟨-, hdoc, -, hresult⟩ := hdraft.new
    rw [hdoc, hresult]
    exact hle _ _ hdraft.review

/-- The results that are written are sealed. -/
theorem Written.sealed_results (h : Written S (Known.atRest document P db) x w)
    (hsealed : SealedResults document.id P db₁) (hdb : w.apply db₁ = .ok db₂) :
    SealedResults document.id P db₂ := by
  intro y hy hd
  rcases mem_extractionResults_apply hdb hy with hy | ⟨old, new, rfl, rfl, -⟩ | ⟨new, rfl, rfl⟩
  · exact hsealed y hy hd
  · cases h with
    | persist _ _ _ _ _ h => cases h
    | webhook h => exact h.elim
    | correction _ h => exact ifSome_some.2 (h.sealed (h.1.1.symm.trans hd))
  · cases h with
    | persist _ _ _ _ hf h =>
      cases h with
      | extraction he =>
        refine ifSome_some.2 ?_
        have := encryptedExtraction_sealed he
        rw [hf hd] at this
        exact this
    | webhook h => exact h.elim

end

/-- **A step keeps the PII of the document encrypted**, if it reads known rows. -/
theorem guarded_step (h : Guarded document k q.shared) (hx : q.tasks[i]? = some x)
    (hok : KeepsContract document.schemaId k q i)
    (hholds : x.Holds S (Known.atRest document k.piiFields q.shared.db))
    (hcommit : ∀ ws, (x.move S q.shared).change = .commit ws →
      Prepared S (Known.atRest document k.piiFields q.shared.db) x ws) :
    Guarded document k (q.shared.apply (x.move S q.shared).change) ∧
      ∀ id d, Belongs q.shared.db id d → Belongs (q.shared.apply (x.move S q.shared).change).db id d := by
  obtain ⟨hpins, hrow⟩ := pinned_step h.pins h.row Known.atRest_pinned hcommit
  have hschema := hasContract_step h.schema hx hok hcommit
  have hpoints : ∀ p ∈ (q.shared.apply (x.move S q.shared).change).points,
      p.documentId = document.id → p.source = .correction → Sealed k.piiFields p.expectedJson := by
    intro p hp hd hsource
    rcases World.mem_points_apply hp with hp | hc
    · exact h.atRest.points p hp hd hsource
    · have hmakes := x.makes (S := S) (w := q.shared)
      rw [hc] at hmakes
      cases hmakes with
      | upsertExample hpc =>
        simp only [Task.Holds, ReviewRequest.Holds, hpc] at hholds
        obtain ⟨-, extraction, hcorrected⟩ := hholds
        exact hcorrected.sealed hd
      | upsertSeed => cases hsource
  have hdb : Linked (q.shared.apply (x.move S q.shared).change).db ∧
      (∀ id d, Belongs q.shared.db id d → Belongs (q.shared.apply (x.move S q.shared).change).db id d) ∧
      SealedResults document.id k.piiFields (q.shared.apply (x.move S q.shared).change).db := by
    refine World.db_induction (P := fun db => Linked db ∧
        (∀ id d, Belongs q.shared.db id d → Belongs db id d) ∧
          SealedResults document.id k.piiFields db)
      ⟨h.linked, fun _ _ => id, h.atRest.results⟩ ?_
    rintro ws hc - w hw db₁ db₂ ⟨hlinked, hle, hsealed⟩ h₁
    have hwritten := (hcommit ws hc).written hw
    have hinPlace := hwritten.inPlace hle
    exact ⟨linked_apply hlinked hinPlace (fun _ _ => hwritten.linked hle) h₁,
      fun id d hbelongs => belongs_apply (hle id d hbelongs) hinPlace h₁,
      hwritten.sealed_results hsealed h₁⟩
  exact ⟨⟨hpins, hrow, hschema, hdb.1, hdb.2.2, hpoints⟩, hdb.2.1⟩

/-! ## Whole runs -/

/-- **PII stays encrypted at rest** as long as no correction puts a plaintext at
    a path of the `pii_fields`: in every state reached, the extraction results of
    the document and the points of its corrections hold envelopes there. -/
theorem stays_encrypted {q₀ : System} {schema : Schema} (hpins : PinsAgree document.id q₀.shared.db)
    (hrow : q₀.shared.db.document? document.tenantId document.id = some document)
    (hschema : q₀.shared.db.schema? document.tenantId document.schemaId = some schema)
    (hlinked : Linked q₀.shared.db) (hrest : AtRest document.id schema.piiFields q₀.shared)
    (hfresh : ∀ x ∈ q₀.tasks, x.Fresh)
    (h : Reach (System.step S)
      (fun q i => KeepsContract document.schemaId schema.contract q i ∧
        SealsCorrections document.id schema.piiFields q i) q₀ q) :
    AtRest document.id schema.piiFields q.shared := by
  have hcontract : HasContract document.tenantId document.schemaId schema.contract q₀.shared.db := by
    obtain ⟨hfind, htenant⟩ := Option.filter_eq_some_iff.1 hschema
    exact ⟨schema, hfind, by simpa using htenant, rfl⟩
  have hguarded : Guarded document schema.contract q₀.shared :=
    ⟨hpins, hpins.agree _ (mem_of_document? hrow) rfl, hcontract, hlinked, hrest⟩
  exact (reach_known (S := S) (G := Guarded document schema.contract)
    (κ := fun w => Known.atRest document schema.piiFields w.db)
    (fun _ _ _ hG hx hok hholds => reads_atRest hG hx hok.2 hholds)
    (fun _ _ _ hG hx hok hholds hcommit =>
      have ⟨hG', hle⟩ := guarded_step hG hx hok.1 hholds hcommit
      ⟨hG', Known.atRest_le hle⟩)
    h hguarded fun x hx => (hfresh x hx).holds).1.atRest

end

namespace Sample

/-- The document, under review. -/
def underReview : Document := { document with status := .review }

/-- Its extraction, with the name encrypted. -/
def encryptedResult : ExtractionResult where
  documentId := documentId
  tenantId := tenantId
  extractedJson := some [("name", .str "ocrenc:v1:bm9uY2U="), ("total", .int 10)]
  llmModelUsed := some "model"
  llmTokenUsage := some []
  confidenceOverall := none
  confidenceBreakdown := none
  lowConfidenceFields := some []
  missingFields := some []

def reviewWorld : World where
  db :=
    { (world ["name"]).db with
      documents := [underReview]
      extractionResults := [encryptedResult]
      reviewTasks := [{ id := 1, documentId, tenantId, extractionResultId := 0 }]
      nextId := 2 }

/-- The review sets one field of the extraction. -/
def correction (field : String) (v : Json) : ReviewRequest where
  reviewId := 1
  tenantId := tenantId
  action := .correct (some [(field, [("new", v)])])
  expectedVersion := 1

/-- The review, and nothing else going on. -/
def reviewing (field : String) (v : Json) : System := ⟨reviewWorld, [.review (correction field v)]⟩

theorem review_pins : PinsAgree underReview.id reviewWorld.db where
  issued row hrow := by rw [List.mem_singleton.1 hrow]; exact List.mem_singleton_self _
  agree row hrow _ := ⟨List.mem_singleton_self _, fun r hr _ => by
    rw [List.mem_singleton.1 hr, List.mem_singleton.1 hrow]⟩

theorem review_linked : Linked reviewWorld.db where
  results x hx := by
    rw [List.mem_singleton.1 hx]
    exact ⟨by decide, fun y hy _ => by rw [List.mem_singleton.1 hy]⟩
  reviews row hrow := by
    rw [List.mem_singleton.1 hrow]
    exact ⟨by decide, fun y hy _ => by rw [List.mem_singleton.1 hy]; rfl⟩

theorem review_atRest : AtRest underReview.id ["name"] reviewWorld where
  results x hx _ := by
    rw [List.mem_singleton.1 hx]
    refine ifSome_some.2 fun p hp s hs => ?_
    rw [List.mem_singleton.1 hp] at hs
    cases hs
    decide
  points p hp := by cases hp

end Sample

theorem stays_encrypted_sample :
    ∃ q, Reach (System.step Sample.site)
        (fun q i => KeepsContract Sample.schemaId (Sample.schema ["name"]).contract q i ∧
          SealsCorrections Sample.documentId ["name"] q i)
        (Sample.reviewing "total" (.int 12)) q ∧
      q.shared.points ≠ [] ∧ AtRest Sample.documentId ["name"] q.shared := by
  have hkeeps {q : System} {i : ℕ} {r : ReviewRequest} (hx : q.tasks[i]? = some (.review r)) :
      KeepsContract Sample.schemaId (Sample.schema ["name"]).contract q i := by
    intro c ws payload hc
    cases hx.symm.trans hc
  have hread := (Reach.refl : Reach (System.step Sample.site)
    (fun q i => KeepsContract Sample.schemaId (Sample.schema ["name"]).contract q i ∧
      SealsCorrections Sample.documentId ["name"] q i) (Sample.reviewing "total" (.int 12)) _).tail
    (a := 0) ⟨hkeeps rfl, by rintro r draft corrections row ⟨⟩ ⟨⟩⟩ rfl
  have hcorrected := hread.tail (a := 0) ⟨hkeeps rfl, by
    rintro r draft corrections row ⟨⟩ ⟨⟩ - - c hc v hv p hp s hs
    rw [List.mem_singleton.1 hc] at hv hs
    rw [List.mem_singleton.1 hp] at hs
    cases hs⟩ rfl
  have hstored := (((hcorrected.tail (a := 0)
    ⟨hkeeps rfl, by rintro r draft corrections row ⟨⟩ ⟨⟩⟩ rfl).tail (a := 0)
    ⟨hkeeps rfl, by rintro r draft corrections row ⟨⟩ ⟨⟩⟩ rfl).tail (a := 0)
    ⟨hkeeps rfl, by rintro r draft corrections row ⟨⟩ ⟨⟩⟩ rfl).tail (a := 0)
    ⟨hkeeps rfl, by rintro r draft corrections row ⟨⟩ ⟨⟩⟩ rfl
  have hfresh : ∀ x ∈ (Sample.reviewing "total" (.int 12)).tasks, x.Fresh := fun x hx => by
    rw [List.mem_singleton.1 hx]; rfl
  have hrow : (Sample.reviewing "total" (.int 12)).shared.db.document? Sample.underReview.tenantId
    Sample.underReview.id = some Sample.underReview := rfl
  have hschema : (Sample.reviewing "total" (.int 12)).shared.db.schema? Sample.underReview.tenantId
    Sample.underReview.schemaId = some (Sample.schema ["name"]) := rfl
  exact ⟨_, hstored, List.cons_ne_nil _ _, stays_encrypted Sample.review_pins hrow hschema
    Sample.review_linked Sample.review_atRest hfresh hstored⟩

/-- A correction stores the plaintext it was sent, and copies it to the vector
    store. -/
theorem correction_stores_plaintext :
    AtRest Sample.documentId ["name"] Sample.reviewWorld ∧
    ∃ q, Reach (System.step Sample.site) (fun _ _ => True)
        (Sample.reviewing "name" (.str "Ann")) q ∧
      (∃ x ∈ q.shared.db.extractionResults, x.documentId = Sample.documentId ∧
        x.extractedJson = some [("name", .str "Ann"), ("total", .int 10)]) ∧
      (∃ p ∈ q.shared.points, p.documentId = Sample.documentId ∧ p.source = .correction ∧
        p.expectedJson = [("name", .str "Ann"), ("total", .int 10)]) ∧
      ¬ AtRest Sample.documentId ["name"] q.shared := by
  refine ⟨Sample.review_atRest, _, reach_of_exec (l := [0, 0, 0, 0, 0, 0]) rfl,
    ⟨_, List.mem_singleton_self _, rfl, rfl⟩, ⟨_, List.mem_singleton_self _, rfl, rfl, rfl⟩, fun h => ?_⟩
  have := h.points _ (List.mem_singleton_self _) rfl rfl "name" (List.mem_singleton_self _) "Ann" rfl
  exact absurd this (by decide)

end OcrService
