/-
  The contract under which a document is processed.

  A document is pinned to a version of its schema by number; its run loads the
  definition from the live row.  So the run gets the definition of the time the
  document was created as long as no `update_schema` that is committed since
  then changes it (`pinned_contract`); the number does not tell.
-/
import OcrService.System.Pins

namespace OcrService

open Trans PyData

/-- The part of a schema's definition that an extraction depends on. -/
structure Contract where
  jsonSchema : Obj
  requiredFields : List String
  piiFields : List String
  deriving DecidableEq

def Schema.contract (r : Schema) : Contract := ⟨r.jsonSchema, r.requiredFields, r.piiFields⟩

def SchemaPayload.contract (p : SchemaPayload) : Contract := ⟨p.jsonSchema, p.requiredFields, p.piiFields⟩

/-- The contract that the input of a run carries. -/
def ExtractionState.contract (s : ExtractionState) : Contract :=
  ⟨s.jsonSchema.getD [], s.requiredFields.getD [], s.piiFields.getD []⟩

/-- Step `i` commits no `update_schema` of schema `σ` with another contract. -/
def KeepsContract (σ : Uuid) (k : Contract) (q : System) (i : ℕ) : Prop :=
  ∀ c ws payload, q.tasks[i]? = some (.schema c) → (c.move q.shared).change = .commit ws →
    c.call = .update payload → c.schemaId = σ → payload.contract = k

/-! ## One transaction -/

/-- A column that an update leaves or sets to its value. -/
theorem merge_column {α : Type} [DecidableEq α] {row old new : α} (h : new = old ∨ new = row) :
    (if new = old then row else new) = row := by
  split_ifs with hne
  · rfl
  · exact h.resolve_left hne

/-- An update keeps the contract of the row if it leaves it or sets it to itself. -/
theorem merge_contract {row old new : Schema}
    (h : new.contract = old.contract ∨ new.contract = row.contract) :
    (row.merge old new.stored).contract = row.contract := by
  simp only [Schema.contract, Contract.mk.injEq] at h
  rw [Schema.contract, Schema.contract, Contract.mk.injEq]
  exact ⟨merge_column (h.imp And.left And.left), merge_column (h.imp (·.2.1) (·.2.1)),
    merge_column (h.imp (·.2.2) (·.2.2))⟩

/-- The updates of schemas in the transactions of the service. -/
theorem Prepared.schemaUpdate {S : Site} {κ : Known} {t : Task} {ws : List Write}
    (h : Prepared S κ t ws) {w : Write} (hw : w ∈ ws) :
    (∀ row, w ≠ .insertSchema row) ∧ ∀ old new, w = .updateSchema old new →
      ∃ c, t = .schema c ∧ old.id = c.schemaId ∧ (new.contract = old.contract ∨
        ∃ payload, c.call = .update payload ∧ new.contract = payload.contract) := by
  cases h.written hw with
  | persist _ _ _ _ _ h => cases h <;> simp [pipelineEvent, appendEvent]
  | webhook h => cases w <;> simp_all [WebhookWrite]
  | updateSchema hid hcall =>
    refine ⟨by simp, fun old new he => ?_⟩
    cases he
    exact ⟨_, rfl, hid, Or.inr ⟨_, hcall, rfl⟩⟩
  | activate hid | seed hid =>
    refine ⟨by simp, fun old new he => ?_⟩
    cases he
    exact ⟨_, rfl, hid, Or.inl rfl⟩
  | _ => simp [tombstone, appendEvent]

/-- The live row of a schema has the contract `k`. -/
def HasContract (t σ : Uuid) (k : Contract) (db : Db) : Prop :=
  ∃ row, Rows.find Schema.id db.schemas σ = some row ∧ row.tenantId = t ∧ row.contract = k

theorem hasContract_apply {db db' : Db} {t σ : Uuid} {k : Contract} {w : Write} (h : HasContract t σ k db)
    (hins : ∀ row, w ≠ .insertSchema row)
    (hupd : ∀ old new, w = .updateSchema old new → old.id = σ → new.contract = old.contract ∨ new.contract = k)
    (hdb : w.apply db = .ok db') : HasContract t σ k db' := by
  obtain ⟨row, hrow, ht, hk⟩ := h
  cases schemas_apply hdb with
  | same hs => exact ⟨row, by rw [hs]; exact hrow, ht, hk⟩
  | @updated old new row' hrow' hs =>
    by_cases hid : old.id = σ
    · subst hid
      obtain rfl : row = row' := by simpa [hrow] using hrow'
      refine ⟨row.merge old new.stored, ?_, ht, (merge_contract (hk ▸ hupd old new rfl rfl)).trans hk⟩
      have hkey : (row.merge old new.stored).id = old.id := Rows.key_of_find (r := row) hrow
      rw [hs]
      exact Rows.find_replace_self hrow hkey
    · refine ⟨row, ?_, ht, hk⟩
      have hkey : (row'.merge old new.stored).id = old.id := Rows.key_of_find (r := row') hrow'
      rw [hs, Rows.find_replace_other _ hkey hid]
      exact hrow
  | inserted hs => exact absurd rfl (hins _)

/-! ## Whole runs -/

/-- The input of a run comes from the document it read before. -/
theorem RunTask.loaded {S : Site} {w : World} {r : RunTask} {input : ExtractionState}
    (h : (r.move S w).task = r.goto (.openSaver input)) :
    ∃ document, r.pc = .loadSchema document ∧
      input = initialState r.documentId r.tenantId document (w.db.schema? r.tenantId document.schemaId) := by
  have h := congrArg RunTask.pc h
  cases hpc : r.pc <;> simp only [RunTask.move, hpc, RunTask.fail, RunTask.persistOutcome] at h
  case loadSchema document =>
    split_ifs at h
    · cases h
    · exact ⟨document, rfl, (RunPc.openSaver.inj h).symm⟩
  case save n s unsaved =>
    simp only [RunPc.afterNode] at h
    repeat' split at h
    all_goals cases h
  all_goals
    repeat' split at h
    all_goals cases h

/-- The input made from a copy of a document carries the contract of its schema. -/
theorem initialState_contract {db : Db} {d t : Uuid} {document copy : Document} {k : Contract}
    (h : HasContract document.tenantId document.schemaId k db) (hpins : copy.pins = document.pins)
    (htenant : copy.tenantId = t) :
    (initialState d t copy (db.schema? t copy.schemaId)).contract = k := by
  obtain ⟨row, hrow, ht, rfl⟩ := h
  simp only [Document.pins, Prod.mk.injEq] at hpins
  have hlive : db.schema? t copy.schemaId = some row := by
    rw [hpins.2.1, Db.schema?, hrow, ← htenant, hpins.1]
    simp [ht]
  rw [hlive]
  rfl

section
variable {S : Site} {q₀ q q' : System} {t d : Uuid} {document : Document} {schema : Schema}
  {input : ExtractionState}

/-- A step that keeps the contract. -/
theorem hasContract_step {κ : Known} {x : Task} {i : ℕ} {σ : Uuid} {k : Contract}
    (h : HasContract t σ k q.shared.db) (hx : q.tasks[i]? = some x) (hok : KeepsContract σ k q i)
    (hcommit : ∀ ws, (x.move S q.shared).change = .commit ws → Prepared S κ x ws) :
    HasContract t σ k (q.shared.apply (x.move S q.shared).change).db := by
  refine World.db_induction h ?_
  intro ws hc _ w hw db₁ db₂ h₁ hdb₁
  obtain ⟨hins, hupd⟩ := (hcommit ws hc).schemaUpdate hw
  refine hasContract_apply h₁ hins (fun old new he hid => ?_) hdb₁
  obtain ⟨c, rfl, hσ, hnew | ⟨payload, hcall, hnew⟩⟩ := hupd old new he
  · exact Or.inl hnew
  · exact Or.inr (hnew.trans (hok c ws payload hx hc hcall (hσ.symm.trans hid)))

/-- **A document is processed under the contract of its creation** as long as no
    other one is committed to its schema: what `_load_initial_state` gives to a
    run of the document is the pinned version with the contract the schema had
    when the document was there. -/
theorem pinned_contract {i : ℕ} {r : RunTask} (hkeys : PinsAgree d q₀.shared.db)
    (hfresh : ∀ x ∈ q₀.tasks, x.Fresh) (h : Reach (System.step S) (fun _ _ => True) q₀ q)
    (hrow : q.shared.db.document? t d = some document)
    (hschema : q.shared.db.schema? t document.schemaId = some schema)
    (h' : Reach (System.step S) (KeepsContract document.schemaId schema.contract) q q')
    (hrun : q'.tasks[i]? = some (.run r)) (hd : r.documentId = d)
    (hload : (r.move S q'.shared).task = r.goto (.openSaver input)) :
    input.schemaId = some document.schemaId ∧ input.schemaVersion = some document.schemaVersion ∧
      input.contract = schema.contract := by
  obtain ⟨hagree, hholds⟩ := pins_agree (S := S) hkeys hfresh h
  obtain ⟨rfl, htd⟩ := document?_eq hrow
  obtain ⟨hfind, htenant⟩ := Option.filter_eq_some_iff.1 hschema
  have hmem := mem_of_document? hrow
  -- from the creation on, all copies have the pins, and the live schema the contract
  obtain ⟨⟨-, -, hcontract⟩, hholds'⟩ := reach_known (S := S)
    (G := fun w => PinsAgree document.id w.db ∧ Agree document.id w.db document ∧
      HasContract t document.schemaId schema.contract w.db)
    (κ := fun _ => Known.pinned document)
    (fun _ _ _ hG _ _ _ => reads_pinned hG.2.1)
    (fun _ _ _ hG hx hok _ hcommit =>
      have ⟨hagree, hdoc⟩ := pinned_step hG.1 hG.2.1 (.refl _) hcommit
      ⟨⟨hagree, hdoc, hasContract_step hG.2.2 hx hok hcommit⟩, .refl _⟩)
    h' ⟨hagree, hagree.agree _ hmem rfl, schema, hfind, by simpa using htenant, rfl⟩
    fun x hx => (hholds x hx).mono (Known.agree_pinned hmem)
  obtain ⟨copy, hpc, rfl⟩ := RunTask.loaded hload
  have hcopy := hholds' _ (List.mem_of_getElem? hrun)
  simp only [Task.Holds, RunTask.Holds, hpc] at hcopy
  obtain ⟨hpins, hid, htr⟩ := hcopy
  have hpins := hpins (hid.trans hd)
  rw [← htd] at hcontract
  refine ⟨?_, ?_, initialState_contract hcontract hpins htr⟩
  · exact congrArg (fun p => some p.2.1) hpins
  · exact congrArg (fun p => some p.2.2) hpins

end

namespace Sample

/-- An update that makes the field of the schema PII. -/
def updateCall : SchemaRequest where
  tenantId := tenantId
  schemaId := schemaId
  call := .update
    { name := "invoice"
      jsonSchema := (schema []).jsonSchema
      piiFields := ["name"] }

/-- The document that the upload creates. -/
def created : Document where
  id := 5
  tenantId := tenantId
  schemaId := schemaId
  schemaVersion := 1
  fileName := some "a.txt"
  fileSizeBytes := 1
  mimeType := some "text/plain"
  fileStorageKey := some (storageKey tenantId 5)
  version := 2

/-- An update that leaves the contract and sets the thresholds, a seed and an
    activation beside the upload. -/
def editing : System :=
  ⟨world [],
    [.extract extract,
      .schema { updateCall with
        call := .update
          { name := "invoice"
            jsonSchema := (schema []).jsonSchema
            requiredFields := ["name"] } },
      .schema { updateCall with call := .addSeed [("name", .str "Ada")] },
      .schema { updateCall with call := .activate }]⟩

/-- The run that the upload enqueues, once it has read the document. -/
def createdRun : RunTask where
  proc := 0
  documentId := 5
  tenantId := tenantId
  env := env
  pc := .loadSchema created

end Sample

/-- `KeepsContract`, for the task that takes the step. -/
def Task.keepsContract (σ : Uuid) (k : Contract) : Task → Bool
  | .schema c =>
    match c.call with
    | .update payload => c.schemaId ≠ σ || payload.contract = k
    | _ => true
  | _ => true

theorem keepsContract_of_all {σ : Uuid} {k : Contract} {q : System} {i : ℕ}
    (h : ∀ x ∈ q.tasks[i]?, x.keepsContract σ k = true) : KeepsContract σ k q i := by
  intro c ws payload hc _ hcall hσ
  have := h _ hc
  simpa [Task.keepsContract, hcall, hσ] using this

/-- A run of document `d` that is about to load its schema. -/
def Task.loadsSchema (d : Uuid) : Task → Bool
  | .run r =>
    match r.pc with
    | .loadSchema _ => r.documentId = d && !r.env.raises .loadSchema
    | _ => false
  | _ => false

theorem Task.eq_of_loadsSchema {S : Site} {w : World} {d : Uuid} {x : Task}
    (h : x.loadsSchema d = true) :
    ∃ r input, x = .run r ∧ r.documentId = d ∧ (r.move S w).task = r.goto (.openSaver input) := by
  unfold Task.loadsSchema at h
  split at h
  case h_1 r =>
    split at h
    case h_1 document hpc =>
      simp only [Bool.and_eq_true, decide_eq_true_eq, Bool.not_eq_true'] at h
      refine ⟨r, initialState r.documentId r.tenantId document
        (w.db.schema? r.tenantId document.schemaId), rfl, h.1, ?_⟩
      simp only [RunTask.move, hpc, h.2, Bool.false_eq_true, if_false]
    case h_2 => cases h
  case h_2 => cases h

/-- Between the creation of a document and its run the schema gets other thresholds,
    a seed and a snapshot: the run loads the contract of the creation. -/
theorem pinned_contract_sample :
    ∃ q q' r input, Reach (System.step Sample.site) (fun _ _ => True) Sample.editing q ∧
      q.shared.db.document? Sample.tenantId Sample.created.id = some Sample.created ∧
      q.shared.db.schema? Sample.tenantId Sample.created.schemaId = some (Sample.schema []) ∧
      Reach (System.step Sample.site) (KeepsContract Sample.schemaId (Sample.schema []).contract) q q' ∧
      q'.shared.db.schema? Sample.tenantId Sample.created.schemaId ≠ some (Sample.schema []) ∧
      q'.shared.db.schemaVersions.length = 1 ∧
      q'.tasks[4]? = some (.run r) ∧ (r.move Sample.site q'.shared).task = r.goto (.openSaver input) ∧
      input.schemaVersion = some 1 ∧ input.contract = (Sample.schema []).contract := by
  have hrun : (exec (System.step Sample.site) Sample.editing [0, 0, 0, 0, 0]).any (fun q =>
      q.shared.db.document? Sample.tenantId Sample.created.id = some Sample.created &&
        q.shared.db.schema? Sample.tenantId Sample.created.schemaId = some (Sample.schema []) &&
          (exec (checked (System.step Sample.site) fun q i =>
            ∀ x ∈ q.tasks[i]?, x.keepsContract Sample.schemaId (Sample.schema []).contract = true) q
              [1, 1, 2, 2, 2, 3, 3, 0, 4]).any fun q' =>
                (q'.tasks[4]?).any (Task.loadsSchema Sample.created.id) &&
                  q'.shared.db.schemaVersions.length = 1 &&
                    (q'.shared.db.schema? Sample.tenantId Sample.created.schemaId).any fun row =>
                      row.seedCount = 4 && row.confidenceHigh = 17 / 20) = true := by
    decide +kernel
  obtain ⟨q, hq, hcreated⟩ := (Option.any_eq_true _ _).1 hrun
  simp only [Bool.and_eq_true, decide_eq_true_eq] at hcreated
  obtain ⟨⟨hrow, hschema⟩, hrun'⟩ := hcreated
  obtain ⟨q', hq', hloads⟩ := exists_of_checked (fun _ _ => keepsContract_of_all) hrun'
  simp only [Bool.and_eq_true, decide_eq_true_eq] at hloads
  obtain ⟨⟨hloads, hsnapshot⟩, hedited⟩ := hloads
  obtain ⟨x, hx, hloads⟩ := (Option.any_eq_true _ _).1 hloads
  obtain ⟨r, input, rfl, hd, hload⟩ := Task.eq_of_loadsSchema (S := Sample.site) (w := q'.shared) hloads
  have hfresh : ∀ x ∈ Sample.editing.tasks, x.Fresh := by
    simp [Sample.editing, Task.Fresh, Sample.extract, Sample.updateCall]
  have hkeys : PinsAgree Sample.created.id (Sample.world []).db :=
    { issued := by decide
      agree := fun row hrow hid => by
        cases List.mem_singleton.1 hrow
        cases hid }
  have hpinned := pinned_contract (i := 4) hkeys hfresh (reach_of_exec hq) hrow hschema hq' hx hd hload
  refine ⟨q, q', r, input, reach_of_exec hq, hrow, hschema, hq', ?_, hsnapshot, hx, hload, hpinned.2⟩
  intro hsame
  rw [hsame] at hedited
  revert hedited
  decide

/-- An update between the creation of a document and its run changes the
    contract, not the version. -/
theorem update_changes_pinned_contract :
    ∃ q q' input, Reach (System.step Sample.site) (fun _ _ => True)
        ⟨Sample.world [], [.extract Sample.extract, .schema Sample.updateCall]⟩ q ∧
      q.shared.db.document? Sample.tenantId Sample.created.id = some Sample.created ∧
      q.shared.db.schema? Sample.tenantId Sample.created.schemaId = some (Sample.schema []) ∧
      Reach (System.step Sample.site) (fun _ _ => True) q q' ∧
      q'.tasks[2]? = some (.run Sample.createdRun) ∧
      (Sample.createdRun.move Sample.site q'.shared).task = Sample.createdRun.goto (.openSaver input) ∧
      input.schemaVersion = some Sample.created.schemaVersion ∧
      input.contract ≠ (Sample.schema []).contract := by
  refine ⟨_, _, _, reach_of_exec (l := [0, 0, 0, 0, 0]) rfl, rfl, rfl,
    reach_of_exec (l := [0, 1, 1, 2]) rfl, by with_unfolding_all rfl, rfl, rfl, fun h => ?_⟩
  exact absurd (congrArg Contract.piiFields h) (by decide +kernel)

end OcrService
