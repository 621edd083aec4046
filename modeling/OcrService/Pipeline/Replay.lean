/-
  Replaying the extract step.

  On checkpoint replay `extract_node` is to see from the state that it already
  ran (D-SP001-2).  What it looks at is the truth value of `extracted_json`,
  so a replay after an answer without fields asks the chain again
  (`extract_replay_iff`).
-/
import OcrService.Pipeline.Course
import Mathlib.Tactic.NormNum

namespace OcrService

open PyData Nodes

/-- A second run of the extract step, on the state `s` updated with the output
    `u` of the first, makes no call and leaves what the first run set. -/
structure ReplayKeeps (K : Components) (s u : ExtractionState) : Prop where
  silent : (extractNode K (s.update u)).calls = []
  kept : ∃ v, (extractNode K (s.update u)).result = .ok v ∧
    ((s.update u).update v).extractedJson = u.extractedJson ∧
    ((s.update u).update v).llmConfidence = u.llmConfidence ∧
    ((s.update u).update v).missingFields = u.missingFields

/-- The extract step asks the chain on the state `s`, with these arguments. -/
structure AsksChain (s : ExtractionState) (args : ExtractArgs) : Prop where
  running : halted s = false
  fresh : hasExtraction s = false
  ids : ∃ tenantId schemaId, s.tenantId = some tenantId ∧ s.schemaId = some schemaId ∧
    args = extractArgs s tenantId schemaId

section
variable {K : Components} {s : ExtractionState} {args : ExtractArgs}

theorem extractNode_of_asks (h : AsksChain s args) :
    extractNode K s =
      { calls := [.extract args], result := .ok (extractUpdate K args) } := by
  obtain ⟨tenantId, schemaId, ht, hc, rfl⟩ := h.ids
  exact extractNode_fresh h.running h.fresh ht hc

/-- Otherwise it calls nothing and sets none of the fields. -/
theorem extractNode_of_not_asks (h : ∀ args, ¬ AsksChain s args) :
    (extractNode K s).calls = [] ∧
      ∃ u, (extractNode K s).result = .ok u ∧ u.extractedJson = none := by
  by_cases hpassed : halted s = true ∨ hasExtraction s = true
  · rw [extractNode_passed hpassed]
    exact ⟨rfl, {}, rfl, rfl⟩
  · obtain ⟨hhalt, hext⟩ := not_or.1 hpassed
    rw [extractNode, if_neg hhalt, if_neg hext]
    cases ht : s.tenantId with
    | none => exact ⟨rfl, _, rfl, rfl⟩
    | some tenantId =>
      cases hc : s.schemaId with
      | none => exact ⟨rfl, _, rfl, rfl⟩
      | some schemaId =>
        exact absurd ⟨by simpa using hhalt, by simpa using hext, tenantId, schemaId, ht, hc, rfl⟩
          (h (extractArgs s tenantId schemaId))

/-- A run of the extract step that asked the chain. -/
theorem asks_of_calls (h : (extractNode K s).calls = [.extract args]) : AsksChain s args := by
  by_contra hnot
  by_cases hall : ∀ args, ¬ AsksChain s args
  · rw [(extractNode_of_not_asks hall).1] at h
    cases h
  · obtain ⟨args', hasks⟩ := not_forall_not.1 hall
    rw [extractNode_of_asks hasks] at h
    obtain rfl : args' = args := by simpa using h
    exact hnot hasks

end

section
variable {K K' : Components} {s : ExtractionState} {x : LLMExtraction}

theorem halted_extracted : halted (s.update (extracted K x)) = false := by
  simp [halted, ExtractionState.update, extracted]

theorem hasExtraction_extracted : hasExtraction (s.update (extracted K x)) = !x.fields.isEmpty := rfl

/-- With fields in the state the step does nothing. -/
theorem replayKeeps_of_fields (h : x.fields ≠ []) : ReplayKeeps K' s (extracted K x) := by
  have hrun : extractNode K' (s.update (extracted K x)) = { result := .ok {} } :=
    extractNode_passed (Or.inr (by simpa [hasExtraction_extracted] using h))
  refine ⟨by rw [hrun], {}, by rw [hrun], ?_⟩
  rw [ExtractionState.update_empty]
  exact ⟨rfl, rfl, rfl⟩

/-- Without fields it asks the chain again. -/
theorem calls_of_no_fields (K K' : Components) (h : x.fields = []) {tenantId schemaId : Uuid}
    (ht : s.tenantId = some tenantId) (hc : s.schemaId = some schemaId) :
    (extractNode K' (s.update (extracted K x))).calls =
      [.extract (extractArgs (s.update (extracted K x)) tenantId schemaId)] := by
  have hasks : AsksChain (s.update (extracted K x))
      (extractArgs (s.update (extracted K x)) tenantId schemaId) :=
    { running := halted_extracted
      fresh := by simp [hasExtraction_extracted, h]
      ids := ⟨tenantId, schemaId, ht, hc, rfl⟩ }
  rw [extractNode_of_asks hasks]

end

/-- **The extract step is idempotent on replay** iff the answer of the chain had
    a field. -/
theorem extract_replay_iff (K K' : Components) (s : ExtractionState) (args : ExtractArgs)
    (x : LLMExtraction) (hrun : (extractNode K s).calls = [.extract args])
    (hx : K.extract args = .ok x) :
    ∃ u, (extractNode K s).result = .ok u ∧ (ReplayKeeps K' s u ↔ x.fields ≠ []) := by
  have hasks := asks_of_calls hrun
  obtain ⟨tenantId, schemaId, ht, hc, -⟩ := hasks.ids
  have hres : (extractNode K s).result = .ok (extracted K x) := by
    simp only [extractNode_of_asks hasks, extractUpdate, hx]
  refine ⟨extracted K x, hres, ?_, replayKeeps_of_fields⟩
  intro hkeeps hnil
  have hcalls := calls_of_no_fields K K' hnil ht hc
  rw [hkeeps.silent] at hcalls
  cases hcalls

/-- Components whose chain gives the answer `x`. -/
def answering (x : LLMExtraction) : Components where
  load _ := .error "not found"
  parse _ := .error "not a PDF"
  tools := { search := fun _ => none, printable := fun _ => true }
  extract _ := .ok x
  llmPrimaryModel := "claude-sonnet-4-6"

/-- An answer without fields, by a model that is sure of it. -/
def noFields : LLMExtraction where
  fields := []
  confidence := 9 / 10
  lowConfidenceFields := []
  missingFields := ["total"]
  confidence_nonneg := by norm_num
  confidence_le_one := by norm_num

/-- The fields of an invoice. -/
def oneField : LLMExtraction := { noFields with fields := [("total", .str "100")], missingFields := [] }

/-- A document before the extract step. -/
def parsedDocument : ExtractionState :=
  { tenantId := some default, schemaId := some default, status := some .extracting }

/-- The replay of an extraction with a field. -/
theorem extract_replay_iff_one_field :
    ∃ u, (extractNode (answering oneField) parsedDocument).result = .ok u ∧
      ReplayKeeps (answering noFields) parsedDocument u := by
  have hrun : ∃ u, (extractNode (answering oneField) parsedDocument).result = .ok u ∧
      (ReplayKeeps (answering noFields) parsedDocument u ↔ oneField.fields ≠ []) :=
    extract_replay_iff (answering oneField) (answering noFields) parsedDocument
      (extractArgs parsedDocument default default) oneField rfl rfl
  obtain ⟨u, hu, hiff⟩ := hrun
  exact ⟨u, hu, hiff.2 (by decide)⟩

/-- After the answer without fields the chain is asked again, and what the first
    run set is overwritten. -/
theorem empty_answer_is_asked_again :
    ∃ u, (extractNode (answering noFields) parsedDocument).result = .ok u ∧
      (extractNode (answering oneField) (parsedDocument.update u)).calls =
        [.extract (extractArgs parsedDocument default default)] ∧
      ∃ v, (extractNode (answering oneField) (parsedDocument.update u)).result = .ok v ∧
        ((parsedDocument.update u).update v).extractedJson ≠ u.extractedJson ∧
        ((parsedDocument.update u).update v).missingFields ≠ u.missingFields :=
  ⟨_, rfl, rfl, _, rfl, by decide, by decide⟩

end OcrService
