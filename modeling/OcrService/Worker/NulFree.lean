/-
  U+0000 in what a run leaves.

  PostgreSQL stores no U+0000, and the parsers remove it from the text that they
  return (`cleanText`).  The other strings that enter the state of a run are the
  texts of exceptions and the answer of the extraction chain; nothing removes it
  from these, and `_persist_outcome` hands them to the database
  (`final_noNul_iff`).

  * `getParser_noNul`: what the parsers return;
  * `node_noNul`, `trail_noNul`: a node, and a run, whose calls are answered
    without U+0000 brings none into the state;
  * `persistWrites_noNul`: nor does `_persist_outcome` into the rows.
-/
import OcrService.Domain.Webhook
import OcrService.Lib.Base64
import OcrService.Pipeline.Blanks
import OcrService.Pipeline.Parsers
import OcrService.Worker.Outcome

namespace OcrService

open PyData PyStr Nodes

/-! ## The parser -/

/-- The parser of the settings, with the two backends; an exception of
    LlamaParse is the text `str(exc)`. -/
structure ParserSettings where
  parserBackend : String
  llamaCloudApiKey : Option String := none
  localParser : LocalParser
  cloud : ℕ → CloudAttempt
  printer : Printer
  str : ParseError → String

/-- `get_parser`, and the `parse` of the parser. -/
def ParserSettings.getParser (P : ParserSettings) (content : Bytes) : Except String ParseResult :=
  if P.parserBackend = "local" then P.localParser.parse content
  else if P.parserBackend = "llamaparse" then
    LlamaParseClient.component P.printer { fallback := P.localParser } P.cloud P.llamaCloudApiKey P.str
      content
  else .error ("unsupported parser backend: " ++ P.parserBackend)

/-- Text and method of the result have no U+0000. -/
def ParseResult.NoNul (r : ParseResult) : Prop := NulFree r.text ∧ NulFree r.method

theorem nulFree_cleanText (text : String) : NulFree (cleanText text) := by
  simp [NulFree, cleanText]

theorem localParser_noNul {L : LocalParser} {content : Bytes} {r : ParseResult}
    (h : L.parse content = .ok r) : r.NoNul := by
  unfold LocalParser.parse at h
  split_ifs at h
  split at h
  · cases h
  · dsimp only at h
    split_ifs at h
    · split at h
      · cases h
      · cases h
        exact ⟨nulFree_cleanText _, (by decide : NulFree "ocr")⟩
    · cases h
      exact ⟨nulFree_cleanText _, (by decide : NulFree "local")⟩

theorem fellBack_noNul {client : LlamaParseClient} {content : Bytes} {r : ParseResult}
    (h : client.fellBack content = .ok r) : r.NoNul := by
  unfold LlamaParseClient.fellBack at h
  cases hlocal : client.fallback.parse content with
  | error e =>
    rw [hlocal] at h
    cases h
  | ok r' =>
    rw [hlocal] at h
    cases h
    exact localParser_noNul hlocal

/-- **What the parser returns has no U+0000**, whatever it reads. -/
theorem getParser_noNul {P : ParserSettings} {content : Bytes} {r : ParseResult}
    (h : P.getParser content = .ok r) : r.NoNul := by
  unfold ParserSettings.getParser at h
  split_ifs at h
  · exact localParser_noNul h
  · set client : LlamaParseClient := { fallback := P.localParser }
    have hparse : (client.parse P.printer P.cloud P.llamaCloudApiKey content none).2 = .ok r := by
      unfold LlamaParseClient.component at h
      cases hr : (client.parse P.printer P.cloud P.llamaCloudApiKey content none).2 with
      | error e =>
        rw [hr] at h
        cases h
      | ok r' =>
        rw [hr] at h
        cases h
        rfl
    cases hkey : P.llamaCloudApiKey with
    | none =>
      rw [hkey] at hparse
      exact fellBack_noNul hparse
    | some key =>
      rw [hkey] at hparse
      rcases LlamaParseClient.parse_cases P.printer client P.cloud key content none with
        ⟨-, hfell⟩ | ⟨a, -, -, -, ⟨text, -, hcloud⟩ | ⟨-, e, hraised⟩⟩
      · exact fellBack_noNul (hfell.symm.trans hparse)
      · cases hcloud.symm.trans hparse
        exact ⟨nulFree_cleanText _, (by decide : NulFree "llamaparse")⟩
      · cases hraised.symm.trans hparse

/-! ## The state -/

/-- No string of the state has a U+0000. -/
@[mk_iff]
structure ExtractionState.NoNul (s : ExtractionState) : Prop where
  schemaName : IfSome NulFree s.schemaName
  fileStorageKey : IfSome NulFree s.fileStorageKey
  jsonSchema : IfSome (fun d => Obj.nulFree d = true) s.jsonSchema
  requiredFields : IfSome TextsOk s.requiredFields
  piiFields : IfSome TextsOk s.piiFields
  currentStep : IfSome NulFree s.currentStep
  rawText : IfSome NulFree s.rawText
  parseMethod : IfSome NulFree s.parseMethod
  guardrailResults :
    IfSome (fun outcomes => ∀ o ∈ outcomes, NulFree o.name ∧ IfSome NulFree o.detail) s.guardrailResults
  extractedJson : IfSome (fun d => Obj.nulFree d = true) s.extractedJson
  llmModelUsed : IfSome NulFree s.llmModelUsed
  llmTokenUsage : IfSome (fun d => Obj.nulFree d = true) s.llmTokenUsage
  lowConfidenceFields : IfSome TextsOk s.lowConfidenceFields
  missingFields : IfSome TextsOk s.missingFields
  error : IfSome NulFree s.error

section
variable {α : Type} {p : α → Prop} {a b : Option α}

theorem IfSome.or (ha : IfSome p a) (hb : IfSome p b) : IfSome p (a.or b) := by
  cases a with
  | none => exact hb
  | some x => exact ha

end

namespace ExtractionState
variable {s u : ExtractionState}

/-- An update without U+0000 brings none in. -/
theorem NoNul.update (hs : s.NoNul) (hu : u.NoNul) : (s.update u).NoNul where
  schemaName := hu.schemaName.or hs.schemaName
  fileStorageKey := hu.fileStorageKey.or hs.fileStorageKey
  jsonSchema := hu.jsonSchema.or hs.jsonSchema
  requiredFields := hu.requiredFields.or hs.requiredFields
  piiFields := hu.piiFields.or hs.piiFields
  currentStep := hu.currentStep.or hs.currentStep
  rawText := hu.rawText.or hs.rawText
  parseMethod := hu.parseMethod.or hs.parseMethod
  guardrailResults := hu.guardrailResults.or hs.guardrailResults
  extractedJson := hu.extractedJson.or hs.extractedJson
  llmModelUsed := hu.llmModelUsed.or hs.llmModelUsed
  llmTokenUsage := hu.llmTokenUsage.or hs.llmTokenUsage
  lowConfidenceFields := hu.lowConfidenceFields.or hs.lowConfidenceFields
  missingFields := hu.missingFields.or hs.missingFields
  error := hu.error.or hs.error

theorem noNul_empty : ({} : ExtractionState).NoNul := by
  simp [noNul_iff]

/-- The state without its missing fields, which `score_node` writes anew. -/
def forgetMissing (s : ExtractionState) : ExtractionState := { s with missingFields := none }

theorem NoNul.forgetMissing (hs : s.NoNul) : s.forgetMissing.NoNul :=
  { hs with missingFields := ifSome_none }

end ExtractionState

/-! ## The nodes -/

/-- What of an answer of the chain stays in the state has no U+0000;
    `score_node` overwrites the missing fields. -/
structure LLMExtraction.NoNul (x : LLMExtraction) : Prop where
  fields : Obj.nulFree x.fields = true
  lowConfidenceFields : TextsOk x.lowConfidenceFields

/-- The call is answered without U+0000; the text of a parser aside. -/
def Call.Answered (K : Components) : Call → Prop
  | .load storageKey => ∀ e, K.load storageKey = .error e → NulFree e
  | .parse content => ∀ e, K.parse content = .error e → NulFree e
  | .extract args =>
    (∀ e, K.extract args = .error e → NulFree e) ∧
      ∀ x, K.extract args = .ok x → x.NoNul ∧ TextsOk x.missingFields ∧ NulFree K.llmPrimaryModel

section
variable {K : Components} {s u : ExtractionState} {r : ParseResult} {x : LLMExtraction} {e : String}

/-- The texts that the nodes write. -/
theorem nulFree_nodeTexts :
    NulFree "parse" ∧ NulFree "guardrail" ∧ NulFree "extract" ∧ NulFree "score" ∧ NulFree "route" ∧
      NulFree "deliver" ∧ NulFree "create_review" ∧ NulFree "dlq" ∧ NulFree "guardrail blocked" ∧
      NulFree "'file_storage_key'" ∧ NulFree "'tenant_id'" ∧ NulFree "'schema_id'" ∧ NulFree "" := by
  decide

theorem noNul_failed {reason : FailureReason} : (failed reason e).NoNul ↔ NulFree e := by
  simp [ExtractionState.noNul_iff, failed]

theorem noNul_parsed (hr : r.NoNul) : (parsed r).NoNul := by
  simp [ExtractionState.noNul_iff, parsed, hr.1, hr.2, nulFree_nodeTexts]

theorem noNul_emptyOutput (hr : r.NoNul) : (emptyOutput r).NoNul := by
  simp [ExtractionState.noNul_iff, emptyOutput, hr.1, hr.2, nulFree_nodeTexts]

/-- The guardrails name no U+0000, whatever they read. -/
theorem runGuardrails_noNul (T : TextTools) (text : String) :
    ∀ o ∈ runGuardrails T text, NulFree o.name ∧ IfSome NulFree o.detail := by
  intro o ho
  refine ⟨?_, (runGuardrails_storable T text o ho).2⟩
  rcases runGuardrails_name T text o ho with h | h
  · rw [h]
    decide
  · rw [h]
    decide

theorem noNul_guarded (T : TextTools) (text : String) : (guarded (runGuardrails T text)).NoNul := by
  simpa [ExtractionState.noNul_iff, guarded, nulFree_nodeTexts] using runGuardrails_noNul T text

theorem noNul_blockedUpdate {T : TextTools} {text : String} {o : GuardrailOutcome}
    (ho : o ∈ runGuardrails T text) : (blockedUpdate (runGuardrails T text) o).NoNul := by
  have herror : NulFree (if o.detail.getD "" = "" then "guardrail blocked" else o.detail.getD "") := by
    split_ifs with hnone
    · exact nulFree_nodeTexts.2.2.2.2.2.2.2.2.1
    · cases hd : o.detail with
      | none => exact absurd (by rw [hd]; rfl) hnone
      | some detail => exact (runGuardrails_noNul T text o ho).2 detail hd
  simpa [ExtractionState.noNul_iff, blockedUpdate, nulFree_nodeTexts, herror] using
    runGuardrails_noNul T text

theorem noNul_extracted : (extracted K x).NoNul ↔
    x.NoNul ∧ TextsOk x.missingFields ∧ NulFree K.llmPrimaryModel := by
  have husage : Obj.nulFree [] = true := rfl
  simp only [ExtractionState.noNul_iff, extracted, ifSome_none, ifSome_some, true_and, and_true,
    nulFree_nodeTexts, husage]
  constructor
  · rintro ⟨hfields, hmodel, hlow, hmissing⟩
    exact ⟨⟨hfields, hlow⟩, hmissing, hmodel⟩
  · rintro ⟨⟨hfields, hlow⟩, hmissing, hmodel⟩
    exact ⟨hfields, hmodel, hlow, hmissing⟩

theorem noNul_scored {props : ℕ} (hs : IfSome TextsOk s.requiredFields) : (scored s props).NoNul := by
  have hmissing : TextsOk (missingRequired (s.extractedJson.getD []) (s.requiredFields.getD [])) := by
    intro f hf
    cases hr : s.requiredFields with
    | none =>
      rw [hr] at hf
      cases hf
    | some required =>
      rw [hr] at hf
      exact hs required hr f (List.mem_filter.1 hf).1
  simpa [ExtractionState.noNul_iff, scored, nulFree_nodeTexts] using hmissing

theorem noNul_deadLettered : (deadLettered s).NoNul := by
  unfold deadLettered
  split_ifs <;> simp [ExtractionState.noNul_iff, nulFree_nodeTexts]

theorem parseNode_noNul (hparse : ∀ content r, K.parse content = .ok r → r.NoNul)
    (hcalls : ∀ c ∈ (parseNode K s).calls, c.Answered K) (h : (parseNode K s).result = .ok u) :
    u.NoNul := by
  unfold parseNode at h hcalls
  by_cases hc : s.isCancelled = some true
  · rw [if_pos hc] at h
    cases h
    simp [ExtractionState.noNul_iff, nulFree_nodeTexts]
  · rw [if_neg hc] at h hcalls
    cases hkey : s.fileStorageKey with
    | none =>
      simp only [hkey] at h
      cases h
      simp [noNul_failed, nulFree_nodeTexts]
    | some key =>
      simp only [hkey] at h hcalls
      cases hload : K.load key with
      | error e =>
        simp only [hload] at h hcalls
        cases h
        exact noNul_failed.2 (hcalls _ List.mem_cons_self e hload)
      | ok content =>
        simp only [hload] at h hcalls
        cases hr : K.parse content with
        | error e =>
          simp only [hr] at h hcalls
          cases h
          exact noNul_failed.2 (hcalls (.parse content) (by simp) e hr)
        | ok r =>
          simp only [hr] at h
          cases h
          split_ifs
          · exact noNul_emptyOutput (hparse content r hr)
          · exact noNul_parsed (hparse content r hr)

theorem guardrailNode_noNul (h : (guardrailNode K s).result = .ok u) : u.NoNul := by
  unfold guardrailNode at h
  dsimp only at h
  split at h
  · cases h
    exact ExtractionState.noNul_empty
  · split at h
    · rename_i hfind
      cases h
      exact noNul_blockedUpdate (List.mem_of_find?_eq_some hfind)
    · cases h
      exact noNul_guarded K.tools _

theorem extractNode_noNul (hcalls : ∀ c ∈ (extractNode K s).calls, c.Answered K)
    (h : (extractNode K s).result = .ok u) : u.NoNul := by
  unfold extractNode at h hcalls
  split at h
  · cases h
    exact ExtractionState.noNul_empty
  · rename_i hlive
    rw [if_neg hlive] at hcalls
    split at h
    · cases h
      exact ExtractionState.noNul_empty
    · rename_i hfresh
      rw [if_neg hfresh] at hcalls
      split at h
      · cases h
        simp [noNul_failed, nulFree_nodeTexts]
      · cases h
        simp [noNul_failed, nulFree_nodeTexts]
      · rename_i t σ ht hσ
        simp only [ht, hσ, List.mem_singleton, forall_eq] at hcalls
        obtain ⟨hraised, hanswered⟩ := hcalls
        cases hx : K.extract (extractArgs s t σ) with
        | error e =>
          simp only [hx] at h
          cases h
          exact noNul_failed.2 (hraised e hx)
        | ok x =>
          simp only [hx] at h
          cases h
          exact noNul_extracted.2 (hanswered x hx)

/-- **A node brings no U+0000 into the state**, if its calls are answered
    without any. -/
theorem node_noNul {n : NodeName} (hparse : ∀ content r, K.parse content = .ok r → r.NoNul)
    (hs : s.NoNul) (hcalls : ∀ c ∈ (n.run K s).calls, c.Answered K) (h : (n.run K s).result = .ok u) :
    u.NoNul := by
  cases n with
  | parse => exact parseNode_noNul hparse hcalls h
  | guardrail => exact guardrailNode_noNul h
  | extract => exact extractNode_noNul hcalls h
  | score =>
    simp only [NodeName.run, scoreNode] at h
    split at h
    · cases h
      exact ExtractionState.noNul_empty
    · split at h
      · cases h
      · cases h
        exact noNul_scored hs.requiredFields
  | route =>
    cases h
    simp [ExtractionState.noNul_iff, routed, nulFree_nodeTexts]
  | deliver =>
    cases h
    simp [ExtractionState.noNul_iff, nulFree_nodeTexts]
  | review =>
    cases h
    simp [ExtractionState.noNul_iff, nulFree_nodeTexts]
  | dlq =>
    cases h
    exact noNul_deadLettered

/-- **A run brings no U+0000 into any state it comes to**, if its calls are
    answered without any. -/
theorem trail_noNul {k : ℕ} {n : NodeName} (hparse : ∀ content r, K.parse content = .ok r → r.NoNul)
    (hs : s.NoNul) (hcalls : ∀ c ∈ (supersteps K k n s).calls, c.Answered K) :
    ∀ y ∈ trail K k n s, y.NoNul := by
  induction k generalizing n s with
  | zero => exact List.forall_mem_nil _
  | succ k ih =>
    cases hrun : (n.run K s).result with
    | error e =>
      rw [trail, hrun]
      exact List.forall_mem_nil _
    | ok u =>
      have hfirst : ∀ c ∈ (n.run K s).calls, c ∈ (supersteps K (k + 1) n s).calls := by
        intro c hc
        cases hnext : n.next (s.update u) with
        | none =>
          rw [supersteps_end hrun hnext]
          exact hc
        | some m =>
          rw [supersteps_next hrun hnext]
          exact List.mem_append_left _ hc
      have hu : (s.update u).NoNul :=
        hs.update (node_noNul hparse hs (fun c hc => hcalls c (hfirst c hc)) hrun)
      rw [trail]
      simp only [hrun]
      refine List.forall_mem_cons.2 ⟨hu, ?_⟩
      cases hnext : n.next (s.update u) with
      | none => exact List.forall_mem_nil _
      | some m =>
        refine ih hu fun c hc => hcalls c ?_
        rw [supersteps_next hrun hnext]
        exact List.mem_append_right _ hc

end

/-! ## The runs of a document -/

/-- A run of the pipeline: the rows it reads, and what its nodes use. -/
structure PipelineRun where
  documentId : Uuid
  tenantId : Uuid
  document : Document
  schema : Option Schema
  K : Components
  parser : ParserSettings
  /-- the rows come from the database -/
  document_storable : document.Storable
  schema_storable : ∀ row ∈ schema, row.Storable
  parse_eq : K.parse = parser.getParser

namespace PipelineRun
variable (R : PipelineRun) (saved : Option ExtractionState)

def input : ExtractionState := initialState R.documentId R.tenantId R.document R.schema

/-- The state that the graph starts from. -/
def start : ExtractionState := channels saved R.input

def graph : GraphRun := ainvoke R.K saved R.input

/-- What the components answer. -/
def course : Course :=
  OcrService.course R.K (R.start saved) (R.document.fileStorageKey.getD "") R.tenantId R.document.schemaId

/-- The states that the run comes to. -/
def states : List ExtractionState :=
  R.start saved :: trail R.K recursionLimit .parse (R.start saved)

end PipelineRun

/-- The checkpoints that runs leave on a thread: none, or any state that a run
    came to whose calls were all answered without U+0000. -/
inductive Thread (documentId : Uuid) : Option ExtractionState → Prop
  | fresh : Thread documentId none
  | left {saved : Option ExtractionState} {R : PipelineRun} {s : ExtractionState}
      (h : Thread documentId saved) (hd : R.documentId = documentId)
      (hcalls : ∀ c ∈ (R.graph saved).calls, c.Answered R.K) (hs : s ∈ R.states saved) :
      Thread documentId (some s)

/-- What the components answer in a run has no U+0000, as far as it stays in
    the state; `cached` when the thread has an extraction. -/
def Course.NoNul (llmPrimaryModel : String) (cached : Bool) : Course → Prop
  | .unparsed e => NulFree e
  | .empty _ | .blocked _ _ => True
  | .unextracted _ e => cached = true ∨ NulFree e
  | .extracted _ x => cached = true ∨ x.NoNul ∧ NulFree llmPrimaryModel

section
variable {R : PipelineRun} {saved : Option ExtractionState} {f : ExtractionState}

theorem PipelineRun.parse_noNul : ∀ content r, R.K.parse content = .ok r → r.NoNul := by
  intro content r h
  rw [R.parse_eq] at h
  exact getParser_noNul h

theorem PipelineRun.input_noNul : R.input.NoNul := by
  have hempty : NulFree "" ∧ Obj.nulFree [] = true ∧ TextsOk [] := ⟨by decide, rfl, by simp [TextsOk]⟩
  have hkey : NulFree (R.document.fileStorageKey.getD "") := by
    cases hk : R.document.fileStorageKey with
    | none => exact hempty.1
    | some key => exact R.document_storable.2.2.1 key hk
  cases hschema : R.schema with
  | none => simp [ExtractionState.noNul_iff, PipelineRun.input, initialState, hschema, hkey, hempty]
  | some row =>
    obtain ⟨⟨hname, -⟩, -, hjson, hrequired, hpii, -⟩ := R.schema_storable row hschema
    simp [ExtractionState.noNul_iff, PipelineRun.input, initialState, hschema, hkey, hname, hjson,
      hrequired, hpii]

theorem PipelineRun.start_noNul (R : PipelineRun) (saved : Option ExtractionState)
    (hsaved : IfSome ExtractionState.NoNul saved) : (R.start saved).NoNul := by
  refine ExtractionState.NoNul.update ?_ R.input_noNul
  cases saved with
  | none => exact ExtractionState.noNul_empty
  | some s => exact hsaved s rfl

/-- **A thread whose runs were answered without U+0000 has none.** -/
theorem Thread.noNul {d : Uuid} (h : Thread d saved) : IfSome ExtractionState.NoNul saved := by
  induction h with
  | fresh => exact ifSome_none
  | @left saved R s h hd hcalls hs ih =>
    have hstart := R.start_noNul saved ih
    rw [ifSome_some]
    rcases List.mem_cons.1 hs with rfl | hs
    · exact hstart
    · exact trail_noNul PipelineRun.parse_noNul hstart hcalls _ hs

end

/-! ## The final state -/

section
variable {K : Components} {s y f : ExtractionState} {key : String} {t σ : Uuid}

theorem noNul_settle (h : s.NoNul) : (settle s).NoNul := by
  obtain ⟨status, reason, step, hstep, hsettle⟩ := settle_eq s
  rw [hsettle]
  exact { h with currentStep := ifSome_some.2 hstep }

/-- `score_node` overwrites the missing fields. -/
theorem noNul_update_scored {props : ℕ} (h : s.forgetMissing.NoNul) :
    (s.update (scored s props)).NoNul :=
  h.update (noNul_scored h.requiredFields)

/-- What the end of the graph makes of a state. -/
theorem noNul_finish (hs : s.NoNul) (h : finish s = .ok f) : f.NoNul := by
  rcases finish_cases h with ⟨-, rfl⟩ | ⟨props, -, -, rfl⟩
  · exact noNul_settle hs
  · exact noNul_settle (noNul_update_scored hs.forgetMissing)

/-- The channels that the end of the graph leaves alone. -/
structure SameAnswer (s f : ExtractionState) : Prop where
  error : f.error = s.error
  extractedJson : f.extractedJson = s.extractedJson
  llmModelUsed : f.llmModelUsed = s.llmModelUsed
  lowConfidenceFields : f.lowConfidenceFields = s.lowConfidenceFields

theorem finish_sameAnswer (h : finish s = .ok f) : SameAnswer s f := by
  have hsettle (y : ExtractionState) : SameAnswer y (settle y) := by
    obtain ⟨status, reason, step, -, hy⟩ := settle_eq y
    rw [hy]
    exact ⟨rfl, rfl, rfl, rfl⟩
  rcases finish_cases h with ⟨-, rfl⟩ | ⟨props, -, -, rfl⟩
  · exact hsettle s
  · obtain ⟨herror, hjson, hmodel, hlow⟩ := hsettle (s.update (scored s props))
    exact ⟨herror, hjson, hmodel, hlow⟩

/-- The end of the graph, from an exception of a component. -/
theorem noNul_finish_failed {reason : FailureReason} {e : String} (hs : s.NoNul)
    (h : finish (s.update (failed reason e)) = .ok f) : f.NoNul ↔ NulFree e := by
  constructor
  · intro hf
    exact hf.error e (finish_sameAnswer h).error
  · intro he
    exact noNul_finish (hs.update (noNul_failed.2 he)) h

/-- The end of the graph, from an answer of the chain. -/
theorem noNul_finish_extracted {x : LLMExtraction} (hs : s.NoNul)
    (h : finish (s.update (extracted K x)) = .ok f) :
    f.NoNul ↔ x.NoNul ∧ NulFree K.llmPrimaryModel := by
  constructor
  · intro hf
    obtain ⟨-, hjson, hmodel, hlow⟩ := finish_sameAnswer h
    exact ⟨⟨hf.extractedJson x.fields hjson, hf.lowConfidenceFields x.lowConfidenceFields hlow⟩,
      hf.llmModelUsed K.llmPrimaryModel hmodel⟩
  · rintro ⟨hx, hmodel⟩
    rcases finish_cases h with ⟨hhalted, -⟩ | ⟨props, -, -, rfl⟩
    · cases hhalted
    · -- without the missing fields of the answer
      have hanswer : (extracted K { x with missingFields := [] }).NoNul :=
        noNul_extracted.2 ⟨⟨hx.fields, hx.lowConfidenceFields⟩, by simp [TextsOk], hmodel⟩
      exact noNul_settle (noNul_update_scored (hs.update hanswer).forgetMissing)

/-- The parsed text that the guardrails pass. -/
theorem noNul_guardedText {r : ParseResult} (hs : s.NoNul) (hr : r.NoNul) :
    ((s.update (parsed r)).update (guarded (runGuardrails K.tools r.text))).NoNul :=
  (hs.update (noNul_parsed hr)).update (noNul_guarded K.tools r.text)

/-- The parser gives no text, or one that the run goes on with. -/
theorem course_cases (K : Components) (s : ExtractionState) (key : String) (t σ : Uuid) :
    (∃ e, course K s key t σ = .unparsed e) ∨
      ∃ content r, K.parse content = .ok r ∧ course K s key t σ = parsedCourse K s t σ r := by
  unfold course
  cases K.load key with
  | error e => exact Or.inl ⟨e, rfl⟩
  | ok content =>
    cases hr : K.parse content with
    | error e => exact Or.inl ⟨e, by simp only [hr]⟩
    | ok r => exact Or.inr ⟨content, r, hr, by simp only [hr]⟩

/-- **The final state of a course** has no U+0000 iff the components answered
    without any. -/
theorem noNul_course_iff (hparse : ∀ content r, K.parse content = .ok r → r.NoNul) (hs : s.NoNul)
    {cached : Bool}
    (h : finish (bif cached then (course K s key t σ).reachCached K s
      else (course K s key t σ).reach K s) = .ok f) :
    f.NoNul ↔ (course K s key t σ).NoNul K.llmPrimaryModel cached := by
  rcases course_cases K s key t σ with ⟨e, hc⟩ | ⟨content, r, hparsed, hc⟩
  · rw [hc] at h ⊢
    have hfailed : finish (s.update (failed .parseFailed e)) = .ok f := by cases cached <;> exact h
    exact noNul_finish_failed hs hfailed
  · have hr := hparse content r hparsed
    have hguarded := noNul_guardedText (K := K) hs hr
    rw [hc] at h ⊢
    unfold parsedCourse at h ⊢
    split_ifs at h ⊢
    · have hempty : finish (s.update (emptyOutput r)) = .ok f := by cases cached <;> exact h
      exact iff_of_true (noNul_finish (hs.update (noNul_emptyOutput hr)) hempty) trivial
    · cases hb : (runGuardrails K.tools r.text).find? fun o => o.result = .block with
      | some o =>
        simp only [hb] at h ⊢
        have hblocked : finish ((s.update (parsed r)).update
            (blockedUpdate (runGuardrails K.tools r.text) o)) = .ok f := by cases cached <;> exact h
        refine iff_of_true (noNul_finish ?_ hblocked) trivial
        exact (hs.update (noNul_parsed hr)).update (noNul_blockedUpdate (List.mem_of_find?_eq_some hb))
      | none =>
        simp only [hb] at h ⊢
        cases hx : K.extract (extractArgs (s.update (parsed r)) t σ) with
        | error e =>
          simp only [hx] at h ⊢
          cases cached with
          | true => exact iff_of_true (noNul_finish hguarded h) (Or.inl rfl)
          | false =>
            refine (noNul_finish_failed hguarded h).trans ?_
            simp [Course.NoNul]
        | ok x =>
          simp only [hx] at h ⊢
          cases cached with
          | true => exact iff_of_true (noNul_finish hguarded h) (Or.inl rfl)
          | false =>
            refine (noNul_finish_extracted hguarded h).trans ?_
            simp [Course.NoNul]

end

/-! ## The rows -/

/-- No string that the write hands to a text or JSONB column has a U+0000; for
    the writes of `_persist_outcome`. -/
inductive Write.NoNul : Write → Prop
  | updateDocument {old new : Document} (fileName : IfSome NulFree new.fileName)
      (mimeType : IfSome NulFree new.mimeType) (fileStorageKey : IfSome NulFree new.fileStorageKey) :
      NoNul (.updateDocument old new)
  | insertGuardrailReport {row : GuardrailReport} (name : NulFree row.guardrailName)
      (detail : IfSome NulFree row.detail) : NoNul (.insertGuardrailReport row)
  | insertExtractionResult {row : ExtractionResult}
      (extracted : IfSome (fun d => Obj.nulFree d = true) row.extractedJson)
      (model : IfSome NulFree row.llmModelUsed)
      (usage : IfSome (fun d => Obj.nulFree d = true) row.llmTokenUsage)
      (lowConfidenceFields : IfSome TextsOk row.lowConfidenceFields)
      (missingFields : IfSome TextsOk row.missingFields) : NoNul (.insertExtractionResult row)
  | insertReviewTask {documentId tenantId : Uuid} : NoNul (.insertReviewTask documentId tenantId)
  | insertDeadLetter {row : DeadLetter}
      (state : IfSome (fun d => Obj.nulFree d = true) row.pipelineState) :
      NoNul (.insertDeadLetter row)
  | insertAuditLog {row : AuditLog} (eventType : NulFree row.eventType) (actor : IfSome NulFree row.actor)
      (status : IfSome NulFree row.status) (payloadHash : IfSome NulFree row.payloadHash)
      (metadata : IfSome (fun d => Obj.nulFree d = true) row.auditMetadata) :
      NoNul (.insertAuditLog row)

/-- Base64 is the library's, and `payload_hash` gives a hexdigest. -/
structure Site.Encodes (S : Site) : Prop where
  b64encode : S.cipher.b64encode = Base64.encode
  payloadHash : ∀ d, ∃ digest, S.payloadHash d = hexdigest digest

theorem nulFree_b64encode (bs : Bytes) : NulFree (Base64.encode bs) := by
  intro h
  rw [Base64.encode, String.toList_ofList] at h
  rcases Base64.mem_encodeChars bs nul h with hpad | ⟨n, hn, hchar⟩
  · cases hpad
  · exact Base64.char_ne_zero n hn hchar.symm

theorem nulFree_hexdigest (digest : Bytes) : NulFree (hexdigest digest) := by
  intro h
  rw [hexdigest, String.toList_ofList] at h
  obtain ⟨b, -, hb⟩ := List.mem_flatMap.1 h
  exact nul_notMem_hex 2 b.toNat hb

section
variable {S : Site} {d t : Uuid} {nonces : ℕ → Bytes} {document : Document} {f : ExtractionState}
  {ws : List Write}

theorem encryptValue_nulFree {C : Cipher} (hC : C.b64encode = Base64.encode) {nonce : Bytes}
    {s e : String} (hs : NulFree s) (h : C.encryptValue t nonce s = .ok e) : NulFree e := by
  unfold Cipher.encryptValue at h
  split_ifs at h
  · cases h
    exact hs
  · cases hk : C.tenantKey t with
    | error err =>
      rw [hk] at h
      cases h
    | ok key =>
      rw [hk] at h
      cases h
      rw [hC]
      exact nulFree_append.2 ⟨by decide, nulFree_b64encode _⟩

/-- Encryption brings no U+0000 in. -/
theorem encryptedExtraction_nulFree (hS : S.Encodes) (hf : f.NoNul) {extracted : Obj}
    (h : encryptedExtraction S t nonces f = .ok extracted) : Obj.nulFree extracted = true := by
  rw [encryptedExtraction_eq, encryptFields_eq_mapStrs] at h
  refine Obj.nulFree_mapStrs (fun i s e hs he => encryptValue_nulFree hS.b64encode hs he) ?_ h
  cases hx : f.extractedJson with
  | none => rfl
  | some d => exact hf.extractedJson d hx

theorem deadLetter_noNul (hf : f.NoNul) : (Write.insertDeadLetter (deadLetter d t f)).NoNul :=
  .insertDeadLetter (deadLetter_storable_iff.2 ⟨hf.currentStep, hf.error, hf.parseMethod⟩)

theorem extractionResult_noNul (hS : S.Encodes) (hf : f.NoNul) {extracted : Obj}
    (h : encryptedExtraction S t nonces f = .ok extracted) :
    (Write.insertExtractionResult (extractionResult d t f extracted)).NoNul :=
  .insertExtractionResult (ifSome_some.2 (encryptedExtraction_nulFree hS hf h)) hf.llmModelUsed
    hf.llmTokenUsage hf.lowConfidenceFields hf.missingFields

theorem statusWrites_noNul (hS : S.Encodes) (hf : f.NoNul) (h : statusWrites S d t nonces f = .ok ws) :
    ∀ w ∈ ws, w.NoNul := by
  unfold statusWrites at h
  split at h
  · cases he : encryptedExtraction S t nonces f with
    | error e =>
      rw [he] at h
      cases h
    | ok extracted =>
      rw [he] at h
      cases h
      exact List.forall_mem_singleton.2 (extractionResult_noNul hS hf he)
  · cases he : encryptedExtraction S t nonces f with
    | error e =>
      rw [he] at h
      cases h
    | ok extracted =>
      rw [he] at h
      cases h
      exact List.forall_mem_cons.2 ⟨extractionResult_noNul hS hf he,
        List.forall_mem_singleton.2 .insertReviewTask⟩
  · cases h
    exact List.forall_mem_singleton.2 (deadLetter_noNul hf)
  · cases h
    exact List.forall_mem_singleton.2 (deadLetter_noNul hf)
  · cases h
    exact List.forall_mem_nil _

theorem pipelineEvent_noNul (hS : S.Encodes) : (pipelineEvent S d t f).NoNul := by
  have hstatus : ∀ st : DocumentStatus, NulFree ("PIPELINE_" ++ st.value.toUpper) ∧ NulFree st.value := by
    intro st
    cases st <;> decide +kernel
  refine .insertAuditLog (hstatus _).1 (ifSome_some.2 (by decide)) (ifSome_some.2 (hstatus _).2) ?_ ?_
  · intro hash hhash
    obtain ⟨payload, -, rfl⟩ := Option.map_eq_some_iff.1 hhash
    obtain ⟨digest, hdigest⟩ := hS.payloadHash payload
    rw [hdigest]
    exact nulFree_hexdigest digest
  · rw [ifSome_some]
    cases f.routingDecision with
    | none => decide +kernel
    | some d => cases d <;> decide +kernel

/-- **`_persist_outcome` hands the database no U+0000** if its state has none. -/
theorem persistWrites_noNul (hS : S.Encodes) (hdoc : document.Storable) (hf : f.NoNul)
    (h : persistWrites S t nonces document f = .ok ws) : ∀ w ∈ ws, w.NoNul := by
  rw [persistWrites] at h
  cases hst : statusWrites S document.id t nonces f with
  | error e =>
    rw [hst] at h
    cases h
  | ok ws' =>
    rw [hst] at h
    cases h
    obtain ⟨hname, hmime, hkey, -⟩ := hdoc
    have hreports : ∀ w ∈ guardrailReports document.id t f, w.NoNul := by
      intro w hw
      obtain ⟨o, ho, rfl⟩ := List.mem_map.1 hw
      cases hg : f.guardrailResults with
      | none =>
        rw [hg] at ho
        cases ho
      | some outcomes =>
        rw [hg] at ho
        obtain ⟨hname, hdetail⟩ := hf.guardrailResults outcomes hg o ho
        exact .insertGuardrailReport hname hdetail
    intro w hw
    rcases List.mem_append.1 hw with hw | hw
    · rcases List.mem_cons.1 hw with rfl | hw
      · exact .updateDocument (fun x hx => (hname x hx).1) (fun x hx => (hmime x hx).1) hkey
      · rcases List.mem_append.1 hw with hw | hw
        · exact hreports w hw
        · exact statusWrites_noNul hS hf hst w hw
    · rw [List.mem_singleton.1 hw]
      exact pipelineEvent_noNul hS

end

/-! ## Whole runs -/

/-- **What a run leaves has no U+0000** iff the components answered without any:
    neither the final state nor a row that `_persist_outcome` hands to the
    database.  The thread is any that runs leave whose calls were so answered. -/
theorem final_noNul_iff {R : PipelineRun} {saved : Option ExtractionState} {f : ExtractionState}
    (hsaved : Thread R.documentId saved) (hf : (R.graph saved).result = .ok f) :
    (f.NoNul ∧ ∀ (S : Site) (nonces : ℕ → Bytes) (document : Document) (ws : List Write),
        S.Encodes → document.Storable → persistWrites S R.tenantId nonces document f = .ok ws →
          ∀ w ∈ ws, w.NoNul) ↔
      (R.course saved).NoNul R.K.llmPrimaryModel (hasExtraction (R.start saved)) := by
  have hstart := R.start_noNul saved hsaved.noNul
  have hready : Ready (R.start saved) (R.document.fileStorageKey.getD "") R.tenantId
      R.document.schemaId := ⟨Bool.noConfusion ∘ Option.some.inj, rfl, rfl, rfl⟩
  have hfinish : finish (bif hasExtraction (R.start saved) then (R.course saved).reachCached R.K
      (R.start saved) else (R.course saved).reach R.K (R.start saved)) = .ok f := by
    rw [← hf]
    cases hx : hasExtraction (R.start saved) with
    | false => exact (supersteps_fresh (k := 19) hready hx).1.symm
    | true => exact (supersteps_cached (k := 19) hready hx).1.symm
  have hcourse : f.NoNul ↔
      (R.course saved).NoNul R.K.llmPrimaryModel (hasExtraction (R.start saved)) :=
    noNul_course_iff R.parse_noNul hstart hfinish
  rw [← hcourse]
  refine ⟨And.left, fun h => ⟨h, ?_⟩⟩
  intro S nonces document ws hS hdoc hws
  exact persistWrites_noNul hS hdoc h hws

namespace Sample

/-- The local parser, on a document of one page. -/
def parserSettings : ParserSettings where
  parserBackend := "local"
  localParser := invoicePdf
  cloud _ := unauthorized
  printer := default
  str _ := ""

/-- A run whose model answers with this name. -/
def namedRun (name : String) : PipelineRun where
  documentId := documentId
  tenantId := tenantId
  document := document
  schema := some (schema [])
  K :=
    { components [] with
      parse := parserSettings.getParser
      extract := fun _ => coerce chainTools (.data (output [("name", .str name)])) }
  parser := parserSettings
  document_storable := by decide
  schema_storable row hrow := by
    rw [← Option.mem_some_iff.1 hrow]
    decide +kernel
  parse_eq := rfl

end Sample

/-- The answer of the chain, if the run gets one. -/
def Course.answer : Course → Option LLMExtraction
  | .extracted _ x => some x
  | _ => none

theorem noNul_of_answer {model : String} {c : Course} {x : LLMExtraction} (hc : c.answer = some x)
    (hx : x.NoNul) (hmodel : NulFree model) : c.NoNul model false := by
  cases c with
  | extracted r x' =>
    cases hc
    exact Or.inr ⟨hx, hmodel⟩
  | _ => cases hc

/-- The model answers with a name that has no U+0000, and so have state and rows. -/
theorem final_noNul_sample :
    ∃ f, ((Sample.namedRun "Ann").graph none).result = .ok f ∧ f.NoNul ∧
      ∀ (S : Site) (nonces : ℕ → Bytes) (document : Document) (ws : List Write),
        S.Encodes → document.Storable → persistWrites S Sample.tenantId nonces document f = .ok ws →
          ∀ w ∈ ws, w.NoNul := by
  have hresult : ((Sample.namedRun "Ann").graph none).result.isOk = true := by decide +kernel
  have hanswer : (((Sample.namedRun "Ann").course none).answer).any (fun x =>
      Obj.nulFree x.fields && x.lowConfidenceFields.isEmpty) = true := by
    decide +kernel
  obtain ⟨x, hx, hclean⟩ := (Option.any_eq_true _ _).1 hanswer
  rw [Bool.and_eq_true, List.isEmpty_iff] at hclean
  have hnul : x.NoNul := ⟨hclean.1, by rw [hclean.2]; simp [TextsOk]⟩
  cases hf : ((Sample.namedRun "Ann").graph none).result with
  | error e =>
    rw [hf] at hresult
    cases hresult
  | ok f => exact ⟨f, rfl, (final_noNul_iff .fresh hf).2 (noNul_of_answer hx hnul (by decide))⟩

/-- The model answers with a name that ends in U+0000: the run completes, and the
    row of its extraction is one that the database refuses. -/
theorem answer_brings_nul :
    ∃ f ws, ((Sample.namedRun "Ann\u0000").graph none).result = .ok f ∧ ¬ f.NoNul ∧
      persistWrites Sample.site Sample.tenantId (fun _ => []) Sample.document f = .ok ws ∧
      ∃ row, .insertExtractionResult row ∈ ws ∧ ¬ (Write.insertExtractionResult row).NoNul ∧
        ¬ row.Storable := by
  have hresult : ((Sample.namedRun "Ann\u0000").graph none).result.map
      (fun f => (f.status, f.piiFields, f.extractedJson)) =
        .ok (some .completed, some [], some [("name", .str "Ann\u0000")]) := by
    decide +kernel
  have hnul : ¬ Obj.nulFree [("name", .str "Ann\u0000")] = true := by decide
  cases hf : ((Sample.namedRun "Ann\u0000").graph none).result with
  | error e =>
    rw [hf] at hresult
    cases hresult
  | ok f =>
    rw [hf] at hresult
    obtain ⟨hstatus, hpii, hjson⟩ : f.status = some .completed ∧ f.piiFields = some [] ∧
        f.extractedJson = some [("name", .str "Ann\u0000")] := by
      simpa [Except.map] using hresult
    have hfinal : finalStatus f = .completed := by simp [finalStatus, hstatus]
    obtain ⟨row, hrow⟩ : ∃ row, row = extractionResult Sample.document.id Sample.tenantId f
      [("name", .str "Ann\u0000")] := ⟨_, rfl⟩
    have hwrites : statusWrites Sample.site Sample.document.id Sample.tenantId (fun _ => []) f =
        .ok [.insertExtractionResult row] := by
      simp [statusWrites, hfinal, encryptedExtraction, hpii, hjson, hrow, Except.map]
    cases hws : persistWrites Sample.site Sample.tenantId (fun _ => []) Sample.document f with
    | error e =>
      rw [persistWrites, hwrites] at hws
      cases hws
    | ok ws =>
      have heq := hws
      rw [persistWrites, hwrites] at heq
      cases heq
      have hextracted : ¬ IfSome (fun d => Obj.nulFree d = true) row.extractedJson := by
        rw [hrow]
        exact fun h => hnul (h _ rfl)
      refine ⟨f, _, rfl, fun h => hnul (h.extractedJson _ hjson), hws, row, ?_, fun h => ?_,
        fun h => hextracted h.1⟩
      · exact List.mem_append_left _ (List.mem_cons_of_mem _ (List.mem_append_right _ List.mem_cons_self))
      · cases h with
        | insertExtractionResult extracted => exact hextracted extracted

end OcrService
