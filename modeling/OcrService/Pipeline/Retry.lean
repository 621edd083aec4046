/-
  A run on a thread that has a checkpoint.

  A retried document is invoked on the thread of its earlier runs, so the
  channels that the input does not overwrite are those of the checkpoint.
  `ainvoke_saved_iff` says for which checkpoints this run is the run on an
  empty thread: what must be absent depends on the course the run takes.
-/
import OcrService.Pipeline.Course
import OcrService.Worker.Runner

namespace OcrService

open PyData Nodes

/-! ## What two runs have in common -/

/-- The channels that `_persist_outcome` and the API report. -/
structure SameOutcome (a b : ExtractionState) : Prop where
  status : a.status = b.status
  routingDecision : a.routingDecision = b.routingDecision
  failureReason : a.failureReason = b.failureReason
  confidence : a.confidence = b.confidence
  extractedJson : a.extractedJson = b.extractedJson
  guardrailResults : a.guardrailResults = b.guardrailResults

/-- Both runs end in states with the same outcome, or with the same exception. -/
def SameResult : Except String ExtractionState → Except String ExtractionState → Prop
  | .ok a, .ok b => SameOutcome a b
  | .error e, .error e' => e = e'
  | _, _ => False

/-- The same result, and the same calls of the extraction chain. -/
def SameRun (a b : GraphRun) : Prop :=
  SameResult a.result b.result ∧ llmCalls a.calls = llmCalls b.calls

/-! ## The outcome of a settled state -/

section
variable (s : ExtractionState)

theorem settle_confidence : (settle s).confidence = s.confidence := by
  unfold settle settlement deadLettered
  split <;> [rfl; rfl; (split_ifs <;> rfl)]

theorem settle_extractedJson : (settle s).extractedJson = s.extractedJson := by
  unfold settle settlement deadLettered
  split <;> [rfl; rfl; (split_ifs <;> rfl)]

theorem settle_guardrailResults : (settle s).guardrailResults = s.guardrailResults := by
  unfold settle settlement deadLettered
  split <;> [rfl; rfl; (split_ifs <;> rfl)]

theorem settle_routingDecision : (settle s).routingDecision = some (routeDecision s).decision := by
  unfold settle settlement
  split <;> (rename_i h; rw [h]; rfl)

end

theorem decision_injective {b b' : Branch} : b.decision = b'.decision ↔ b = b' := by
  cases b <;> cases b' <;> simp [Branch.decision]

/-- The status that a branch ends in. -/
def Nodes.Branch.status : Branch → DocumentStatus
  | .deliver => .completed
  | .review => .review
  | .dlq => .rejected

/-- The failure reason that a branch ends with. -/
def Nodes.Branch.failureReason (reason : Option FailureReason) : Branch → Option FailureReason
  | .dlq => some (reason.getD .lowConfidence)
  | _ => reason

section
variable {s a b : ExtractionState}

theorem settle_status (h : s.status ≠ some .cancelled) :
    (settle s).status = some (routeDecision s).status := by
  unfold settle settlement deadLettered
  split <;> (rename_i hd; rw [hd]) <;> [rfl; rfl; (rw [if_neg h]; rfl)]

theorem settle_failureReason (h : s.status ≠ some .cancelled) :
    (settle s).failureReason = (routeDecision s).failureReason s.failureReason := by
  unfold settle settlement deadLettered
  split <;> (rename_i hd; rw [hd]) <;> [rfl; rfl; (rw [if_neg h]; rfl)]

/-- Two states on one branch settle with the same outcome iff the channels that
    settling leaves alone agree. -/
theorem sameOutcome_settle (ha : a.status ≠ some .cancelled) (hb : b.status ≠ some .cancelled)
    (hab : routeDecision a = routeDecision b) :
    SameOutcome (settle a) (settle b) ↔
      (routeDecision b).failureReason a.failureReason = (routeDecision b).failureReason b.failureReason ∧
        a.confidence = b.confidence ∧ a.extractedJson = b.extractedJson ∧
          a.guardrailResults = b.guardrailResults := by
  constructor
  · rintro ⟨-, -, hf, hc, hx, hg⟩
    rw [settle_failureReason ha, settle_failureReason hb, hab] at hf
    rw [settle_confidence, settle_confidence] at hc
    rw [settle_extractedJson, settle_extractedJson] at hx
    rw [settle_guardrailResults, settle_guardrailResults] at hg
    exact ⟨hf, hc, hx, hg⟩
  · rintro ⟨hf, hc, hx, hg⟩
    exact
      { status := by rw [settle_status ha, settle_status hb, hab]
        routingDecision := by rw [settle_routingDecision, settle_routingDecision, hab]
        failureReason := by rw [settle_failureReason ha, settle_failureReason hb, hab, hf]
        confidence := by rw [settle_confidence, settle_confidence, hc]
        extractedJson := by rw [settle_extractedJson, settle_extractedJson, hx]
        guardrailResults := by rw [settle_guardrailResults, settle_guardrailResults, hg] }

theorem routeDecision_halted (h : halted s = true) : routeDecision s = .dlq := by
  rw [routeDecision, if_pos h]

/-- Two states in error. -/
theorem sameResult_error (ha : a.status = some .error) (hb : b.status = some .error) :
    SameResult (finish a) (finish b) ↔
      a.failureReason.getD .lowConfidence = b.failureReason.getD .lowConfidence ∧
        a.confidence = b.confidence ∧ a.extractedJson = b.extractedJson ∧
          a.guardrailResults = b.guardrailResults := by
  have hha : halted a = true := by simp [halted, ha]
  have hhb : halted b = true := by simp [halted, hb]
  rw [finish, finish, if_pos hha, if_pos hhb]
  refine (sameOutcome_settle (by simp [ha]) (by simp [hb]) ?_).trans ?_
  · rw [routeDecision_halted hha, routeDecision_halted hhb]
  · rw [routeDecision_halted hhb]
    simp [Nodes.Branch.failureReason]

end

/-! ## What a checkpoint must not hold -/

/-- What the checkpoint `saved` must lack for a run of this course to be the run
    on an empty thread. -/
def LeavesNoTrace (K : Components) (input saved : ExtractionState) (c : Course) : Prop :=
  match c with
  | .unparsed _ | .empty _ =>
    saved.confidence = none ∧ saved.extractedJson = none ∧ saved.guardrailResults = none
  | .blocked _ _ | .unextracted _ _ => saved.confidence = none ∧ saved.extractedJson = none
  | .extracted _ _ =>
    hasExtraction saved = false ∧
      ∀ props, propertyCount (input.jsonSchema.getD []) = .ok props →
        saved.failureReason = none ∨ (saved.failureReason = some .lowConfidence ∧
          routeDecision ((c.reach K input).update (scored (c.reach K input) props)) = .dlq)

/-! ## A run on the thread of earlier runs -/

section
variable {K : Components} {d t : Uuid} {document : Document} {schema : Option Schema}
  {saved : ExtractionState}

theorem initialState_ready (saved : ExtractionState) :
    Ready (saved.update (initialState d t document schema)) (document.fileStorageKey.getD "") t
      document.schemaId :=
  ⟨show (some false : Option Bool) ≠ some true by decide, rfl, rfl, rfl⟩

/-- A branch keeps the failure reason of an empty thread iff there is none, or
    it is the one the branch would give. -/
theorem failureReason_eq_none_iff (b : Branch) (reason : Option FailureReason) :
    b.failureReason reason = b.failureReason none ↔
      reason = none ∨ (reason = some .lowConfidence ∧ b = .dlq) := by
  cases b <;> cases reason <;> simp [Nodes.Branch.failureReason]

/-- Two states in error that a run leaves on different threads. -/
theorem sameResult_unextracted {a b : ExtractionState} (ha : a.status = some .error)
    (hb : b.status = some .error) (hf : a.failureReason = b.failureReason)
    (hc : b.confidence = none) (hx : b.extractedJson = none) :
    SameResult (finish a) (finish b) ↔
      a.confidence = none ∧ a.extractedJson = none ∧ a.guardrailResults = b.guardrailResults := by
  rw [sameResult_error ha hb, hf, hc, hx]
  simp

/-- The same, when both runs came past the guardrails. -/
theorem sameResult_guarded {a b : ExtractionState} (ha : a.status = some .error)
    (hb : b.status = some .error) (hf : a.failureReason = b.failureReason)
    (hc : b.confidence = none) (hx : b.extractedJson = none)
    (hg : a.guardrailResults = b.guardrailResults) :
    SameResult (finish a) (finish b) ↔ a.confidence = none ∧ a.extractedJson = none :=
  (sameResult_unextracted ha hb hf hc hx).trans (and_congr_right fun _ => and_iff_left hg)

theorem hasExtraction_of_none {s : ExtractionState} (h : s.extractedJson = none) :
    hasExtraction s = false := by
  simp [hasExtraction, h]

/-- The runs with an answer of the chain, on both threads. -/
theorem sameResult_extracted (r : ParseResult) (x : LLMExtraction) :
    SameResult
        (finish ((Course.extracted r x).reach K (saved.update (initialState d t document schema))))
        (finish ((Course.extracted r x).reach K (initialState d t document schema))) ↔
      ∀ props, propertyCount ((initialState d t document schema).jsonSchema.getD []) = .ok props →
        saved.failureReason = none ∨ (saved.failureReason = some .lowConfidence ∧
          routeDecision (((Course.extracted r x).reach K (initialState d t document schema)).update
            (scored ((Course.extracted r x).reach K (initialState d t document schema)) props)) =
              .dlq) := by
  set input := initialState d t document schema with hinput
  set a := (Course.extracted r x).reach K (saved.update input) with ha
  set b := (Course.extracted r x).reach K input with hb
  have hja : a.jsonSchema = input.jsonSchema := rfl
  have hjb : b.jsonSchema = input.jsonSchema := rfl
  have hfa : finish a = (propertyCount (input.jsonSchema.getD [])).map
      fun props => settle (a.update (scored a props)) := by
    rw [finish, if_neg (show ¬ halted a = true from Bool.false_ne_true), hja]
  have hfb : finish b = (propertyCount (input.jsonSchema.getD [])).map
      fun props => settle (b.update (scored b props)) := by
    rw [finish, if_neg (show ¬ halted b = true from Bool.false_ne_true), hjb]
  rw [hfa, hfb]
  cases propertyCount (input.jsonSchema.getD []) with
  | error e => simp [Except.map, SameResult]
  | ok props =>
    have hroute : routeDecision (a.update (scored a props)) =
        routeDecision (b.update (scored b props)) := rfl
    simp only [Except.map, SameResult, Except.ok.injEq, forall_eq']
    have hne : (some .routing : Option DocumentStatus) ≠ some .cancelled := by decide
    rw [sameOutcome_settle (a := a.update (scored a props)) (b := b.update (scored b props))
      hne hne hroute]
    have hra : (a.update (scored a props)).failureReason = saved.failureReason := rfl
    have hrb : (b.update (scored b props)).failureReason = none := rfl
    rw [hra, hrb, failureReason_eq_none_iff]
    exact ⟨fun h => h.1, fun h => ⟨h, rfl, rfl, rfl⟩⟩

/-- **A run on the thread of earlier runs is the run on an empty thread iff the
    checkpoint lacks what its course would take from it.** -/
theorem ainvoke_saved_iff :
    SameRun (ainvoke K (some saved) (initialState d t document schema))
        (ainvoke K none (initialState d t document schema)) ↔
      LeavesNoTrace K (initialState d t document schema) saved
        (course K (initialState d t document schema) (document.fileStorageKey.getD "") t
          document.schemaId) := by
  set input := initialState d t document schema with hinput
  set s := saved.update input with hs
  have hempty : channels none input = input := rfl
  have hsaved : channels (some saved) input = s := rfl
  have hready : Ready input (document.fileStorageKey.getD "") t document.schemaId :=
    initialState_ready {}
  have hready' : Ready s (document.fileStorageKey.getD "") t document.schemaId :=
    initialState_ready saved
  set c := course K input (document.fileStorageKey.getD "") t document.schemaId with hc
  have hcourse : course K s (document.fileStorageKey.getD "") t document.schemaId = c := rfl
  obtain ⟨hfresh, hfreshCalls⟩ := supersteps_fresh (K := K) (k := 19) hready rfl
  rw [← hc] at hfresh hfreshCalls
  have hx' : hasExtraction s = hasExtraction saved := rfl
  unfold SameRun ainvoke
  rw [hempty, hsaved]
  cases hx : hasExtraction saved with
  | false =>
    obtain ⟨hres, hcalls⟩ := supersteps_fresh (K := K) (k := 19) hready' (hx'.trans hx)
    rw [hcourse] at hres hcalls
    have hargs : c.llmCalls s t document.schemaId = c.llmCalls input t document.schemaId := by
      cases c <;> rfl
    rw [show recursionLimit = 19 + 6 from rfl, hres, hcalls, hfresh, hfreshCalls, hargs]
    simp only [and_true]
    cases hcc : c with
    | unparsed e => exact sameResult_unextracted rfl rfl rfl rfl rfl
    | empty r => exact sameResult_unextracted rfl rfl rfl rfl rfl
    | blocked r o => exact sameResult_guarded rfl rfl rfl rfl rfl rfl
    | unextracted r e => exact sameResult_guarded rfl rfl rfl rfl rfl rfl
    | extracted r x => exact (sameResult_extracted r x).trans (and_iff_right hx).symm
  | true =>
    obtain ⟨hres, hcalls⟩ := supersteps_cached (K := K) (k := 19) hready' (hx'.trans hx)
    rw [hcourse] at hres
    have hne : saved.extractedJson ≠ none := fun h => by simp [hasExtraction_of_none h] at hx
    rw [show recursionLimit = 19 + 6 from rfl, hres, hcalls, hfresh, hfreshCalls]
    cases hcc : c with
    | unparsed e => exact (and_iff_left rfl).trans (sameResult_unextracted rfl rfl rfl rfl rfl)
    | empty r => exact (and_iff_left rfl).trans (sameResult_unextracted rfl rfl rfl rfl rfl)
    | blocked r o => exact (and_iff_left rfl).trans (sameResult_guarded rfl rfl rfl rfl rfl rfl)
    | unextracted r e => simp [Course.llmCalls, LeavesNoTrace, hne]
    | extracted r x => simp [Course.llmCalls, LeavesNoTrace, hx]

/-- A retry of a document whose earlier run has an extraction does not call the
    chain again. -/
theorem retry_skips_chain :
    ∃ saved, (ainvoke Sample.env.K none (initialState Sample.documentId Sample.tenantId Sample.document
        (some (Sample.schema [])))).result = .ok saved ∧
      ¬ SameRun
        (ainvoke Sample.env.K (some saved) (initialState Sample.documentId Sample.tenantId
          Sample.document (some (Sample.schema []))))
        (ainvoke Sample.env.K none (initialState Sample.documentId Sample.tenantId Sample.document
          (some (Sample.schema [])))) := by
  set input := initialState Sample.documentId Sample.tenantId Sample.document
    (some (Sample.schema []))
  have hready : Ready input "key" Sample.tenantId Sample.schemaId :=
    ⟨show (some false : Option Bool) ≠ some true by decide, rfl, rfl, rfl⟩
  obtain ⟨hres, hcalls⟩ := supersteps_fresh (K := Sample.env.K) (k := 19) hready rfl
  set s := (course Sample.env.K input "key" Sample.tenantId Sample.schemaId).reach Sample.env.K input
  refine ⟨settle (s.update (scored s 1)), hres, fun h => ?_⟩
  have hx : hasExtraction ((settle (s.update (scored s 1))).update input) = true := by
    simp only [hasExtraction]
    rw [show ((settle (s.update (scored s 1))).update input).extractedJson =
      (settle (s.update (scored s 1))).extractedJson from rfl, settle_extractedJson]
    rfl
  have hskip := (supersteps_cached (K := Sample.env.K) (k := 19)
    (initialState_ready (settle (s.update (scored s 1)))) hx).2
  have hsame := hskip.symm.trans (h.2.trans hcalls)
  cases hsame

end

end OcrService
