/-
  The courses a run of the graph can take.

  What storage, parser, guardrails and LLM answer decides the `Course` of a
  run; the middle nodes of the other courses do nothing.

  * `Course.reach`: the state handed to `score_node`;
  * `finish`: score, route and the terminal node from there;
  * `supersteps_fresh`, `supersteps_cached`: a run of the graph takes its
    course, and skips the extraction if the state already has one.
-/
import OcrService.Pipeline.Graph

namespace OcrService

open PyData Nodes

/-- What the components answer in a run. -/
inductive Course
  | unparsed (error : String)
  | empty (r : ParseResult)
  | blocked (r : ParseResult) (o : GuardrailOutcome)
  | unextracted (r : ParseResult) (error : String)
  | extracted (r : ParseResult) (x : LLMExtraction)

/-- The course from a parsed text on. -/
def parsedCourse (K : Components) (s : ExtractionState) (tenantId schemaId : Uuid) (r : ParseResult) :
    Course :=
  if r.isEmpty then .empty r
  else match (runGuardrails K.tools r.text).find? fun o => o.result = .block with
    | some o => .blocked r o
    | none =>
      match K.extract (extractArgs (s.update (parsed r)) tenantId schemaId) with
      | .error e => .unextracted r e
      | .ok x => .extracted r x

/-- The course of a run from the channels `s`. -/
def course (K : Components) (s : ExtractionState) (storageKey : String) (tenantId schemaId : Uuid) :
    Course :=
  match K.load storageKey with
  | .error e => .unparsed e
  | .ok content =>
    match K.parse content with
    | .error e => .unparsed e
    | .ok r => parsedCourse K s tenantId schemaId r

namespace Course

/-- The state handed to `score_node`. -/
def reach (K : Components) (s : ExtractionState) : Course → ExtractionState
  | unparsed e => s.update (failed .parseFailed e)
  | empty r => s.update (emptyOutput r)
  | blocked r o => (s.update (parsed r)).update (blockedUpdate (runGuardrails K.tools r.text) o)
  | unextracted r e =>
    ((s.update (parsed r)).update (guarded (runGuardrails K.tools r.text))).update
      (failed .extractionFailed e)
  | extracted r x =>
    ((s.update (parsed r)).update (guarded (runGuardrails K.tools r.text))).update
      (Nodes.extracted K x)

/-- The state handed to `score_node` when the state `s` has an extraction. -/
def reachCached (K : Components) (s : ExtractionState) : Course → ExtractionState
  | unextracted r _ | extracted r _ =>
    (s.update (parsed r)).update (guarded (runGuardrails K.tools r.text))
  | c => c.reach K s

/-- The argument given to the extraction chain, if it is called. -/
def llmCalls (s : ExtractionState) (tenantId schemaId : Uuid) : Course → List ExtractArgs
  | unextracted r _ | extracted r _ => [extractArgs (s.update (parsed r)) tenantId schemaId]
  | _ => []

end Course

/-- The update of `parse_node`, for a storage key. -/
def parseUpdate (K : Components) (storageKey : String) : ExtractionState :=
  match K.load storageKey with
  | .error e => failed .parseFailed e
  | .ok content =>
    match K.parse content with
    | .error e => failed .parseFailed e
    | .ok r => if r.isEmpty then emptyOutput r else parsed r

/-- The update of `extract_node`, for the arguments of the chain. -/
def extractUpdate (K : Components) (args : ExtractArgs) : ExtractionState :=
  match K.extract args with
  | .error e => failed .extractionFailed e
  | .ok x => extracted K x

/-- `extract_node` asks the chain for a state that has no extraction yet. -/
theorem extractNode_fresh {K : Components} {s : ExtractionState} {t σ : Uuid} (hs : halted s = false)
    (hx : hasExtraction s = false) (ht : s.tenantId = some t) (hσ : s.schemaId = some σ) :
    extractNode K s =
      { calls := [.extract (extractArgs s t σ)]
        result := .ok (extractUpdate K (extractArgs s t σ)) } := by
  unfold extractUpdate
  cases he : K.extract (extractArgs s t σ) <;> simp [extractNode, hs, hx, ht, hσ, he]

/-- The updates of `route_node` and the terminal node, in one. -/
def settlement (s : ExtractionState) : ExtractionState :=
  match routeDecision s with
  | .deliver =>
    { status := some .completed, routingDecision := some .high, currentStep := some "deliver" }
  | .review =>
    { status := some .review, routingDecision := some .medium, currentStep := some "create_review" }
  | .dlq => { deadLettered s with routingDecision := some .low }

/-- `route_node` and the terminal node. -/
def settle (s : ExtractionState) : ExtractionState := s.update (settlement s)

/-- `score_node`, `route_node` and the terminal node. -/
def finish (s : ExtractionState) : Except String ExtractionState :=
  if halted s then .ok (settle s)
  else (propertyCount (s.jsonSchema.getD [])).map fun props => settle (s.update (scored s props))

/-- The arguments of the extraction chain in a list of calls. -/
def llmCalls : List Call → List ExtractArgs :=
  List.filterMap fun
    | .extract args => some args
    | _ => none

theorem llmCalls_append (cs ds : List Call) : llmCalls (cs ++ ds) = llmCalls cs ++ llmCalls ds := by
  simp [llmCalls]

/-- Parsing fails, gives no text, or gives a text. -/
theorem parse_cases (K : Components) (storageKey : String) :
    (∃ e, parseUpdate K storageKey = failed .parseFailed e ∧
      ∀ s t σ, course K s storageKey t σ = .unparsed e) ∨
    (∃ r, r.isEmpty = true ∧ parseUpdate K storageKey = emptyOutput r ∧
      ∀ s t σ, course K s storageKey t σ = parsedCourse K s t σ r) ∨
    ∃ r, ¬ r.isEmpty = true ∧ parseUpdate K storageKey = parsed r ∧
      ∀ s t σ, course K s storageKey t σ = parsedCourse K s t σ r := by
  unfold parseUpdate course
  cases K.load storageKey with
  | error e => exact Or.inl ⟨e, rfl, fun _ _ _ => rfl⟩
  | ok content =>
    cases hp : K.parse content with
    | error e => exact Or.inl ⟨e, by simp only [hp], fun _ _ _ => by simp only [hp]⟩
    | ok r =>
      by_cases he : r.isEmpty = true
      · exact Or.inr (Or.inl ⟨r, he, by simp only [hp, if_pos he], fun _ _ _ => by simp only [hp]⟩)
      · exact Or.inr (Or.inr ⟨r, he, by simp only [hp, if_neg he], fun _ _ _ => by simp only [hp]⟩)

/-! ## One superstep -/

section
variable {K : Components} {n m : NodeName} {s u : ExtractionState} {k : ℕ}

theorem supersteps_next (h : (n.run K s).result = .ok u) (hn : n.next (s.update u) = some m) :
    supersteps K (k + 1) n s =
      ⟨(n.run K s).calls ++ (supersteps K k m (s.update u)).calls,
        n :: (supersteps K k m (s.update u)).visited,
        (supersteps K k m (s.update u)).result⟩ := by
  rw [supersteps]
  simp only [h, hn]

theorem supersteps_end (h : (n.run K s).result = .ok u) (hn : n.next (s.update u) = none) :
    supersteps K (k + 1) n s = ⟨(n.run K s).calls, [n], .ok (s.update u)⟩ := by
  rw [supersteps]
  simp only [h, hn]

theorem supersteps_error {e : String} (h : (n.run K s).result = .error e) :
    supersteps K (k + 1) n s = ⟨(n.run K s).calls, [n], .error e⟩ := by
  rw [supersteps]
  simp only [h]

/-! ## The end of the graph -/

/-- The terminal node of a state. -/
def terminalOf (s : ExtractionState) : NodeName := NodeName.ofBranch (routeDecision s)

/-- From `route_node` on, the graph settles. -/
theorem supersteps_route (s : ExtractionState) :
    supersteps K (k + 2) .route s = ⟨[], [.route, terminalOf s], .ok (settle s)⟩ := by
  rw [supersteps_next (n := .route) (u := routed s) (m := terminalOf s) rfl rfl]
  have hstatus : (s.update (routed s)).status = s.status := rfl
  unfold terminalOf settle settlement
  cases hd : routeDecision s <;> (simp only [NodeName.ofBranch]; rw [supersteps_end rfl rfl])
  · simp only [routed, hd]; rfl
  · simp only [routed, hd]; rfl
  · simp only [deadLettered, hstatus]
    split_ifs <;> (simp only [routed, hd]; rfl)

/-- A halted state passes a middle node unchanged. -/
theorem supersteps_halted {n m : NodeName} (hn : n.next s = some m)
    (hrun : n.run K s = { result := .ok {} }) :
    supersteps K (k + 1) n s =
      ⟨(supersteps K k m s).calls, n :: (supersteps K k m s).visited,
        (supersteps K k m s).result⟩ := by
  have h : (n.run K s).result = .ok {} := by rw [hrun]
  rw [supersteps_next h (by rw [ExtractionState.update_empty]; exact hn), hrun,
    ExtractionState.update_empty]
  rfl

/-- From `score_node` on, the graph finishes and calls nothing. -/
theorem supersteps_score (s : ExtractionState) :
    (supersteps K (k + 3) .score s).result = finish s ∧
      (supersteps K (k + 3) .score s).calls = [] := by
  cases hh : halted s with
  | true =>
    have hrun : NodeName.score.run K s = { result := .ok {} } := by
      simp [NodeName.run, scoreNode, hh]
    rw [supersteps_halted (m := .route) rfl hrun, supersteps_route]
    simp [finish, hh]
  | false =>
    cases hp : propertyCount (s.jsonSchema.getD []) with
    | error e =>
      have hrun : NodeName.score.run K s = { result := .error e } := by
        simp [NodeName.run, scoreNode, hh, hp]
      rw [supersteps_error (e := e) (by rw [hrun]), hrun]
      simp [finish, hh, hp, Except.map]
    | ok props =>
      have hrun : NodeName.score.run K s = { result := .ok (scored s props) } := by
        simp [NodeName.run, scoreNode, hh, hp]
      rw [supersteps_next (u := scored s props) (m := .route) (by rw [hrun]) rfl, hrun,
        supersteps_route]
      simp [finish, hh, hp, Except.map]

/-- A halted state, or one that has an extraction, passes `extract_node`. -/
theorem supersteps_extract_skip (hs : halted s = true ∨ hasExtraction s = true) :
    (supersteps K (k + 4) .extract s).result = finish s ∧
      (supersteps K (k + 4) .extract s).calls = [] := by
  have hrun : NodeName.extract.run K s = { result := .ok {} } := extractNode_passed hs
  rw [supersteps_halted (m := .score) rfl hrun]
  exact supersteps_score s

/-- `extract_node` calls the chain and goes on with its answer. -/
theorem supersteps_extract {t σ : Uuid} (hs : halted s = false) (hx : hasExtraction s = false)
    (ht : s.tenantId = some t) (hσ : s.schemaId = some σ) :
    (supersteps K (k + 4) .extract s).result =
        finish (s.update (extractUpdate K (extractArgs s t σ))) ∧
      (supersteps K (k + 4) .extract s).calls = [.extract (extractArgs s t σ)] := by
  have hrun : NodeName.extract.run K s =
      { calls := [.extract (extractArgs s t σ)]
        result := .ok (extractUpdate K (extractArgs s t σ)) } := extractNode_fresh hs hx ht hσ
  rw [supersteps_next (m := .score) (by rw [hrun]) rfl, hrun]
  obtain ⟨hres, hcalls⟩ := supersteps_score (K := K) (k := k)
    (s.update (extractUpdate K (extractArgs s t σ)))
  exact ⟨hres, by simp [hcalls]⟩

/-- A halted state passes the middle nodes. -/
theorem supersteps_guardrail_skip (hs : halted s = true) :
    (supersteps K (k + 5) .guardrail s).result = finish s ∧
      (supersteps K (k + 5) .guardrail s).calls = [] := by
  have hrun : NodeName.guardrail.run K s = { result := .ok {} } := by
    simp [NodeName.run, guardrailNode, hs]
  rw [supersteps_halted (m := .extract) rfl hrun]
  exact supersteps_extract_skip (Or.inl hs)

/-- `guardrail_node` on a text that is not blocked. -/
theorem supersteps_guarded (hs : halted s = false)
    (hb : ((runGuardrails K.tools (s.rawText.getD "")).find? fun o => o.result = .block) = none) :
    supersteps K (k + 5) .guardrail s =
      ⟨(supersteps K (k + 4) .extract (s.update (guarded (runGuardrails K.tools (s.rawText.getD ""))))).calls,
        .guardrail :: (supersteps K (k + 4) .extract
          (s.update (guarded (runGuardrails K.tools (s.rawText.getD ""))))).visited,
        (supersteps K (k + 4) .extract
          (s.update (guarded (runGuardrails K.tools (s.rawText.getD ""))))).result⟩ := by
  have hrun : NodeName.guardrail.run K s =
      { result := .ok (guarded (runGuardrails K.tools (s.rawText.getD ""))) } := by
    simp only [NodeName.run, guardrailNode, hs, hb]
    rfl
  rw [supersteps_next (m := .extract) (by rw [hrun]) rfl, hrun]
  rfl

/-- `guardrail_node` on a text that is blocked. -/
theorem supersteps_blocked {o : GuardrailOutcome} (hs : halted s = false)
    (hb : ((runGuardrails K.tools (s.rawText.getD "")).find? fun o => o.result = .block) = some o) :
    (supersteps K (k + 5) .guardrail s).result =
        finish (s.update (blockedUpdate (runGuardrails K.tools (s.rawText.getD "")) o)) ∧
      (supersteps K (k + 5) .guardrail s).calls = [] := by
  have hrun : NodeName.guardrail.run K s =
      { result := .ok (blockedUpdate (runGuardrails K.tools (s.rawText.getD "")) o) } := by
    simp only [NodeName.run, guardrailNode, hs, hb]
    rfl
  rw [supersteps_next (m := .extract) (by rw [hrun]) rfl, hrun]
  exact supersteps_extract_skip (Or.inl rfl)

end

/-! ## An invocation -/

/-- A state the graph can be invoked with: not cancelled, with a storage key, a
    tenant and a schema. -/
structure Ready (s : ExtractionState) (storageKey : String) (tenantId schemaId : Uuid) : Prop where
  notCancelled : s.isCancelled ≠ some true
  storageKey : s.fileStorageKey = some storageKey
  tenantId : s.tenantId = some tenantId
  schemaId : s.schemaId = some schemaId

section
variable {K : Components} {s : ExtractionState} {key : String} {t σ : Uuid} {k : ℕ}

theorem supersteps_parse (h : Ready s key t σ) :
    ∃ calls, llmCalls calls = [] ∧
      supersteps K (k + 6) .parse s =
        ⟨calls ++ (supersteps K (k + 5) .guardrail (s.update (parseUpdate K key))).calls,
          .parse :: (supersteps K (k + 5) .guardrail (s.update (parseUpdate K key))).visited,
          (supersteps K (k + 5) .guardrail (s.update (parseUpdate K key))).result⟩ := by
  have hrun : (NodeName.parse.run K s).result = .ok (parseUpdate K key) := by
    simp only [NodeName.run, parseNode, h.notCancelled, h.storageKey, if_false, parseUpdate]
    cases K.load key with
    | error e => rfl
    | ok content => cases hp : K.parse content <;> simp only [hp]
  have hcalls : llmCalls (NodeName.parse.run K s).calls = [] := by
    simp only [NodeName.run, parseNode, h.notCancelled, h.storageKey, if_false]
    cases K.load key with
    | error e => rfl
    | ok content => cases hp : K.parse content <;> simp only [hp] <;> rfl
  exact ⟨_, hcalls, supersteps_next (m := .guardrail) hrun rfl⟩

/-- When parsing failed or gave no text, the other nodes do nothing. -/
theorem supersteps_unparsed {u : ExtractionState} (h : Ready s key t σ) (hu : parseUpdate K key = u)
    (hs : halted (s.update u) = true) :
    (supersteps K (k + 6) .parse s).result = finish (s.update u) ∧
      llmCalls (supersteps K (k + 6) .parse s).calls = [] := by
  obtain ⟨calls, hcalls, hrun⟩ := supersteps_parse (K := K) (k := k) h
  rw [hu] at hrun
  obtain ⟨hres, hno⟩ := supersteps_guardrail_skip (K := K) (k := k) hs
  rw [hrun]
  exact ⟨hres, by simp [hno, hcalls]⟩

/-- A parsed text that a guardrail blocks. -/
theorem supersteps_text_blocked {r : ParseResult} {o : GuardrailOutcome} (h : Ready s key t σ)
    (hu : parseUpdate K key = parsed r)
    (hb : ((runGuardrails K.tools r.text).find? fun o => o.result = .block) = some o) :
    (supersteps K (k + 6) .parse s).result =
        finish ((s.update (parsed r)).update (blockedUpdate (runGuardrails K.tools r.text) o)) ∧
      llmCalls (supersteps K (k + 6) .parse s).calls = [] := by
  obtain ⟨calls, hcalls, hrun⟩ := supersteps_parse (K := K) (k := k) h
  rw [hu] at hrun
  obtain ⟨hres, hno⟩ := supersteps_blocked (K := K) (k := k) (s := s.update (parsed r)) rfl hb
  rw [hrun]
  exact ⟨hres, by simp [hno, hcalls]⟩

/-- A parsed text that no guardrail blocks is handed to `extract_node`. -/
theorem supersteps_text_guarded {r : ParseResult} (h : Ready s key t σ)
    (hu : parseUpdate K key = parsed r)
    (hb : ((runGuardrails K.tools r.text).find? fun o => o.result = .block) = none) :
    (supersteps K (k + 6) .parse s).result = (supersteps K (k + 4) .extract
        ((s.update (parsed r)).update (guarded (runGuardrails K.tools r.text)))).result ∧
      llmCalls (supersteps K (k + 6) .parse s).calls = llmCalls (supersteps K (k + 4) .extract
        ((s.update (parsed r)).update (guarded (runGuardrails K.tools r.text)))).calls := by
  obtain ⟨calls, hcalls, hrun⟩ := supersteps_parse (K := K) (k := k) h
  rw [hu] at hrun
  rw [hrun, supersteps_guarded (s := s.update (parsed r)) rfl hb]
  exact ⟨rfl, by simp [llmCalls_append, hcalls]; rfl⟩

/-- **A run without an extraction to go by takes its course.** -/
theorem supersteps_fresh (h : Ready s key t σ) (hx : hasExtraction s = false) :
    (supersteps K (k + 6) .parse s).result = finish ((course K s key t σ).reach K s) ∧
      llmCalls (supersteps K (k + 6) .parse s).calls = (course K s key t σ).llmCalls s t σ := by
  rcases parse_cases K key with ⟨e, hu, hc⟩ | ⟨r, he, hu, hc⟩ | ⟨r, he, hu, hc⟩ <;> rw [hc]
  · exact supersteps_unparsed h hu rfl
  · rw [parsedCourse, if_pos he]
    exact supersteps_unparsed h hu rfl
  · rw [parsedCourse, if_neg he]
    cases hb : (runGuardrails K.tools r.text).find? fun o => o.result = .block with
    | some o => exact supersteps_text_blocked h hu hb
    | none =>
      obtain ⟨hres, hcalls⟩ := supersteps_text_guarded (k := k) h hu hb
      obtain ⟨hres', hcalls'⟩ := supersteps_extract (K := K) (k := k)
        (s := (s.update (parsed r)).update (guarded (runGuardrails K.tools r.text)))
        rfl hx h.tenantId h.schemaId
      rw [hres, hcalls, hres', hcalls']
      have hargs : extractArgs ((s.update (parsed r)).update (guarded (runGuardrails K.tools r.text))) t σ
          = extractArgs (s.update (parsed r)) t σ := rfl
      rw [hargs, extractUpdate]
      cases K.extract (extractArgs (s.update (parsed r)) t σ) <;> exact ⟨rfl, rfl⟩

/-- A state that has an extraction keeps it: the chain is not called, and the
    run goes on with what an earlier one left. -/
theorem supersteps_cached (h : Ready s key t σ) (hx : hasExtraction s = true) :
    (supersteps K (k + 6) .parse s).result = finish ((course K s key t σ).reachCached K s) ∧
      llmCalls (supersteps K (k + 6) .parse s).calls = [] := by
  rcases parse_cases K key with ⟨e, hu, hc⟩ | ⟨r, he, hu, hc⟩ | ⟨r, he, hu, hc⟩ <;> rw [hc]
  · exact supersteps_unparsed h hu rfl
  · rw [parsedCourse, if_pos he]
    exact supersteps_unparsed h hu rfl
  · rw [parsedCourse, if_neg he]
    cases hb : (runGuardrails K.tools r.text).find? fun o => o.result = .block with
    | some o => exact supersteps_text_blocked h hu hb
    | none =>
      obtain ⟨hres, hcalls⟩ := supersteps_text_guarded (k := k) h hu hb
      obtain ⟨hres', hcalls'⟩ := supersteps_extract_skip (K := K) (k := k)
        (s := (s.update (parsed r)).update (guarded (runGuardrails K.tools r.text))) (Or.inr hx)
      rw [hres, hcalls, hres', hcalls']
      cases K.extract (extractArgs (s.update (parsed r)) t σ) <;> exact ⟨rfl, rfl⟩

end

end OcrService
