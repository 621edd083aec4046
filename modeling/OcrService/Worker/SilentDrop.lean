/-
  What becomes of a freshly ingested document.

  The run of a fresh document ends with the document in a terminal status, and
  with a dead-letter row if that status is `rejected` or `error`, iff nothing
  outside the nodes' own `try` raised and the database accepts the rows of the
  outcome.  `Kept` says this of the input of the run: what the components
  answer, the encryption key, and where an exception is raised.

  * `invoke_eq_some`: a graph with exceptions ends as one without them does, if
    none is raised on its way;
  * `persistable_settle`: which final states can be persisted;
  * `run_settles_iff`: the document is settled iff it is `Kept`.
-/
import OcrService.Worker.Persist
import OcrService.Pipeline.Final

namespace OcrService

open Trans PyData PyStr Nodes

/-! ## Exceptions on the way through the graph -/

/-- The nodes of a run that ends on a branch. -/
def nodesTo (b : Branch) : List NodeName :=
  [.parse, .guardrail, .extract, .score, .route, .ofBranch b]

/-- The nodes from a node to `route_node`. -/
def NodeName.toRoute : NodeName → List NodeName
  | parse => [parse, guardrail, extract, score, route]
  | guardrail => [guardrail, extract, score, route]
  | extract => [extract, score, route]
  | score => [score, route]
  | route => [route]
  | _ => []

section
variable {K : Components} {s f : ExtractionState} {n : NodeName} {k : ℕ}

/-- A graph that returns has gone straight to `route_node` and on to the node of
    its branch. -/
theorem visited_of_ok (hroute : NodeName.route ∈ n.toRoute) (h : (supersteps K k n s).result = .ok f) :
    ∃ b : Branch, f.routingDecision = some b.decision ∧
      (supersteps K k n s).visited = n.toRoute ++ [.ofBranch b] := by
  induction k generalizing n s with
  | zero => cases h
  | succ k ih =>
    have hnext {m : NodeName} (hm : ∀ s, n.next s = some m) (hroute : NodeName.route ∈ m.toRoute)
        (hpath : n.toRoute = n :: m.toRoute) :
        ∃ b : Branch, f.routingDecision = some b.decision ∧
          (supersteps K (k + 1) n s).visited = n.toRoute ++ [.ofBranch b] := by
      cases hrun : (n.run K s).result with
      | error e => rw [supersteps_error hrun] at h; cases h
      | ok u =>
        rw [supersteps_next hrun (hm _)] at h ⊢
        obtain ⟨b, hb, hv⟩ := ih hroute h
        exact ⟨b, hb, by rw [hv, hpath]; rfl⟩
    cases n with
    | parse => exact hnext (fun _ => rfl) (by decide) rfl
    | guardrail => exact hnext (fun _ => rfl) (by decide) rfl
    | extract => exact hnext (fun _ => rfl) (by decide) rfl
    | score => exact hnext (fun _ => rfl) (by decide) rfl
    | route =>
      cases k with
      | zero =>
        rw [supersteps_next (n := .route) (u := routed s) (m := terminalOf s) rfl rfl] at h
        cases h
      | succ k =>
        rw [supersteps_route] at h ⊢
        cases h
        exact ⟨_, settle_routingDecision s, rfl⟩
    | deliver | review | dlq => simp [NodeName.toRoute] at hroute

/-- **A graph whose nodes and writes of checkpoints may raise** ends with
    everything saved iff it has begun so, the graph without exceptions returns,
    and none is raised on its way. -/
theorem invoke_eq_some {E : RunEnv} {unsaved : Bool} :
    (invoke E k n s unsaved).2 = some (f, false) ↔
      unsaved = false ∧ (supersteps E.K k n s).result = .ok f ∧
        ∀ m ∈ (supersteps E.K k n s).visited, E.raises (.node m) = false ∧ E.raises (.save m) = false := by
  induction k generalizing n s unsaved with
  | zero => simp [invoke, supersteps]
  | succ k ih =>
    rw [invoke]
    cases hrun : (n.run E.K s).result with
    | error e => rw [supersteps_error hrun]; by_cases h : E.raises (.node n) <;> simp [h]
    | ok u =>
      cases hnext : n.next (s.update u) with
      | none =>
        rw [supersteps_end hrun hnext]
        by_cases h : E.raises (.node n) <;> by_cases h' : E.raises (.save n) <;>
          simp [h, h', hnext, and_comm]
      | some m =>
        rw [supersteps_next hrun hnext]
        by_cases h : E.raises (.node n) <;> by_cases h' : E.raises (.save n) <;>
          simp [h, h', hnext, ih]

end

/-! ## Rows of a settled state -/

section
variable {S : Site} {db : Db} {d t : Uuid} {nonces : ℕ → Bytes} {document : Document}
  {s f : ExtractionState} {K : Components}

/-- Settling touches four channels. -/
theorem settle_eq (s : ExtractionState) :
    ∃ status reason step, NulFree step ∧
      settle s =
        { s with
          status
          routingDecision := some (routeDecision s).decision
          failureReason := reason
          currentStep := some step } := by
  unfold settle settlement deadLettered
  split <;> rename_i hd <;> rw [hd]
  · exact ⟨some .completed, s.failureReason, "deliver", by decide, rfl⟩
  · exact ⟨some .review, s.failureReason, "create_review", by decide, rfl⟩
  · split_ifs
    · exact ⟨s.status, s.failureReason, "dlq", by decide, rfl⟩
    · exact ⟨some .rejected, some (s.failureReason.getD .lowConfidence), "dlq", by decide, rfl⟩

/-- A dictionary of the entries that are present. -/
theorem nulFree_present {l : List (String × Option Json)} :
    Obj.nulFree (l.filterMap fun e => e.2.map fun v => (e.1, v)) = true ↔
      ∀ e ∈ l, ∀ v ∈ e.2, NulFree e.1 ∧ v.nulFree = true := by
  induction l with
  | nil => simp [Obj.nulFree, nulFreeEntries]
  | cons e l ih =>
    obtain ⟨k, v⟩ := e
    unfold Obj.nulFree at ih ⊢
    cases v with
    | none => simpa using ih
    | some v => simp [nulFreeEntries, ih]

/-- What the database asks of a dead-letter row. -/
theorem deadLetter_storable_iff :
    (deadLetter d t f).Storable ↔
      IfSome NulFree f.currentStep ∧ IfSome NulFree f.error ∧ IfSome NulFree f.parseMethod := by
  have hdecision (x : RoutingDecision) : NulFree x.value := by cases x <;> decide
  have hreason (x : FailureReason) : NulFree x.value := by cases x <;> decide
  have hkeys : NulFree "current_step" ∧ NulFree "routing_decision" ∧ NulFree "confidence" ∧
      NulFree "failure_reason" ∧ NulFree "error" ∧ NulFree "parse_method" := by decide
  obtain ⟨h₁, h₂, h₃, h₄, h₅, h₆⟩ := hkeys
  unfold DeadLetter.Storable deadLetter
  rw [ifSome_some]
  simp only [snapshot, nulFree_present]
  simp [Json.nulFree, IfSome, h₁, h₂, h₃, h₄, h₅, h₆, hdecision, hreason]

/-- The encryption of an extraction; without PII fields nothing happens. -/
theorem encryptedExtraction_eq :
    encryptedExtraction S t nonces f =
      encryptFields S.cipher t nonces (f.extractedJson.getD []) (f.piiFields.getD []) := by
  unfold encryptedExtraction
  dsimp only
  split_ifs with h
  · rw [h]; rfl
  · rfl

/-- A confidence in the unit interval fits its columns. -/
theorem unitOk_of_mem {q : ℚ} (h : 0 ≤ q ∧ q ≤ 1) : UnitOk q ∧ NumericOk q := by
  obtain ⟨h0, h1⟩ := Decimal.numeric_mem_unit (n := 3) h.1 h.2
  exact ⟨⟨h0, h1⟩, by linarith, by linarith⟩

theorem guardrailReport_storable {text : String} :
    ∀ report ∈ runGuardrails K.tools text, (guardrailReport d t report).Storable := by
  intro report hr
  obtain ⟨hm, hd⟩ := runGuardrails_storable K.tools text report hr
  refine ⟨?_, hd, ?_⟩
  · rcases runGuardrails_name K.tools text report hr with h | h <;>
      (simp only [guardrailReport, h]; decide)
  · rcases hm with h | h <;> (simp only [guardrailReport, h]; decide +kernel)

/-- The extraction of a state can be encrypted and stored. -/
structure ExtractionStorable (S : Site) (t : Uuid) (nonces : ℕ → Bytes) (s : ExtractionState) : Prop where
  key : S.cipher.KeyUsable ∨ Sealed (s.piiFields.getD []) (s.extractedJson.getD [])
  extracted : ∀ extracted, encryptFields S.cipher t nonces (s.extractedJson.getD [])
    (s.piiFields.getD []) = .ok extracted → Obj.nulFree extracted = true
  model : IfSome (VarcharOk 100) s.llmModelUsed
  tokens : IfSome (fun usage => Obj.nulFree usage = true) s.llmTokenUsage
  lowConfidenceFields : IfSome TextsOk s.lowConfidenceFields
  missingFields : IfSome TextsOk s.missingFields

/-- The row of the extraction is accepted iff it can be encrypted and stored. -/
theorem extractionAccepted_iff (hconf : IfSome (fun q => 0 ≤ q ∧ q ≤ 1) s.confidence)
    (hres : db.resultOf document.id = none) :
    ExtractionAccepted S db t nonces document s ↔ ExtractionStorable S t nonces s := by
  have hnum : IfSome NumericOk s.confidence := fun q hq => (unitOk_of_mem (hconf q hq)).2
  unfold ExtractionAccepted
  rw [encryptedExtraction_eq]
  constructor
  · rintro ⟨⟨extracted, he, h₁, h₂, h₃, -, h₄, h₅⟩, -⟩
    refine ⟨encryptFields_isOk_iff.1 ⟨extracted, he⟩, fun x hx => ?_, h₂, h₃, h₄, h₅⟩
    obtain rfl : extracted = x := by simpa [he] using hx
    simpa [extractionResult] using h₁
  · rintro ⟨hkey, hx, h₂, h₃, h₄, h₅⟩
    obtain ⟨extracted, he⟩ := encryptFields_isOk_iff.2 hkey
    exact ⟨⟨extracted, he, ifSome_some.2 (hx _ he), h₂, h₃, hnum, h₄, h₅⟩, hres⟩

/-- What the database asks of the rows of a settled state. -/
def SettledStorable (S : Site) (t : Uuid) (nonces : ℕ → Bytes) (s : ExtractionState) : Branch → Prop
  | .dlq => IfSome NulFree s.error ∧ IfSome NulFree s.parseMethod
  | _ => ExtractionStorable S t nonces s

/-- **A settled state can be persisted** iff its extraction, or its dead letter,
    can be stored. -/
theorem persistable_settle (hs : s.status ≠ some .cancelled) (hdoc : document.Storable)
    (hconf : IfSome (fun q => 0 ≤ q ∧ q ≤ 1) s.confidence)
    (hrep : IfSome (fun outcomes => ∃ text, outcomes = runGuardrails K.tools text) s.guardrailResults)
    (hres : db.resultOf document.id = none) (hrev : db.reviewOf document.id = none) :
    Persistable S db t nonces document (settle s) ↔ SettledStorable S t nonces s (routeDecision s) := by
  have hunit : IfSome (fun q => 0 ≤ q ∧ q ≤ 1) (settle s).confidence := by
    rw [settle_confidence]; exact hconf
  have hdoc' : (persistedDocument document (settle s)).Storable := by
    obtain ⟨h₁, h₂, h₃, h₄⟩ := hdoc
    refine ⟨h₁, h₂, h₃, fun q hq => ?_⟩
    simp only [persistedDocument] at hq
    cases hc : (settle s).confidence with
    | none => rw [hc] at hq; exact h₄ q hq
    | some c => rw [hc] at hq; exact (unitOk_of_mem (hunit q (by rw [hc]; exact hq))).1
  have hreports : ∀ report ∈ (settle s).guardrailResults.getD [],
      (guardrailReport document.id t report).Storable := by
    rw [settle_guardrailResults]
    cases hg : s.guardrailResults with
    | none => simp
    | some outcomes =>
      obtain ⟨text, rfl⟩ := hrep _ hg
      exact guardrailReport_storable
  have hfinal : finalStatus (settle s) = (routeDecision s).status := by
    rw [finalStatus, settle_status hs]; rfl
  have haccepted : ExtractionAccepted S db t nonces document (settle s) ↔
      ExtractionStorable S t nonces s := by
    rw [extractionAccepted_iff hunit hres]
    obtain ⟨_, _, _, -, h⟩ := settle_eq s
    rw [h]
    exact ⟨fun h => ⟨h.1, h.2, h.3, h.4, h.5, h.6⟩, fun h => ⟨h.1, h.2, h.3, h.4, h.5, h.6⟩⟩
  unfold Persistable StatusAccepted
  rw [hfinal]
  simp only [hdoc', or_true, true_and, and_iff_right hreports]
  cases routeDecision s with
  | deliver => exact haccepted
  | review => exact (and_iff_left hrev).trans haccepted
  | dlq =>
    simp only [Branch.status, SettledStorable, deadLetter_storable_iff]
    obtain ⟨_, _, _, hstep, h⟩ := settle_eq s
    rw [h]
    simp [hstep]

end

/-! ## What a run keeps -/

/-- A freshly ingested document, which run `r` is about to process. -/
structure Fresh (w : World) (r : RunTask) (document : Document) : Prop where
  row : w.db.document? r.tenantId r.documentId = some document
  pending : document.status = .pending
  storable : document.Storable
  noCheckpoint : w.savedState r.documentId = none
  noResult : w.db.resultOf r.documentId = none
  noReview : w.db.reviewOf r.documentId = none

/-- The document is gone or in a terminal status, with a dead-letter row if
    that is `rejected` or `error`. -/
def Settled (db : Db) (tenantId documentId : Uuid) : Prop :=
  ∀ row, db.document? tenantId documentId = some row →
    row.status ∈ terminalStatuses ∧
      (row.status = .rejected ∨ row.status = .error → ∃ e ∈ db.dlq, e.documentId = documentId)

/-- Nothing outside the nodes' own `try` raises in a run that ends on branch
    `b`. -/
structure Undisturbed (E : RunEnv) (b : Branch) : Prop where
  reads : E.raises .loadDocument = false ∧ E.raises .loadSchema = false
  saver : E.raises .openSaver = false ∧ E.raises .closeSaver = false
  thread : E.raises .readThread = false ∧ E.raises .saveInput = false
  nodes : ∀ n ∈ nodesTo b, E.raises (.node n) = false ∧ E.raises (.save n) = false

/-- The answer `x` of the chain can be encrypted and stored: the key is usable
    or no PII field holds a plaintext, and the values fit their columns. -/
structure AnswerStorable (S : Site) (E : RunEnv) (t : Uuid) (input : ExtractionState)
    (x : LLMExtraction) : Prop where
  key : S.cipher.KeyUsable ∨ Sealed (input.piiFields.getD []) x.fields
  fields : ∀ fields, encryptFields S.cipher t E.nonces x.fields (input.piiFields.getD []) = .ok fields →
    Obj.nulFree fields = true
  model : VarcharOk 100 E.K.llmPrimaryModel
  lowConfidenceFields : TextsOk x.lowConfidenceFields
  missingFields : TextsOk (missingRequired x.fields (input.requiredFields.getD []))

/-- The branch for the answer `x` to the text of `p`, when the schema declares
    `props` properties. -/
def answerBranch (K : Components) (input : ExtractionState) (p : ParseResult) (x : LLMExtraction)
    (props : ℕ) : Branch :=
  branchOf
    (breakdown x.fields (input.requiredFields.getD []) props x.confidence
      (aggregateMultiplier (runGuardrails K.tools p.text))).guardrailAdjusted
    (input.confidenceHigh.getD (17 / 20)) (input.confidenceMedium.getD (3 / 5))

/-- A run of this course ends on branch `b` with rows that can be stored.  The
    answer of the chain is scored only if the schema's `properties` have a
    length. -/
def Course.Storable (S : Site) (E : RunEnv) (t : Uuid) (input : ExtractionState) (b : Branch) :
    Course → Prop
  | .unparsed e => b = .dlq ∧ NulFree e
  | .empty p | .blocked p _ => b = .dlq ∧ NulFree p.method
  | .unextracted p e => b = .dlq ∧ NulFree e ∧ NulFree p.method
  | .extracted p x =>
    ∃ props, propertyCount (input.jsonSchema.getD []) = .ok props ∧
      b = answerBranch E.K input p x props ∧
      match b with
      | .dlq => NulFree p.method
      | _ => AnswerStorable S E t input x

/-- The outcome of the run of a fresh document is kept: erasure is not
    registered in its process, nothing disturbs the run, and its rows can be
    stored. -/
def Kept (S : Site) (w : World) (r : RunTask) (document : Document) : Prop :=
  (w.procs r.proc).isCancelled r.documentId = false ∧
    ∃ b, Undisturbed r.env b ∧
      (course r.env.K (r.input w document) (document.fileStorageKey.getD "") r.tenantId
        document.schemaId).Storable S r.env r.tenantId (r.input w document) b

section
variable {S : Site} {w : World} {r : RunTask} {document : Document} {f : ExtractionState}

/-- A run reaches `_persist_outcome` with the last state of its graph, if the
    graph ends with everything saved. -/
theorem reached_eq_some (hdoc : w.db.document? r.tenantId r.documentId = some document) :
    r.reached w = some f ↔
      (r.env.raises .loadDocument = false ∧ r.env.raises .loadSchema = false ∧
        r.env.raises .openSaver = false ∧ r.env.raises .readThread = false ∧
        r.env.raises .closeSaver = false) ∧
      (r.graph w document).2 = some (f, false) := by
  simp only [RunTask.reached, hdoc]
  split_ifs with hraise
  · simp only [false_iff, not_and]
    rintro ⟨h₁, h₂, h₃, h₄, h₅⟩
    simp [h₁, h₂, h₃, h₄, h₅] at hraise
  · simp only [not_or, Bool.not_eq_true] at hraise
    rw [and_iff_right hraise]
    split
    case h_1 final hg => simp [hg]
    case h_2 hg => simpa using hg f

/-- The run of a fresh document reaches `_persist_outcome` with what the graph
    returns on an empty thread, if nothing disturbs it. -/
theorem reached_fresh (hfresh : Fresh w r document) :
    r.reached w = some f ↔
      (ainvoke r.env.K none (r.input w document)).result = .ok f ∧
        ∃ b : Branch, f.routingDecision = some b.decision ∧ Undisturbed r.env b := by
  have hstart : r.start w document = channels none (r.input w document) := by
    rw [RunTask.start, hfresh.noCheckpoint]
  have hgraph : (r.graph w document).2 = some (f, false) ↔ r.env.raises .saveInput = false ∧
      (ainvoke r.env.K none (r.input w document)).result = .ok f ∧
        ∀ m ∈ (ainvoke r.env.K none (r.input w document)).visited,
          r.env.raises (.node m) = false ∧ r.env.raises (.save m) = false := by
    rw [RunTask.graph, hstart]
    exact invoke_eq_some
  rw [reached_eq_some hfresh.row, hgraph]
  constructor
  · rintro ⟨⟨h₁, h₂, h₃, h₄, h₅⟩, hsave, hres, hnodes⟩
    obtain ⟨b, hb, hv⟩ := visited_of_ok (n := .parse) (by decide) hres
    exact ⟨hres, b, hb, ⟨h₁, h₂⟩, ⟨h₃, h₅⟩, ⟨h₄, hsave⟩, fun n hn => hnodes n (hv ▸ hn)⟩
  · rintro ⟨hres, b, hb, ⟨h₁, h₂⟩, ⟨h₃, h₅⟩, ⟨h₄, hsave⟩, hnodes⟩
    obtain ⟨b', hb', hv⟩ := visited_of_ok (n := .parse) (by decide) hres
    obtain rfl : b = b' := decision_injective.1 (Option.some.inj (hb.symm.trans hb'))
    replace hv : (ainvoke r.env.K none (r.input w document)).visited = nodesTo b := hv
    exact ⟨⟨h₁, h₂, h₃, h₄, h₅⟩, hsave, hres, fun n hn => hnodes n (hv ▸ hn)⟩

section
variable {db : Db} {E : RunEnv} {t d : Uuid} {schema : Option Schema} {s input : ExtractionState}
  {b : Branch} {c : Course}

/-- A state that settles on branch `b` with rows that can be stored. -/
theorem settles_iff (hs : s.status ≠ some .cancelled) (hdoc : document.Storable)
    (hconf : IfSome (fun q => 0 ≤ q ∧ q ≤ 1) s.confidence)
    (hrep : IfSome (fun outcomes => ∃ text, outcomes = runGuardrails E.K.tools text) s.guardrailResults)
    (hres : db.resultOf document.id = none) (hrev : db.reviewOf document.id = none) :
    (settle s).routingDecision = some b.decision ∧ Persistable S db t E.nonces document (settle s) ↔
      b = routeDecision s ∧ SettledStorable S t E.nonces s b := by
  rw [persistable_settle hs hdoc hconf hrep hres hrev, settle_routingDecision, Option.some.injEq,
    decision_injective]
  constructor
  · rintro ⟨rfl, h⟩; exact ⟨rfl, h⟩
  · rintro ⟨rfl, h⟩; exact ⟨rfl, h⟩

/-- A state in error settles on `dlq`. -/
theorem error_settles_iff (hs : s.status = some .error) (hdoc : document.Storable)
    (hconf : s.confidence = none)
    (hrep : IfSome (fun outcomes => ∃ text, outcomes = runGuardrails E.K.tools text) s.guardrailResults)
    (hres : db.resultOf document.id = none) (hrev : db.reviewOf document.id = none) :
    (∃ f, finish s = .ok f ∧ f.routingDecision = some b.decision ∧
        Persistable S db t E.nonces document f) ↔
      b = .dlq ∧ IfSome NulFree s.error ∧ IfSome NulFree s.parseMethod := by
  have hh : halted s = true := by simp [halted, hs]
  simp only [finish, if_pos hh, Except.ok.injEq, exists_eq_left']
  rw [settles_iff (by simp [hs]) hdoc (by simp [hconf]) hrep hres hrev, routeDecision_halted hh]
  constructor
  · rintro ⟨rfl, h⟩; exact ⟨rfl, h⟩
  · rintro ⟨rfl, h⟩; exact ⟨rfl, h⟩

/-- The course that gets to an extraction. -/
theorem extracted_persistable {p : ParseResult} {x : LLMExtraction}
    (hinput : input = initialState d t document schema) (hdoc : document.Storable)
    (hres : db.resultOf document.id = none) (hrev : db.reviewOf document.id = none) :
    (∃ f, finish ((Course.extracted p x).reach E.K input) = .ok f ∧ f.routingDecision = some b.decision ∧
        Persistable S db t E.nonces document f) ↔ (Course.extracted p x).Storable S E t input b := by
  subst hinput
  set input := initialState d t document schema with hinput
  set s := (Course.extracted p x).reach E.K input with hs
  have hfinish : finish s = (propertyCount (input.jsonSchema.getD [])).map
      fun props => settle (s.update (scored s props)) := by
    rw [finish, if_neg (show ¬ halted s = true from Bool.false_ne_true)]; rfl
  have hroute (props : ℕ) :
      routeDecision (s.update (scored s props)) = answerBranch E.K input p x props := by
    rw [routeDecision, if_neg (show ¬ halted (s.update (scored s props)) = true from
      Bool.false_ne_true)]
    rfl
  obtain ⟨h0, h1⟩ := aggregateMultiplier_mem_unit (runGuardrails_storable E.K.tools p.text)
  have hne : (some .routing : Option DocumentStatus) ≠ some .cancelled := by decide
  have hanswer (props : ℕ) : ExtractionStorable S t E.nonces (s.update (scored s props)) ↔
      AnswerStorable S E t input x :=
    ⟨fun h => ⟨h.key, h.extracted, ifSome_some.1 h.model, ifSome_some.1 h.lowConfidenceFields,
        ifSome_some.1 h.missingFields⟩,
      fun h => ⟨h.key, h.fields, ifSome_some.2 h.model, ifSome_some.2 rfl,
        ifSome_some.2 h.lowConfidenceFields, ifSome_some.2 h.missingFields⟩⟩
  rw [hfinish]
  simp only [Course.Storable]
  cases propertyCount (input.jsonSchema.getD []) with
  | error e => simp [Except.map]
  | ok props =>
    simp only [Except.map, Except.ok.injEq, exists_eq_left']
    rw [settles_iff (s := s.update (scored s props)) hne hdoc
      (ifSome_some.2 (breakdown_mem_unit _ _ props _ h0 h1)) (ifSome_some.2 ⟨p.text, rfl⟩) hres hrev,
      hroute]
    refine and_congr_right fun _ => ?_
    cases b with
    | deliver => exact hanswer props
    | review => exact hanswer props
    | dlq => exact (and_iff_right (by exact ifSome_none)).trans ifSome_some

/-- The final state of a course settles on a branch with rows that can be stored
    iff the course does. -/
theorem course_persistable (hinput : input = initialState d t document schema)
    (hdoc : document.Storable) (hres : db.resultOf document.id = none)
    (hrev : db.reviewOf document.id = none)
    (hblocked : ∀ p o, c = .blocked p o →
      (runGuardrails E.K.tools p.text).find? (fun o => o.result = .block) = some o) :
    (∃ f, finish (c.reach E.K input) = .ok f ∧ f.routingDecision = some b.decision ∧
        Persistable S db t E.nonces document f) ↔ c.Storable S E t input b := by
  subst hinput
  cases c with
  | unparsed e =>
    rw [error_settles_iff rfl hdoc rfl ifSome_none hres hrev]
    simp only [Course.Storable]
    refine and_congr_right fun _ => ?_
    exact (and_iff_left (by exact ifSome_none)).trans ifSome_some
  | empty p =>
    rw [error_settles_iff rfl hdoc rfl ifSome_none hres hrev]
    refine and_congr_right fun _ => ?_
    exact (and_iff_right (by exact ifSome_none)).trans ifSome_some
  | blocked p o =>
    rw [error_settles_iff rfl hdoc rfl (ifSome_some.2 ⟨p.text, rfl⟩) hres hrev]
    refine and_congr_right fun _ => ?_
    have ho := runGuardrails_storable E.K.tools p.text o (List.mem_of_find?_eq_some (hblocked p o rfl))
    refine (and_iff_right (ifSome_some.2 ?_)).trans ifSome_some
    split_ifs with h
    · decide
    · cases hd : o.detail with
      | none => rw [hd] at h; exact absurd rfl h
      | some detail => exact ho.2 detail hd
  | unextracted p e =>
    rw [error_settles_iff rfl hdoc rfl (ifSome_some.2 ⟨p.text, rfl⟩) hres hrev]
    exact and_congr_right fun _ => and_congr ifSome_some ifSome_some
  | extracted p x => exact extracted_persistable rfl hdoc hres hrev

end

theorem course_blocked {K : Components} {s : ExtractionState} {key : String} {t σ : Uuid}
    {p : ParseResult} {o : GuardrailOutcome} (h : course K s key t σ = .blocked p o) :
    (runGuardrails K.tools p.text).find? (fun o => o.result = .block) = some o := by
  rcases parse_cases K key with ⟨e, -, hc⟩ | ⟨r, he, -, hc⟩ | ⟨r, he, -, hc⟩ <;> rw [hc] at h
  · cases h
  · rw [parsedCourse, if_pos he] at h; cases h
  · rw [parsedCourse, if_neg he] at h
    cases hb : (runGuardrails K.tools r.text).find? fun o => o.result = .block with
    | some o' =>
      rw [hb] at h
      cases h
      exact hb
    | none =>
      rw [hb] at h
      cases hx : K.extract (extractArgs (s.update (parsed r)) t σ) <;> simp [hx] at h

/-- The transaction of the run of a fresh document commits iff its outcome is
    kept. -/
theorem fresh_commits_iff (hfresh : Fresh w r document) :
    (∃ f db', r.reached w = some f ∧ r.persistDb S w f = some db') ↔ Kept S w r document := by
  obtain ⟨hid, -, -⟩ := find_of_document? hfresh.row
  set input := r.input w document with hinput
  have hfresh' := (supersteps_fresh (K := r.env.K) (k := 19)
    (initialState_ready {} :
      Ready (ExtractionState.update {} input) _ r.tenantId document.schemaId) rfl).1
  replace hfresh' : (ainvoke r.env.K none input).result =
      finish ((course r.env.K input (document.fileStorageKey.getD "") r.tenantId
        document.schemaId).reach r.env.K input) := hfresh'
  have hcourse (b : Branch) := course_persistable (S := S) (E := r.env) (b := b) (t := r.tenantId)
    (c := course r.env.K input (document.fileStorageKey.getD "") r.tenantId document.schemaId) hinput
    hfresh.storable (by rw [hid]; exact hfresh.noResult) (by rw [hid]; exact hfresh.noReview)
    fun p o => course_blocked
  have hskip : ¬ (document.status = .cancelled ∨ document.status = .tombstone ∨
      (w.procs r.proc).isCancelled r.documentId = true) ↔
        (w.procs r.proc).isCancelled r.documentId = false := by
    simp [hfresh.pending]
  have hcommit (f : ExtractionState) := persistDb_isSome (S := S) (f := f) hfresh.row
  rw [hskip] at hcommit
  constructor
  · rintro ⟨f, db', hreach, hdb⟩
    obtain ⟨hres, b, hb, hund⟩ := (reached_fresh hfresh).1 hreach
    obtain ⟨hreg, hpers⟩ := (hcommit f).1 ⟨db', hdb⟩
    exact ⟨hreg, b, hund, (hcourse b).1 ⟨f, hfresh' ▸ hres, hb, hpers⟩⟩
  · rintro ⟨hreg, b, hund, hc⟩
    obtain ⟨f, hres, hb, hpers⟩ := (hcourse b).2 hc
    obtain ⟨db', hdb⟩ := (hcommit f).2 ⟨hreg, hpers⟩
    exact ⟨f, db', (reached_fresh hfresh).2 ⟨hfresh' ▸ hres, b, hb, hund⟩, hdb⟩

/-- A persisted outcome settles the document. -/
theorem settled_of_persistDb {db' : Db} (hdoc : w.db.document? r.tenantId r.documentId = some document)
    (h : r.persistDb S w f = some db') (hf : ∃ b : Branch, f.status = some b.status) :
    Settled db' r.tenantId r.documentId := by
  obtain ⟨hid, -, -⟩ := find_of_document? hdoc
  obtain ⟨⟨row, hrow, hs⟩, -, hdead⟩ := persistDb_rows hdoc h
  intro row' hrow'
  obtain rfl : row = row' := by simpa [hrow] using hrow'
  rw [hs]
  refine ⟨persistedStatus_terminal f, fun hst => ?_⟩
  have hfin : persistedStatus f = finalStatus f := by
    obtain ⟨b, hb⟩ := hf
    rw [persistedStatus, finalStatus, hb, if_pos (by cases b <;> decide)]
  rw [hfin] at hst
  exact ⟨_, by rw [hdead hst]; exact List.mem_append_right _ List.mem_cons_self, hid⟩

/-- The run of a fresh document finishes, and the document is then settled iff
    its outcome was committed. -/
theorem run_settles_iff_commits (hpc : r.pc = .loadDocument) (hfresh : Fresh w r document)
    (hread : r.env.raises .persist = false) (hcommit : r.env.raises .commit = false) :
    ∃ w' o, RunsTo S w (.run r) w' (.run (r.goto (.done o))) ∧
      (Settled w'.db r.tenantId r.documentId ↔
        ∃ f db', r.reached w = some f ∧ r.persistDb S w f = some db') := by
  obtain ⟨w', o, hrun, hdb⟩ := run_finishes (S := S) (w := w) hpc hread hcommit
  refine ⟨w', o, hrun, ?_⟩
  rw [hdb, RunTask.finalDb]
  have hpending : ¬ Settled w.db r.tenantId r.documentId := fun h => by
    have := (h document hfresh.row).1
    rw [hfresh.pending] at this
    revert this; decide
  cases hreach : r.reached w with
  | none => simpa using hpending
  | some f =>
    have hfinal : ∃ b : Branch, f.status = some b.status :=
      (fresh_final ((reached_fresh hfresh).1 hreach).1).status
    cases hpers : r.persistDb S w f with
    | none => simpa [hpers] using hpending
    | some db' =>
      refine iff_of_true ?_ ⟨f, db', rfl, hpers⟩
      simpa only [hpers, Option.getD_some] using settled_of_persistDb hfresh.row hpers hfinal

/-- **No silent drop**, for an outcome that is kept: the run of a fresh document
    finishes, and the document is then settled iff its outcome was kept. -/
theorem run_settles_iff (hpc : r.pc = .loadDocument) (hfresh : Fresh w r document)
    (hread : r.env.raises .persist = false) (hcommit : r.env.raises .commit = false) :
    ∃ w' o, RunsTo S w (.run r) w' (.run (r.goto (.done o))) ∧
      (Settled w'.db r.tenantId r.documentId ↔ Kept S w r document) := by
  rw [← fresh_commits_iff hfresh]
  exact run_settles_iff_commits hpc hfresh hread hcommit

theorem sample_fresh (piiFields : List String) :
    Fresh (Sample.world piiFields) Sample.run Sample.document where
  row := rfl
  pending := rfl
  storable := by decide
  noCheckpoint := rfl
  noResult := rfl
  noReview := rfl

/-- The run of a document without PII settles it. -/
theorem run_settles_sample :
    ∃ w' o, RunsTo Sample.site (Sample.world []) (.run Sample.run) w' (.run (Sample.run.goto (.done o))) ∧
      Settled w'.db Sample.tenantId Sample.documentId := by
  have hcommits : ((Sample.run.reached (Sample.world [])).bind
      (Sample.run.persistDb Sample.site (Sample.world []))).isSome = true := by
    decide +kernel
  obtain ⟨db', hcommits⟩ := Option.isSome_iff_exists.1 hcommits
  obtain ⟨f, hreach, hdb⟩ := Option.bind_eq_some_iff.1 hcommits
  obtain ⟨w', o, hrun, hiff⟩ := run_settles_iff (S := Sample.site) (r := Sample.run) rfl (sample_fresh [])
    rfl rfl
  exact ⟨w', o, hrun, hiff.2 ((fresh_commits_iff (sample_fresh [])).1 ⟨f, db', hreach, hdb⟩)⟩

/-- Without a key, the run of a document with PII ends and leaves it `pending`. -/
theorem pii_without_key_dropped :
    Fresh (Sample.world ["name"]) Sample.run Sample.document ∧
      ∃ w' o, RunsTo Sample.site (Sample.world ["name"]) (.run Sample.run) w'
          (.run (Sample.run.goto (.done o))) ∧
        ¬ Settled w'.db Sample.tenantId Sample.documentId := by
  refine ⟨sample_fresh _, ?_⟩
  obtain ⟨w', o, hrun, hiff⟩ := run_settles_iff_commits (S := Sample.site) (w := Sample.world ["name"])
    (r := Sample.run) rfl (sample_fresh ["name"]) rfl rfl
  refine ⟨w', o, hrun, fun h => ?_⟩
  obtain ⟨-, b, -, props, hprops, hb, hanswer⟩ := (fresh_commits_iff (sample_fresh ["name"])).1 (hiff.1 h)
  replace hprops : (.ok 1 : Except String ℕ) = .ok props := hprops
  cases hprops
  obtain rfl : b = .deliver := hb.trans (by decide +kernel)
  rcases hanswer.key with ⟨key, hkey⟩ | hsealed
  · cases hkey
  · exact absurd (hsealed "name" List.mem_cons_self "Ann" rfl) (by decide)

end

end OcrService
