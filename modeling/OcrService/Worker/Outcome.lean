/-
  Outcome coherence.

  Status, routing decision, confidence and failure reason of a final state
  agree (`Coherent`), and so do the rows that `_persist_outcome` adds for it
  (`OutcomeRows`).  The one way in which a run does not get to a final state is
  an exception of `score_node`, which takes the length of the schema's
  `properties` outside of any `try` (`outcome_coherent_iff`).
-/
import OcrService.Pipeline.Middle
import OcrService.Worker.SilentDrop

namespace OcrService

open PyData Nodes

/-! ## Coherence of a final state -/

/-- The terminal nodes. -/
def NodeName.terminal : NodeName → Bool
  | deliver | review | dlq => true
  | _ => false

/-- The values of `dlq.failure_reason` that its CHECK constraint lists. -/
def dlqFailureReasons : List String :=
  [ "PARSE_FAILED", "PARSE_EMPTY_OUTPUT", "GUARDRAIL_BLOCK", "INJECTION_DETECTED",
    "LLM_UNAVAILABLE", "EXTRACTION_FAILED", "LOW_CONFIDENCE", "PIPELINE_TIMEOUT",
    "WEBHOOK_DELIVERY_FAILED", "UNKNOWN" ]

/-- `_load_initial_state`, with `is_cancelled` set or not. -/
def runInput (d t : Uuid) (document : Document) (schema : Option Schema) (isCancelled : Bool) :
    ExtractionState :=
  { initialState d t document schema with isCancelled := some isCancelled }

/-- Some node of the run left it in error or cancelled. -/
def HaltedRun (K : Components) (saved : Option ExtractionState) (input : ExtractionState) : Prop :=
  ∃ s ∈ trail K recursionLimit .parse (channels saved input), halted s = true

/-- The outcome of a run with this input is coherent. -/
structure Coherent (K : Components) (saved : Option ExtractionState) (input f : ExtractionState) :
    Prop where
  status : f.status = some .completed ∨ f.status = some .review ∨ f.status = some .rejected ∨
    f.status = some .cancelled
  cancelled : f.status = some .cancelled ↔ input.isCancelled = some true
  completed : f.status = some .completed ↔ f.routingDecision = some .high
  high : f.routingDecision = some .high ↔ ¬ HaltedRun K saved input ∧
    ∃ c high, f.confidence = some c ∧ input.confidenceHigh = some high ∧ high ≤ c
  review : f.status = some .review ↔ f.routingDecision = some .medium
  medium : f.routingDecision = some .medium ↔ ¬ HaltedRun K saved input ∧
    ∃ c high medium, f.confidence = some c ∧ input.confidenceHigh = some high ∧
      input.confidenceMedium = some medium ∧ medium ≤ c ∧ c < high
  rejected : f.status = some .rejected → f.routingDecision = some .low ∧
    ∃ reason, f.failureReason = some reason ∧ reason.value ∈ dlqFailureReasons

/-- The run ended in one terminal node, the last it visited. -/
def OneTerminal (visited : List NodeName) : Prop :=
  ∃ n, visited.getLast? = some n ∧ visited.filter NodeName.terminal = [n]

theorem value_mem_dlqFailureReasons (reason : FailureReason) : reason.value ∈ dlqFailureReasons := by
  cases reason <;> simp [FailureReason.value, dlqFailureReasons]

section
variable {K : Components} {s f : ExtractionState} {k : ℕ}

/-- The graph finishes the state that its middle nodes leave. -/
theorem result_middle (k : ℕ) : (supersteps K (k + 6) .parse s).result = finish (middle K s) := by
  rw [show k + 6 = k + 3 + 3 from rfl, supersteps_middle]
  exact (supersteps_score _).1

/-- What `finish` settles: a halted state, or a scored one. -/
theorem finish_cases (h : finish s = .ok f) :
    (halted s = true ∧ f = settle s) ∨
      ∃ props, halted s = false ∧ propertyCount (s.jsonSchema.getD []) = .ok props ∧
        f = settle (s.update (scored s props)) := by
  unfold finish at h
  split_ifs at h with hs
  · cases h
    exact Or.inl ⟨hs, rfl⟩
  · cases hp : propertyCount (s.jsonSchema.getD []) with
    | error e =>
      rw [hp] at h
      cases h
    | ok props =>
      rw [hp] at h
      cases h
      exact Or.inr ⟨props, by simpa using hs, rfl, rfl⟩

theorem finish_ok_iff :
    (∃ f, finish s = .ok f) ↔
      halted s = true ∨ ∃ props, propertyCount (s.jsonSchema.getD []) = .ok props := by
  unfold finish
  split_ifs with hs
  · exact iff_of_true ⟨_, rfl⟩ (Or.inl hs)
  · cases propertyCount (s.jsonSchema.getD []) with
    | error e => simp [Except.map, hs]
    | ok props => simp [Except.map]

/-! ## Halted runs -/

theorem branch_live (b : Branch) : ¬ (b.status = .error ∨ b.status = .cancelled) := by
  cases b <;> simp [Branch.status]

theorem trail_route (s : ExtractionState) :
    trail K (k + 2) .route s = [s.update (routed s), settle s] := by
  have hlast : trail K (k + 1) (terminalOf s) (s.update (routed s)) = [settle s] := by
    have hstatus : (s.update (routed s)).status = s.status := rfl
    unfold terminalOf settle settlement
    cases hd : routeDecision s <;> simp only [NodeName.ofBranch, trail, NodeName.run]
    · simp only [deliverNode, routed, hd]
      rfl
    · simp only [reviewNode, routed, hd]
      rfl
    · simp only [dlqNode, deadLettered, hstatus]
      split_ifs <;> (simp only [routed, hd]; rfl)
  rw [trail_leaves (n := .route) (m := terminalOf s) (by simp) rfl]
  exact congrArg _ hlast

/-- From `score_node` on, a state is halted iff the one that was handed to it is. -/
theorem trail_score (h : finish s = .ok f) :
    (∃ x ∈ trail K (k + 3) .score s, halted x = true) ↔ halted s = true := by
  rcases finish_cases h with ⟨hs, rfl⟩ | ⟨props, hs, hp, rfl⟩
  · have hrun : (NodeName.score.run K s).result = .ok {} := by
      simp [NodeName.run, scoreNode, hs]
    rw [trail]
    simp only [hrun, NodeName.next]
    exact iff_of_true ⟨s, List.mem_cons_self, hs⟩ hs
  · have hrun : (NodeName.score.run K s).result = .ok (scored s props) := by
      simp [NodeName.run, scoreNode, hs, hp]
    have hscored : (s.update (scored s props)).status = some .routing := rfl
    rw [trail]
    simp only [hrun, NodeName.next]
    rw [trail_route]
    refine iff_of_false ?_ (by simp [hs])
    rintro ⟨x, hx, hhalted⟩
    rcases List.mem_cons.1 hx with rfl | hx
    · rw [halted_of_status hscored] at hhalted
      cases hhalted
    rcases List.mem_cons.1 hx with rfl | hx
    · generalize hn : ((s.update (scored s props)).update _) = y at hhalted
      have hrouted : y.status = some .routing := by rw [← hn]; rfl
      rw [halted_of_status hrouted] at hhalted
      cases hhalted
    · rw [List.mem_singleton.1 hx, halted_of_status (settle_status (by simp [hscored]))] at hhalted
      exact branch_live _ (of_decide_eq_true hhalted)

/-- **A run was halted iff it hands a halted state to `score_node`.** -/
theorem haltedRun_iff {saved : Option ExtractionState} {input : ExtractionState}
    (h : finish (middle K (channels saved input)) = .ok f) :
    HaltedRun K saved input ↔ halted (middle K (channels saved input)) = true := by
  unfold HaltedRun
  rw [show recursionLimit = 19 + 3 + 3 from rfl, trail_middle]
  constructor
  · rintro ⟨x, hx, hhalted⟩
    rcases List.mem_cons.1 hx with rfl | hx
    · exact middle_halted.1 hhalted
    rcases List.mem_cons.1 hx with rfl | hx
    · exact middle_halted.2 hhalted
    rcases List.mem_cons.1 hx with rfl | hx
    · exact hhalted
    · exact (trail_score h).1 ⟨x, hx, hhalted⟩
  · intro hhalted
    exact ⟨_, by simp, hhalted⟩

/-! ## The final state -/

/-- A state that settles was routed to the branch of its status. -/
theorem settled_status (hs : s.status ≠ some .cancelled) (b : Branch) :
    (settle s).status = some b.status ↔ (settle s).routingDecision = some b.decision := by
  rw [settle_status hs, settle_routingDecision]
  cases routeDecision s <;> cases b <;> simp [Branch.status, Branch.decision]

/-- The branch of a live state is the one of its confidence. -/
theorem settled_decision (hs : halted s = false) {high medium : ℚ} (hh : s.confidenceHigh = some high)
    (hm : s.confidenceMedium = some medium) (b : Branch) :
    (settle s).routingDecision = some b.decision ↔ branchOf (s.confidence.getD 0) high medium = b := by
  rw [settle_routingDecision, routeDecision, hs, hh, hm]
  exact Option.some_inj.trans decision_injective

theorem branchOf_deliver {c high medium : ℚ} : branchOf c high medium = .deliver ↔ high ≤ c := by
  unfold branchOf
  split_ifs with h₁ h₂ <;> simp [h₁]

theorem branchOf_review {c high medium : ℚ} :
    branchOf c high medium = .review ↔ medium ≤ c ∧ c < high := by
  unfold branchOf
  split_ifs with h₁ h₂
  · simp [h₁]
  · simp [h₂, not_le.1 h₁]
  · simp [h₂]

/-- A final state whose run was halted. -/
theorem settled_halted (hs : halted s = true) :
    (settle s).routingDecision = some .low ∧
      ((settle s).status = some .cancelled ↔ s.status = some .cancelled) ∧
      ((settle s).status = some .cancelled ∨ (settle s).status = some .rejected) := by
  have hroute := routeDecision_halted hs
  rw [settle_routingDecision, hroute]
  refine ⟨rfl, ?_⟩
  by_cases hc : s.status = some .cancelled
  · have hstatus : (settle s).status = some .cancelled := by
      simp only [settle, settlement, hroute, deadLettered, if_pos hc]
      exact hc
    exact ⟨iff_of_true hstatus hc, Or.inl hstatus⟩
  · have hstatus : (settle s).status = some .rejected := by
      rw [settle_status hc, hroute]
      rfl
    rw [hstatus]
    exact ⟨iff_of_false (by simp) hc, Or.inr rfl⟩

/-- A rejected state has a failure reason. -/
theorem settled_rejected (h : (settle s).status = some .rejected) :
    (settle s).routingDecision = some .low ∧
      ∃ reason, (settle s).failureReason = some reason ∧ reason.value ∈ dlqFailureReasons := by
  by_cases hc : s.status = some .cancelled
  · have := (settled_halted (s := s) (by rw [halted_of_status hc]; rfl)).2.1.2 hc
    rw [this] at h
    cases h
  · have hlow := (settled_status hc .dlq).1 h
    refine ⟨hlow, ?_⟩
    rw [settle_routingDecision] at hlow
    have hroute : routeDecision s = .dlq := decision_injective.1 (Option.some.inj hlow)
    rw [settle_failureReason hc, hroute]
    exact ⟨_, rfl, value_mem_dlqFailureReasons _⟩

/-- **A final state is coherent.** -/
theorem coherent_of_finish {saved : Option ExtractionState} {input : ExtractionState}
    {high medium : ℚ} (hhigh : input.confidenceHigh = some high)
    (hmedium : input.confidenceMedium = some medium) (hcancel : input.isCancelled ≠ none)
    (h : finish (middle K (channels saved input)) = .ok f) : Coherent K saved input f := by
  have hsame := middle_sameInput K (channels saved input)
  have hhalted := haltedRun_iff h
  have hcancelled : (middle K (channels saved input)).status = some .cancelled ↔
      input.isCancelled = some true := by
    rw [middle_status]
    cases hi : input.isCancelled with
    | none => exact absurd hi hcancel
    | some b => simp [channels, ExtractionState.update, hi]
  have hh : (middle K (channels saved input)).confidenceHigh = some high := by
    rw [hsame.confidenceHigh]
    simp [channels, ExtractionState.update, hhigh]
  have hm : (middle K (channels saved input)).confidenceMedium = some medium := by
    rw [hsame.confidenceMedium]
    simp [channels, ExtractionState.update, hmedium]
  generalize middle K (channels saved input) = s at h hhalted hcancelled hh hm
  rcases finish_cases h with ⟨hs, rfl⟩ | ⟨props, hs, -, rfl⟩
  · obtain ⟨hlow, hc, hstatus⟩ := settled_halted hs
    have hrun : HaltedRun K saved input := hhalted.2 hs
    constructor
    · rcases hstatus with hstatus | hstatus <;> simp [hstatus]
    · exact hc.trans hcancelled
    · rcases hstatus with hstatus | hstatus <;> simp [hstatus, hlow]
    · simp [hlow, hrun]
    · rcases hstatus with hstatus | hstatus <;> simp [hstatus, hlow]
    · simp [hlow, hrun]
    · exact settled_rejected
  · set x := s.update (scored s props)
    have hrouting : x.status = some .routing := rfl
    have hlive : x.status ≠ some .cancelled := by simp [hrouting]
    have hx : halted x = false := by
      rw [halted_of_status hrouting]
      rfl
    have hrun : ¬ HaltedRun K saved input := by
      rw [hhalted, hs]
      exact Bool.false_ne_true
    obtain ⟨c, hconf⟩ : ∃ c, x.confidence = some c := ⟨_, rfl⟩
    have hbranch (b : Branch) := settled_decision (b := b) hx hh hm
    have hset : (settle x).confidence = some c := (settle_confidence x).trans hconf
    rw [hconf] at hbranch
    constructor
    · rw [settle_status hlive]
      cases routeDecision x <;> simp [Branch.status]
    · rw [settle_status hlive, ← hcancelled]
      refine iff_of_false (by cases routeDecision x <;> simp [Branch.status]) ?_
      intro hc
      rw [halted_of_status hc] at hs
      cases hs
    · exact settled_status hlive .deliver
    · refine (hbranch .deliver).trans (branchOf_deliver.trans ?_)
      simp [hrun, hset, hhigh]
    · exact settled_status hlive .review
    · refine (hbranch .review).trans (branchOf_review.trans ?_)
      simp [hrun, hset, hhigh, hmedium]
    · exact settled_rejected

end

/-! ## The rows of an outcome -/

/-- The rows of document `d` that `_persist_outcome` adds for a final state. -/
structure OutcomeRows (d : Uuid) (db db' : Db) (f : ExtractionState) : Prop where
  completed : f.status = some .completed → db'.reviewTasks = db.reviewTasks ∧ db'.dlq = db.dlq ∧
    ∃ row : ExtractionResult, row.documentId = d ∧
      db'.extractionResults = db.extractionResults ++ [row]
  review : f.status = some .review → db'.dlq = db.dlq ∧
    ∃ (row : ExtractionResult) (task : ReviewTask), row.documentId = d ∧
      db'.extractionResults = db.extractionResults ++ [row] ∧ task.documentId = d ∧
        task.status = .pending ∧ db'.reviewTasks = db.reviewTasks ++ [task]
  rejected : f.status = some .rejected →
    db'.extractionResults = db.extractionResults ∧ db'.reviewTasks = db.reviewTasks ∧
      ∃ entry : DeadLetter, entry.documentId = d ∧ entry.status = .pending ∧
        f.failureReason.getD .unknown = entry.failureReason ∧ db'.dlq = db.dlq ++ [entry]
  cancelled : f.status = some .cancelled →
    db'.extractionResults = db.extractionResults ∧ db'.reviewTasks = db.reviewTasks ∧
      db'.dlq = db.dlq

/-- The tables that an outcome adds rows to by its status are the same. -/
structure SameOutcomeTables (db db' : Db) : Prop where
  results : db'.extractionResults = db.extractionResults
  reviews : db'.reviewTasks = db.reviewTasks
  deadLetters : db'.dlq = db.dlq

theorem sameOutcomeTables_commit {db db' : Db} {ws : List Write} (h : db.commit ws = .ok db')
    (hws : ∀ w ∈ ws, (∃ old new, w = .updateDocument old new) ∨ (∃ r, w = .insertGuardrailReport r) ∨
      ∃ r, w = .insertAuditLog r) : SameOutcomeTables db db' := by
  refine Db.commit_induction (P := SameOutcomeTables db) h ⟨rfl, rfl, rfl⟩ ?_
  intro w hw db₁ db₂ h₁ happly
  rcases hws w hw with ⟨old, new, rfl⟩ | ⟨r, rfl⟩ | ⟨r, rfl⟩
  · obtain ⟨-, rfl⟩ := Write.apply_ok.1 happly
    obtain ⟨documents, hdb⟩ := perform_updateDocument db₁ old new
    rw [hdb]
    exact ⟨h₁.results, h₁.reviews, h₁.deadLetters⟩
  · obtain ⟨-, rfl⟩ := Write.apply_ok.1 happly
    exact ⟨h₁.results, h₁.reviews, h₁.deadLetters⟩
  · obtain ⟨-, rfl⟩ := Write.apply_ok.1 happly
    exact ⟨h₁.results, h₁.reviews, h₁.deadLetters⟩

section
variable {S : Site} {db db' : Db} {d t : Uuid} {nonces : ℕ → Bytes} {document : Document}
  {f : ExtractionState} {ws : List Write}

/-- What the status-dependent writes add. -/
theorem outcomeRows_status (hws : statusWrites S d t nonces f = .ok ws) (h : db.commit ws = .ok db') :
    OutcomeRows d db db' f := by
  have hfinal (st : DocumentStatus) (hf : f.status = some st) : finalStatus f = st := by
    simp [finalStatus, hf]
  unfold statusWrites at hws
  constructor
  · intro hf
    rw [hfinal _ hf] at hws
    cases he : encryptedExtraction S t nonces f with
    | error e =>
      rw [he] at hws
      cases hws
    | ok extracted =>
      rw [he] at hws
      cases hws
      obtain ⟨-, rfl⟩ := Write.apply_ok.1 (commit_one.1 h)
      exact ⟨rfl, rfl, _, rfl, rfl⟩
  · intro hf
    rw [hfinal _ hf] at hws
    cases he : encryptedExtraction S t nonces f with
    | error e =>
      rw [he] at hws
      cases hws
    | ok extracted =>
      rw [he] at hws
      cases hws
      obtain ⟨db₁, h₁, h₂⟩ := Db.commit_cons_ok.1 h
      obtain ⟨-, rfl⟩ := Write.apply_ok.1 h₁
      obtain ⟨hr, rfl⟩ := Write.apply_ok.1 (commit_one.1 h₂)
      simp only [Write.refused] at hr
      split_ifs at hr with hfk
      simp only [not_or] at hfk
      obtain ⟨result, hres⟩ := Option.ne_none_iff_exists'.1 (mt Option.isNone_iff_eq_none.2 hfk.2)
      rw [perform_insertReviewTask hres]
      exact ⟨rfl, _, _, rfl, rfl, rfl, rfl, rfl⟩
  · intro hf
    rw [hfinal _ hf] at hws
    cases hws
    obtain ⟨-, rfl⟩ := Write.apply_ok.1 (commit_one.1 h)
    exact ⟨rfl, rfl, _, rfl, rfl, rfl, rfl⟩
  · intro hf
    rw [hfinal _ hf] at hws
    cases hws
    cases h
    exact ⟨rfl, rfl, rfl⟩

/-- **The rows that `_persist_outcome` adds.** -/
theorem outcomeRows_commit (hws : persistWrites S t nonces document f = .ok ws)
    (h : db.commit ws = .ok db') : OutcomeRows document.id db db' f := by
  rw [persistWrites] at hws
  cases hst : statusWrites S document.id t nonces f with
  | error e =>
    rw [hst] at hws
    cases hws
  | ok ws' =>
    rw [hst] at hws
    cases hws
    obtain ⟨db₂, h, h₃⟩ := Db.commit_append_ok.1 h
    obtain ⟨db₁, h₁, h₂⟩ := Db.commit_append_ok.1 h
    have hbefore : SameOutcomeTables db db₁ := by
      refine sameOutcomeTables_commit h₁ fun w hw => ?_
      rcases List.mem_cons.1 hw with rfl | hw
      · exact Or.inl ⟨_, _, rfl⟩
      · obtain ⟨report, -, rfl⟩ := List.mem_map.1 hw
        exact Or.inr (Or.inl ⟨_, rfl⟩)
    have hafter : SameOutcomeTables db₂ db' := by
      refine sameOutcomeTables_commit h₃ fun w hw => ?_
      rw [List.mem_singleton.1 hw]
      exact Or.inr (Or.inr ⟨_, rfl⟩)
    obtain ⟨hc, hv, hr, hx⟩ := outcomeRows_status hst h₂
    constructor
    · intro hf
      rw [hafter.results, hafter.reviews, hafter.deadLetters, ← hbefore.results, ← hbefore.reviews,
        ← hbefore.deadLetters]
      exact hc hf
    · intro hf
      rw [hafter.results, hafter.reviews, hafter.deadLetters, ← hbefore.results, ← hbefore.reviews,
        ← hbefore.deadLetters]
      exact hv hf
    · intro hf
      rw [hafter.results, hafter.reviews, hafter.deadLetters, ← hbefore.results, ← hbefore.reviews,
        ← hbefore.deadLetters]
      exact hr hf
    · intro hf
      rw [hafter.results, hafter.reviews, hafter.deadLetters, ← hbefore.results, ← hbefore.reviews,
        ← hbefore.deadLetters]
      exact hx hf

end

/-! ## When there is an outcome -/

/-- The course comes to the score; `cached` when the thread has an extraction. -/
def Course.scores (cached : Bool) : Course → Bool
  | .extracted _ _ => true
  | .unextracted _ _ => cached
  | _ => false

/-- The run is cancelled, or its course ends before the score, or the
    `properties` of its schema have a length. -/
def Scorable (K : Components) (s : ExtractionState) (storageKey : String) (t σ : Uuid) : Prop :=
  s.isCancelled = some true ∨ (course K s storageKey t σ).scores (hasExtraction s) = false ∨
    ∃ props, propertyCount (s.jsonSchema.getD []) = .ok props

section
variable {K : Components} {s : ExtractionState} {key : String} {d t σ : Uuid} {document : Document}
  {schema : Option Schema} {saved : Option ExtractionState} {isCancelled : Bool}

/-- The course decides whether a live run is halted. -/
theorem finishes_iff_scorable (h : Ready s key t σ) :
    (∃ f, (supersteps K (19 + 6) .parse s).result = .ok f) ↔ Scorable K s key t σ := by
  unfold Scorable
  rw [or_iff_right h.notCancelled]
  cases hx : hasExtraction s with
  | false =>
    rw [(supersteps_fresh h hx).1, finish_ok_iff]
    cases course K s key t σ with
    | unparsed | empty | blocked | unextracted => exact iff_of_true (Or.inl rfl) (Or.inl rfl)
    | extracted r x => exact or_congr (iff_of_false Bool.false_ne_true (by simp [Course.scores])) Iff.rfl
  | true =>
    rw [(supersteps_cached h hx).1, finish_ok_iff]
    cases course K s key t σ with
    | unparsed | empty | blocked => exact iff_of_true (Or.inl rfl) (Or.inl rfl)
    | unextracted r e | extracted r x =>
      exact or_congr (iff_of_false Bool.false_ne_true (by simp [Course.scores])) Iff.rfl

/-- **Outcome coherence.**  A run ends in one terminal node with a coherent
    outcome, and `_persist_outcome` adds the rows of that outcome, iff it is
    cancelled, or its course ends before the score, or the `properties` of its
    schema have a length; whatever the checkpoint and the components hold. -/
theorem outcome_coherent_iff :
    (∃ f, (ainvoke K saved (runInput d t document schema isCancelled)).result = .ok f ∧
        OneTerminal (ainvoke K saved (runInput d t document schema isCancelled)).visited ∧
        Coherent K saved (runInput d t document schema isCancelled) f ∧
        ∀ S db db' t' nonces row ws, persistWrites S t' nonces row f = .ok ws →
          db.commit ws = .ok db' → OutcomeRows row.id db db' f) ↔
      Scorable K (channels saved (runInput d t document schema isCancelled))
        (document.fileStorageKey.getD "") t document.schemaId := by
  set input := runInput d t document schema isCancelled with hinput
  have hiff : (∃ f, (ainvoke K saved input).result = .ok f) ↔
      Scorable K (channels saved input) (document.fileStorageKey.getD "") t document.schemaId := by
    cases isCancelled with
    | false => exact finishes_iff_scorable ⟨Bool.noConfusion ∘ Option.some.inj, rfl, rfl, rfl⟩
    | true =>
      have hc : (channels saved input).isCancelled = some true := rfl
      refine iff_of_true ?_ (Or.inl hc)
      rw [show (ainvoke K saved input).result = finish (middle K (channels saved input)) from
        result_middle 19]
      refine finish_ok_iff.2 (Or.inl ?_)
      rw [halted_of_status (middle_status.2 hc)]
      rfl
  rw [← hiff]
  refine exists_congr fun f => ⟨fun h => h.1, fun h => ⟨h, ?_, ?_, ?_⟩⟩
  · obtain ⟨b, -, hv⟩ := visited_of_ok (n := .parse) (by simp [NodeName.toRoute]) h
    refine ⟨.ofBranch b, ?_⟩
    rw [show (ainvoke K saved input).visited = _ from hv]
    cases b <;> exact ⟨rfl, rfl⟩
  · rw [show (ainvoke K saved input).result = finish (middle K (channels saved input)) from
      result_middle 19] at h
    have hhigh : input.confidenceHigh = _ := rfl
    exact coherent_of_finish hhigh rfl (Option.some_ne_none _) h
  · intro S db db' t' nonces row ws hws hdb
    exact outcomeRows_commit hws hdb

end

namespace Sample

/-- The schema after an update that makes its `properties` null. -/
def nullSchema : Schema := { schema [] with jsonSchema := [("properties", .null)] }

end Sample

/-- A retry of a document with a saved extraction, whose schema was updated to
    one with null `properties`, ends in no terminal node. -/
theorem null_properties_end_nowhere :
    Sample.nullSchema.Storable ∧ ∃ saved,
      (ainvoke Sample.env.K none (runInput Sample.documentId Sample.tenantId Sample.document
        (some (Sample.schema [])) false)).result = .ok saved ∧
      ¬ ∃ f, (ainvoke Sample.env.K (some saved) (runInput Sample.documentId Sample.tenantId
        Sample.document (some Sample.nullSchema) false)).result = .ok f := by
  refine ⟨by decide +kernel, ?_⟩
  obtain ⟨saved, hsaved⟩ : ∃ saved, (ainvoke Sample.env.K none (runInput Sample.documentId
      Sample.tenantId Sample.document (some (Sample.schema [])) false)).result = .ok saved := by
    rw [show (ainvoke Sample.env.K none (runInput Sample.documentId Sample.tenantId Sample.document
      (some (Sample.schema [])) false)).result = _ from result_middle 19]
    exact finish_ok_iff.2 (Or.inr ⟨1, rfl⟩)
  refine ⟨saved, hsaved, fun h => ?_⟩
  have hready : Ready (channels (some saved) (runInput Sample.documentId Sample.tenantId
      Sample.document (some Sample.nullSchema) false)) "key" Sample.tenantId Sample.schemaId :=
    ⟨Bool.noConfusion ∘ Option.some.inj, rfl, rfl, rfl⟩
  rcases (finishes_iff_scorable hready).1 h with hc | hc | ⟨props, hc⟩
  · cases hc
  · cases hc
  · cases hc

end OcrService
