/-
  The graph from any state.

  `parse_node`, `guardrail_node` and `extract_node` always return, so a run of
  the graph hands one state to `score_node` (`middle`), whatever its thread was
  left with by earlier runs.

  * `trail`: the states that the nodes of a run leave;
  * `middle_status`: that state is cancelled iff `is_cancelled` was set;
  * `chain_called_on_guarded`: the extraction chain is called on the text that
    this run parsed, and only if no guardrail blocks it.
-/
import OcrService.Pipeline.Final

namespace OcrService

open PyData Nodes

/-- The state that a node leaves; a node that raises leaves the one it got. -/
def NodeName.leaves (K : Components) (s : ExtractionState) (n : NodeName) : ExtractionState :=
  match (n.run K s).result with
  | .ok u => s.update u
  | .error _ => s

/-- The states that the nodes of a run leave, one after the other. -/
def trail (K : Components) : ℕ → NodeName → ExtractionState → List ExtractionState
  | 0, _, _ => []
  | fuel + 1, n, s =>
    match (n.run K s).result with
    | .error _ => []
    | .ok u =>
      s.update u ::
        match n.next (s.update u) with
        | none => []
        | some m => trail K fuel m (s.update u)

/-- The state handed to `score_node`. -/
def middle (K : Components) (s : ExtractionState) : ExtractionState :=
  NodeName.extract.leaves K (NodeName.guardrail.leaves K (NodeName.parse.leaves K s))

section
variable {K : Components} {s : ExtractionState} {n m : NodeName} {k : ℕ}

/-! ## The first three nodes -/

theorem leaves_of_ok {u : ExtractionState} (h : (n.run K s).result = .ok u) :
    n.leaves K s = s.update u := by
  simp only [NodeName.leaves, h]

/-- Only `score_node` raises. -/
theorem result_ok (hn : n ≠ .score) : ∃ u, (n.run K s).result = .ok u := by
  cases n with
  | parse =>
    simp only [NodeName.run, parseNode]
    split
    · exact ⟨_, rfl⟩
    · split
      · exact ⟨_, rfl⟩
      · split
        · exact ⟨_, rfl⟩
        · split <;> exact ⟨_, rfl⟩
  | guardrail =>
    simp only [NodeName.run, guardrailNode]
    split
    · exact ⟨_, rfl⟩
    · split <;> exact ⟨_, rfl⟩
  | extract =>
    simp only [NodeName.run, extractNode]
    split
    · exact ⟨_, rfl⟩
    · split
      · exact ⟨_, rfl⟩
      · split <;> exact ⟨_, rfl⟩
  | score => exact absurd rfl hn
  | route | deliver | review | dlq => exact ⟨_, rfl⟩

/-- A node that returns hands what it leaves to the next one. -/
theorem supersteps_leaves (hn : n ≠ .score) (hnext : n.next (n.leaves K s) = some m) :
    supersteps K (k + 1) n s =
      ⟨(n.run K s).calls ++ (supersteps K k m (n.leaves K s)).calls,
        n :: (supersteps K k m (n.leaves K s)).visited,
        (supersteps K k m (n.leaves K s)).result⟩ := by
  obtain ⟨u, hu⟩ := result_ok (K := K) (s := s) hn
  rw [leaves_of_ok hu] at hnext ⊢
  exact supersteps_next hu hnext

theorem trail_leaves (hn : n ≠ .score) (hnext : n.next (n.leaves K s) = some m) :
    trail K (k + 1) n s = n.leaves K s :: trail K k m (n.leaves K s) := by
  obtain ⟨u, hu⟩ := result_ok (K := K) (s := s) hn
  rw [leaves_of_ok hu] at hnext ⊢
  rw [trail]
  simp only [hu, hnext]

/-- **A run goes through the middle nodes to `score_node`.** -/
theorem supersteps_middle :
    supersteps K (k + 3) .parse s =
      ⟨(parseNode K s).calls ++ ((guardrailNode K (NodeName.parse.leaves K s)).calls ++
          ((extractNode K (NodeName.guardrail.leaves K (NodeName.parse.leaves K s))).calls ++
            (supersteps K k .score (middle K s)).calls)),
        .parse :: .guardrail :: .extract :: (supersteps K k .score (middle K s)).visited,
        (supersteps K k .score (middle K s)).result⟩ := by
  rw [supersteps_leaves (n := .parse) (m := .guardrail) (by simp) rfl,
    supersteps_leaves (n := .guardrail) (m := .extract) (by simp) rfl,
    supersteps_leaves (n := .extract) (m := .score) (by simp) rfl]
  rfl

theorem trail_middle :
    trail K (k + 3) .parse s =
      NodeName.parse.leaves K s :: NodeName.guardrail.leaves K (NodeName.parse.leaves K s) ::
        middle K s :: trail K k .score (middle K s) := by
  rw [trail_leaves (n := .parse) (m := .guardrail) (by simp) rfl,
    trail_leaves (n := .guardrail) (m := .extract) (by simp) rfl,
    trail_leaves (n := .extract) (m := .score) (by simp) rfl]
  rfl

/-- Fewer supersteps make fewer calls. -/
theorem calls_mono {c : Call} (h : c ∈ (supersteps K k n s).calls) (j : ℕ) :
    c ∈ (supersteps K (k + j) n s).calls := by
  induction k generalizing n s with
  | zero => cases h
  | succ k ih =>
    rw [show k + 1 + j = k + j + 1 by omega]
    cases hrun : (n.run K s).result with
    | error e =>
      rw [supersteps_error hrun] at h ⊢
      exact h
    | ok u =>
      cases hnext : n.next (s.update u) with
      | none =>
        rw [supersteps_end hrun hnext] at h ⊢
        exact h
      | some m =>
        rw [supersteps_next hrun hnext] at h ⊢
        rcases List.mem_append.1 h with h | h
        · exact List.mem_append_left _ h
        · exact List.mem_append_right _ (ih h)

/-! ## What they leave -/

/-- The channels that the nodes never write. -/
structure SameInput (s s' : ExtractionState) : Prop where
  isCancelled : s'.isCancelled = s.isCancelled
  confidenceHigh : s'.confidenceHigh = s.confidenceHigh
  confidenceMedium : s'.confidenceMedium = s.confidenceMedium
  jsonSchema : s'.jsonSchema = s.jsonSchema

theorem SameInput.trans {s s' s'' : ExtractionState} (h : SameInput s s') (h' : SameInput s' s'') :
    SameInput s s'' where
  isCancelled := h'.isCancelled.trans h.isCancelled
  confidenceHigh := h'.confidenceHigh.trans h.confidenceHigh
  confidenceMedium := h'.confidenceMedium.trans h.confidenceMedium
  jsonSchema := h'.jsonSchema.trans h.jsonSchema

/-- What `parse_node` leaves. -/
inductive ParseLeaves (K : Components) (s : ExtractionState) : ExtractionState → Prop
  | cancelled (h : s.isCancelled = some true) :
      ParseLeaves K s (s.update { status := some .cancelled, currentStep := some "parse" })
  | error {u : ExtractionState} (h : s.isCancelled ≠ some true) (hu : u.status = some .error)
      (hsame : SameInput s (s.update u)) : ParseLeaves K s (s.update u)
  | parsed {key : String} {content : Bytes} {r : ParseResult} (h : s.isCancelled ≠ some true)
      (hkey : s.fileStorageKey = some key) (hload : K.load key = .ok content)
      (hparse : K.parse content = .ok r) (hr : r.isEmpty = false)
      (hcalls : (parseNode K s).calls = [.load key, .parse content]) :
      ParseLeaves K s (s.update (Nodes.parsed r))

theorem parse_leaves (K : Components) (s : ExtractionState) :
    ParseLeaves K s (NodeName.parse.leaves K s) := by
  by_cases hc : s.isCancelled = some true
  · have h : (NodeName.parse.run K s).result =
        .ok { status := some .cancelled, currentStep := some "parse" } := by
      simp only [NodeName.run, parseNode, if_pos hc]
    rw [leaves_of_ok h]
    exact .cancelled hc
  · cases hkey : s.fileStorageKey with
    | none =>
      have h : (NodeName.parse.run K s).result = .ok (failed .parseFailed "'file_storage_key'") := by
        simp only [NodeName.run, parseNode, if_neg hc, hkey]
      rw [leaves_of_ok h]
      exact .error hc rfl ⟨rfl, rfl, rfl, rfl⟩
    | some key =>
      cases hload : K.load key with
      | error e =>
        have h : (NodeName.parse.run K s).result = .ok (failed .parseFailed e) := by
          simp only [NodeName.run, parseNode, if_neg hc, hkey, hload]
        rw [leaves_of_ok h]
        exact .error hc rfl ⟨rfl, rfl, rfl, rfl⟩
      | ok content =>
        cases hparse : K.parse content with
        | error e =>
          have h : (NodeName.parse.run K s).result = .ok (failed .parseFailed e) := by
            simp only [NodeName.run, parseNode, if_neg hc, hkey, hload, hparse]
          rw [leaves_of_ok h]
          exact .error hc rfl ⟨rfl, rfl, rfl, rfl⟩
        | ok r =>
          have h : (NodeName.parse.run K s).result =
              .ok (if r.isEmpty then emptyOutput r else Nodes.parsed r) := by
            simp only [NodeName.run, parseNode, if_neg hc, hkey, hload, hparse]
          rw [leaves_of_ok h]
          cases hr : r.isEmpty with
          | true => exact .error hc rfl ⟨rfl, rfl, rfl, rfl⟩
          | false =>
            refine .parsed hc hkey hload hparse hr ?_
            simp only [parseNode, if_neg hc, hkey, hload, hparse]

/-- What `guardrail_node` leaves. -/
inductive GuardrailLeaves (K : Components) (s : ExtractionState) : ExtractionState → Prop
  | skipped (h : halted s = true) : GuardrailLeaves K s s
  | blocked {u : ExtractionState} (h : halted s = false) (hu : u.status = some .error)
      (hsame : SameInput s (s.update u)) : GuardrailLeaves K s (s.update u)
  | guarded (h : halted s = false)
      (hblock : ∀ o ∈ runGuardrails K.tools (s.rawText.getD ""), o.result ≠ .block) :
      GuardrailLeaves K s (s.update (Nodes.guarded (runGuardrails K.tools (s.rawText.getD ""))))

theorem guardrail_leaves (K : Components) (s : ExtractionState) :
    GuardrailLeaves K s (NodeName.guardrail.leaves K s) := by
  cases hs : halted s with
  | true =>
    have h : (NodeName.guardrail.run K s).result = .ok {} := by
      simp [NodeName.run, guardrailNode, hs]
    rw [leaves_of_ok h]
    exact .skipped hs
  | false =>
    cases hb : (runGuardrails K.tools (s.rawText.getD "")).find? fun o => o.result = .block with
    | some o =>
      have h : (NodeName.guardrail.run K s).result =
          .ok (blockedUpdate (runGuardrails K.tools (s.rawText.getD "")) o) := by
        simp only [NodeName.run, guardrailNode, hs, hb]
        rfl
      rw [leaves_of_ok h]
      exact .blocked hs rfl ⟨rfl, rfl, rfl, rfl⟩
    | none =>
      have h : (NodeName.guardrail.run K s).result =
          .ok (Nodes.guarded (runGuardrails K.tools (s.rawText.getD ""))) := by
        simp only [NodeName.run, guardrailNode, hs, hb]
        rfl
      rw [leaves_of_ok h]
      refine .guarded hs fun o ho => ?_
      simpa using List.find?_eq_none.1 hb o ho

/-- What `extract_node` leaves. -/
inductive ExtractLeaves (s : ExtractionState) : ExtractionState → Prop
  | skipped : ExtractLeaves s s
  | error {u : ExtractionState} (h : halted s = false) (hu : u.status = some .error)
      (hsame : SameInput s (s.update u)) : ExtractLeaves s (s.update u)
  | extracted {u : ExtractionState} (h : halted s = false) (hu : u.status = some .scoring)
      (hsame : SameInput s (s.update u)) : ExtractLeaves s (s.update u)

theorem extract_leaves (K : Components) (s : ExtractionState) :
    ExtractLeaves s (NodeName.extract.leaves K s) := by
  have hskip (hs : halted s = true ∨ hasExtraction s = true) :
      NodeName.extract.leaves K s = s := by
    have h : (NodeName.extract.run K s).result = .ok {} := by
      rw [NodeName.run, extractNode_passed hs]
    exact leaves_of_ok h
  cases hs : halted s with
  | true =>
    rw [hskip (Or.inl hs)]
    exact .skipped
  | false =>
    cases hx : hasExtraction s with
    | true =>
      rw [hskip (Or.inr hx)]
      exact .skipped
    | false =>
      obtain ⟨u, hu⟩ := result_ok (K := K) (s := s) (n := .extract) (by simp)
      rw [leaves_of_ok hu]
      simp only [NodeName.run, extractNode, hs, hx, Bool.false_eq_true, if_false] at hu
      split at hu
      · cases hu
        exact .error hs rfl ⟨rfl, rfl, rfl, rfl⟩
      · cases hu
        exact .error hs rfl ⟨rfl, rfl, rfl, rfl⟩
      · rename_i t σ ht hσ
        cases he : K.extract (extractArgs s t σ) with
        | error e =>
          simp only [he] at hu
          cases hu
          exact .error hs rfl ⟨rfl, rfl, rfl, rfl⟩
        | ok x =>
          simp only [he] at hu
          cases hu
          exact .extracted hs rfl ⟨rfl, rfl, rfl, rfl⟩

theorem ParseLeaves.sameInput {s' : ExtractionState} (h : ParseLeaves K s s') : SameInput s s' := by
  cases h with
  | error _ _ hsame => exact hsame
  | cancelled | parsed => exact ⟨rfl, rfl, rfl, rfl⟩

theorem GuardrailLeaves.sameInput {s' : ExtractionState} (h : GuardrailLeaves K s s') :
    SameInput s s' := by
  cases h with
  | blocked _ _ hsame => exact hsame
  | skipped | guarded => exact ⟨rfl, rfl, rfl, rfl⟩

theorem ExtractLeaves.sameInput {s' : ExtractionState} (h : ExtractLeaves s s') : SameInput s s' := by
  cases h with
  | error _ _ hsame | extracted _ _ hsame => exact hsame
  | skipped => exact ⟨rfl, rfl, rfl, rfl⟩

/-- **The middle nodes leave the input alone.** -/
theorem middle_sameInput (K : Components) (s : ExtractionState) : SameInput s (middle K s) :=
  ((parse_leaves K s).sameInput.trans (guardrail_leaves K _).sameInput).trans
    (extract_leaves K _).sameInput

theorem status_update {u : ExtractionState} {st : DocumentStatus} (hu : u.status = some st) :
    (s.update u).status = some st := by
  simp [ExtractionState.update, hu]

theorem halted_of_status {st : DocumentStatus} (h : s.status = some st) :
    halted s = decide (st = .error ∨ st = .cancelled) := by
  simp [halted, h]

theorem GuardrailLeaves.cancelled_iff {s' : ExtractionState} (h : GuardrailLeaves K s s') :
    s'.status = some .cancelled ↔ s.status = some .cancelled := by
  cases h with
  | skipped => exact Iff.rfl
  | blocked hs hu =>
    rw [status_update hu]
    constructor
    · intro h
      cases h
    · intro h
      rw [halted_of_status h] at hs
      cases hs
  | guarded hs =>
    rw [status_update rfl]
    constructor
    · intro h
      cases h
    · intro h
      rw [halted_of_status h] at hs
      cases hs

theorem ExtractLeaves.cancelled_iff {s' : ExtractionState} (h : ExtractLeaves s s') :
    s'.status = some .cancelled ↔ s.status = some .cancelled := by
  cases h with
  | skipped => exact Iff.rfl
  | error hs hu | extracted hs hu =>
    rw [status_update hu]
    constructor
    · intro h
      cases h
    · intro h
      rw [halted_of_status h] at hs
      cases hs

theorem ParseLeaves.cancelled_iff {s' : ExtractionState} (h : ParseLeaves K s s') :
    s'.status = some .cancelled ↔ s.isCancelled = some true := by
  cases h with
  | cancelled h => exact iff_of_true rfl h
  | error h hu =>
    rw [status_update hu]
    exact iff_of_false (by simp) h
  | parsed h =>
    rw [status_update rfl]
    exact iff_of_false (by simp) h

/-- **The state handed to `score_node` is cancelled iff `is_cancelled` was set.** -/
theorem middle_status : (middle K s).status = some .cancelled ↔ s.isCancelled = some true := by
  rw [middle, (extract_leaves K _).cancelled_iff, (guardrail_leaves K _).cancelled_iff,
    (parse_leaves K s).cancelled_iff]

/-- A state that is halted stays so up to `score_node`. -/
theorem middle_halted :
    (halted (NodeName.parse.leaves K s) = true → halted (middle K s) = true) ∧
      (halted (NodeName.guardrail.leaves K (NodeName.parse.leaves K s)) = true →
        halted (middle K s) = true) := by
  have hextract {s s' : ExtractionState} (h : ExtractLeaves s s') (hs : halted s = true) :
      halted s' = true := by
    cases h with
    | skipped => exact hs
    | error h | extracted h =>
      rw [hs] at h
      cases h
  have hguardrail {s s' : ExtractionState} (h : GuardrailLeaves K s s') (hs : halted s = true) :
      halted s' = true := by
    cases h with
    | skipped => exact hs
    | blocked h | guarded h =>
      rw [hs] at h
      cases h
  constructor
  · intro hs
    exact hextract (extract_leaves K _) (hguardrail (guardrail_leaves K _) hs)
  · intro hs
    exact hextract (extract_leaves K _) hs

/-! ## Blocked text -/

theorem extract_notMem_parse (args : ExtractArgs) : .extract args ∉ (parseNode K s).calls := by
  unfold parseNode
  intro h
  repeat' split at h
  all_goals simp at h

theorem guardrail_calls : (guardrailNode K s).calls = [] := by
  unfold guardrailNode
  dsimp only
  split
  · rfl
  · split <;> rfl

theorem score_calls (s : ExtractionState) : (supersteps K (k + 3) .score s).calls = [] :=
  (supersteps_score s).2

/-- `extract_node` calls the chain on the text of its state, unless it is halted. -/
theorem extract_calls {args : ExtractArgs} (h : .extract args ∈ (extractNode K s).calls) :
    halted s = false ∧ args.text = s.rawText.getD "" := by
  unfold extractNode at h
  split at h
  · cases h
  · rename_i hs
    split at h
    · cases h
    · split at h
      · cases h
      · cases h
      · rw [List.mem_singleton] at h
        cases h
        exact ⟨by simpa using hs, rfl⟩

/-- **Blocked text never reaches the model.**  If a run calls the extraction
    chain, then in the same run storage and parser were called and gave a text
    that is not empty, the chain is given that text, and no guardrail blocks
    it; whatever earlier runs left on the thread, and however many supersteps
    the run takes. -/
theorem chain_called_on_guarded {saved : Option ExtractionState} {input : ExtractionState}
    {args : ExtractArgs}
    (h : .extract args ∈ (supersteps K k .parse (channels saved input)).calls) :
    ∃ key content r,
      .load key ∈ (supersteps K k .parse (channels saved input)).calls ∧
        K.load key = .ok content ∧
          .parse content ∈ (supersteps K k .parse (channels saved input)).calls ∧
            K.parse content = .ok r ∧ r.isEmpty = false ∧ args.text = r.text ∧
              ∀ g ∈ defaultGuardrails K.tools, (g.run r.text).result ≠ .block := by
  set s := channels saved input
  have hfirst : ∀ c ∈ (parseNode K s).calls, c ∈ (supersteps K k .parse s).calls := by
    intro c hc
    cases k with
    | zero => cases h
    | succ k =>
      rw [supersteps_leaves (n := .parse) (m := .guardrail) (by simp) rfl]
      exact List.mem_append_left _ hc
  have h := calls_mono h 6
  rw [show k + 6 = k + 3 + 3 from rfl, supersteps_middle, guardrail_calls, score_calls,
    List.nil_append, List.append_nil] at h
  obtain ⟨hlive, htext⟩ := extract_calls ((List.mem_append.1 h).resolve_left (extract_notMem_parse args))
  have hguard := guardrail_leaves K (NodeName.parse.leaves K s)
  generalize NodeName.guardrail.leaves K (NodeName.parse.leaves K s) = s₂ at hlive htext hguard
  cases hguard with
  | skipped hs =>
    rw [hlive] at hs
    cases hs
  | blocked hs hu =>
    rw [halted_of_status (status_update hu)] at hlive
    cases hlive
  | guarded hs hblock =>
    have hparse := parse_leaves K s
    generalize NodeName.parse.leaves K s = s₁ at hs htext hblock hparse
    cases hparse with
    | cancelled =>
      rw [halted_of_status (status_update rfl)] at hs
      cases hs
    | error _ hu =>
      rw [halted_of_status (status_update hu)] at hs
      cases hs
    | parsed _ hkey hload hr hempty hcalls =>
      rw [hcalls] at hfirst
      refine ⟨_, _, _, hfirst _ (by simp), hload, hfirst _ (by simp), hr, hempty, htext, ?_⟩
      intro g hg
      exact hblock _ (List.mem_map_of_mem hg)

end

/-- The run of the small deployment calls the chain on what it parsed. -/
theorem chain_called_on_guarded_sample :
    ∃ args key content r,
      .extract args ∈ (supersteps (Sample.components []) recursionLimit .parse
        (channels none (initialState 4 1 Sample.document none))).calls ∧
      .load key ∈ (supersteps (Sample.components []) recursionLimit .parse
        (channels none (initialState 4 1 Sample.document none))).calls ∧
      (Sample.components []).load key = .ok content ∧
      (Sample.components []).parse content = .ok r ∧ args.text = r.text ∧
      ∀ g ∈ defaultGuardrails (Sample.components []).tools, (g.run r.text).result ≠ .block := by
  have hcalls : ∃ args, .extract args ∈ (supersteps (Sample.components []) recursionLimit .parse
      (channels none (initialState 4 1 Sample.document none))).calls :=
    ⟨_, List.mem_cons_of_mem _ (List.mem_cons_of_mem _ List.mem_cons_self)⟩
  obtain ⟨args, h⟩ := hcalls
  obtain ⟨key, content, r, hkey, hload, -, hparse, -, htext, hblock⟩ := chain_called_on_guarded h
  exact ⟨args, key, content, r, h, hkey, hload, hparse, htext, hblock⟩

end OcrService
