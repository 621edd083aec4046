/-
  How the score follows its signals.

  * `Checked.scoreNode_eq`: the divisions of `score_node` never raise;
  * `scores_bounded_monotone`: the breakdown is in the unit interval, and
    neither a further value nor a dropped warning lowers the score or the route;
  * `lower_self_report_not_above`: nor does a higher self-report, where there
    is one; a self-report of `0` is none, and acts as one of `1`.
-/
import OcrService.Pipeline.Required

namespace OcrService

open PyData Nodes

/-! ## Division -/

/-- Python's `/`, which raises on a zero divisor. -/
def pyDiv (a b : ℚ) : Except String ℚ := if b = 0 then .error "division by zero" else .ok (a / b)

theorem pyDiv_of_ne_zero {a b : ℚ} (hb : b ≠ 0) : pyDiv a b = .ok (a / b) := if_neg hb

namespace Checked

/-- `completeness_score`. -/
def completenessScore (extracted : Obj) (requiredFields : List String) : Except String ℚ :=
  if requiredFields = [] then .ok 1
  else pyDiv (requiredFields.countP fun f => isPresent (extracted.get? f)) requiredFields.length

/-- `fill_rate` of `score_node`. -/
def fillRate (totalProps : ℕ) (extracted : Obj) : Except String ℚ := do
  let rate ← pyDiv extracted.length
    (if totalProps = 0 then max extracted.length 1 else totalProps : ℕ)
  return min 1 rate

/-- `score_node`, with the divisions where the source has them. -/
def scoreNode (s : ExtractionState) : NodeRun :=
  if halted s then { result := .ok {} }
  else
    let extracted := s.extractedJson.getD []
    let required := s.requiredFields.getD []
    { result := do
        let completeness ← completenessScore extracted required
        let totalProps ← propertyCount (s.jsonSchema.getD [])
        let fill ← fillRate totalProps extracted
        let b := score (llmSignal (s.llmConfidence.getD 0) completeness fill) completeness fill
          (s.guardrailMultiplier.getD 1)
        return { confidence := some b.guardrailAdjusted
                 confidenceBreakdown := some b
                 missingFields := some (missingRequired extracted required)
                 currentStep := some "score"
                 status := some .routing } }

theorem completenessScore_eq (extracted : Obj) (required : List String) :
    completenessScore extracted required = .ok (OcrService.completenessScore extracted required) := by
  unfold completenessScore OcrService.completenessScore
  split_ifs with h
  · rfl
  · have hlen : (required.length : ℚ) ≠ 0 := by
      exact_mod_cast (List.length_pos_of_ne_nil h).ne'
    exact pyDiv_of_ne_zero hlen

theorem fillRate_eq (totalProps : ℕ) (extracted : Obj) :
    fillRate totalProps extracted = .ok (Nodes.fillRate totalProps extracted) := by
  have hne : ((if totalProps = 0 then max extracted.length 1 else totalProps : ℕ) : ℚ) ≠ 0 := by
    split_ifs with h
    · exact_mod_cast (lt_max_of_lt_right zero_lt_one).ne'
    · exact_mod_cast h
  rw [fillRate, pyDiv_of_ne_zero hne]
  rfl

/-- **No division of `score_node` raises.** -/
theorem scoreNode_eq (s : ExtractionState) : scoreNode s = Nodes.scoreNode s := by
  unfold scoreNode Nodes.scoreNode
  split_ifs
  · rfl
  · simp only [completenessScore_eq]
    cases propertyCount (s.jsonSchema.getD []) with
    | error e => rfl
    | ok props =>
      simp only [bind, Except.bind, fillRate_eq]
      rfl

end Checked

/-! ## The signals -/

section
variable {extracted : Obj} {required : List String} {k : String} {v : Json}

theorem length_set_of_absent (h : extracted.get? k = none) :
    (extracted.set k v).length = extracted.length + 1 := by
  induction extracted with
  | nil => rfl
  | cons e d ih =>
    obtain ⟨k', v'⟩ := e
    by_cases hk : k' = k
    · simp [Obj.get?, hk] at h
    · have hd : Obj.get? d k = none := by simpa [Obj.get?, hk] using h
      simp [Obj.set, hk, ih hd]

/-- A value for a key that had none keeps the fields that are present. -/
theorem isPresent_set (hv : isPresent (some v) = true) {f : String}
    (hf : isPresent (extracted.get? f) = true) : isPresent ((extracted.set k v).get? f) = true := by
  by_cases hk : k = f
  · rw [← hk, Obj.get?_set_self]
    exact hv
  · rw [Obj.get?_set_of_ne _ _ hk]
    exact hf

theorem completenessScore_le_set (hv : isPresent (some v) = true) :
    completenessScore extracted required ≤ completenessScore (extracted.set k v) required := by
  unfold completenessScore
  split_ifs with h
  · exact le_rfl
  · have hcount : required.countP (fun f => isPresent (extracted.get? f)) ≤
        required.countP (fun f => isPresent ((extracted.set k v).get? f)) :=
      List.countP_mono_left fun f _ hf => isPresent_set hv hf
    gcongr

theorem fillRate_mem_unit (props : ℕ) (extracted : Obj) :
    0 ≤ fillRate props extracted ∧ fillRate props extracted ≤ 1 :=
  ⟨le_min zero_le_one (by positivity), min_le_left _ _⟩

/-- The fill rate of a schema without properties: whether there is a field. -/
theorem fillRate_zero (extracted : Obj) :
    fillRate 0 extracted = if extracted.length = 0 then 0 else 1 := by
  unfold fillRate
  rw [if_pos rfl]
  split_ifs with h
  · simp [h]
  · have hmax : max extracted.length 1 = extracted.length := max_eq_left (by omega)
    have hne : (extracted.length : ℚ) ≠ 0 := by exact_mod_cast h
    rw [hmax, div_self hne, min_self]

theorem fillRate_mono {e e' : Obj} (props : ℕ) (h : e.length ≤ e'.length) :
    fillRate props e ≤ fillRate props e' := by
  by_cases hp : props = 0
  · rw [hp, fillRate_zero, fillRate_zero]
    split_ifs with h₁ h₂
    · exact le_rfl
    · exact zero_le_one
    · omega
    · exact le_rfl
  · unfold fillRate
    simp only [if_neg hp]
    gcongr

theorem llmSignal_mono {llm c c' f f' : ℚ} (hc : c ≤ c') (hf : f ≤ f') :
    llmSignal llm c f ≤ llmSignal llm c' f' := by
  unfold llmSignal
  split_ifs
  · exact le_rfl
  · exact min_le_min hc hf

theorem llmSignal_mem_unit {llm c f : ℚ} (hl : 0 ≤ llm) (hl' : llm ≤ 1) (hc : 0 ≤ c) (hf : 0 ≤ f)
    (hf' : f ≤ 1) : 0 ≤ llmSignal llm c f ∧ llmSignal llm c f ≤ 1 := by
  unfold llmSignal
  split_ifs
  · exact ⟨hl, hl'⟩
  · exact ⟨le_min hc hf, (min_le_right _ _).trans hf'⟩

end

/-! ## The breakdown -/

/-- The bounds of a breakdown. -/
structure ConfidenceBreakdown.Bounded (b : ConfidenceBreakdown) : Prop where
  llm : b.llm ∈ Set.Icc 0 1
  completeness : b.completeness ∈ Set.Icc 0 1
  semantic : b.semantic ∈ Set.Icc 0 1
  guardrailAdjusted : b.guardrailAdjusted ∈ Set.Icc 0 1
  le_llm : b.guardrailAdjusted ≤ b.llm
  le_completeness : b.guardrailAdjusted ≤ b.completeness
  le_semantic : b.guardrailAdjusted ≤ b.semantic

/-- The score of three signals, rounded. -/
theorem score_bounded {l c f m : ℚ} (hl : 0 ≤ l ∧ l ≤ 1) (hc : 0 ≤ c ∧ c ≤ 1) (hf : 0 ≤ f ∧ f ≤ 1)
    (hm : 0 ≤ m ∧ m ≤ 1) : (score l c f m).Bounded := by
  have hbase : 0 ≤ min (min l c) f := le_min (le_min hl.1 hc.1) hf.1
  have hle : min (min l c) f * m ≤ min (min l c) f := mul_le_of_le_one_right hbase hm.2
  exact
    { llm := Decimal.round_mem_unit 4 hl.1 hl.2
      completeness := Decimal.round_mem_unit 4 hc.1 hc.2
      semantic := Decimal.round_mem_unit 4 hf.1 hf.2
      guardrailAdjusted := score_mem_unit hl.1 hc.1 hf.1 hc.2 hm.1 hm.2
      le_llm := Decimal.round_mono 4 (hle.trans ((min_le_left _ _).trans (min_le_left _ _)))
      le_completeness :=
        Decimal.round_mono 4 (hle.trans ((min_le_left _ _).trans (min_le_right _ _)))
      le_semantic := Decimal.round_mono 4 (hle.trans (min_le_right _ _)) }

theorem score_mono {l l' c c' f f' m : ℚ} (hl : l ≤ l') (hc : c ≤ c') (hf : f ≤ f') (hm : 0 ≤ m) :
    (score l c f m).guardrailAdjusted ≤ (score l' c' f' m).guardrailAdjusted := by
  have hbase : min (min l c) f ≤ min (min l' c') f' := min_le_min (min_le_min hl hc) hf
  exact Decimal.round_mono 4 (mul_le_mul_of_nonneg_right hbase hm)

theorem score_mono_multiplier {l c f m m' : ℚ} (hl : 0 ≤ l) (hc : 0 ≤ c) (hf : 0 ≤ f) (hm : m ≤ m') :
    (score l c f m).guardrailAdjusted ≤ (score l c f m').guardrailAdjusted :=
  Decimal.round_mono 4 (mul_le_mul_of_nonneg_left hm (le_min (le_min hl hc) hf))

/-! ## The guardrail multiplier -/

/-- The WARN multipliers are in `(0, 1]`. -/
def WarnsInUnit (outcomes : List GuardrailOutcome) : Prop :=
  ∀ o ∈ outcomes, o.result = .warn → 0 < o.confidenceMultiplier ∧ o.confidenceMultiplier ≤ 1

/-- The product that `aggregate_multiplier` rounds. -/
def warnProduct (outcomes : List GuardrailOutcome) : ℚ :=
  ((outcomes.filter fun o => o.result = .warn).map fun o => o.confidenceMultiplier).prod

theorem warnProduct_append (os os' : List GuardrailOutcome) :
    warnProduct (os ++ os') = warnProduct os * warnProduct os' := by
  simp [warnProduct]

theorem warnProduct_cons_warn {o : GuardrailOutcome} (ho : o.result = .warn)
    (os : List GuardrailOutcome) : warnProduct (o :: os) = o.confidenceMultiplier * warnProduct os := by
  simp [warnProduct, ho]

theorem warnProduct_cons_other {o : GuardrailOutcome} (ho : o.result ≠ .warn)
    (os : List GuardrailOutcome) : warnProduct (o :: os) = warnProduct os := by
  simp [warnProduct, ho]

theorem warnProduct_mem_unit : ∀ {outcomes : List GuardrailOutcome}, WarnsInUnit outcomes →
    0 ≤ warnProduct outcomes ∧ warnProduct outcomes ≤ 1
  | [], _ => by simp [warnProduct]
  | o :: os, h => by
    have ih := warnProduct_mem_unit fun o' ho' => h o' (List.mem_cons_of_mem o ho')
    by_cases ho : o.result = .warn
    · obtain ⟨h0, h1⟩ := h o List.mem_cons_self ho
      rw [warnProduct_cons_warn ho]
      exact ⟨mul_nonneg h0.le ih.1, mul_le_one₀ h1 ih.1 ih.2⟩
    · rw [warnProduct_cons_other ho]
      exact ih

theorem multiplier_mem_unit {outcomes : List GuardrailOutcome} (h : WarnsInUnit outcomes) :
    0 ≤ aggregateMultiplier outcomes ∧ aggregateMultiplier outcomes ≤ 1 :=
  Decimal.round_mem_unit 4 (warnProduct_mem_unit h).1 (warnProduct_mem_unit h).2

/-- Without one of the warnings the multiplier is not lower. -/
theorem multiplier_le_of_removed {os os' : List GuardrailOutcome} {o : GuardrailOutcome}
    (h : WarnsInUnit (os ++ o :: os')) (ho : o.result = .warn) :
    aggregateMultiplier (os ++ o :: os') ≤ aggregateMultiplier (os ++ os') := by
  have hos := (warnProduct_mem_unit fun o' ho' => h o' (List.mem_append_left _ ho')).1
  have hos' : 0 ≤ warnProduct os' := (warnProduct_mem_unit fun o' ho' =>
    h o' (List.mem_append_right os (List.mem_cons_of_mem o ho'))).1
  have hone := (h o (by simp) ho).2
  refine Decimal.round_mono 4 ?_
  change warnProduct (os ++ o :: os') ≤ warnProduct (os ++ os')
  rw [warnProduct_append, warnProduct_append, warnProduct_cons_warn ho]
  exact mul_le_mul_of_nonneg_left (mul_le_of_le_one_left hos' hone) hos

/-! ## The route -/

/-- The branches from the worst to the best. -/
def Nodes.Branch.rank : Branch → ℕ
  | dlq => 0
  | review => 1
  | deliver => 2

theorem branchOf_mono {c c' high medium : ℚ} (h : c ≤ c') :
    (branchOf c high medium).rank ≤ (branchOf c' high medium).rank := by
  unfold branchOf
  split_ifs with h₁ h₂ h₃ h₄ h₅ <;> try decide
  · exact absurd (h₁.trans h) h₂
  · exact absurd (h₁.trans h) h₂
  · exact absurd (h₄.trans h) ‹_›

/-- What `score_node` and `route_decision` make of a state. -/
structure Verdict where
  confidence : Option ℚ
  missingFields : Option (List String)
  branch : Branch
  deriving DecidableEq

/-- `score_node`, then `route_decision`. -/
def scoreAndRoute (s : ExtractionState) : Except String Verdict :=
  (scoreNode s).result.map fun u =>
    { confidence := u.confidence
      missingFields := u.missingFields
      branch := routeDecision (s.update u) }

/-- Where both states are scored, neither the confidence nor the branch of the
    second is lower. -/
def NotLower (st st' : ExtractionState) : Prop :=
  ∀ v v', scoreAndRoute st = .ok v → scoreAndRoute st' = .ok v' →
    (∀ c c', v.confidence = some c → v'.confidence = some c' → c ≤ c') ∧
      v.branch.rank ≤ v'.branch.rank

section
variable {s : ExtractionState} {extracted extracted' : Obj} {required : List String}
  {jsonSchema : Obj} {llm llm' mult mult' high medium : ℚ}

/-- A halted state is not scored, and goes to the dead letters. -/
theorem scoreAndRoute_halted (hs : halted s = true) :
    scoreAndRoute s = .ok { confidence := none, missingFields := none, branch := .dlq } := by
  rw [scoreAndRoute, scoreNode, if_pos hs]
  simp only [Except.map, ExtractionState.update_empty, routeDecision, hs, if_true]

/-- Whatever the signals of a halted state are. -/
theorem scoreAndRoute_withSignals_halted (hs : halted s = true) :
    scoreAndRoute (s.withSignals extracted required jsonSchema llm mult high medium) =
      .ok { confidence := none, missingFields := none, branch := .dlq } :=
  scoreAndRoute_halted hs

/-- What `score_node` writes of a state that is not halted. -/
theorem scoreNode_withSignals (hs : halted s = false) :
    (scoreNode (s.withSignals extracted required jsonSchema llm mult high medium)).result =
      (propertyCount jsonSchema).map fun props =>
        scored (s.withSignals extracted required jsonSchema llm mult high medium) props := by
  have hhalt : halted (s.withSignals extracted required jsonSchema llm mult high medium) = false := hs
  have hschema : (s.withSignals extracted required jsonSchema llm mult high medium).jsonSchema.getD []
      = jsonSchema := rfl
  rw [scoreNode, if_neg (by simp [hhalt]), hschema]
  cases propertyCount jsonSchema <;> rfl

/-- The verdict on a state that is not halted. -/
theorem scoreAndRoute_withSignals (hs : halted s = false) :
    scoreAndRoute (s.withSignals extracted required jsonSchema llm mult high medium) =
      (propertyCount jsonSchema).map fun props =>
        { confidence := some (breakdown extracted required props llm mult).guardrailAdjusted
          missingFields := some (missingRequired extracted required)
          branch :=
            branchOf (breakdown extracted required props llm mult).guardrailAdjusted high medium } := by
  rw [scoreAndRoute, scoreNode_withSignals hs]
  cases propertyCount jsonSchema <;> rfl

theorem notLower_of_breakdown (h : ∀ props, propertyCount jsonSchema = .ok props →
      (breakdown extracted required props llm mult).guardrailAdjusted ≤
        (breakdown extracted' required props llm' mult').guardrailAdjusted) :
    NotLower (s.withSignals extracted required jsonSchema llm mult high medium)
      (s.withSignals extracted' required jsonSchema llm' mult' high medium) := by
  intro v v' hv hv'
  cases hs : halted s with
  | true =>
    rw [scoreAndRoute_withSignals_halted hs] at hv
    cases hv
    exact ⟨fun c _ hc => absurd hc (by simp), Nat.zero_le _⟩
  | false =>
    rw [scoreAndRoute_withSignals hs] at hv hv'
    cases hp : propertyCount jsonSchema with
    | error e => rw [hp] at hv; cases hv
    | ok props =>
      rw [hp] at hv hv'
      cases hv
      cases hv'
      refine ⟨?_, branchOf_mono (h props hp)⟩
      rintro c c' hc hc'
      cases hc
      cases hc'
      exact h props hp

/-- With the same signals but more fields present, or a higher multiplier, the
    score is not lower. -/
theorem breakdown_mono {props : ℕ} (hllm : 0 ≤ llm) (hm : 0 ≤ mult) (hmm : mult ≤ mult')
    (hc : completenessScore extracted required ≤ completenessScore extracted' required)
    (hlen : extracted.length ≤ extracted'.length) :
    (breakdown extracted required props llm mult).guardrailAdjusted ≤
      (breakdown extracted' required props llm mult').guardrailAdjusted := by
  have hc₀ := (completenessScore_mem_unit extracted' required).1
  have hf₀ := (fillRate_mem_unit props extracted').1
  have hf := fillRate_mono props hlen
  have hl₀ : 0 ≤ llmSignal llm (completenessScore extracted' required) (fillRate props extracted') := by
    unfold llmSignal
    split_ifs
    · exact hllm
    · exact le_min hc₀ hf₀
  exact (score_mono (llmSignal_mono hc hf) hc hf hm).trans (score_mono_multiplier hl₀ hc₀ hf₀ hmm)

/-- The properties of the schema, where it has any, are an object. -/
def ObjectProperties (jsonSchema : Obj) : Prop :=
  ∀ v, jsonSchema.get? "properties" = some v → ∃ d, v = .obj d

theorem ObjectProperties.propertyCount (h : ObjectProperties jsonSchema) :
    ∃ props, Nodes.propertyCount jsonSchema = .ok props := by
  unfold Nodes.propertyCount
  cases hp : jsonSchema.get? "properties" with
  | none => exact ⟨0, rfl⟩
  | some v =>
    obtain ⟨d, rfl⟩ := h v hp
    exact ⟨d.length, rfl⟩

end

/-- **Scores are bounded and monotone.**  `score_node` divides by zero nowhere,
    its breakdown is in the unit interval with the score below each signal, and
    neither a present value for a key that had none nor the removal of a warning
    lowers the score or the route. -/
theorem scores_bounded_monotone (s : ExtractionState) (extracted : Obj) (required : List String)
    (jsonSchema : Obj) (llm high medium : ℚ) (outcomes : List GuardrailOutcome)
    (hprops : ObjectProperties jsonSchema) (hllm₀ : 0 ≤ llm) (hllm₁ : llm ≤ 1)
    (hwarn : WarnsInUnit outcomes) :
    (∃ u, (Checked.scoreNode (s.withSignals extracted required jsonSchema llm
          (aggregateMultiplier outcomes) high medium)).result = .ok u ∧
        (u.confidenceBreakdown = none ↔ halted s = true) ∧
        u.confidence = u.confidenceBreakdown.map (·.guardrailAdjusted) ∧
        ∀ b, u.confidenceBreakdown = some b → b.Bounded) ∧
      (∀ k v, extracted.get? k = none → isPresent (some v) = true →
        NotLower
          (s.withSignals extracted required jsonSchema llm (aggregateMultiplier outcomes) high medium)
          (s.withSignals (extracted.set k v) required jsonSchema llm (aggregateMultiplier outcomes)
            high medium)) ∧
      ∀ before o after, outcomes = before ++ o :: after → o.result = .warn →
        NotLower
          (s.withSignals extracted required jsonSchema llm (aggregateMultiplier outcomes) high medium)
          (s.withSignals extracted required jsonSchema llm (aggregateMultiplier (before ++ after))
            high medium) := by
  have hm := multiplier_mem_unit hwarn
  refine ⟨?_, ?_, ?_⟩
  · obtain ⟨props, hp⟩ := hprops.propertyCount
    rw [Checked.scoreNode_eq]
    by_cases hs : halted s = true
    · exact ⟨{}, congrArg NodeRun.result (if_pos hs), by simp [hs], rfl, fun b hb => by cases hb⟩
    · rw [Bool.not_eq_true] at hs
      rw [scoreNode_withSignals hs, hp]
      refine ⟨_, rfl, by simp [scored, hs], rfl, ?_⟩
      rintro b hb
      cases hb
      have hc := completenessScore_mem_unit extracted required
      have hf := fillRate_mem_unit props extracted
      exact score_bounded (llmSignal_mem_unit hllm₀ hllm₁ hc.1 hf.1 hf.2) hc hf hm
  · intro k v hk hv
    refine notLower_of_breakdown fun props _ =>
      breakdown_mono hllm₀ hm.1 le_rfl (completenessScore_le_set hv) ?_
    rw [length_set_of_absent hk]
    exact Nat.le_succ _
  · rintro before o after rfl ho
    exact notLower_of_breakdown fun props _ =>
      breakdown_mono hllm₀ hm.1 (multiplier_le_of_removed hwarn ho) le_rfl le_rfl

/-- An invoice that gains its number, and loses a warning. -/
theorem scores_bounded_monotone_invoice :
    NotLower (ExtractionState.withSignals {} numberless invoiceRequired invoiceSchema (19 / 20)
        (aggregateMultiplier [GuardrailBase.warn "text_quality" "low word count: 3 < 20"])
        (17 / 20) (3 / 5))
      (ExtractionState.withSignals {} (numberless.set "invoiceNumber" (.str "INV-1"))
        invoiceRequired invoiceSchema (19 / 20)
        (aggregateMultiplier [GuardrailBase.warn "text_quality" "low word count: 3 < 20"])
        (17 / 20) (3 / 5)) := by
  refine (scores_bounded_monotone {} numberless invoiceRequired invoiceSchema (19 / 20) (17 / 20)
    (3 / 5) [GuardrailBase.warn "text_quality" "low word count: 3 < 20"] ?_ (by norm_num)
    (by norm_num) ?_).2.1 "invoiceNumber" (.str "INV-1") (by decide) (by decide)
  · intro v hv
    exact ⟨_, (Option.some.inj hv).symm⟩
  · intro o ho _
    rw [List.mem_singleton.1 ho]
    exact ⟨by norm_num [GuardrailBase.warn, warnMultiplier],
      by norm_num [GuardrailBase.warn, warnMultiplier]⟩

/-! ## The self-report -/

/-- A self-report of `0` counts as absent: the score is that of a self-report
    of `1`. -/
theorem breakdown_zero_eq_one (extracted : Obj) (required : List String) (props : ℕ) (mult : ℚ) :
    (breakdown extracted required props 0 mult).guardrailAdjusted =
      (breakdown extracted required props 1 mult).guardrailAdjusted := by
  have hc := (completenessScore_mem_unit extracted required).2
  have hmin : ∀ c f : ℚ, min (min (min c f) c) f = min c f := fun c f => by
    rw [min_eq_left (min_le_left c f), min_eq_left (min_le_right c f)]
  simp only [breakdown, score, llmSignal, lt_irrefl, if_false, zero_lt_one, if_true]
  rw [hmin, min_eq_right hc]

/-- **A lower self-report never scores higher**, where it is one: a self-report
    of `0` is scored and routed as one of `1`. -/
theorem lower_self_report_not_above (s : ExtractionState) (extracted : Obj) (required : List String)
    (jsonSchema : Obj) (mult high medium a b : ℚ) (hm : 0 ≤ mult) :
    (0 < a → a ≤ b →
      NotLower (s.withSignals extracted required jsonSchema a mult high medium)
        (s.withSignals extracted required jsonSchema b mult high medium)) ∧
      scoreAndRoute (s.withSignals extracted required jsonSchema 0 mult high medium) =
        scoreAndRoute (s.withSignals extracted required jsonSchema 1 mult high medium) := by
  refine ⟨fun ha hab => ?_, ?_⟩
  · refine notLower_of_breakdown fun props _ => score_mono ?_ le_rfl le_rfl hm
    rw [llmSignal, llmSignal, if_pos ha, if_pos (ha.trans_le hab)]
    exact hab
  · cases hs : halted s with
    | true => rw [scoreAndRoute_withSignals_halted hs, scoreAndRoute_withSignals_halted hs]
    | false => simp only [scoreAndRoute_withSignals hs, breakdown_zero_eq_one]

/-- An invoice whose model is sure by a half, or by nine tenths. -/
theorem lower_self_report_not_above_invoice :
    NotLower (ExtractionState.withSignals {} numberless invoiceRequired invoiceSchema (1 / 2) 1
        (17 / 20) (3 / 5))
      (ExtractionState.withSignals {} numberless invoiceRequired invoiceSchema (9 / 10) 1 (17 / 20)
        (3 / 5)) :=
  (lower_self_report_not_above {} numberless invoiceRequired invoiceSchema 1 (17 / 20) (3 / 5)
    (1 / 2) (9 / 10) (by norm_num)).1 (by norm_num) (by norm_num)

/-- Without a self-report the invoice goes to review; with one of a half, to the
    dead letters. -/
theorem absent_self_report_scores_higher :
    scoreAndRoute (ExtractionState.withSignals {} numberless invoiceRequired invoiceSchema 0 1
        (17 / 20) (3 / 5)) =
      .ok { confidence := some (4 / 5), missingFields := some ["invoiceNumber"], branch := .review } ∧
    scoreAndRoute (ExtractionState.withSignals {} numberless invoiceRequired invoiceSchema (1 / 2) 1
        (17 / 20) (3 / 5)) =
      .ok { confidence := some (1 / 2), missingFields := some ["invoiceNumber"], branch := .dlq } ∧
    ¬ NotLower
      (ExtractionState.withSignals {} numberless invoiceRequired invoiceSchema 0 1 (17 / 20) (3 / 5))
      (ExtractionState.withSignals {} numberless invoiceRequired invoiceSchema (1 / 2) 1 (17 / 20)
        (3 / 5)) := by
  have habsent : scoreAndRoute (ExtractionState.withSignals {} numberless invoiceRequired
      invoiceSchema 0 1 (17 / 20) (3 / 5)) = .ok { confidence := some (4 / 5)
                                                   missingFields := some ["invoiceNumber"]
                                                   branch := .review } :=
    (scoreAndRoute_withSignals rfl).trans (by decide +kernel)
  have hhalf : scoreAndRoute (ExtractionState.withSignals {} numberless invoiceRequired
      invoiceSchema (1 / 2) 1 (17 / 20) (3 / 5)) = .ok { confidence := some (1 / 2)
                                                         missingFields := some ["invoiceNumber"]
                                                         branch := .dlq } :=
    (scoreAndRoute_withSignals rfl).trans (by decide +kernel)
  refine ⟨habsent, hhalf, fun h => ?_⟩
  exact absurd (h _ _ habsent hhalf).2 (by decide)

end OcrService
