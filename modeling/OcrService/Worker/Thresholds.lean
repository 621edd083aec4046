/-
  Thresholds and rounding.

  The confidence is rounded to four decimals before it is routed, and to three
  in its column; the thresholds of a schema, given as floats, are rounded to
  three decimals in theirs.

  * `rounding_keeps_branch_iff`: the confidences that no rounding moves over a
    threshold;
  * `thresholds_storable_iff`: the accepted thresholds that their columns keep
    apart.
-/
import OcrService.Pipeline.Scores
import OcrService.Pipeline.Retry
import OcrService.Worker.Runner
import OcrService.Services.SchemaRegistry

namespace OcrService

open PyData Nodes Decimal

/-! ## The three confidences -/

/-- The confidence before any rounding. -/
def exactConfidence (llm completeness semantic mult : ℚ) : ℚ :=
  min (min llm completeness) semantic * mult

/-- A value of a `NUMERIC(4,3)` column. -/
def ThreeDecimals (q : ℚ) : Prop := ∃ k : ℕ, q = k / 1000

/-- The state `s` after `score_node`. -/
def ExtractionState.withScore (s : ExtractionState) (b : ConfidenceBreakdown) (high medium : ℚ) :
    ExtractionState :=
  { s with
    status := some .routing, confidence := some b.guardrailAdjusted, confidenceBreakdown := some b
    confidenceHigh := some high, confidenceMedium := some medium }

/-- The exact, the routed and the stored confidence are on one branch, so that
    the row's confidence justifies its routing decision. -/
structure SameBranch (s : ExtractionState) (document : Document)
    (llm completeness semantic mult high medium : ℚ) : Prop where
  routed :
    routeDecision (s.withScore (score llm completeness semantic mult) high medium) =
      branchOf (exactConfidence llm completeness semantic mult) high medium
  stored : ∃ q,
    (persistedDocument document
      (settle (s.withScore (score llm completeness semantic mult) high medium))).stored.confidenceOverall =
        some q ∧
    (persistedDocument document
      (settle (s.withScore (score llm completeness semantic mult) high medium))).stored.routingDecision =
        some (branchOf q high medium).decision

theorem exactConfidence_mem_unit {llm completeness semantic mult : ℚ} (hl : 0 ≤ llm)
    (hc : 0 ≤ completeness) (hs : 0 ≤ semantic) (hc' : completeness ≤ 1) (hm : 0 ≤ mult)
    (hm' : mult ≤ 1) :
    0 ≤ exactConfidence llm completeness semantic mult ∧
      exactConfidence llm completeness semantic mult ≤ 1 := by
  have h0 : 0 ≤ min (min llm completeness) semantic := le_min (le_min hl hc) hs
  have h1 : min (min llm completeness) semantic ≤ 1 :=
    (min_le_left _ _).trans ((min_le_right _ _).trans hc')
  exact ⟨mul_nonneg h0 hm, mul_le_one₀ h1 hm hm'⟩

/-! ## One threshold -/

/-- The rounded confidence reaches a threshold from half a unit below. -/
theorem le_round_four_iff (k : ℕ) (x : ℚ) :
    (k : ℚ) / 1000 ≤ round 4 x ↔ (k : ℚ) / 1000 - 1 / 20000 ≤ x := by
  have hk : (k : ℚ) / 1000 = ((10 * k : ℤ) : ℚ) / 10 ^ 4 := by push_cast; ring
  rw [hk, le_round_iff, le_halfEven_iff]
  push_cast
  constructor
  · rintro (h | ⟨h, -⟩) <;> linarith
  · intro h
    rcases h.lt_or_eq with h | h
    · exact Or.inl (by linarith)
    · exact Or.inr ⟨by linarith, by omega⟩

/-- The stored confidence reaches a threshold from a half of its own unit and a
    half of the score's below; the tie of the score goes down. -/
theorem le_numeric_round_iff {k : ℕ} (hk : 0 < k) (x : ℚ) :
    (k : ℚ) / 1000 ≤ numeric 3 (round 4 x) ↔ (k : ℚ) / 1000 - 11 / 20000 < x := by
  have hthree : (k : ℚ) / 1000 = ((k : ℤ) : ℚ) / 10 ^ 3 := by push_cast; ring
  have hfour : (((k : ℤ) : ℚ) - 1 / 2 ≤ round 4 x * 10 ^ 3) ↔
      ((10 * k - 5 : ℤ) : ℚ) / 10 ^ 4 ≤ round 4 x := by
    push_cast
    constructor <;> intro h <;> linarith
  rw [hthree, le_numeric_iff, le_halfAway_iff (by omega), hfour, le_round_iff, le_halfEven_iff]
  push_cast
  constructor
  · rintro (h | ⟨-, h⟩)
    · linarith
    · omega
  · intro h
    exact Or.inl (by linarith)

/-- The three confidences are on one side of a threshold unless the exact one is
    just below it. -/
theorem same_side_iff {t x : ℚ} (ht : ThreeDecimals t) (hx : 0 ≤ x) (hx' : x ≤ 1) :
    ((t ≤ x ↔ t ≤ round 4 x) ∧ (t ≤ numeric 3 (round 4 x) ↔ t ≤ round 4 x)) ↔
      ¬ (t - 11 / 20000 < x ∧ x < t) := by
  obtain ⟨k, rfl⟩ := ht
  rcases Nat.eq_zero_or_pos k with rfl | hk
  · have hr := round_mem_unit 4 hx hx'
    have hn := numeric_mem_unit 3 hr.1 hr.2
    simp [hx, hr.1, hn.1]
  · rw [le_round_four_iff, le_numeric_round_iff hk]
    constructor
    · rintro ⟨h₁, h₂⟩ ⟨hlow, hupp⟩
      exact absurd (h₁.2 (h₂.1 hlow)) (not_le.2 hupp)
    · intro h
      rcases lt_or_ge x ((k : ℚ) / 1000) with hlt | hge
      · -- below the threshold, so below by more than both roundings
        have hlow : x ≤ (k : ℚ) / 1000 - 11 / 20000 := by
          by_contra hgt
          exact h ⟨not_le.1 hgt, hlt⟩
        constructor <;> constructor <;> intro h' <;> linarith
      · constructor <;> constructor <;> intro _ <;> linarith

/-! ## The branch -/

theorem branchOf_eq_iff {x y high medium : ℚ} (ht : medium < high) :
    branchOf x high medium = branchOf y high medium ↔ (high ≤ x ↔ high ≤ y) ∧ (medium ≤ x ↔ medium ≤ y) := by
  have hx : high ≤ x → medium ≤ x := ht.le.trans
  have hy : high ≤ y → medium ≤ y := ht.le.trans
  unfold branchOf
  by_cases h₁ : high ≤ x <;> by_cases h₂ : high ≤ y
  · simp [h₁, h₂, hx h₁, hy h₂]
  · by_cases h₃ : medium ≤ y <;> simp [h₁, h₂, h₃]
  · by_cases h₃ : medium ≤ x <;> simp [h₁, h₂, h₃]
  · by_cases h₃ : medium ≤ x <;> by_cases h₄ : medium ≤ y <;> simp [h₁, h₂, h₃, h₄]

/-- **Rounding keeps the branch** iff the exact confidence is not within `0.00055`
    below a threshold. -/
theorem rounding_keeps_branch_iff (s : ExtractionState) (document : Document)
    (llm completeness semantic mult high medium : ℚ) (hl : 0 ≤ llm ∧ llm ≤ 1)
    (hc : 0 ≤ completeness ∧ completeness ≤ 1) (hs : 0 ≤ semantic ∧ semantic ≤ 1)
    (hm : 0 < mult ∧ mult ≤ 1) (hhigh : ThreeDecimals high) (hmedium : ThreeDecimals medium)
    (hlt : medium < high) :
    SameBranch s document llm completeness semantic mult high medium ↔
      ∀ t, t = high ∨ t = medium →
        ¬ (t - 11 / 20000 < min (min llm completeness) semantic * mult ∧
          min (min llm completeness) semantic * mult < t) := by
  set x := exactConfidence llm completeness semantic mult with hxdef
  obtain ⟨hx, hx'⟩ := exactConfidence_mem_unit hl.1 hc.1 hs.1 hc.2 hm.1.le hm.2
  have hroute : routeDecision (s.withScore (score llm completeness semantic mult) high medium) =
      branchOf (round 4 x) high medium := rfl
  have hconf : (persistedDocument document
      (settle (s.withScore (score llm completeness semantic mult) high medium))).stored.confidenceOverall =
        some (numeric 3 (round 4 x)) := by
    simp only [Document.stored, persistedDocument, settle_confidence]
    rfl
  have hdec : (persistedDocument document
      (settle (s.withScore (score llm completeness semantic mult) high medium))).stored.routingDecision =
        some (branchOf (round 4 x) high medium).decision := by
    simp only [Document.stored, persistedDocument, settle_routingDecision, hroute]
  have hsame : SameBranch s document llm completeness semantic mult high medium ↔
      branchOf x high medium = branchOf (round 4 x) high medium ∧
        branchOf (numeric 3 (round 4 x)) high medium = branchOf (round 4 x) high medium := by
    constructor
    · rintro ⟨hr, q, hq, hd⟩
      rw [hconf, Option.some.injEq] at hq
      rw [hdec, Option.some.injEq, ← hq] at hd
      exact ⟨(hroute.symm.trans hr).symm, (decision_injective.1 hd).symm⟩
    · rintro ⟨h₁, h₂⟩
      exact ⟨hroute.trans h₁.symm, _, hconf, by rw [hdec, h₂]⟩
  rw [hsame, branchOf_eq_iff hlt, branchOf_eq_iff hlt]
  have hh := same_side_iff hhigh hx hx'
  have hmm := same_side_iff hmedium hx hx'
  constructor
  · rintro ⟨⟨h₁, m₁⟩, h₂, m₂⟩ t (rfl | rfl)
    · exact hh.1 ⟨h₁, h₂⟩
    · exact hmm.1 ⟨m₁, m₂⟩
  · intro h
    obtain ⟨h₁, h₂⟩ := hh.2 (h high (Or.inl rfl))
    obtain ⟨m₁, m₂⟩ := hmm.2 (h medium (Or.inr rfl))
    exact ⟨⟨h₁, m₁⟩, h₂, m₂⟩

/-- A document that no rounding moves. -/
theorem rounding_keeps_branch_iff_invoice :
    SameBranch {} Sample.document (9 / 10) 1 1 (4 / 5) (17 / 20) (3 / 5) :=
  (rounding_keeps_branch_iff {} Sample.document (9 / 10) 1 1 (4 / 5) (17 / 20) (3 / 5) (by norm_num)
    (by norm_num) (by norm_num) (by norm_num) ⟨850, by norm_num⟩ ⟨600, by norm_num⟩
    (by norm_num)).2 fun t ht => by
      rcases ht with rfl | rfl <;> norm_num

/-- A confidence of `0.8496` goes to review, and is stored as the threshold
    `0.850` of the high tier. -/
theorem rounding_moves_the_branch :
    ∃ document, (persistedDocument document
        (settle (ExtractionState.withScore {} (score (1062 / 1250) 1 1 1) (17 / 20)
          (3 / 5)))).stored.confidenceOverall = some (17 / 20) ∧
      (persistedDocument document
        (settle (ExtractionState.withScore {} (score (1062 / 1250) 1 1 1) (17 / 20)
          (3 / 5)))).stored.routingDecision = some .medium ∧
      ¬ SameBranch {} document (1062 / 1250) 1 1 1 (17 / 20) (3 / 5) := by
  set document : Document :=
    { id := default, tenantId := default, schemaId := default, schemaVersion := 1 }
  have hconf : (persistedDocument document (settle (ExtractionState.withScore {}
      (score (1062 / 1250) 1 1 1) (17 / 20) (3 / 5)))).stored.confidenceOverall = some (17 / 20) := by
    decide +kernel
  have hdec : (persistedDocument document (settle (ExtractionState.withScore {}
      (score (1062 / 1250) 1 1 1) (17 / 20) (3 / 5)))).stored.routingDecision = some .medium := by
    decide +kernel
  refine ⟨document, hconf, hdec, ?_⟩
  rintro ⟨-, q, hq, hd⟩
  rw [hconf, Option.some.injEq] at hq
  rw [hdec, ← hq] at hd
  revert hd
  decide +kernel

/-! ## The thresholds of a schema -/

/-- What `SchemaBase` asks of the thresholds: the bounds of the two fields and
    `validate_thresholds`. -/
structure ThresholdsAccepted (high medium : ℚ) : Prop where
  high_pos : 0 < high
  high_le_one : high ≤ 1
  medium_nonneg : 0 ≤ medium
  medium_lt_one : medium < 1
  medium_lt_high : medium < high

/-- The CHECK constraints of `schemas` on the thresholds. -/
structure ThresholdChecks (high medium : ℚ) : Prop where
  medium_nonneg : 0 ≤ medium
  medium_lt_high : medium < high
  high_le_one : high ≤ 1

/-- A row that the table accepts satisfies the constraints. -/
theorem Schema.Storable.thresholdChecks {r : Schema} (h : r.Storable) :
    ThresholdChecks r.stored.confidenceHigh r.stored.confidenceMedium := by
  obtain ⟨-, -, -, -, -, -, h₀, hlt, h₁, -, -⟩ := h
  exact ⟨h₀, hlt, h₁⟩

/-- `schema` is a row that `create_schema` or `update_schema` writes for the
    payload. -/
inductive WritesSchema (payload : SchemaPayload) : Schema → Prop
  | create {db : Db} {tenantId id : Uuid} {schema : Schema} :
      createSchema db tenantId id payload = some schema → WritesSchema payload schema
  | update (schema : Schema) : WritesSchema payload (updateSchema schema payload)

theorem WritesSchema.thresholds {payload : SchemaPayload} {schema : Schema}
    (h : WritesSchema payload schema) :
    schema.confidenceHigh = payload.confidenceHigh ∧
      schema.confidenceMedium = payload.confidenceMedium := by
  cases h with
  | create hc =>
    unfold createSchema at hc
    split_ifs at hc
    rw [← Option.some.inj hc]
    exact ⟨rfl, rfl⟩
  | update schema => exact ⟨rfl, rfl⟩

/-- Rounding keeps two numbers apart iff the middle between two neighbours of
    the grid separates them. -/
theorem numeric_lt_numeric_iff {x y : ℚ} (hx : 0 ≤ x) :
    numeric 3 x < numeric 3 y ↔ ∃ k : ℕ, x < (2 * k + 1) / 2000 ∧ (2 * k + 1) / 2000 ≤ y := by
  have hround : ∀ (k : ℕ) (q : ℚ), ((k + 1 : ℕ) : ℤ) ≤ halfAway (q * 10 ^ 3) ↔
      ((2 * k + 1) / 2000 : ℚ) ≤ q := by
    intro k q
    rw [le_halfAway_iff (by omega)]
    push_cast
    constructor <;> intro h <;> linarith
  have hlt : numeric 3 x < numeric 3 y ↔ halfAway (x * 10 ^ 3) < halfAway (y * 10 ^ 3) := by
    rw [numeric, numeric, div_lt_div_iff_of_pos_right (by positivity), Int.cast_lt]
  rw [hlt]
  constructor
  · intro h
    have hpos : 0 ≤ halfAway (x * 10 ^ 3) := by
      have hmono := halfAway_mono (show (0 : ℚ) ≤ x * 10 ^ 3 by positivity)
      rwa [show halfAway 0 = 0 from by simpa using halfAway_intCast 0] at hmono
    obtain ⟨k, hk⟩ := Int.eq_ofNat_of_zero_le hpos
    refine ⟨k, ?_, (hround k y).1 (by omega)⟩
    by_contra hle
    have hreach := (hround k x).2 (not_lt.1 hle)
    omega
  · rintro ⟨k, hkx, hky⟩
    have hy := (hround k y).2 hky
    by_contra hle
    exact absurd ((hround k x).1 (hy.trans (not_lt.1 hle))) (not_le.2 hkx)

/-- **The accepted thresholds are storable**, and valid when read back, iff an
    odd multiple of `0.0005` separates them. -/
theorem thresholds_storable_iff (payload : SchemaPayload)
    (h : ThresholdsAccepted payload.confidenceHigh payload.confidenceMedium) :
    (∀ schema, WritesSchema payload schema →
        ThresholdChecks schema.stored.confidenceHigh schema.stored.confidenceMedium ∧
          ThresholdsAccepted schema.stored.confidenceHigh schema.stored.confidenceMedium) ↔
      ∃ k : ℕ, payload.confidenceMedium < (2 * k + 1) / 2000 ∧
        (2 * k + 1) / 2000 ≤ payload.confidenceHigh := by
  rw [← numeric_lt_numeric_iff h.medium_nonneg]
  constructor
  · intro hall
    have hrow := (hall _ (.update
      { id := default, tenantId := default, name := payload.name, jsonSchema := [] })).1.medium_lt_high
    exact hrow
  · intro hlt schema hw
    obtain ⟨hhigh, hmedium⟩ := hw.thresholds
    have hm := (numeric_mem_unit 3 h.medium_nonneg h.medium_lt_one.le).1
    have hh := (numeric_mem_unit 3 h.high_pos.le h.high_le_one).2
    simp only [Schema.stored, hhigh, hmedium]
    exact ⟨⟨hm, hlt, hh⟩, hm.trans_lt hlt, hh, hm, hlt.trans_le hh, hlt⟩

/-- Thresholds that are stored as `0.601` and `0.599`. -/
def roundedThresholds : SchemaPayload :=
  { name := "invoice", jsonSchema := []
    confidenceHigh := 6006 / 10000, confidenceMedium := 5994 / 10000 }

/-- Both are rounded, and `0.6005` stays between them. -/
theorem thresholds_storable_iff_rounded :
    ∃ schema, createSchema {} default default roundedThresholds = some schema ∧
      schema.stored.confidenceHigh = 601 / 1000 ∧ schema.stored.confidenceMedium = 599 / 1000 ∧
        ThresholdChecks schema.stored.confidenceHigh schema.stored.confidenceMedium ∧
          ThresholdsAccepted schema.stored.confidenceHigh schema.stored.confidenceMedium := by
  have haccepted :
      ThresholdsAccepted roundedThresholds.confidenceHigh roundedThresholds.confidenceMedium := by
    constructor <;> norm_num [roundedThresholds]
  refine ⟨_, rfl, by decide +kernel, by decide +kernel, (thresholds_storable_iff _ haccepted).2 ?_ _
    (@WritesSchema.create _ {} default default _ rfl)⟩
  refine ⟨600, ?_, ?_⟩ <;> norm_num [roundedThresholds]

/-- Thresholds that are both stored as `0.600`. -/
def closeThresholds : SchemaPayload :=
  { name := "invoice", jsonSchema := []
    confidenceHigh := 6001 / 10000, confidenceMedium := 5999 / 10000 }

/-- They are accepted, and the row of `create_schema` is refused. -/
theorem close_thresholds_not_storable :
    ThresholdsAccepted closeThresholds.confidenceHigh closeThresholds.confidenceMedium ∧
      (∃ schema, createSchema {} default default closeThresholds = some schema) ∧
      ∀ schema, WritesSchema closeThresholds schema →
        ¬ ThresholdChecks schema.stored.confidenceHigh schema.stored.confidenceMedium ∧
          ¬ schema.Storable := by
  refine ⟨⟨?_, ?_, ?_, ?_, ?_⟩, ⟨_, rfl⟩, fun schema hw => ?_⟩
  iterate 5 norm_num [closeThresholds]
  obtain ⟨hhigh, hmedium⟩ := hw.thresholds
  have hchecks : ¬ ThresholdChecks schema.stored.confidenceHigh schema.stored.confidenceMedium := by
    intro hc
    have hlt := hc.medium_lt_high
    simp only [Schema.stored, hhigh, hmedium] at hlt
    revert hlt
    decide +kernel
  exact ⟨hchecks, fun hs => hchecks hs.thresholdChecks⟩

end OcrService
