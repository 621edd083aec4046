/-
  Input guardrails (`app/domain/guardrails/`): the outcome type, the two
  shipped guardrails and the runner.

  The `re` engine and `str.isprintable` are the fields of `TextTools`.
-/
import OcrService.Lib.PyStr
import OcrService.Lib.Decimal

namespace OcrService

open PyStr

inductive GuardrailResult
  | pass | warn | block
  deriving DecidableEq

structure GuardrailOutcome where
  name : String
  result : GuardrailResult
  detail : Option String := none
  confidenceMultiplier : ℚ := 1
  deriving DecidableEq

/-- `WARN_MULTIPLIER`. -/
def warnMultiplier : ℚ := 4 / 5

/-- A guardrail: its name and its `run`. -/
structure Guardrail where
  name : String
  run : String → GuardrailOutcome

namespace GuardrailBase

def pass (name : String) : GuardrailOutcome := { name, result := .pass }

def warn (name detail : String) (multiplier : ℚ := warnMultiplier) : GuardrailOutcome :=
  { name, result := .warn, detail := some detail, confidenceMultiplier := multiplier }

def block (name detail : String) : GuardrailOutcome :=
  { name, result := .block, detail := some detail }

end GuardrailBase

/-- `aggregate_multiplier`: the product of the WARN multipliers. -/
def aggregateMultiplier (outcomes : List GuardrailOutcome) : ℚ :=
  Decimal.round 4 ((outcomes.filter fun o => o.result = .warn).map fun o => o.confidenceMultiplier).prod

/-- The parts of the Python library that the guardrails use. -/
structure TextTools where
  /-- `match.group(0)` of the first pattern of `_PATTERNS` that matches -/
  search : String → Option (List Char)
  /-- `str.isprintable` on one character -/
  printable : Char → Bool

/-- `InjectionGuardrail`. -/
def injectionGuardrail (T : TextTools) : Guardrail where
  name := "injection"
  run text :=
    match T.search text with
    | some found => GuardrailBase.block "injection" ("prompt-injection pattern matched: " ++
        String.ofList (PyStr.repr T.printable (found.take 60)))
    | none => GuardrailBase.pass "injection"

def minWords : ℕ := 20

/-- `_MIN_PRINTABLE_RATIO`. -/
def minPrintableRatio : ℚ := 4 / 5

/-- `f"{ratio:.2f}"` for a ratio below one. -/
def formatRatio (ratio : ℚ) : String :=
  let n := (Decimal.halfEven (ratio * 100)).toNat
  "0." ++ String.ofList [hexDigit (n / 10 % 10), hexDigit (n % 10)]

/-- `TextQualityGuardrail`. -/
def textQualityGuardrail (T : TextTools) : Guardrail where
  name := "text_quality"
  run text :=
    let stripped := strip text.toList
    if stripped = [] then GuardrailBase.block "text_quality" "parsed text is empty"
    else
      let words := split stripped
      if words.length < minWords then
        GuardrailBase.warn "text_quality"
          ("low word count: " ++ toString words.length ++ " < " ++ toString minWords)
      else
        let ratio : ℚ := (stripped.countP fun c => T.printable c || isSpace c) / stripped.length
        if ratio < minPrintableRatio then
          GuardrailBase.warn "text_quality" ("low printable ratio: " ++ formatRatio ratio)
        else GuardrailBase.pass "text_quality"

/-- `DEFAULT_GUARDRAILS`. -/
def defaultGuardrails (T : TextTools) : List Guardrail :=
  [injectionGuardrail T, textQualityGuardrail T]

/-- `run_guardrails`. -/
def runGuardrails (T : TextTools) (text : String) : List GuardrailOutcome :=
  (defaultGuardrails T).map fun g => g.run text

/-! ## What the shipped guardrails return -/

/-- What the columns of `guardrail_reports` accept: a multiplier in `(0, 1]`
    and a detail without U+0000. -/
def GuardrailOutcome.Storable (o : GuardrailOutcome) : Prop :=
  (o.confidenceMultiplier = 1 ∨ o.confidenceMultiplier = warnMultiplier) ∧
    ∀ detail, o.detail = some detail → NulFree detail

theorem nulFree_toString (n : ℕ) : NulFree (toString n) := by
  intro h
  rw [show toString n = Nat.repr n from rfl, Nat.repr, String.toList_ofList] at h
  have := Nat.isDigit_of_mem_toDigits (by decide) (by decide) h
  revert this; decide

theorem nulFree_formatRatio (ratio : ℚ) : NulFree (formatRatio ratio) := by
  unfold formatRatio
  refine nulFree_append.2 ⟨by decide, ?_⟩
  have h : ∀ n, nul ≠ hexDigit (n % 10) := fun n =>
    (hexDigit_ne_nul _ (by omega)).symm
  simp only [NulFree, String.toList_ofList, List.mem_cons, List.not_mem_nil, or_false, not_or]
  exact ⟨h _, h _⟩

theorem injectionGuardrail_storable (T : TextTools) (text : String) :
    ((injectionGuardrail T).run text).Storable := by
  simp only [injectionGuardrail]
  cases T.search text with
  | none => exact ⟨Or.inl rfl, fun _ h => by cases h⟩
  | some found =>
    refine ⟨Or.inl rfl, fun detail h => ?_⟩
    cases h
    refine nulFree_append.2 ⟨by decide, ?_⟩
    simpa [NulFree] using nul_notMem_repr T.printable (found.take 60)

theorem textQualityGuardrail_storable (T : TextTools) (text : String) :
    ((textQualityGuardrail T).run text).Storable := by
  simp only [textQualityGuardrail]
  split_ifs
  · exact ⟨Or.inl rfl, fun _ h => by cases h; decide⟩
  · refine ⟨Or.inr rfl, fun _ h => ?_⟩
    cases h
    simp only [nulFree_append]
    exact ⟨⟨⟨by decide, nulFree_toString _⟩, by decide⟩, nulFree_toString _⟩
  · refine ⟨Or.inr rfl, fun _ h => ?_⟩
    cases h
    exact nulFree_append.2 ⟨by decide, nulFree_formatRatio _⟩
  · exact ⟨Or.inl rfl, fun _ h => by cases h⟩

/-- **Every outcome of the shipped guardrails can be stored.** -/
theorem runGuardrails_storable (T : TextTools) (text : String) :
    ∀ o ∈ runGuardrails T text, o.Storable := by
  simp only [runGuardrails, defaultGuardrails, List.map_cons, List.map_nil, List.mem_cons,
    List.not_mem_nil, or_false]
  rintro o (rfl | rfl)
  · exact injectionGuardrail_storable T text
  · exact textQualityGuardrail_storable T text

/-- The aggregated multiplier of the shipped guardrails is in the unit interval. -/
theorem aggregateMultiplier_mem_unit {outcomes : List GuardrailOutcome}
    (h : ∀ o ∈ outcomes, o.Storable) :
    0 ≤ aggregateMultiplier outcomes ∧ aggregateMultiplier outcomes ≤ 1 := by
  have hprod : ∀ ms : List ℚ, (∀ m ∈ ms, 0 ≤ m ∧ m ≤ 1) → 0 ≤ ms.prod ∧ ms.prod ≤ 1 := by
    intro ms
    induction ms with
    | nil => intro _; simp
    | cons m ms ih =>
      intro hm
      obtain ⟨h0, h1⟩ := ih fun m' h' => hm m' (List.mem_cons_of_mem _ h')
      obtain ⟨hm0, hm1⟩ := hm m List.mem_cons_self
      rw [List.prod_cons]
      exact ⟨mul_nonneg hm0 h0, mul_le_one₀ hm1 h0 h1⟩
  have hms : ∀ m ∈ (outcomes.filter fun o => o.result = .warn).map fun o => o.confidenceMultiplier,
      0 ≤ m ∧ m ≤ 1 := by
    intro m hm
    obtain ⟨o, ho, rfl⟩ := List.mem_map.1 hm
    rcases (h o (List.mem_filter.1 ho).1).1 with hm | hm <;> rw [hm] <;>
      norm_num [warnMultiplier]
  obtain ⟨h0, h1⟩ := hprod _ hms
  exact Decimal.round_mem_unit 4 h0 h1

end OcrService
