/-
  Full marks for a perfect extraction.

  `build_output_model` offers the model a string for every property whose name
  is an identifier, and `create_model` refuses names with a leading underscore;
  `score_node` counts every property.  So a model that fills all that it is
  offered gets full marks iff every name is an identifier without one
  (`perfect_extraction_full_marks_iff`).
-/
import OcrService.Pipeline.Extraction
import OcrService.Pipeline.Scores

namespace OcrService

open PyData Nodes

def LeadingUnderscore (name : String) : Prop := name.toList.head? = some '_'

instance : DecidablePred LeadingUnderscore := fun _ => inferInstanceAs (Decidable (_ = _))

/-- `create_model` offers exactly the given names, and refuses those with a
    leading underscore. -/
structure CreatesModels (T : ChainTools) : Prop where
  offers : ∀ model names, (∀ n ∈ names, ¬ LeadingUnderscore n) → T.createModel model names = .ok names
  refuses : ∀ model names n, n ∈ names → LeadingUnderscore n →
    ∃ e, T.createModel model names = .error e

/-- The properties of a schema are a non-empty object of property objects. -/
structure DeclaresProperties (jsonSchema properties : Obj) : Prop where
  get : jsonSchema.get? "properties" = some (.obj properties)
  ne_nil : properties ≠ []
  objects : ∀ e ∈ properties, ∃ spec, e.2 = .obj spec

/-- The dump of the instance of the output model whose fields have the given
    values, with a confidence of `1`. -/
def filled (M : OutputModel) (value : String → String) (low missing : List String) : Obj :=
  [ ("fields", .obj (M.fields.map fun n => (n, .str (value n)))),
    ("confidence", .float 1),
    ("low_confidence_fields", .arr (low.map .str)),
    ("missing_fields", .arr (missing.map .str)) ]

/-- Completeness and fill rate are `1`, and so is the score without warnings. -/
structure FullMarks (x : LLMExtraction) (required : List String) (jsonSchema : Obj) : Prop where
  completeness : completenessScore x.fields required = 1
  fillRate : ∃ props, propertyCount jsonSchema = .ok props ∧ fillRate props x.fields = 1
  confidence : ∀ (s : ExtractionState) (high medium : ℚ), halted s = false → ∃ u,
    (scoreNode (s.withSignals x.fields required jsonSchema x.confidence 1 high medium)).result = .ok u ∧
      u.confidence = some 1

/-- A perfect extraction gets full marks: the output model is built, and every
    instance of it without a blank field is scored `1`. -/
def PerfectFullMarks (T : ChainTools) (jsonSchema : Obj) (required : List String) : Prop :=
  ∃ M, buildOutputModel T jsonSchema = .ok M ∧
    ∀ value low missing, (∀ n ∈ M.fields, PyStr.strip (value n).toList ≠ []) →
      ∃ x, coerce T (.data (filled M value low missing)) = .ok x ∧ FullMarks x required jsonSchema

section
variable {T : ChainTools} {jsonSchema properties : Obj}

/-! ## The output model -/

/-- The fields asked for are the properties whose names are identifiers. -/
theorem fieldDefs_names : ∀ {properties : Obj}, (∀ e ∈ properties, ∃ spec, e.2 = .obj spec) →
    ∃ ds, fieldDefs T properties = .ok ds ∧
      ds.map FieldDef.name = (properties.map Prod.fst).filter T.isIdentifier
  | [], _ => ⟨[], rfl, rfl⟩
  | (name, v) :: properties, h => by
    obtain ⟨spec, hspec⟩ := h (name, v) List.mem_cons_self
    obtain rfl : v = .obj spec := hspec
    obtain ⟨ds, hds, hnames⟩ := fieldDefs_names fun e he => h e (List.mem_cons_of_mem _ he)
    by_cases hid : T.isIdentifier name = true
    · refine ⟨{ name, description :=
        ((Obj.get? spec "description").getD (.str name)).pyStr T.printer } :: ds, ?_, ?_⟩
      · rw [fieldDefs, if_pos hid, fieldDef, hds]
        rfl
      · rw [List.map_cons, List.map_cons, List.filter_cons_of_pos hid, hnames]
    · refine ⟨ds, ?_, ?_⟩
      · rw [fieldDefs, if_neg hid, hds]
      · rw [List.map_cons, List.filter_cons_of_neg hid, hnames]

/-- The names of the properties that the output model asks for. -/
def askedNames (T : ChainTools) (properties : Obj) : List String :=
  (properties.map Prod.fst).filter T.isIdentifier

theorem buildOutputModel_ok (hT : CreatesModels T) (h : DeclaresProperties jsonSchema properties)
    (hnames : ∀ n ∈ askedNames T properties, ¬ LeadingUnderscore n) :
    ∃ M, buildOutputModel T jsonSchema = .ok M ∧ M.fields = askedNames T properties := by
  obtain ⟨ds, hds, hdn⟩ := fieldDefs_names (T := T) h.objects
  have hfields : T.createModel "ExtractedFields" (ds.map FieldDef.name) =
      .ok (askedNames T properties) := by
    rw [hdn]
    exact hT.offers _ _ hnames
  have henvelope := hT.offers "DynamicExtraction"
    ["fields", "confidence", "low_confidence_fields", "missing_fields"] (by decide)
  refine ⟨{ fieldDefs := ds, fields := askedNames T properties
            envelope := ["fields", "confidence", "low_confidence_fields", "missing_fields"] }, ?_, rfl⟩
  simp only [buildOutputModel, propertiesOf, h.get, hds, hfields, henvelope, bind, Except.bind, pure,
    Except.pure]

theorem buildOutputModel_error (hT : CreatesModels T) (h : DeclaresProperties jsonSchema properties)
    {n : String} (hn : n ∈ askedNames T properties) (hunder : LeadingUnderscore n) :
    ∃ e, buildOutputModel T jsonSchema = .error e := by
  obtain ⟨ds, hds, hdn⟩ := fieldDefs_names (T := T) h.objects
  obtain ⟨e, he⟩ := hT.refuses "ExtractedFields" (askedNames T properties) n hn hunder
  rw [askedNames, ← hdn] at he
  exact ⟨e, by simp only [buildOutputModel, propertiesOf, h.get, hds, he, bind, Except.bind]⟩

/-! ## The coerced instance -/

theorem texts_map_str : ∀ ts : List String, texts (ts.map .str) = some ts
  | [] => rfl
  | t :: ts => by rw [List.map_cons, texts, texts_map_str ts]; rfl

theorem pyList_getOr {d : Obj} {k : String} {xs : List Json} (h : d.get? k = some (.arr xs)) :
    pyList (getOr d k (.arr [])) = .ok xs := by
  rw [getOr, h]
  cases xs <;> rfl

theorem dropEmpty_filled {names : List String} {value : String → String}
    (h : ∀ n ∈ names, PyStr.strip (value n).toList ≠ []) :
    dropEmpty (names.map fun n => (n, .str (value n))) = names.map fun n => (n, .str (value n)) := by
  refine List.filter_eq_self.2 fun e he => ?_
  obtain ⟨n, hn, rfl⟩ := List.mem_map.1 he
  have hne : value n ≠ "" := by
    intro hv
    refine h n hn ?_
    rw [hv]
    rfl
  simp [isNullOrEmpty, hne]

/-- What an instance without a blank field is coerced to. -/
theorem coerce_filled {M : OutputModel} {value : String → String} (low missing : List String)
    (h : ∀ n ∈ M.fields, PyStr.strip (value n).toList ≠ []) :
    ∃ x, coerce T (.data (filled M value low missing)) = .ok x ∧
      x.fields = (M.fields.map fun n => (n, .str (value n))) ∧ x.confidence = 1 := by
  have hfields : coercedFields (filled M value low missing) =
      .ok (M.fields.map fun n => (n, .str (value n))) := by
    have hget : (filled M value low missing).get? "fields" =
        some (.obj (M.fields.map fun n => (n, .str (value n)))) := rfl
    have hor : getOr (filled M value low missing) "fields" (.obj []) =
        .obj (M.fields.map fun n => (n, .str (value n))) := by
      rw [getOr, hget]
      cases M.fields <;> rfl
    rw [coercedFields, hor]
    exact congrArg Except.ok (dropEmpty_filled h)
  have hconf : pyFloat T (getOr (filled M value low missing) "confidence" (.float 0)) = .ok 1 := rfl
  have hlow : pyList (getOr (filled M value low missing) "low_confidence_fields" (.arr [])) =
      .ok (low.map .str) := pyList_getOr rfl
  have hmissing : pyList (getOr (filled M value low missing) "missing_fields" (.arr [])) =
      .ok (missing.map .str) := pyList_getOr rfl
  have hbounds : (0 : ℚ) ≤ 1 ∧ (1 : ℚ) ≤ 1 := ⟨zero_le_one, le_rfl⟩
  refine ⟨{ fields := M.fields.map fun n => (n, .str (value n)), confidence := 1
            lowConfidenceFields := low, missingFields := missing
            confidence_nonneg := hbounds.1, confidence_le_one := hbounds.2 }, ?_, rfl, rfl⟩
  simp only [coerce, hfields, hconf, hlow, hmissing, bind, Except.bind, llmExtraction,
    dif_pos hbounds, texts_map_str]

/-! ## The marks -/

theorem get?_map {g : String → Json} {k : String} : ∀ {ks : List String}, k ∈ ks →
    Obj.get? (ks.map fun k => (k, g k)) k = some (g k)
  | k' :: ks, h => by
    by_cases hk : k' = k
    · simp [Obj.get?, hk]
    · simpa [Obj.get?, hk] using get?_map ((List.mem_cons.1 h).resolve_left (Ne.symm hk))

theorem completenessScore_eq_one {extracted : Obj} {required : List String}
    (h : ∀ f ∈ required, isPresent (extracted.get? f) = true) :
    completenessScore extracted required = 1 := by
  unfold completenessScore
  split_ifs with hnil
  · rfl
  · have hcount : required.countP (fun f => isPresent (extracted.get? f)) = required.length :=
      List.countP_eq_length.2 h
    have hlen : (required.length : ℚ) ≠ 0 := by
      exact_mod_cast (List.length_pos_of_ne_nil hnil).ne'
    rw [hcount, div_self hlen]

/-- With a property for every field the fill rate is `1`. -/
theorem fillRate_eq_one_iff {props : ℕ} (hp : 0 < props) {extracted : Obj} :
    fillRate props extracted = 1 ↔ props ≤ extracted.length := by
  have hpos : (0 : ℚ) < props := by exact_mod_cast hp
  rw [fillRate, if_neg hp.ne', min_eq_left_iff, le_div_iff₀ hpos, one_mul, Nat.cast_le]

theorem fullMarks_of {x : LLMExtraction} {required : List String} {props : ℕ}
    (hc : completenessScore x.fields required = 1) (hp : propertyCount jsonSchema = .ok props)
    (hf : fillRate props x.fields = 1) (hx : x.confidence = 1) : FullMarks x required jsonSchema := by
  refine ⟨hc, ⟨props, hp, hf⟩, fun s high medium hs => ?_⟩
  rw [scoreNode_withSignals hs, hp]
  refine ⟨_, rfl, ?_⟩
  have hscore : (breakdown x.fields required props x.confidence 1).guardrailAdjusted = 1 := by
    have hround : Decimal.round 4 1 = 1 := by simpa using Decimal.round_intCast 4 1
    simp only [breakdown, score, hc, hf, hx, llmSignal, zero_lt_one, if_true, min_self, mul_one, hround]
  exact congrArg some hscore

/-- **A perfect extraction gets full marks** iff every property name is an
    identifier without a leading underscore. -/
theorem perfect_extraction_full_marks_iff (T : ChainTools) (jsonSchema properties : Obj)
    (required : List String) (hT : CreatesModels T)
    (hschema : DeclaresProperties jsonSchema properties)
    (hreq : ∀ f ∈ required, f ∈ properties.map Prod.fst) :
    PerfectFullMarks T jsonSchema required ↔
      ∀ n ∈ properties.map Prod.fst, T.isIdentifier n = true ∧ ¬ LeadingUnderscore n := by
  have hcount : propertyCount jsonSchema = .ok properties.length := by
    simp only [propertyCount, hschema.get, pyLen]
  have hpos : 0 < properties.length := List.length_pos_of_ne_nil hschema.ne_nil
  constructor
  · rintro ⟨M, hM, hmarks⟩
    -- no property that is asked for has a leading underscore
    have hasked : ∀ n ∈ askedNames T properties, ¬ LeadingUnderscore n := by
      intro n hn hunder
      obtain ⟨e, he⟩ := buildOutputModel_error hT hschema hn hunder
      rw [hM] at he
      cases he
    obtain ⟨M', hM', hfields⟩ := buildOutputModel_ok hT hschema hasked
    obtain rfl : M = M' := Except.ok.inj (hM.symm.trans hM')
    have hstrip : PyStr.strip "x".toList ≠ [] := by decide
    have hblank : ∀ n ∈ M.fields, PyStr.strip ((fun _ => "x") n : String).toList ≠ [] :=
      fun _ _ => hstrip
    obtain ⟨x, hx, hfull⟩ := hmarks (fun _ => "x") [] [] hblank
    obtain ⟨y, hy, hyf, -⟩ := coerce_filled (T := T) [] [] hblank
    obtain rfl : x = y := Except.ok.inj (hx.symm.trans hy)
    obtain ⟨props, hp, hfill⟩ := hfull.fillRate
    obtain rfl : properties.length = props := Except.ok.inj (hcount.symm.trans hp)
    -- so the filter has dropped nothing
    have hlen : (properties.map Prod.fst).length ≤ (askedNames T properties).length := by
      rw [fillRate_eq_one_iff hpos, hyf, List.length_map, hfields] at hfill
      rwa [List.length_map]
    have hall : askedNames T properties = properties.map Prod.fst :=
      List.filter_sublist.eq_of_length_le hlen
    intro n hn
    have hn' : n ∈ askedNames T properties := by rwa [hall]
    exact ⟨(List.mem_filter.1 hn').2, hasked n hn'⟩
  · intro hall
    have hasked : askedNames T properties = properties.map Prod.fst :=
      List.filter_eq_self.2 fun n hn => (hall n hn).1
    obtain ⟨M, hM, hfields⟩ := buildOutputModel_ok hT hschema fun n hn =>
      (hall n (List.mem_filter.1 hn).1).2
    refine ⟨M, hM, fun value low missing hblank => ?_⟩
    obtain ⟨x, hx, hxf, hconf⟩ := coerce_filled (T := T) low missing hblank
    refine ⟨x, hx, fullMarks_of (completenessScore_eq_one fun f hf => ?_) hcount ?_ hconf⟩
    · have hmem : f ∈ M.fields := by
        rw [hfields, hasked]
        exact hreq f hf
      rw [hxf, get?_map hmem]
      simpa [isPresent] using hblank f hmem
    · rw [fillRate_eq_one_iff hpos, hxf, List.length_map, hfields, hasked, List.length_map]

end

/-- Identifiers of ASCII letters, digits and underscores. -/
def Sample.chainTools : ChainTools where
  xidStart c := c.isAlpha
  xidContinue c := c.isAlphanum || c = '_'
  printer := default
  dumps _ := "..."
  floatOfText _ := .error "could not convert string to float"
  createModel _ names :=
    if names.any fun n => LeadingUnderscore n then
      .error "Fields must not use names with leading underscores"
    else .ok names
  validationError _ _ _ := "1 validation error for LLMExtraction"

theorem createsModels_chainTools : CreatesModels Sample.chainTools where
  offers _ names h := by
    have hnone : (names.any fun n => decide (LeadingUnderscore n)) = false := by simpa using h
    simp only [Sample.chainTools, hnone, Bool.false_eq_true, if_false]
  refuses _ names n hn hunder := by
    have hsome : (names.any fun n => decide (LeadingUnderscore n)) = true :=
      List.any_eq_true.2 ⟨n, hn, by simpa using hunder⟩
    exact ⟨_, by simp only [Sample.chainTools, hsome, if_true]; rfl⟩

/-- A schema with the property `name`. -/
def oneProperty (name : String) : Obj :=
  [("properties", .obj [(name, .obj [("type", .str "string")])])]

theorem declares_oneProperty (name : String) :
    DeclaresProperties (oneProperty name) [(name, .obj [("type", .str "string")])] where
  get := rfl
  ne_nil := List.cons_ne_nil _ _
  objects e he := ⟨[("type", .str "string")], by rw [List.mem_singleton.1 he]⟩

/-- The total of an invoice. -/
theorem perfect_extraction_full_marks_iff_total :
    PerfectFullMarks Sample.chainTools (oneProperty "total") ["total"] :=
  (perfect_extraction_full_marks_iff Sample.chainTools (oneProperty "total") _ ["total"]
    createsModels_chainTools (declares_oneProperty "total") (by decide)).2 (by decide)

/-- A property `invoice-number` is not offered, and one `_id` makes
    `build_output_model` raise. -/
theorem no_full_marks :
    ¬ PerfectFullMarks Sample.chainTools (oneProperty "invoice-number") ["invoice-number"] ∧
      ¬ PerfectFullMarks Sample.chainTools (oneProperty "_id") ["_id"] := by
  constructor
  · rintro ⟨M, hM, hmarks⟩
    cases hM
    obtain ⟨x, hx, hfull⟩ := hmarks (fun _ => "x") [] [] (by decide)
    cases hx
    have hc := hfull.completeness
    revert hc
    decide +kernel
  · rintro ⟨M, hM, -⟩
    cases hM

end OcrService
