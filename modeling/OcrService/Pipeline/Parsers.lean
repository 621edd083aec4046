/-
  The document parsers (`app/pipeline/parsers/`).

  pdfplumber and pytesseract are what `LocalParser` opens a document with; the
  LlamaParse cloud is the list of what comes of each request of an attempt, and
  of the readings of the clock in its polling loop.

  * `polling_enough`: the polling loop ends within 31 rounds;
  * `callCloud_retries_iff`, `callCloud_escapes_iff`: which requests make an
    attempt fail, and which of these failures are retried;
  * `falls_back_iff`: `parse` ends with a result of the cloud or as the local
    parser does, unless it comes to an attempt that fails otherwise.
-/
import OcrService.Lib.Attempts
import OcrService.Lib.Show
import OcrService.Pipeline.Nodes

namespace OcrService

open PyData PyStr

/-! ## The local parser -/

/-- `clean_text`. -/
def cleanText (text : String) : String := String.ofList (text.toList.filter (· ≠ nul))

/-- A page of a PDF: its text layer, and what OCR reads off its image. -/
structure PdfPage where
  extractText : Except String (Option String)
  imageToString : Except String (Option String)

/-- A `LocalParser`, by what pdfplumber finds in a document; an exception is the
    text `str(exc)`. -/
structure LocalParser where
  pages : Bytes → Except String (List PdfPage)

namespace LocalParser
variable (L : LocalParser)

/-- `_extract_pdf_text` and `_ocr_pdf`: the texts of the pages, and their
    number. -/
def joinPages (read : PdfPage → Except String (Option String)) (content : Bytes) :
    Except String (String × ℕ) := do
  let pages ← L.pages content
  let texts ← pages.mapM read
  return ("\n\n".intercalate (texts.map fun text => text.getD ""), texts.length)

def extractPdfText (content : Bytes) : Except String (String × ℕ) :=
  L.joinPages PdfPage.extractText content

def ocrPdf (content : Bytes) : Except String (String × ℕ) :=
  L.joinPages PdfPage.imageToString content

/-- `LocalParser.parse`, or the text of its `ParserError`. -/
def parse (content : Bytes) : Except String ParseResult :=
  if content = [] then .error "empty document content"
  else match L.extractPdfText content with
    | .error exc => .error ("local parse failed: " ++ exc)
    | .ok (text, pageCount) =>
      let result : ParseResult := { text := cleanText text, method := "local", pageCount }
      if ¬ result.isEmpty then .ok result
      else match L.ocrPdf content with
        | .error exc => .error ("OCR fallback failed: " ++ exc)
        | .ok (ocrText, ocrPages) =>
          .ok { text := cleanText ocrText, method := "ocr", pageCount := ocrPages }

end LocalParser

/-! ## The LlamaParse cloud -/

/-- What a request comes to: a response, with its body if that is JSON, an
    `httpx.TimeoutException`, or another exception such as a connection error. -/
inductive Exchange where
  | response (statusCode : ℕ) (json : Option Json)
  | timeout
  | failure (text : String)

/-- What `_call_cloud` raises; `serverError` is `_CloudServerError`. -/
inductive CloudError where
  | timeout
  | serverError (text : String)
  | failure (text : String)
  | httpStatusError (statusCode : ℕ)
  | jsonDecodeError
  | keyError (key : String)
  | typeError
  | attributeError

/-- What the `except` clause of `parse` catches. -/
def CloudError.retryable : CloudError → Bool
  | timeout | serverError _ => true
  | _ => false

def cloudBase : String := "https://api.cloud.llamaindex.ai/api/v1/parsing"

/-- `_POLL_TIMEOUT_S`. -/
def pollTimeout : ℚ := 30

/-- `resp.is_success`. -/
def isSuccess (statusCode : ℕ) : Bool := 200 ≤ statusCode && statusCode < 300

/-- `body[key]`. -/
def subscript (body : Json) (key : String) : Except CloudError Json :=
  match body with
  | .obj d =>
    match Obj.get? d key with
    | some v => .ok v
    | none => .error (.keyError key)
  | _ => .error .typeError

/-- The id of the job, from the answer to the upload. -/
def jobId : Exchange → Except CloudError Json
  | .timeout => .error .timeout
  | .failure text => .error (.failure text)
  | .response statusCode json =>
    if 500 ≤ statusCode then .error (.serverError ("upload " ++ toString statusCode))
    else if ¬ isSuccess statusCode then .error (.httpStatusError statusCode)
    else match json with
      | none => .error .jsonDecodeError
      | some body => subscript body "id"

/-- Whether the job has succeeded, from the answer to a poll. -/
def jobSucceeded : Exchange → Except CloudError Bool
  | .timeout => .error .timeout
  | .failure text => .error (.failure text)
  | .response statusCode json =>
    if 500 ≤ statusCode then .error (.serverError ("job " ++ toString statusCode))
    else match json with
      | none => .error .jsonDecodeError
      | some (.obj d) => .ok (Obj.get? d "status" = some (.str "SUCCESS"))
      | some _ => .error .attributeError

/-- The text, from the answer to the request for the result. -/
def markdown (P : Printer) : Exchange → Except CloudError String
  | .timeout => .error .timeout
  | .failure text => .error (.failure text)
  | .response statusCode json =>
    if ¬ isSuccess statusCode then .error (.httpStatusError statusCode)
    else match json with
      | none => .error .jsonDecodeError
      | some (.obj d) => .ok (((Obj.get? d "markdown").getD (.str "")).pyStr P)
      | some _ => .error .attributeError

/-- The cloud during one attempt: what comes of the upload, of the `i`-th poll
    and of the request for the result, and the seconds since the deadline was
    set when the condition of the polling loop is read the `i`-th time. -/
structure CloudAttempt where
  upload : Exchange
  poll : ℕ → Exchange
  result : Exchange
  time : ℕ → ℚ
  time_zero : 0 ≤ time 0
  /-- a round ends with `asyncio.sleep(1.0)` -/
  time_succ : ∀ i, time i + 1 ≤ time (i + 1)

/-- What an attempt does, in order. -/
inductive CloudAct where
  | post (url apiKey : String) (content : Bytes) (mimeType : String)
  | get (url apiKey : String)
  | sleep (seconds : ℕ)

/-- The number of uploads among the acts. -/
def CloudAct.uploads (acts : List CloudAct) : ℕ :=
  acts.countP fun
    | .post .. => true
    | _ => false

@[simp] theorem CloudAct.uploads_append (acts acts' : List CloudAct) :
    uploads (acts ++ acts') = uploads acts + uploads acts' := List.countP_append

namespace CloudAttempt
variable (P : Printer) (C : CloudAttempt) (apiKey : String) (job : Json)

def jobUrl : String := cloudBase ++ "/job/" ++ job.pyStr P

/-- A round of the polling loop; it ends the loop with a result, with an
    exception, or (`none`) because the deadline is over. -/
def round (i : ℕ) (_ : Unit) : List CloudAct × Attempt Unit (Option (Except CloudError String)) :=
  if C.time i < pollTimeout then
    match jobSucceeded (C.poll i) with
    | .error e => ([.get (jobUrl P job) apiKey], .done (some (.error e)))
    | .ok true =>
      ([.get (jobUrl P job) apiKey, .get (jobUrl P job ++ "/result/markdown") apiKey],
        .done (some (markdown P C.result)))
    | .ok false => ([.get (jobUrl P job) apiKey, .sleep 1], .again ())
  else ([], .done none)

/-- The polling loop, and the error after it. -/
def polling : List CloudAct × Except CloudError String :=
  match attempts (C.round P apiKey job) 31 0 () with
  | (did, .done (some result)) => (did, result)
  | (did, _) => (did, .error (.serverError "job poll timed out"))

/-- `mime_type or "application/pdf"`. -/
def uploadMimeType : Option String → String
  | none | some "" => "application/pdf"
  | some mimeType => mimeType

/-- `_call_cloud`. -/
def callCloud (content : Bytes) (mimeType : Option String) :
    List CloudAct × Except CloudError String :=
  let upload := CloudAct.post (cloudBase ++ "/upload") apiKey content (uploadMimeType mimeType)
  match jobId C.upload with
  | .error e => ([upload], .error e)
  | .ok job => (upload :: (C.polling P apiKey job).1, (C.polling P apiKey job).2)

end CloudAttempt

/-- What `LlamaParseClient.parse` raises. -/
inductive ParseError where
  | parserError (text : String)
  | cloud (e : CloudError)

structure LlamaParseClient where
  fallback : LocalParser
  maxRetries : ℤ := 3

namespace LlamaParseClient
variable (P : Printer) (client : LlamaParseClient) (cloud : ℕ → CloudAttempt)

/-- The result for a text of the cloud. -/
def cloudResult (text : String) : ParseResult where
  text := cleanText text
  method := "llamaparse"
  pageCount := (cleanText text).toList.count (Char.ofNat 12) + 1

/-- The fallback, as `parse` ends with it. -/
def fellBack (content : Bytes) : Except ParseError ParseResult :=
  (client.fallback.parse content).mapError .parserError

/-- The loop body of `parse`. -/
def attempt (apiKey : String) (content : Bytes) (mimeType : Option String) (a : ℕ) (_ : Unit) :
    List CloudAct × Attempt Unit (Except ParseError ParseResult) :=
  match (cloud a).callCloud P apiKey content mimeType with
  | (did, .ok text) => (did, .done (.ok (cloudResult text)))
  | (did, .error e) =>
    if e.retryable then
      (did ++ (if a < client.maxRetries then [.sleep (min (2 ^ a) 4)] else []), .again ())
    else (did, .done (.error (.cloud e)))

/-- `LlamaParseClient.parse`, with the setting `llama_cloud_api_key`. -/
def parse (apiKey : Option String) (content : Bytes) (mimeType : Option String) :
    List CloudAct × Except ParseError ParseResult :=
  match apiKey with
  | none => ([], client.fellBack content)
  | some apiKey =>
    match attempts (client.attempt P cloud apiKey content mimeType) client.maxRetries.toNat 1 () with
    | (did, .done result) => (did, result)
    | (did, .again ()) => (did, client.fellBack content)

end LlamaParseClient

/-! ## What a request comes to -/

namespace Exchange
variable (x : Exchange)

/-- The upload is accepted: it is answered with the id of a job. -/
def Accepted : Prop :=
  ∃ statusCode d, x = .response statusCode (some (.obj d)) ∧ isSuccess statusCode ∧
    (Obj.get? d "id").isSome

/-- The job is still running. -/
def Pending : Prop :=
  ∃ statusCode d, x = .response statusCode (some (.obj d)) ∧ statusCode < 500 ∧
    Obj.get? d "status" ≠ some (.str "SUCCESS")

/-- The job has succeeded. -/
def Succeeded : Prop :=
  ∃ statusCode d, x = .response statusCode (some (.obj d)) ∧ statusCode < 500 ∧
    Obj.get? d "status" = some (.str "SUCCESS")

/-- The result is there. -/
def Fetched : Prop := ∃ statusCode d, x = .response statusCode (some (.obj d)) ∧ isSuccess statusCode

/-- A timeout, or a 5xx status. -/
def Overloaded : Prop := x = .timeout ∨ ∃ statusCode json, x = .response statusCode json ∧ 500 ≤ statusCode

end Exchange

namespace CloudAttempt
variable (C : CloudAttempt)

/-- The polling loop comes to its `i`-th round. -/
def Reaches (i : ℕ) : Prop := ∀ j < i, C.time j < pollTimeout ∧ (C.poll j).Pending

/-- **A failure that is not retried**: the upload, a poll or the request for the
    result is answered neither as `_call_cloud` expects nor in the way that its
    caller catches. -/
def GoesAstray : Prop :=
  ¬ C.upload.Accepted ∧ ¬ C.upload.Overloaded ∨
    C.upload.Accepted ∧ ∃ i, C.Reaches i ∧ C.time i < pollTimeout ∧
      (¬ (C.poll i).Pending ∧ ¬ (C.poll i).Succeeded ∧ ¬ (C.poll i).Overloaded ∨
        (C.poll i).Succeeded ∧ ¬ C.result.Fetched ∧ C.result ≠ .timeout)

/-- A failure that is retried. -/
def Retried : Prop :=
  C.upload.Overloaded ∨
    C.upload.Accepted ∧ ∃ i, C.Reaches i ∧
      (pollTimeout ≤ C.time i ∨ C.time i < pollTimeout ∧
        ((C.poll i).Overloaded ∨ (C.poll i).Succeeded ∧ C.result = .timeout))

end CloudAttempt

/-- An attempt raised what `parse` catches, or something else. -/
def Retries {α : Type} (r : Except CloudError α) : Prop := ∃ e, r = .error e ∧ e.retryable = true

def Escapes {α : Type} (r : Except CloudError α) : Prop := ∃ e, r = .error e ∧ e.retryable = false

section
variable {P : Printer} {x : Exchange} {statusCode : ℕ} {json : Option Json} {text : String}

theorem isSuccess_lt (h : isSuccess statusCode = true) : statusCode < 500 := by
  simp only [isSuccess, Bool.and_eq_true, decide_eq_true_eq] at h
  omega

section
variable {α : Type} {r : Except CloudError α} {a : α} {e : CloudError}

@[simp] theorem not_retries_ok : ¬ Retries (.ok a : Except CloudError α) := by
  rintro ⟨e, h, -⟩
  cases h

@[simp] theorem retries_error : Retries (.error e : Except CloudError α) ↔ e.retryable = true := by
  simp [Retries]

theorem escapes_iff : Escapes r ↔ (¬ ∃ a, r = .ok a) ∧ ¬ Retries r := by
  cases r with
  | ok a => simp [Escapes]
  | error e => simp [Escapes]

end

namespace Exchange

@[simp] theorem accepted_response : (response statusCode json).Accepted ↔
    ∃ d, json = some (.obj d) ∧ isSuccess statusCode = true ∧ (Obj.get? d "id").isSome = true := by
  simp [Accepted]

@[simp] theorem fetched_response : (response statusCode json).Fetched ↔
    (∃ d, json = some (.obj d)) ∧ isSuccess statusCode = true := by
  simp [Fetched]

@[simp] theorem overloaded_response : (response statusCode json).Overloaded ↔ 500 ≤ statusCode := by
  simp [Overloaded]

@[simp] theorem overloaded_timeout : timeout.Overloaded := Or.inl rfl

@[simp] theorem not_overloaded_failure : ¬ (failure text).Overloaded := by
  simp [Overloaded]

end Exchange

/-! ### The upload -/

theorem jobId_ok_iff : (∃ job, jobId x = .ok job) ↔ x.Accepted := by
  rcases x with ⟨statusCode, json⟩ | _ | text
  · rw [Exchange.accepted_response]
    by_cases hok : isSuccess statusCode = true
    · have h₅ : ¬ 500 ≤ statusCode := Nat.not_le.2 (isSuccess_lt hok)
      rcases json with _ | body
      · simp [jobId, h₅, hok]
      · cases body with
        | obj d => cases hd : Obj.get? d "id" <;> simp [jobId, subscript, h₅, hok, hd]
        | null | bool | int | float | str | arr => simp [jobId, subscript, h₅, hok]
    · by_cases h₅ : 500 ≤ statusCode <;> simp [jobId, h₅, hok]
  · simp [jobId, Exchange.Accepted]
  · simp [jobId, Exchange.Accepted]

theorem jobId_retries_iff : Retries (jobId x) ↔ x.Overloaded := by
  rcases x with ⟨statusCode, json⟩ | _ | text
  · rw [Exchange.overloaded_response]
    by_cases h₅ : 500 ≤ statusCode
    · simp [jobId, h₅, CloudError.retryable]
    · by_cases hok : isSuccess statusCode = true
      · rcases json with _ | body
        · simp [jobId, h₅, hok, CloudError.retryable]
        · cases body with
          | obj d => cases hd : Obj.get? d "id" <;> simp [jobId, subscript, h₅, hok, hd, CloudError.retryable]
          | null | bool | int | float | str | arr => simp [jobId, subscript, h₅, hok, CloudError.retryable]
      · simp [jobId, h₅, hok, CloudError.retryable]
  · simp [jobId, CloudError.retryable]
  · simp [jobId, CloudError.retryable]

/-! ### A poll -/

theorem jobSucceeded_response_obj {d : Obj} (h₅ : ¬ 500 ≤ statusCode) :
    jobSucceeded (.response statusCode (some (.obj d))) =
      .ok (Obj.get? d "status" = some (.str "SUCCESS")) :=
  if_neg h₅

theorem jobSucceeded_ok_iff {b : Bool} : jobSucceeded x = .ok b ↔
    ∃ statusCode d, x = .response statusCode (some (.obj d)) ∧ statusCode < 500 ∧
      decide (Obj.get? d "status" = some (.str "SUCCESS")) = b := by
  rcases x with ⟨statusCode, json⟩ | _ | text
  · by_cases h₅ : 500 ≤ statusCode
    · simp [jobSucceeded, h₅]
    · rcases json with _ | body
      · simp [jobSucceeded, h₅]
      · cases body with
        | obj d => simp [jobSucceeded_response_obj h₅, Nat.not_le.1 h₅]
        | null | bool | int | float | str | arr => simp [jobSucceeded, h₅]
  · simp [jobSucceeded]
  · simp [jobSucceeded]

theorem jobSucceeded_false_iff : jobSucceeded x = .ok false ↔ x.Pending := by
  simp [jobSucceeded_ok_iff, Exchange.Pending]

theorem jobSucceeded_true_iff : jobSucceeded x = .ok true ↔ x.Succeeded := by
  simp [jobSucceeded_ok_iff, Exchange.Succeeded]

theorem jobSucceeded_retries_iff : Retries (jobSucceeded x) ↔ x.Overloaded := by
  rcases x with ⟨statusCode, json⟩ | _ | text
  · rw [Exchange.overloaded_response]
    by_cases h₅ : 500 ≤ statusCode
    · simp [jobSucceeded, h₅, CloudError.retryable]
    · rcases json with _ | body
      · simp [jobSucceeded, h₅, CloudError.retryable]
      · cases body with
        | obj d => simp [jobSucceeded_response_obj h₅, h₅]
        | null | bool | int | float | str | arr => simp [jobSucceeded, h₅, CloudError.retryable]
  · simp [jobSucceeded, CloudError.retryable]
  · simp [jobSucceeded, CloudError.retryable]

/-- The three answers to a poll exclude each other. -/
theorem Exchange.Succeeded.not_pending (h : x.Succeeded) : ¬ x.Pending := by
  rw [← jobSucceeded_true_iff] at h
  rw [← jobSucceeded_false_iff, h]
  exact fun h => by cases h

theorem Exchange.Overloaded.not_pending (h : x.Overloaded) : ¬ x.Pending := by
  obtain ⟨e, h, -⟩ := jobSucceeded_retries_iff.2 h
  rw [← jobSucceeded_false_iff, h]
  exact fun h => by cases h

theorem Exchange.Overloaded.not_succeeded (h : x.Overloaded) : ¬ x.Succeeded := by
  obtain ⟨e, h, -⟩ := jobSucceeded_retries_iff.2 h
  rw [← jobSucceeded_true_iff, h]
  exact fun h => by cases h

/-! ### The result -/

theorem markdown_ok_iff : (∃ text, markdown P x = .ok text) ↔ x.Fetched := by
  rcases x with ⟨statusCode, json⟩ | _ | text
  · rw [Exchange.fetched_response]
    by_cases hok : isSuccess statusCode = true
    · rcases json with _ | body
      · simp [markdown, hok]
      · cases body <;> simp [markdown, hok]
    · simp [markdown, hok]
  · simp [markdown, Exchange.Fetched]
  · simp [markdown, Exchange.Fetched]

theorem markdown_retries_iff : Retries (markdown P x) ↔ x = .timeout := by
  rcases x with ⟨statusCode, json⟩ | _ | text
  · by_cases hok : isSuccess statusCode = true
    · rcases json with _ | body
      · simp [markdown, hok, CloudError.retryable]
      · cases body <;> simp [markdown, hok, CloudError.retryable]
    · simp [markdown, hok, CloudError.retryable]
  · simp [markdown, CloudError.retryable]
  · simp [markdown, CloudError.retryable]

end

/-! ## An attempt -/

namespace CloudAttempt
variable {P : Printer} {C : CloudAttempt} {apiKey : String} {job : Json} {content : Bytes}
  {mimeType : Option String} {i n : ℕ}

/-- What ends the polling loop in its `i`-th round, if the job is not running any
    more or the time is over. -/
def stopped (P : Printer) (C : CloudAttempt) (i : ℕ) : Except CloudError String :=
  if C.time i < pollTimeout then (jobSucceeded (C.poll i)).bind fun _ => markdown P C.result
  else .error (.serverError "job poll timed out")

theorem round_again_iff : (C.round P apiKey job i ()).2 = .again () ↔
    C.time i < pollTimeout ∧ (C.poll i).Pending := by
  rw [round, ← jobSucceeded_false_iff]
  by_cases ht : C.time i < pollTimeout
  · cases h : jobSucceeded (C.poll i) with
    | error e => simp [ht]
    | ok b => cases b <;> simp [ht]
  · simp [ht]

/-- The time grows with every round. -/
theorem le_time (C : CloudAttempt) (i : ℕ) : (i : ℚ) ≤ C.time i := by
  induction i with
  | zero => exact_mod_cast C.time_zero
  | succ i ih =>
    have := C.time_succ i
    push_cast
    linarith

/-- There is a round in which the loop ends, and it is one of the first 31. -/
theorem exists_stop (C : CloudAttempt) :
    ∃ i < 31, C.Reaches i ∧ ¬ (C.time i < pollTimeout ∧ (C.poll i).Pending) := by
  classical
  have hex : ∃ i, ¬ (C.time i < pollTimeout ∧ (C.poll i).Pending) := by
    refine ⟨30, fun h => absurd h.1 (not_lt.2 ?_)⟩
    exact_mod_cast C.le_time 30
  refine ⟨Nat.find hex, ?_, fun j hj => not_not.1 (Nat.find_min hex hj), Nat.find_spec hex⟩
  refine Nat.lt_succ_of_le (Nat.find_min' hex fun h => absurd h.1 (not_lt.2 ?_))
  exact_mod_cast C.le_time 30

/-- It is the only one. -/
theorem stop_unique {i j : ℕ} (hi : C.Reaches i) (hj : C.Reaches j)
    (hstop : ¬ (C.time i < pollTimeout ∧ (C.poll i).Pending))
    (hstop' : ¬ (C.time j < pollTimeout ∧ (C.poll j).Pending)) : i = j := by
  rcases lt_trichotomy i j with h | h | h
  · exact absurd (hj i h) hstop
  · exact h
  · exact absurd (hi j h) hstop'

theorem attempts_round_stop (hi : i < n) (hreach : C.Reaches i)
    (hstop : ¬ (C.time i < pollTimeout ∧ (C.poll i).Pending)) :
    ∃ r, (attempts (C.round P apiKey job) n 0 ()).2 = .done r ∧
      r.getD (.error (.serverError "job poll timed out")) = C.stopped P i := by
  have hdone : ∃ r, (C.round P apiKey job i ()).2 = .done r ∧
      r.getD (.error (.serverError "job poll timed out")) = C.stopped P i := by
    rw [← jobSucceeded_false_iff] at hstop
    rw [round, stopped]
    by_cases ht : C.time i < pollTimeout
    · cases h : jobSucceeded (C.poll i) with
      | error e => exact ⟨some (.error e), by simp only [ht, if_true], by simp only [ht, if_true]; rfl⟩
      | ok b =>
        cases b with
        | false => exact absurd ⟨ht, h⟩ hstop
        | true =>
          exact ⟨some (markdown P C.result), by simp only [ht, if_true], by simp only [ht, if_true]; rfl⟩
    · exact ⟨none, by simp only [ht, if_false], by simp only [ht, if_false]; rfl⟩
  obtain ⟨r, hr, heq⟩ := hdone
  refine ⟨r, attempts_done_iff.2 ⟨i, hi, fun j hj => ?_, ?_⟩, heq⟩
  · rw [Nat.zero_add]
    exact round_again_iff.2 (hreach j hj)
  · rw [Nat.zero_add]
    exact hr

/-- **The polling loop ends** within 31 rounds. -/
theorem polling_enough (hn : 31 ≤ n) :
    attempts (C.round P apiKey job) n 0 () = attempts (C.round P apiKey job) 31 0 () := by
  obtain ⟨i, hi, hreach, hstop⟩ := C.exists_stop
  obtain ⟨r, hr, -⟩ : ∃ r, (attempts (C.round P apiKey job) 31 0 ()).2 = .done r ∧ _ :=
    attempts_round_stop hi hreach hstop
  obtain ⟨m, rfl⟩ := Nat.exists_eq_add_of_le hn
  have hloop : attempts (C.round P apiKey job) 31 0 () =
    ((attempts (C.round P apiKey job) 31 0 ()).1, .done r) := Prod.ext rfl hr
  exact (attempts_add_of_done hloop).trans hloop.symm

theorem polling_eq (hi : i < 31) (hreach : C.Reaches i)
    (hstop : ¬ (C.time i < pollTimeout ∧ (C.poll i).Pending)) :
    (C.polling P apiKey job).2 = C.stopped P i := by
  obtain ⟨r, hr, heq⟩ : ∃ r, (attempts (C.round P apiKey job) 31 0 ()).2 = .done r ∧
      r.getD (.error (.serverError "job poll timed out")) = C.stopped P i :=
    attempts_round_stop hi hreach hstop
  rw [polling, ← heq]
  rcases hloop : attempts (C.round P apiKey job) 31 0 () with ⟨did, r' | s⟩
  · rw [hloop] at hr
    obtain rfl : r' = r := Attempt.done.inj hr
    cases r' <;> rfl
  · rw [hloop] at hr
    cases hr

/-- What holds of the one round in which the loop ends. -/
theorem exists_reaches_iff {Q : ℕ → Prop} (hreach : C.Reaches i)
    (hstop : ¬ (C.time i < pollTimeout ∧ (C.poll i).Pending))
    (hQ : ∀ j, Q j → ¬ (C.time j < pollTimeout ∧ (C.poll j).Pending)) :
    (∃ j, C.Reaches j ∧ Q j) ↔ Q i := by
  constructor
  · rintro ⟨j, hj, hQj⟩
    rwa [stop_unique hreach hj hstop (hQ j hQj)]
  · exact fun hQi => ⟨i, hreach, hQi⟩

theorem stopped_ok_iff (hstop : ¬ (C.time i < pollTimeout ∧ (C.poll i).Pending)) :
    (∃ text, C.stopped P i = .ok text) ↔
      C.time i < pollTimeout ∧ (C.poll i).Succeeded ∧ C.result.Fetched := by
  rw [← jobSucceeded_false_iff] at hstop
  rw [← jobSucceeded_true_iff, ← markdown_ok_iff (P := P), stopped]
  by_cases ht : C.time i < pollTimeout
  · cases h : jobSucceeded (C.poll i) with
    | error e => simp [ht, Except.bind]
    | ok b =>
      cases b with
      | false => exact absurd ⟨ht, h⟩ hstop
      | true => simp [ht, Except.bind]
  · simp [ht]

theorem stopped_retries_iff (hstop : ¬ (C.time i < pollTimeout ∧ (C.poll i).Pending)) :
    Retries (C.stopped P i) ↔ pollTimeout ≤ C.time i ∨ C.time i < pollTimeout ∧
      ((C.poll i).Overloaded ∨ (C.poll i).Succeeded ∧ C.result = .timeout) := by
  rw [← jobSucceeded_false_iff] at hstop
  rw [← jobSucceeded_true_iff, ← jobSucceeded_retries_iff, ← markdown_retries_iff (P := P), stopped]
  by_cases ht : C.time i < pollTimeout
  · cases h : jobSucceeded (C.poll i) with
    | error e => simp [ht, Except.bind, not_le.2 ht]
    | ok b =>
      cases b with
      | false => exact absurd ⟨ht, h⟩ hstop
      | true => simp [ht, Except.bind, not_le.2 ht]
  · simp [ht, not_lt.1 ht, CloudError.retryable]

theorem callCloud_error {e : CloudError} (h : jobId C.upload = .error e) :
    (C.callCloud P apiKey content mimeType).2 = .error e := by
  rw [callCloud, h]

theorem callCloud_uploaded (h : jobId C.upload = .ok job) (hi : i < 31) (hreach : C.Reaches i)
    (hstop : ¬ (C.time i < pollTimeout ∧ (C.poll i).Pending)) :
    (C.callCloud P apiKey content mimeType).2 = C.stopped P i := by
  rw [callCloud, h]
  exact polling_eq hi hreach hstop

/-- **An attempt that is retried.** -/
theorem callCloud_retries_iff :
    Retries (C.callCloud P apiKey content mimeType).2 ↔ C.Retried := by
  obtain ⟨i, hi, hreach, hstop⟩ := C.exists_stop
  have hQ : ∀ j, (pollTimeout ≤ C.time j ∨ C.time j < pollTimeout ∧
      ((C.poll j).Overloaded ∨ (C.poll j).Succeeded ∧ C.result = .timeout)) →
      ¬ (C.time j < pollTimeout ∧ (C.poll j).Pending) := by
    rintro j (ht | ⟨-, hover | ⟨hsucceeded, -⟩⟩) ⟨ht', hpending⟩
    · exact absurd ht' (not_lt.2 ht)
    · exact hover.not_pending hpending
    · exact hsucceeded.not_pending hpending
  rw [Retried, exists_reaches_iff hreach hstop hQ, ← stopped_retries_iff (P := P) hstop,
    ← jobId_retries_iff, ← jobId_ok_iff]
  cases hupload : jobId C.upload with
  | error e => simp [callCloud_error hupload]
  | ok job => simp [callCloud_uploaded hupload hi hreach hstop]

/-- **An attempt that fails and is not retried.** -/
theorem callCloud_escapes_iff :
    Escapes (C.callCloud P apiKey content mimeType).2 ↔ C.GoesAstray := by
  obtain ⟨i, hi, hreach, hstop⟩ := C.exists_stop
  have hQ : ∀ j, (C.time j < pollTimeout ∧
      (¬ (C.poll j).Pending ∧ ¬ (C.poll j).Succeeded ∧ ¬ (C.poll j).Overloaded ∨
        (C.poll j).Succeeded ∧ ¬ C.result.Fetched ∧ C.result ≠ .timeout)) →
      ¬ (C.time j < pollTimeout ∧ (C.poll j).Pending) := by
    rintro j ⟨-, ⟨hnot, -, -⟩ | ⟨hsucceeded, -, -⟩⟩ ⟨-, hpending⟩
    · exact hnot hpending
    · exact hsucceeded.not_pending hpending
  rw [GoesAstray, exists_reaches_iff hreach hstop hQ, ← jobId_retries_iff, ← jobId_ok_iff]
  cases hupload : jobId C.upload with
  | error e =>
    rw [callCloud_error hupload, escapes_iff]
    simp
  | ok job =>
    rw [callCloud_uploaded hupload hi hreach hstop, escapes_iff, stopped_ok_iff hstop,
      stopped_retries_iff hstop]
    have hexclusive : (C.poll i).Overloaded → ¬ (C.poll i).Succeeded := fun h => h.not_succeeded
    by_cases ht : C.time i < pollTimeout
    · have hpending : ¬ (C.poll i).Pending := fun h => hstop ⟨ht, h⟩
      simp only [ht, not_le.2 ht, not_retries_ok, Except.ok.injEq, exists_eq', true_and, false_or,
        not_true_eq_false, false_and, not_false_eq_true, hpending]
      tauto
    · simp [ht, not_lt.1 ht]

theorem uploads_round : CloudAct.uploads (C.round P apiKey job i ()).1 = 0 := by
  unfold round
  split_ifs
  · cases jobSucceeded (C.poll i) with
    | error e => rfl
    | ok b => cases b <;> rfl
  · rfl

theorem uploads_polling : CloudAct.uploads (C.polling P apiKey job).1 = 0 := by
  have hloop : CloudAct.uploads (attempts (C.round P apiKey job) 31 0 ()).1 ≤ 31 * 0 :=
    attempts_countP_le fun i _ => uploads_round.le
  rw [polling]
  rcases hacts : attempts (C.round P apiKey job) 31 0 () with ⟨did, (_ | r) | s⟩
  all_goals
    rw [hacts] at hloop
    exact Nat.le_zero.1 hloop

/-- An attempt uploads the document once. -/
theorem uploads_callCloud : CloudAct.uploads (C.callCloud P apiKey content mimeType).1 = 1 := by
  unfold callCloud
  cases jobId C.upload with
  | error e => rfl
  | ok job =>
    show CloudAct.uploads ([_] ++ (C.polling P apiKey job).1) = 1
    rw [CloudAct.uploads_append, uploads_polling]
    rfl

end CloudAttempt

/-! ## The client -/

namespace LlamaParseClient
variable {P : Printer} {client : LlamaParseClient} {cloud : ℕ → CloudAttempt} {apiKey : String}
  {content : Bytes} {mimeType : Option String} {a : ℕ}

theorem attempt_again_iff :
    (client.attempt P cloud apiKey content mimeType a ()).2 = .again () ↔ (cloud a).Retried := by
  rw [← CloudAttempt.callCloud_retries_iff (P := P), attempt]
  rcases (cloud a).callCloud P apiKey content mimeType with ⟨did, e | text⟩
  · by_cases he : e.retryable = true <;> simp [he]
  · simp

theorem attempt_ok {text : String}
    (h : ((cloud a).callCloud P apiKey content mimeType).2 = .ok text) :
    (client.attempt P cloud apiKey content mimeType a ()).2 = .done (.ok (cloudResult text)) := by
  rw [attempt]
  rcases hcall : (cloud a).callCloud P apiKey content mimeType with ⟨did, r⟩
  rw [hcall] at h
  obtain rfl : r = .ok text := h
  rfl

theorem attempt_escapes {e : CloudError}
    (h : ((cloud a).callCloud P apiKey content mimeType).2 = .error e) (he : e.retryable = false) :
    (client.attempt P cloud apiKey content mimeType a ()).2 = .done (.error (.cloud e)) := by
  rw [attempt]
  rcases hcall : (cloud a).callCloud P apiKey content mimeType with ⟨did, r⟩
  rw [hcall] at h
  obtain rfl : r = .error e := h
  simp [he]

theorem uploads_attempt :
    CloudAct.uploads (client.attempt P cloud apiKey content mimeType a ()).1 = 1 := by
  have hcall : CloudAct.uploads ((cloud a).callCloud P apiKey content mimeType).1 = 1 :=
    CloudAttempt.uploads_callCloud
  unfold attempt
  rcases h : (cloud a).callCloud P apiKey content mimeType with ⟨did, e | text⟩
  · rw [h] at hcall
    by_cases he : e.retryable = true
    · have hsleep : CloudAct.uploads
          (if (a : ℤ) < client.maxRetries then [.sleep (min (2 ^ a) 4)] else []) = 0 := by
        split_ifs <;> rfl
      simp only [he, if_true, CloudAct.uploads_append, hsleep]
      exact hcall
    · simp only [he]
      exact hcall
  · rw [h] at hcall
    exact hcall

theorem parse_done {did : List CloudAct} {r : Except ParseError ParseResult}
    (h : attempts (client.attempt P cloud apiKey content mimeType) client.maxRetries.toNat 1 () =
      (did, .done r)) : client.parse P cloud (some apiKey) content mimeType = (did, r) := by
  simp only [parse, h]

theorem parse_again {did : List CloudAct}
    (h : attempts (client.attempt P cloud apiKey content mimeType) client.maxRetries.toNat 1 () =
      (did, .again ())) :
    client.parse P cloud (some apiKey) content mimeType = (did, client.fellBack content) := by
  simp only [parse, h]

/-- The client makes at most `max_retries` attempts. -/
theorem uploads_parse {apiKey : Option String} :
    CloudAct.uploads (client.parse P cloud apiKey content mimeType).1 ≤ client.maxRetries.toNat := by
  cases apiKey with
  | none => exact Nat.zero_le _
  | some apiKey =>
    have hloop : CloudAct.uploads (attempts (client.attempt P cloud apiKey content mimeType)
        client.maxRetries.toNat 1 ()).1 ≤ client.maxRetries.toNat * 1 :=
      attempts_countP_le fun a _ => uploads_attempt.le
    rw [Nat.mul_one] at hloop
    rcases h : attempts (client.attempt P cloud apiKey content mimeType)
      client.maxRetries.toNat 1 () with ⟨did, r | s⟩
    · rw [h] at hloop
      rw [parse_done h]
      exact hloop
    · rw [h] at hloop
      rw [parse_again h]
      exact hloop

/-- `parse` ends with a text of the cloud, or as the fallback does, after at most
    `max_retries` attempts. -/
def FallsBack (P : Printer) (client : LlamaParseClient) (cloud : ℕ → CloudAttempt)
    (apiKey : Option String) (content : Bytes) (mimeType : Option String) : Prop :=
  ((∃ (key : String) (a : ℕ) (text : String), apiKey = some key ∧ 1 ≤ a ∧ a ≤ client.maxRetries ∧
      ((cloud a).callCloud P key content mimeType).2 = .ok text ∧
      (client.parse P cloud apiKey content mimeType).2 = .ok (cloudResult text)) ∨
    (client.parse P cloud apiKey content mimeType).2 = client.fellBack content) ∧
  CloudAct.uploads (client.parse P cloud apiKey content mimeType).1 ≤ client.maxRetries.toNat

/-- The fallback raises nothing but a `ParserError`. -/
theorem fellBack_ne_cloud {e : CloudError} : client.fellBack content ≠ .error (.cloud e) := by
  unfold fellBack
  cases client.fallback.parse content with
  | error text => exact fun h => by cases h
  | ok result => exact fun h => by cases h

/-- How `parse` ends with an API key: every attempt is retried, or the first
    one that is not decides. -/
theorem parse_cases (P : Printer) (client : LlamaParseClient) (cloud : ℕ → CloudAttempt)
    (apiKey : String) (content : Bytes) (mimeType : Option String) :
    (∀ a : ℕ, 1 ≤ a → a ≤ client.maxRetries → (cloud a).Retried) ∧
        (client.parse P cloud (some apiKey) content mimeType).2 = client.fellBack content ∨
      ∃ a : ℕ, 1 ≤ a ∧ a ≤ client.maxRetries ∧ (∀ b, 1 ≤ b → b < a → (cloud b).Retried) ∧
        ((∃ text, ((cloud a).callCloud P apiKey content mimeType).2 = .ok text ∧
            (client.parse P cloud (some apiKey) content mimeType).2 = .ok (cloudResult text)) ∨
          (cloud a).GoesAstray ∧
            ∃ e, (client.parse P cloud (some apiKey) content mimeType).2 = .error (.cloud e)) := by
  cases hloop : (attempts (client.attempt P cloud apiKey content mimeType)
      client.maxRetries.toNat 1 ()).2 with
  | again s =>
    have hall := attempts_again_iff.1 hloop
    refine Or.inl ⟨fun a ha hle => ?_, ?_⟩
    · obtain ⟨i, rfl⟩ := Nat.exists_eq_add_of_le ha
      exact attempt_again_iff.1 (hall i (by omega))
    · rw [parse_again (Prod.ext rfl hloop)]
  | done r =>
    obtain ⟨i, hi, hbelow, hdone⟩ := attempts_done_iff.1 hloop
    have hparse : (client.parse P cloud (some apiKey) content mimeType).2 = r := by
      rw [parse_done (Prod.ext rfl hloop)]
    refine Or.inr ⟨1 + i, by omega, by omega, fun b hb hlt => ?_, ?_⟩
    · obtain ⟨j, rfl⟩ := Nat.exists_eq_add_of_le hb
      exact attempt_again_iff.1 (hbelow j (by omega))
    · cases hcall : ((cloud (1 + i)).callCloud P apiKey content mimeType).2 with
      | ok text =>
        have hr : .ok (cloudResult text) = r := Attempt.done.inj ((attempt_ok hcall).symm.trans hdone)
        exact Or.inl ⟨text, rfl, hparse.trans hr.symm⟩
      | error e =>
        have he : e.retryable = false := by
          by_contra he
          have hretried : (cloud (1 + i)).Retried :=
            CloudAttempt.callCloud_retries_iff.1 ⟨e, hcall, by simpa using he⟩
          have hagain : (client.attempt P cloud apiKey content mimeType (1 + i) ()).2 = .again () :=
            attempt_again_iff.2 hretried
          rw [hdone] at hagain
          cases hagain
        have hr : .error (.cloud e) = r :=
          Attempt.done.inj ((attempt_escapes hcall he).symm.trans hdone)
        exact Or.inr ⟨CloudAttempt.callCloud_escapes_iff.1 ⟨e, hcall, he⟩, e, hparse.trans hr.symm⟩

/-- **Cloud parsing falls back** exactly if no attempt that it makes goes
    astray: one is made after every attempt that is retried. -/
theorem falls_back_iff (P : Printer) (client : LlamaParseClient) (cloud : ℕ → CloudAttempt)
    (apiKey : Option String) (content : Bytes) (mimeType : Option String) :
    client.FallsBack P cloud apiKey content mimeType ↔ apiKey = none ∨
      ∀ a : ℕ, 1 ≤ a → a ≤ client.maxRetries → (∀ b, 1 ≤ b → b < a → (cloud b).Retried) →
        ¬ (cloud a).GoesAstray := by
  cases apiKey with
  | none => exact iff_of_true ⟨Or.inr rfl, uploads_parse⟩ (Or.inl rfl)
  | some key =>
    have hretries (a : ℕ) : Retries ((cloud a).callCloud P key content mimeType).2 ↔ (cloud a).Retried :=
      CloudAttempt.callCloud_retries_iff
    have hescapes (a : ℕ) : Escapes ((cloud a).callCloud P key content mimeType).2 ↔
        (cloud a).GoesAstray := CloudAttempt.callCloud_escapes_iff
    have hexclusive (a : ℕ) (h : (cloud a).Retried) : ¬ (cloud a).GoesAstray := by
      rw [← hescapes, escapes_iff, hretries]
      exact fun hnot => hnot.2 h
    rcases parse_cases P client cloud key content mimeType with
      ⟨hall, hparse⟩ | ⟨a, ha, hle, hbefore, ⟨text, hcall, hparse⟩ | ⟨hastray, e, hparse⟩⟩
    · exact iff_of_true ⟨Or.inr hparse, uploads_parse⟩
        (Or.inr fun a ha hle _ => hexclusive a (hall a ha hle))
    · refine iff_of_true ⟨Or.inl ⟨key, a, text, rfl, ha, hle, hcall, hparse⟩, uploads_parse⟩
        (Or.inr fun b hb _ hpred => ?_)
      have hnot : ¬ (cloud a).Retried := by
        rw [← hretries, hcall]
        exact not_retries_ok
      rcases lt_trichotomy b a with hlt | rfl | hlt
      · exact hexclusive b (hbefore b hb hlt)
      · rw [← hescapes, escapes_iff]
        exact fun h => h.1 ⟨text, hcall⟩
      · exact absurd (hpred a ha hlt) hnot
    · refine iff_of_false ?_ ?_
      · rintro ⟨⟨key', b, text, -, -, -, -, hok⟩ | hfell, -⟩
        · rw [hparse] at hok
          cases hok
        · exact fellBack_ne_cloud (hfell.symm.trans hparse)
      · rintro (h | h)
        · cases h
        · exact h a ha hle hbefore hastray

/-- The parser of the pipeline, for a configuration of the cloud; an exception is
    the text `str(exc)`. -/
def component (P : Printer) (client : LlamaParseClient) (cloud : ℕ → CloudAttempt)
    (apiKey : Option String) (str : ParseError → String) (content : Bytes) : Except String ParseResult :=
  (client.parse P cloud apiKey content none).2.mapError str

end LlamaParseClient

namespace Sample

/-- A document of one page with a text layer. -/
def invoicePdf : LocalParser where
  pages _ := .ok [{ extractText := .ok (some "Invoice 17, total 100"), imageToString := .ok none }]

/-- The API key is not valid any more. -/
def unauthorized : CloudAttempt where
  upload := .response 401 (some (.obj [("detail", .str "Invalid API key")]))
  poll _ := .timeout
  result := .timeout
  time i := i
  time_zero := by simp
  time_succ i := by push_cast; exact le_refl _

theorem fellBack_invoicePdf : LlamaParseClient.fellBack { fallback := invoicePdf } [37, 80, 68, 70] =
    .ok { text := "Invoice 17, total 100", method := "local", pageCount := 1 } := by
  have hpages : invoicePdf.extractPdfText [37, 80, 68, 70] = .ok ("Invoice 17, total 100", 1) := rfl
  have hclean : cleanText "Invoice 17, total 100" = "Invoice 17, total 100" := by decide +kernel
  have hempty : ({ text := "Invoice 17, total 100", method := "local", pageCount := 1 } :
    ParseResult).isEmpty = false := by decide +kernel
  simp [LlamaParseClient.fellBack, LocalParser.parse, hpages, hclean, hempty, Except.mapError]

end Sample

/-- The cloud answers the upload with 401: `parse` raises the `HTTPStatusError`,
    where the local parser would have read the document. -/
theorem unauthorized_escapes :
    ¬ LlamaParseClient.FallsBack default { fallback := Sample.invoicePdf } (fun _ => Sample.unauthorized)
        (some "llx-revoked") [37, 80, 68, 70] none ∧
      LlamaParseClient.fellBack { fallback := Sample.invoicePdf } [37, 80, 68, 70] =
        .ok { text := "Invoice 17, total 100", method := "local", pageCount := 1 } := by
  have hparse : (LlamaParseClient.parse default { fallback := Sample.invoicePdf }
      (fun _ => Sample.unauthorized) (some "llx-revoked") [37, 80, 68, 70] none).2 =
        .error (.cloud (.httpStatusError 401)) := rfl
  refine ⟨?_, Sample.fellBack_invoicePdf⟩
  rintro ⟨⟨key, a, text, -, -, -, -, hok⟩ | hfell, -⟩
  · rw [hparse] at hok
    cases hok
  · exact LlamaParseClient.fellBack_ne_cloud (hfell.symm.trans hparse)

end OcrService
