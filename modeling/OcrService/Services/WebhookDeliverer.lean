/-
  The retry loop of a webhook delivery (`app/services/webhook_delivery.py`).

  `deliver` makes its attempts one after another (`attempts`), each one POST and
  one row, with a sleep before the next.

  * `loop_failing`: what the first `k` attempts do if none of them is answered
    with a 2xx status;
  * `deliver_course`: a delivery stops at the first such answer, or at the end
    of its schedule.

  The task of the system (`WebhookTask`) commits what `deliver` adds to its
  session: see `leadsTo_deliver`.
-/
import OcrService.Lib.Attempts
import OcrService.Domain.Webhook
import OcrService.Worker.Deliver

namespace OcrService

open PyData Trans

/-- What `deliver` does, in order: a POST, a row added to the session, or a
    sleep. -/
inductive DeliverAct where
  | post (url : String) (body : Bytes) (headers : List (String × String))
  | add (row : Write)
  | sleep (seconds : ℤ)

/-- How `deliver` ends. -/
inductive DeliverEnd where
  | returned (ok : Bool)
  | raised
  deriving DecidableEq

/-- What `deliver` is called with. -/
structure DeliverCall where
  tenantId : Uuid
  documentId : Uuid
  webhookUrl : String
  webhookSecret : String
  payload : Obj

/-- A `WebhookDeliverer`, whose client answers the `attempt`-th POST by
    `post attempt`. -/
structure WebhookDeliverer where
  post : ℕ → PostResult
  schedule : List ℤ := retrySchedule.map Nat.cast

namespace DeliverAct

/-- The POSTs, rows and sleeps among the acts. -/
def posts (acts : List DeliverAct) : List (String × Bytes × List (String × String)) :=
  acts.filterMap fun
    | post url body headers => some (url, body, headers)
    | _ => none

def added (acts : List DeliverAct) : List Write :=
  acts.filterMap fun
    | add row => some row
    | _ => none

def slept (acts : List DeliverAct) : List ℤ :=
  acts.filterMap fun
    | sleep seconds => some seconds
    | _ => none

end DeliverAct

namespace WebhookDeliverer

section
variable (D : WebhookDeliverer) (S : Site) (P : Printer) (hmacSha256 : Bytes → Bytes → Bytes)
  (c : DeliverCall)

/-- The request of every attempt. -/
def request : DeliverAct :=
  let (body, headers) := buildSignedRequest P hmacSha256 c.payload c.webhookSecret
  .post c.webhookUrl body headers

def row (attempt : ℕ) (status : Option ℕ) (error : Option String) : DeliverAct :=
  .add (.insertWebhookDelivery
    { documentId := c.documentId, tenantId := c.tenantId, attempt, httpStatus := status, error })

/-- The event of an answer with a 2xx status. -/
def delivered (attempt : ℕ) (status : Option ℕ) : Write :=
  appendEvent S c.tenantId c.documentId "WEBHOOK_DELIVERED" "system:webhook" "completed" none
    (some [("attempt", .int attempt), ("http_status", WebhookTask.statusJson status)])

/-- The rows of an exhausted schedule. -/
def exhausted (lastStatus : Option ℕ) : List Write :=
  [ .insertDeadLetter
      { documentId := c.documentId
        tenantId := c.tenantId
        failureReason := .webhookDeliveryFailed
        lastHttpStatus := lastStatus },
    appendEvent S c.tenantId c.documentId "WEBHOOK_EXHAUSTED" "system:webhook" "error" none
      (some [("attempts", .int D.schedule.length),
        ("last_http_status", WebhookTask.statusJson lastStatus)]) ]

/-- The wait after an attempt, unless it is the last one. -/
def pause (attempt : ℕ) : List DeliverAct :=
  if h : attempt < D.schedule.length then [.sleep (D.schedule.get ⟨attempt - 1, by omega⟩)] else []

/-- The loop body of `deliver`, once the POST has come to a status or an error. -/
def answered (attempt : ℕ) (status : Option ℕ) (error : Option String) :
    List DeliverAct × Attempt (Option ℕ) DeliverEnd :=
  let made := [request P hmacSha256 c, row c attempt status error]
  if WebhookTask.isOk status then
    (made ++ [.add (delivered S c attempt status)], .done (.returned true))
  else (made ++ D.pause attempt, .again status)

/-- The loop body of `deliver`; it carries `last_status` over to the next
    attempt. -/
def attempt (attempt : ℕ) (_lastStatus : Option ℕ) :
    List DeliverAct × Attempt (Option ℕ) DeliverEnd :=
  match D.post attempt with
  | .otherException => ([request P hmacSha256 c], .done .raised)
  | .status code => D.answered S P hmacSha256 c attempt (some code) none
  | .error text => D.answered S P hmacSha256 c attempt none (some text)

/-- `for attempt in range(1, len(self._schedule) + 1)`. -/
def loop : List DeliverAct × Attempt (Option ℕ) DeliverEnd :=
  attempts (D.attempt S P hmacSha256 c) D.schedule.length 1 none

/-- `deliver`. -/
def deliver : List DeliverAct × DeliverEnd :=
  match D.loop S P hmacSha256 c with
  | (did, .done result) => (did, result)
  | (did, .again lastStatus) => (did ++ (D.exhausted S c lastStatus).map .add, .returned false)

/-! ## Failing attempts -/

/-- `last_status` after the attempt. -/
def statusOf (attempt : ℕ) : Option ℕ :=
  match D.post attempt with
  | .status code => some code
  | _ => none

/-- `error` after the attempt. -/
def errorOf (attempt : ℕ) : Option String :=
  match D.post attempt with
  | .error text => some text
  | _ => none

/-- `last_status` after `n` attempts. -/
def lastStatus : ℕ → Option ℕ
  | 0 => none
  | n + 1 => D.statusOf (n + 1)

/-- The rows of the attempts up to the `n`-th. -/
def rowsTo (n : ℕ) : List WebhookDelivery :=
  (List.range n).map fun k =>
    { documentId := c.documentId
      tenantId := c.tenantId
      attempt := k + 1
      httpStatus := D.statusOf (k + 1)
      error := D.errorOf (k + 1) }

/-- The first attempt that is answered with a 2xx status. -/
def FirstOk (k : ℕ) : Prop :=
  1 ≤ k ∧ WebhookTask.isOk (D.statusOf k) ∧
    ∀ b, 1 ≤ b → b < k → WebhookTask.isOk (D.statusOf b) = false

/-- The POST of every attempt of the schedule comes to a status, an `HTTPError`
    or an `OSError`. -/
def Caught : Prop := ∀ a, 1 ≤ a → a ≤ D.schedule.length → D.post a ≠ .otherException

/-- The POST and the row of an attempt. -/
def made (attempt : ℕ) : List DeliverAct :=
  [request P hmacSha256 c, row c attempt (D.statusOf attempt) (D.errorOf attempt)]

/-- What `n` failing attempts do. -/
def failing : ℕ → List DeliverAct
  | 0 => []
  | n + 1 => failing n ++ (D.made P hmacSha256 c (n + 1) ++ D.pause (n + 1))

/-- The invariant of the loop: before attempt `a`, all attempts have failed. -/
def Failed (a : ℕ) (last : Option ℕ) (did : List DeliverAct) : Prop :=
  ∃ n, a = n + 1 ∧ last = D.lastStatus n ∧ did = D.failing P hmacSha256 c n

end

section
variable {D : WebhookDeliverer} {S : Site} {P : Printer} {hmacSha256 : Bytes → Bytes → Bytes}
  {c : DeliverCall} {a k n : ℕ} {last : Option ℕ}

theorem attempt_eq (h : D.post a ≠ .otherException) :
    D.attempt S P hmacSha256 c a last = D.answered S P hmacSha256 c a (D.statusOf a) (D.errorOf a) := by
  unfold attempt statusOf errorOf
  cases hpost : D.post a with
  | status code => rfl
  | error text => rfl
  | otherException => exact absurd hpost h

theorem attempt_ok (h : D.post a ≠ .otherException) (hok : WebhookTask.isOk (D.statusOf a) = true) :
    D.attempt S P hmacSha256 c a last =
      (D.made P hmacSha256 c a ++ [.add (delivered S c a (D.statusOf a))],
        .done (.returned true)) := by
  rw [attempt_eq h, answered, if_pos hok, made]

theorem attempt_failing (h : D.post a ≠ .otherException)
    (hok : WebhookTask.isOk (D.statusOf a) = false) :
    D.attempt S P hmacSha256 c a last =
      (D.made P hmacSha256 c a ++ D.pause a, .again (D.statusOf a)) := by
  rw [attempt_eq h, answered, if_neg (ne_true_of_eq_false hok), made]

/-- **The loop over failing attempts.** -/
theorem loop_failing (hcaught : ∀ b, 1 ≤ b → b ≤ k → D.post b ≠ .otherException)
    (hok : ∀ b, 1 ≤ b → b ≤ k → WebhookTask.isOk (D.statusOf b) = false) :
    attempts (D.attempt S P hmacSha256 c) k 1 none =
      (D.failing P hmacSha256 c k, .again (D.lastStatus k)) := by
  have hstep : ∀ a last did, a < k + 1 → D.Failed P hmacSha256 c a last did →
      ((D.attempt S P hmacSha256 c a last).2).Ends (D.Failed P hmacSha256 c) (fun _ _ => False) (a + 1)
        (did ++ (D.attempt S P hmacSha256 c a last).1) := by
    rintro a last did ha ⟨n, rfl, rfl, rfl⟩
    have hn : 1 ≤ n + 1 ∧ n + 1 ≤ k := by omega
    rw [attempt_failing (hcaught _ hn.1 hn.2) (hok _ hn.1 hn.2)]
    exact ⟨n + 1, rfl, rfl, rfl⟩
  have hstart : D.Failed P hmacSha256 c 1 none [] := ⟨0, rfl, rfl, rfl⟩
  have hends := attempts_rule hstep (Nat.add_comm 1 k) hstart
  rcases hloop : attempts (D.attempt S P hmacSha256 c) k 1 none with ⟨did, r | last⟩
  · rw [hloop] at hends
    exact hends.elim
  · rw [hloop] at hends
    obtain ⟨n, hn, rfl, hdid⟩ := hends
    obtain rfl : k = n := Nat.succ.inj hn
    rw [List.nil_append] at hdid
    exact Prod.ext hdid rfl

/-- A delivery whose `k`-th attempt is the first one answered with a 2xx
    status. -/
theorem deliver_of_firstOk (hcaught : D.Caught) (hfirst : D.FirstOk k) (hk : k ≤ D.schedule.length) :
    D.deliver S P hmacSha256 c =
      (D.failing P hmacSha256 c (k - 1) ++
        (D.made P hmacSha256 c k ++ [.add (delivered S c k (D.statusOf k))]), .returned true) := by
  obtain ⟨hpos, hok, hbelow⟩ := hfirst
  obtain ⟨n, rfl⟩ : ∃ n, k = n + 1 := ⟨k - 1, by omega⟩
  obtain ⟨m, hm⟩ : ∃ m, D.schedule.length = n + (m + 1) := ⟨D.schedule.length - (n + 1), by omega⟩
  have hfailing : attempts (D.attempt S P hmacSha256 c) n 1 none =
      (D.failing P hmacSha256 c n, .again (D.lastStatus n)) :=
    loop_failing (fun b h₁ hb => hcaught b h₁ (by omega)) fun b h₁ hb => hbelow b h₁ (by omega)
  have hlast : attempts (D.attempt S P hmacSha256 c) (m + 1) (1 + n) (D.lastStatus n) =
      (D.made P hmacSha256 c (n + 1) ++ [.add (delivered S c (n + 1) (D.statusOf (n + 1)))],
        .done (.returned true)) := by
    rw [Nat.add_comm 1 n]
    exact attempts_succ_done (attempt_ok (hcaught _ hpos hk) hok)
  rw [deliver, loop, hm, attempts_add hfailing, hlast, Nat.add_sub_cancel]

/-- A delivery none of whose attempts is answered with a 2xx status. -/
theorem deliver_of_failing (hcaught : D.Caught)
    (hok : ∀ b, 1 ≤ b → b ≤ D.schedule.length → WebhookTask.isOk (D.statusOf b) = false) :
    D.deliver S P hmacSha256 c =
      (D.failing P hmacSha256 c D.schedule.length ++
        (D.exhausted S c (D.lastStatus D.schedule.length)).map .add, .returned false) := by
  rw [deliver, loop, loop_failing hcaught hok]

/-! ## What is observed of a delivery -/

open DeliverAct

@[simp] theorem posts_append (acts acts' : List DeliverAct) :
    posts (acts ++ acts') = posts acts ++ posts acts' := List.filterMap_append

@[simp] theorem added_append (acts acts' : List DeliverAct) :
    added (acts ++ acts') = added acts ++ added acts' := List.filterMap_append

@[simp] theorem slept_append (acts acts' : List DeliverAct) :
    slept (acts ++ acts') = slept acts ++ slept acts' := List.filterMap_append

@[simp] theorem added_map_add (rows : List Write) : added (rows.map .add) = rows := by
  rw [added, List.filterMap_map]
  exact List.filterMap_some

@[simp] theorem posts_map_add (rows : List Write) : posts (rows.map .add) = [] := by
  rw [posts, List.filterMap_map, List.filterMap_eq_nil_iff]
  exact fun row _ => rfl

@[simp] theorem slept_map_add (rows : List Write) : slept (rows.map .add) = [] := by
  rw [slept, List.filterMap_map, List.filterMap_eq_nil_iff]
  exact fun row _ => rfl

@[simp] theorem posts_pause : posts (D.pause a) = [] := by
  unfold pause
  split_ifs <;> rfl

@[simp] theorem added_pause : added (D.pause a) = [] := by
  unfold pause
  split_ifs <;> rfl

theorem rowsTo_succ (n : ℕ) : D.rowsTo c (n + 1) = D.rowsTo c n ++
    [{ documentId := c.documentId
       tenantId := c.tenantId
       attempt := n + 1
       httpStatus := D.statusOf (n + 1)
       error := D.errorOf (n + 1) }] := by
  simp [rowsTo, List.range_succ]

theorem posts_failing (n : ℕ) : posts (D.failing P hmacSha256 c n) =
    List.replicate n (c.webhookUrl, buildSignedRequest P hmacSha256 c.payload c.webhookSecret) := by
  induction n with
  | zero => rfl
  | succ n ih =>
    rw [failing, posts_append, posts_append, ih, posts_pause, List.replicate_succ']
    rfl

theorem added_failing (n : ℕ) : added (D.failing P hmacSha256 c n) =
    (D.rowsTo c n).map .insertWebhookDelivery := by
  induction n with
  | zero => rfl
  | succ n ih =>
    rw [failing, added_append, added_append, ih, added_pause, rowsTo_succ, List.map_append]
    rfl

/-- There is a sleep after every attempt but the last of the schedule. -/
theorem slept_failing (n : ℕ) : slept (D.failing P hmacSha256 c n) =
    D.schedule.take (min n (D.schedule.length - 1)) := by
  induction n with
  | zero => rw [Nat.zero_min, List.take_zero]; rfl
  | succ n ih =>
    rw [failing, slept_append, slept_append, ih]
    by_cases h : n + 1 < D.schedule.length
    · have hmin : min n (D.schedule.length - 1) = n := by omega
      have hmin' : min (n + 1) (D.schedule.length - 1) = n + 1 := by omega
      have hn : n < D.schedule.length := by omega
      rw [hmin, hmin', pause, dif_pos h, List.take_succ_eq_append_getElem hn]
      rfl
    · have hmin : min n (D.schedule.length - 1) = D.schedule.length - 1 := by omega
      have hmin' : min (n + 1) (D.schedule.length - 1) = D.schedule.length - 1 := by omega
      rw [hmin, hmin', pause, dif_neg h]
      exact List.append_nil _

/-- **The retry loop of a webhook delivery** stops at the first attempt that is
    answered with a 2xx status, and otherwise at the end of its schedule. -/
theorem deliver_course (D : WebhookDeliverer) (S : Site) (P : Printer)
    (hmacSha256 : Bytes → Bytes → Bytes) (c : DeliverCall) (hcaught : D.Caught) :
    let acts := (D.deliver S P hmacSha256 c).1
    let result := (D.deliver S P hmacSha256 c).2
    let (body, headers) := buildSignedRequest P hmacSha256 c.payload c.webhookSecret
    let n := D.schedule.length
    (∀ k, D.FirstOk k → k ≤ n →
      posts acts = List.replicate k (c.webhookUrl, body, headers) ∧
      added acts = (D.rowsTo c k).map .insertWebhookDelivery ++ [delivered S c k (D.statusOf k)] ∧
      slept acts = D.schedule.take (k - 1) ∧
      result = .returned true) ∧
    ((¬ ∃ k, D.FirstOk k ∧ k ≤ n) →
      posts acts = List.replicate n (c.webhookUrl, body, headers) ∧
      added acts = (D.rowsTo c n).map .insertWebhookDelivery ++ D.exhausted S c (D.lastStatus n) ∧
      slept acts = D.schedule.take (n - 1) ∧
      result = .returned false) ∧
    ∃ signature, headers.lookup signatureHeader = some signature ∧
      verify hmacSha256 body c.webhookSecret signature = .ok true := by
  dsimp only
  refine ⟨fun k hfirst hk => ?_, fun hnone => ?_, buildSignedRequest_verifies _ _⟩
  · rw [deliver_of_firstOk hcaught hfirst hk]
    obtain ⟨n, rfl⟩ : ∃ n, k = n + 1 := ⟨k - 1, by have := hfirst.1; omega⟩
    have hmin : min n (D.schedule.length - 1) = n := by omega
    refine ⟨?_, ?_, ?_, rfl⟩
    · rw [posts_append, Nat.add_sub_cancel, posts_failing, List.replicate_succ']
      rfl
    · rw [added_append, Nat.add_sub_cancel, added_failing, rowsTo_succ, List.map_append,
        List.append_assoc]
      rfl
    · rw [slept_append, Nat.add_sub_cancel, slept_failing, hmin]
      exact List.append_nil _
  · have hok : ∀ b, 1 ≤ b → b ≤ D.schedule.length → WebhookTask.isOk (D.statusOf b) = false := by
      intro b
      induction b using Nat.strong_induction_on with
      | h b ih =>
        intro h₁ hb
        by_contra hok
        exact hnone ⟨b, ⟨h₁, by simpa using hok, fun b' h₁' hb' => ih b' hb' h₁' (by omega)⟩, hb⟩
    rw [deliver_of_failing hcaught hok]
    have hmin : min D.schedule.length (D.schedule.length - 1) = D.schedule.length - 1 := by omega
    refine ⟨?_, ?_, ?_, rfl⟩
    · rw [posts_append, posts_failing, posts_map_add, List.append_nil]
    · rw [added_append, added_failing, added_map_add]
    · rw [slept_append, slept_failing, slept_map_add, hmin, List.append_nil]

end

end WebhookDeliverer

namespace Sample

/-- HMAC-SHA256 of `{"document_id":"abc","status":"completed"}` under the secret
    `sek`. -/
def webhookHmac (_ _ : Bytes) : Bytes :=
  [206, 139, 120, 47, 227, 233, 61, 198, 233, 47, 208, 151, 50, 30, 148, 197,
    12, 252, 178, 82, 25, 3, 2, 169, 217, 161, 231, 51, 233, 33, 32, 245]

def webhookCall : DeliverCall where
  tenantId := tenantId
  documentId := documentId
  webhookUrl := "https://example.test/hook"
  webhookSecret := "sek"
  payload := [("status", .str "completed"), ("document_id", .str "abc")]

/-- The third POST is answered with 200, after a 503 and a timeout. -/
def thirdAnswers : WebhookDeliverer where
  post attempt :=
    if attempt = 1 then .status 503 else if attempt = 2 then .error "timed out" else .status 200

theorem thirdAnswers_firstOk : thirdAnswers.FirstOk 3 := by
  refine ⟨by decide, rfl, fun b h₁ hb => ?_⟩
  obtain rfl | rfl : b = 1 ∨ b = 2 := by omega
  · rfl
  · rfl

end Sample

theorem deliver_course_third :
    (Sample.thirdAnswers.deliver Sample.site default Sample.webhookHmac Sample.webhookCall).2 =
        .returned true ∧
      DeliverAct.slept (Sample.thirdAnswers.deliver Sample.site default Sample.webhookHmac
        Sample.webhookCall).1 = [1, 5] ∧
      (DeliverAct.posts (Sample.thirdAnswers.deliver Sample.site default Sample.webhookHmac
        Sample.webhookCall).1).length = 3 := by
  have hcaught : Sample.thirdAnswers.Caught := by
    intro a _ _ h
    simp only [Sample.thirdAnswers] at h
    split_ifs at h
  obtain ⟨hposts, -, hslept, hresult⟩ := (WebhookDeliverer.deliver_course Sample.thirdAnswers Sample.site
    default Sample.webhookHmac Sample.webhookCall hcaught).1 3 Sample.thirdAnswers_firstOk
      (by decide)
  exact ⟨hresult, hslept, by rw [hposts, List.length_replicate]⟩

/-! ## The task of a delivery -/

/-- The payload that `_deliver_webhook` passes to `deliver`. -/
def WebhookPayload.json (payload : WebhookPayload) : Obj :=
  [ ("document_id", .str payload.documentId.str),
    ("status", .str payload.status.value),
    ("routing_decision", (payload.routingDecision.map fun r => Json.str r.value).getD .null),
    ("extracted_json", (payload.extractedJson.map Json.obj).getD .null) ]

namespace WebhookTask

section
variable (t : WebhookTask)

def deliverer : WebhookDeliverer where
  post := t.env.post
  schedule := t.env.schedule.map Nat.cast

def call (request : WebhookRequest) : DeliverCall where
  tenantId := t.tenantId
  documentId := t.documentId
  webhookUrl := request.webhookUrl
  webhookSecret := request.webhookSecret
  payload := request.payload.json

/-- From `pc` the delivery ends as from `pc'`. -/
def LeadsTo (S : Site) (w : World) (pc pc' : WebhookPc) : Prop :=
  ∀ c, Finishes (Task.effect S) (w, .webhook (t.goto pc)) c ↔
    Finishes (Task.effect S) (w, .webhook (t.goto pc')) c

end

/-- The rest of `_deliver_webhook`, when `deliver` has ended. -/
def delivering (acts : List DeliverAct) : DeliverEnd → WebhookPc
  | .returned _ => .commit (DeliverAct.added acts)
  | .raised => .done .raised

/-- Where the task stands after an attempt, before which `deliver` did `did`. -/
def afterAttempt (request : WebhookRequest) (attempt : ℕ) (did : List DeliverAct) :
    List DeliverAct × Attempt (Option ℕ) DeliverEnd → WebhookPc
  | (out, .done result) => delivering (did ++ out) result
  | (out, .again lastStatus) => .post request (attempt + 1) lastStatus (DeliverAct.added (did ++ out))

section
variable {S : Site} {P : Printer} {hmacSha256 : Bytes → Bytes → Bytes} {w : World} {t : WebhookTask}
  {request : WebhookRequest} {pc pc' pc'' : WebhookPc} {a : ℕ} {last : Option ℕ}
  {did : List DeliverAct}

theorem LeadsTo.trans (h : t.LeadsTo S w pc pc') (h' : t.LeadsTo S w pc' pc'') :
    t.LeadsTo S w pc pc'' :=
  fun c => (h c).trans (h' c)

theorem leadsTo_of_move (h : (t.goto pc).move S w = { task := t.goto pc' }) : t.LeadsTo S w pc pc' :=
  fun _ => finishes_idle h

theorem attempted_eq {status : Option ℕ} {error : Option String} :
    (t.goto pc).attempted S request a status error (DeliverAct.added did) =
      afterAttempt request a did (t.deliverer.answered S P hmacSha256 (t.call request) a status error) := by
  unfold attempted WebhookDeliverer.answered
  by_cases hok : isOk status = true
  · simp only [hok, if_true, afterAttempt, delivering, WebhookDeliverer.added_append]
    rfl
  · simp only [hok, if_false, afterAttempt, WebhookDeliverer.added_append,
      WebhookDeliverer.added_pause, Bool.false_eq_true]
    rfl

/-- One POST of the task is one attempt of `deliver`. -/
theorem move_post (ha : a ≤ t.env.schedule.length) :
    (t.goto (.post request a last (DeliverAct.added did))).move S w =
      { task := t.goto (afterAttempt request a did
          (t.deliverer.attempt S P hmacSha256 (t.call request) a last)) } := by
  have hlt : ¬ t.env.schedule.length < a := by omega
  have hpost : t.deliverer.post a = t.env.post a := rfl
  have hanswered (status : Option ℕ) (error : Option String) :
      ({ task := t.goto ((t.goto (.post request a last (DeliverAct.added did))).attempted S request a
          status error (DeliverAct.added did)) } : Move WebhookTask Empty) =
        { task := t.goto (afterAttempt request a did
            (t.deliverer.answered S P hmacSha256 (t.call request) a status error)) } := by
    rw [attempted_eq]
  unfold WebhookDeliverer.attempt
  cases h : t.env.post a with
  | otherException =>
    simp only [move, goto, hlt, if_false, hpost, h]
    rfl
  | status code =>
    simp only [move, goto, hlt, if_false, hpost, h]
    exact hanswered (some code) none
  | error text =>
    simp only [move, goto, hlt, if_false, hpost, h]
    exact hanswered none (some text)

/-- **The task of a delivery commits what `deliver` adds** to its session, and
    raises where `deliver` raises. -/
theorem leadsTo_deliver :
    t.LeadsTo S w (.post request 1 none [])
      (delivering (t.deliverer.deliver S P hmacSha256 (t.call request)).1
        (t.deliverer.deliver S P hmacSha256 (t.call request)).2) := by
  have hlength : t.deliverer.schedule.length = t.env.schedule.length := List.length_map _
  have hstep : ∀ a last did, a < t.env.schedule.length + 1 →
      t.LeadsTo S w (.post request 1 none []) (.post request a last (DeliverAct.added did)) →
      ((t.deliverer.attempt S P hmacSha256 (t.call request) a last).2).Ends
        (fun a last did =>
          t.LeadsTo S w (.post request 1 none []) (.post request a last (DeliverAct.added did)))
        (fun result did => t.LeadsTo S w (.post request 1 none []) (delivering did result)) (a + 1)
        (did ++ (t.deliverer.attempt S P hmacSha256 (t.call request) a last).1) := by
    intro a last did ha hI
    have hnext : t.LeadsTo S w (.post request 1 none []) (afterAttempt request a did
        (t.deliverer.attempt S P hmacSha256 (t.call request) a last)) :=
      hI.trans (leadsTo_of_move (move_post (by omega)))
    rcases hattempt : t.deliverer.attempt S P hmacSha256 (t.call request) a last with ⟨out, r | last'⟩
    · rw [hattempt] at hnext
      exact hnext
    · rw [hattempt] at hnext
      exact hnext
  have hstart : t.LeadsTo S w (.post request 1 none []) (.post request 1 none (DeliverAct.added [])) :=
    fun _ => Iff.rfl
  have hends := attempts_rule hstep (Nat.add_comm 1 _) hstart
  rw [List.nil_append, ← hlength] at hends
  unfold WebhookDeliverer.deliver WebhookDeliverer.loop
  rcases hloop : attempts (t.deliverer.attempt S P hmacSha256 (t.call request))
    t.deliverer.schedule.length 1 none with ⟨out, r | last⟩
  · rw [hloop] at hends
    exact hends
  · rw [hloop] at hends
    refine hends.trans (leadsTo_of_move ?_)
    have hlt : t.env.schedule.length < t.deliverer.schedule.length + 1 := by omega
    simp only [move, goto, hlt, if_true, delivering, WebhookDeliverer.added_append,
      WebhookDeliverer.added_map_add]
    simp only [WebhookDeliverer.exhausted, exhausted, call, hlength]

end

end WebhookTask

end OcrService
