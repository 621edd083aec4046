/-
  A webhook delivery with nothing else going on.

  The loop of `deliver` ends in one of two ways (`finishes_post`): its rows and
  events are committed in one transaction, or an exception that it does not
  catch loses all of them.  So a delivery is recorded exactly if every POST it
  makes is answered, or fails as the loop expects, and leaves a row that the
  table takes (`delivery_recorded_iff`).

  The payload is what the table holds: the extraction as `encrypt_fields` left
  it.  It is the extraction of the run exactly if there was nothing to encrypt
  (`delivered_extraction_iff`).
-/
import OcrService.Worker.Persist

namespace OcrService

open Trans PyData PyStr

namespace WebhookTask

section
variable (t : WebhookTask)

def goto (pc : WebhookPc) : WebhookTask := { t with pc }

/-- `last_status` after the attempt. -/
def statusOf (attempt : ℕ) : Option ℕ :=
  match t.env.post attempt with
  | .status code => some code
  | _ => none

/-- `error` after the attempt. -/
def errorOf (attempt : ℕ) : Option String :=
  match t.env.post attempt with
  | .error text => some text
  | _ => none

/-- The row of an attempt. -/
def rowOf (attempt : ℕ) : WebhookDelivery :=
  { documentId := t.documentId
    tenantId := t.tenantId
    attempt
    httpStatus := t.statusOf attempt
    error := t.errorOf attempt }

/-- The attempt fails, and the loop goes on. -/
def Fails (attempt : ℕ) : Prop :=
  isOk (t.statusOf attempt) = false ∧ t.env.post attempt ≠ .otherException

/-- The attempt is made: it is in the schedule, and all attempts before fail. -/
def Attempted (attempt : ℕ) : Prop :=
  1 ≤ attempt ∧ attempt ≤ t.env.schedule.length ∧ ∀ b, 1 ≤ b → b < attempt → t.Fails b

/-- Every attempt that is made raises nothing but what `deliver` catches, and
    leaves a row that the table takes. -/
def Recordable : Prop :=
  ∀ a, t.Attempted a → t.env.post a ≠ .otherException ∧ a ≤ 10 ∧ IfSome NulFree (t.errorOf a)

/-- What a delivery leaves in the database: a row for every attempt made, and
    the event of a 2xx answer or the dead letter and event of none. -/
def Recorded (db db' : Db) : Prop :=
  ∃ rows events letters,
    db'.webhookDeliveries = db.webhookDeliveries ++ rows ∧ db'.auditLog = db.auditLog ++ events ∧
    db'.dlq = db.dlq ++ letters ∧ (∀ a, t.Attempted a → t.rowOf a ∈ rows) ∧
    ((∃ r ∈ rows, r.documentId = t.documentId ∧ isOk r.httpStatus) ∧
        (∃ e ∈ events, e.documentId = some t.documentId ∧ e.eventType = "WEBHOOK_DELIVERED") ∨
      (∃ l ∈ letters, l.documentId = t.documentId ∧ l.failureReason = .webhookDeliveryFailed) ∧
        ∃ e ∈ events, e.documentId = some t.documentId ∧ e.eventType = "WEBHOOK_EXHAUSTED")

/-- The rows of the attempts up to the `n`-th. -/
def rowsTo (n : ℕ) : List WebhookDelivery := (List.range n).map fun k => t.rowOf (k + 1)

/-- `deliver` after `n` attempts. -/
def after (request : WebhookRequest) (n : ℕ) (last : Option ℕ) : WebhookTask :=
  t.goto (.post request (n + 1) last ((t.rowsTo n).map .insertWebhookDelivery))

/-- What `deliver` has added to its session when it returns. -/
inductive Added (S : Site) : List WebhookDelivery → List Write → Prop
  | delivered {n : ℕ} (hn : t.Attempted n) (hok : isOk (t.statusOf n) = true) :
      Added S (t.rowsTo n) [t.delivered S n (t.statusOf n)]
  | exhausted (last : Option ℕ) (hall : ∀ b, 1 ≤ b → b ≤ t.env.schedule.length → t.Fails b) :
      Added S (t.rowsTo t.env.schedule.length) (t.exhausted S last)

end

section
variable {S : Site} {w : World} {t : WebhookTask} {c : World × Task}

/-- A step of a delivery that leaves the world alone. -/
theorem finishes_idle {t' : WebhookTask} (h : t.move S w = { task := t' }) :
    Finishes (Task.effect S) (w, .webhook t) c ↔ Finishes (Task.effect S) (w, .webhook t') c := by
  rw [Finishes.step_iff]
  simp only [Task.effect, Task.move, h, World.apply]

theorem rowsTo_succ (n : ℕ) : t.rowsTo (n + 1) = t.rowsTo n ++ [t.rowOf (n + 1)] := by
  simp [rowsTo, List.range_succ]

theorem mem_rowsTo {n a : ℕ} (h₁ : 1 ≤ a) (h : a ≤ n) : t.rowOf a ∈ t.rowsTo n :=
  List.mem_map.2 ⟨a - 1, List.mem_range.2 (by omega), by rw [Nat.sub_add_cancel h₁]⟩

/-- **The loop of `deliver`** adds its rows and ends, or raises what it does not
    catch. -/
theorem finishes_post (request : WebhookRequest) {k : ℕ} : ∀ {n : ℕ} (last : Option ℕ),
    n + k = t.env.schedule.length → (∀ b, 1 ≤ b → b ≤ n → t.Fails b) →
    (∃ rows ws, t.Added S rows ws ∧ ∀ c,
      Finishes (Task.effect S) (w, .webhook (t.after request n last)) c ↔
      Finishes (Task.effect S) (w, .webhook (t.goto (.commit (rows.map .insertWebhookDelivery ++ ws)))) c) ∨
    (∃ a, t.Attempted a ∧ t.env.post a = .otherException) ∧ ∀ c,
      Finishes (Task.effect S) (w, .webhook (t.after request n last)) c ↔
      Finishes (Task.effect S) (w, .webhook (t.goto (.done .raised))) c := by
  induction k with
  | zero =>
    intro n last hn hfails
    obtain rfl : n = t.env.schedule.length := hn
    refine Or.inl ⟨_, _, .exhausted last hfails, fun c => finishes_idle ?_⟩
    simp [move, after, goto, exhausted]
  | succ k ih =>
    intro n last hn hfails
    have hmade : t.Attempted (n + 1) :=
      ⟨Nat.succ_pos n, by omega, fun b h₁ hb => hfails b h₁ (by omega)⟩
    have hlt : ¬ t.env.schedule.length < n + 1 := by omega
    by_cases hother : t.env.post (n + 1) = .otherException
    · refine Or.inr ⟨⟨n + 1, hmade, hother⟩, fun c => finishes_idle ?_⟩
      simp [move, after, goto, hlt, hother]
    · have hmove : (t.after request n last).move S w =
          { task := t.goto (t.attempted S request (n + 1) (t.statusOf (n + 1))
              (t.errorOf (n + 1)) ((t.rowsTo n).map .insertWebhookDelivery)) } := by
        simp only [move, after, goto, hlt, if_false, statusOf, errorOf]
        cases hpost : t.env.post (n + 1) with
        | status code => rfl
        | error text => rfl
        | otherException => exact absurd hpost hother
      have hrow : (t.rowsTo n).map Write.insertWebhookDelivery ++
          [t.attemptRow (n + 1) (t.statusOf (n + 1)) (t.errorOf (n + 1))] =
          (t.rowsTo (n + 1)).map .insertWebhookDelivery := by
        simp [rowsTo_succ, attemptRow, rowOf]
      by_cases hok : isOk (t.statusOf (n + 1)) = true
      · refine Or.inl ⟨_, _, .delivered hmade hok, fun c => ?_⟩
        rw [finishes_idle hmove, attempted, if_pos hok, ← hrow]
        simp
      · have hfails' : ∀ b, 1 ≤ b → b ≤ n + 1 → t.Fails b := by
          intro b h₁ hb
          rcases Nat.lt_or_eq_of_le hb with hb | rfl
          · exact hfails b h₁ (by omega)
          · exact ⟨by simpa using hok, hother⟩
        have hnext : ∀ c, Finishes (Task.effect S) (w, .webhook (t.after request n last)) c ↔
            Finishes (Task.effect S)
              (w, .webhook (t.after request (n + 1) (t.statusOf (n + 1)))) c := by
          intro c
          rw [finishes_idle hmove, attempted, if_neg hok, hrow, after]
        rcases ih (t.statusOf (n + 1)) (by omega) hfails' with
          ⟨rows, ws, hadded, hfin⟩ | ⟨ha, hfin⟩
        · exact Or.inl ⟨rows, ws, hadded, fun c => (hnext c).trans (hfin c)⟩
        · exact Or.inr ⟨ha, fun c => (hnext c).trans (hfin c)⟩

/-- The transaction of a delivery: the rows are taken if each of them is. -/
theorem commit_rows {d : Uuid} {ws : List Write} {db' : Db} : ∀ {rows : List WebhookDelivery} {db : Db},
    db.hasDocument d → (∀ r ∈ rows, r.documentId = d) →
    (db.commit (rows.map .insertWebhookDelivery ++ ws) = .ok db' ↔ (∀ r ∈ rows, r.Storable) ∧
      { db with webhookDeliveries := db.webhookDeliveries ++ rows }.commit ws = .ok db')
  | [], db, _, _ => by simp
  | r :: rows, db, hdoc, hrows => by
    rw [List.map_cons, List.cons_append, Db.commit_cons_ok]
    have hr : db.hasDocument r.documentId := by rw [hrows r List.mem_cons_self]; exact hdoc
    have happly : ∀ db₁, (Write.insertWebhookDelivery r).apply db = .ok db₁ ↔
        r.Storable ∧ { db with webhookDeliveries := db.webhookDeliveries ++ [r] } = db₁ := by
      intro db₁
      rw [Write.apply_ok]
      simp [Write.refused, Write.perform, hr]
    have ih : ({ db with webhookDeliveries := db.webhookDeliveries ++ [r] } : Db).commit
        (rows.map .insertWebhookDelivery ++ ws) = .ok db' ↔ _ :=
      commit_rows hdoc fun r' hr' => hrows r' (List.mem_cons_of_mem _ hr')
    simp only [happly, and_assoc, exists_and_left, exists_eq_left', ih, List.append_assoc,
      List.singleton_append, List.forall_mem_cons]

/-- The rest of the transaction goes through: the document is there. -/
theorem Added.commit {rows : List WebhookDelivery} {ws : List Write} {db : Db}
    (h : t.Added S rows ws) (hdoc : db.hasDocument t.documentId) :
    ∃ db' events letters, db.commit ws = .ok db' ∧ db'.webhookDeliveries = db.webhookDeliveries ∧
      db'.auditLog = db.auditLog ++ events ∧ db'.dlq = db.dlq ++ letters ∧
      ((∃ r ∈ rows, r.documentId = t.documentId ∧ isOk r.httpStatus) ∧
        (∃ e ∈ events, e.documentId = some t.documentId ∧ e.eventType = "WEBHOOK_DELIVERED") ∨
      (∃ l ∈ letters, l.documentId = t.documentId ∧ l.failureReason = .webhookDeliveryFailed) ∧
        ∃ e ∈ events, e.documentId = some t.documentId ∧ e.eventType = "WEBHOOK_EXHAUSTED") := by
  cases h with
  | @delivered n hn hok =>
    refine ⟨_, [_], [], rfl, rfl, rfl, (List.append_nil _).symm, Or.inl ⟨?_, ?_⟩⟩
    · exact ⟨t.rowOf n, mem_rowsTo hn.1 le_rfl, rfl, hok⟩
    · exact ⟨_, List.mem_singleton_self _, rfl, rfl⟩
  | exhausted last hall =>
    have hletter : (Write.insertDeadLetter
        { documentId := t.documentId
          tenantId := t.tenantId
          failureReason := .webhookDeliveryFailed
          lastHttpStatus := last }).refused db = none := by
      simp [Write.refused, hdoc, DeadLetter.Storable]
    refine ⟨_, [_], [_], Db.commit_cons_ok.2 ⟨_, Write.apply_ok.2 ⟨hletter, rfl⟩, rfl⟩, rfl, rfl, rfl,
      Or.inr ⟨?_, ?_⟩⟩
    · exact ⟨_, List.mem_singleton_self _, rfl, rfl⟩
    · exact ⟨_, List.mem_singleton_self _, rfl, rfl⟩

/-- Every attempt that is made has its row. -/
theorem Added.mem {rows : List WebhookDelivery} {ws : List Write} (h : t.Added S rows ws) {a : ℕ}
    (ha : t.Attempted a) : t.rowOf a ∈ rows := by
  obtain ⟨h₁, hle, hbefore⟩ := ha
  cases h with
  | @delivered n hn hok =>
    refine mem_rowsTo h₁ (le_of_not_gt fun hlt => ?_)
    rw [(hbefore n hn.1 hlt).1] at hok
    cases hok
  | exhausted last hall => exact mem_rowsTo h₁ hle

/-- The rows are those of attempts that are made. -/
theorem Added.attempted {rows : List WebhookDelivery} {ws : List Write} (h : t.Added S rows ws)
    {r : WebhookDelivery} (hr : r ∈ rows) :
    ∃ a, t.Attempted a ∧ t.env.post a ≠ .otherException ∧ r = t.rowOf a := by
  cases h with
  | @delivered n hn hok =>
    obtain ⟨k, hk, rfl⟩ := List.mem_map.1 hr
    have hk := List.mem_range.1 hk
    refine ⟨k + 1, ⟨Nat.succ_pos k, by have := hn.2.1; omega, fun b h₁ hb =>
      hn.2.2 b h₁ (by omega)⟩, ?_, rfl⟩
    rcases Nat.lt_or_eq_of_le hk with hlt | rfl
    · exact (hn.2.2 (k + 1) (Nat.succ_pos k) hlt).2
    · intro hother
      simp [statusOf, hother, isOk] at hok
  | exhausted last hall =>
    obtain ⟨k, hk, rfl⟩ := List.mem_map.1 hr
    have hk := List.mem_range.1 hk
    exact ⟨k + 1, ⟨Nat.succ_pos k, by omega, fun b h₁ hb => hall b h₁ (by omega)⟩,
      (hall (k + 1) (Nat.succ_pos k) (by omega)).2, rfl⟩

/-- The table takes the rows of the attempts exactly if they are recordable. -/
theorem Added.storable_iff {rows : List WebhookDelivery} {ws : List Write} (h : t.Added S rows ws) :
    (∀ r ∈ rows, r.Storable) ↔ t.Recordable := by
  constructor
  · intro hall a ha
    have hr := h.mem ha
    obtain ⟨a', -, hother, heq⟩ := h.attempted hr
    obtain rfl : a = a' := congrArg WebhookDelivery.attempt heq
    exact ⟨hother, (hall _ hr).2.1, (hall _ hr).2.2⟩
  · intro hall r hr
    obtain ⟨a, ha, -, rfl⟩ := h.attempted hr
    exact ⟨ha.1, (hall a ha).2.1, (hall a ha).2.2⟩

/-- Nothing is recorded where the database does not change. -/
theorem not_recorded_self (db : Db) : ¬ t.Recorded db db := by
  rintro ⟨rows, events, letters, hrows, -, hletters, -, ⟨⟨r, hr, -⟩, -⟩ | ⟨⟨l, hl, -⟩, -⟩⟩
  · rw [List.self_eq_append_right.1 hrows] at hr
    cases hr
  · rw [List.self_eq_append_right.1 hletters] at hl
    cases hl

/-- **A lost webhook is recorded** unless an exception that `deliver` does not
    catch, or a row that the table refuses, takes everything with it. -/
theorem delivery_recorded_iff {document : Document} {tenant : Tenant} {url : String}
    (hpc : t.pc = .document) (hraises : ∀ p, t.env.raises p = false)
    (hdocument : w.db.document? t.tenantId t.documentId = some document)
    (htenant : w.db.tenant? t.tenantId = some tenant) (hurl : tenant.webhookUrl = some url) :
    ∃ w' o, RunsTo S w (.webhook t) w' (.webhook (t.goto (.done o))) ∧
      (t.Recorded w.db w'.db ↔ url ≠ "" ∧ t.Recordable) := by
  have hdoc : w.db.hasDocument t.documentId := by
    obtain ⟨hfind, -⟩ := Option.filter_eq_some_iff.1 hdocument
    rw [Db.hasDocument, hfind]
    rfl
  have hdone (o : Outcome) : RunsTo S w (.webhook (t.goto (.done o))) w (.webhook (t.goto (.done o))) :=
    Finishes.fixed rfl
  have hread : t.move S w = { task := t.goto (.tenant document) } := by
    simp [move, hpc, hraises, hdocument, goto]
  by_cases hempty : url = ""
  · have hnone : (t.goto (.tenant document)).move S w = { task := t.goto (.done .returned) } := by
      simp [move, goto, hraises, htenant, hurl, hempty]
    refine ⟨w, .returned, (finishes_idle hread).2 ((finishes_idle hnone).2 (hdone _)), ?_⟩
    exact iff_of_false (not_recorded_self _) fun h => h.1 hempty
  · have hsome : (t.goto (.tenant document)).move S w =
        { task := t.goto (.extraction document url tenant.webhookSecret) } := by
      simp only [move, goto, hraises, htenant, hurl, Bool.false_eq_true, if_false]
    obtain ⟨request, hpost⟩ : ∃ request,
        (t.goto (.extraction document url tenant.webhookSecret)).move S w =
          { task := t.after request 0 none } := by
      simp only [move, goto, hraises]
      exact ⟨_, rfl⟩
    have hstart {c : World × Task} : Finishes (Task.effect S) (w, .webhook t) c ↔
        Finishes (Task.effect S) (w, .webhook (t.after request 0 none)) c :=
      (finishes_idle hread).trans ((finishes_idle hsome).trans (finishes_idle hpost))
    rcases finishes_post (S := S) (w := w) request none (Nat.zero_add t.env.schedule.length)
      (fun b h₁ h₀ => by omega) with
      ⟨rows, ws, hadded, hfin⟩ | ⟨⟨a, ha, hother⟩, hfin⟩
    · by_cases hrec : t.Recordable
      · have hdoc' : ({ w.db with webhookDeliveries := w.db.webhookDeliveries ++ rows } : Db).hasDocument
            t.documentId := hdoc
        obtain ⟨db', events, letters, hws, hrows, hevents, hletters, hwhat⟩ := hadded.commit hdoc'
        have hcommit : w.db.commit (rows.map .insertWebhookDelivery ++ ws) = .ok db' :=
          (commit_rows hdoc fun r hr => by obtain ⟨a, -, -, rfl⟩ := hadded.attempted hr; rfl).2
            ⟨hadded.storable_iff.2 hrec, hws⟩
        refine ⟨{ w with db := db' }, .returned, hstart.2 ((hfin _).2 (Finishes.step_iff.2 ?_)), ?_⟩
        · simp only [Task.effect, Task.move, move, goto, hraises, hcommit, World.apply,
            Bool.false_eq_true, if_false]
          exact Finishes.fixed rfl
        · exact iff_of_true ⟨rows, events, letters, hrows, hevents, hletters,
            fun a ha => hadded.mem ha, hwhat⟩ ⟨hempty, hrec⟩
      · have hcommit : ∀ db', w.db.commit (rows.map .insertWebhookDelivery ++ ws) ≠ .ok db' := by
          intro db' h
          refine hrec (hadded.storable_iff.1 ((commit_rows hdoc fun r hr => ?_).1 h).1)
          obtain ⟨a, -, -, rfl⟩ := hadded.attempted hr
          rfl
        have hlost : (t.goto (.commit (rows.map .insertWebhookDelivery ++ ws))).move S w =
            { task := t.goto (.done .raised) } := by
          simp only [move, goto, hraises, Bool.false_eq_true, if_false]
          split
          · rfl
          · exact absurd ‹_› (hcommit _)
        exact ⟨w, .raised, hstart.2 ((hfin _).2 ((finishes_idle hlost).2 (hdone _))),
          iff_of_false (not_recorded_self _) fun h => hrec h.2⟩
    · exact ⟨w, .raised, hstart.2 ((hfin _).2 (hdone _)),
        iff_of_false (not_recorded_self _) fun h => (h.2 a ha).1 hother⟩

end

end WebhookTask

/-! A delivery that exhausts its schedule, and one whose second POST raises what is
not caught. -/

namespace Sample

/-- The world after the document completed. -/
def completedWorld : World where
  db := { (world []).db with documents := [{ document with status := .completed }] }

def delivering (post : ℕ → PostResult) : WebhookTask where
  documentId := documentId
  tenantId := tenantId
  env := { post }

def unanswered : ℕ → PostResult := fun attempt =>
  if attempt = 2 then .error "timed out" else .status 503

def interrupted : ℕ → PostResult := fun attempt =>
  if attempt = 1 then .status 503 else .otherException

end Sample

/-- Five attempts fail, one of them with a timeout: a row for each of them and the
    dead letter are recorded. -/
theorem delivery_recorded_iff_sample :
    ∃ w' o, RunsTo Sample.site Sample.completedWorld (.webhook (Sample.delivering Sample.unanswered)) w'
        (.webhook ((Sample.delivering Sample.unanswered).goto (.done o))) ∧
      (∀ a, 1 ≤ a → a ≤ 5 → (Sample.delivering Sample.unanswered).Attempted a) ∧
      (Sample.delivering Sample.unanswered).Recorded Sample.completedWorld.db w'.db := by
  have hfails (a : ℕ) : (Sample.delivering Sample.unanswered).Fails a := by
    unfold WebhookTask.Fails WebhookTask.statusOf Sample.delivering Sample.unanswered
    by_cases h : a = 2 <;> simp [h, WebhookTask.isOk]
  obtain ⟨w', o, hrun, hiff⟩ := WebhookTask.delivery_recorded_iff (S := Sample.site)
    (w := Sample.completedWorld) (t := Sample.delivering Sample.unanswered) rfl (fun _ => rfl) rfl rfl rfl
  refine ⟨w', o, hrun, fun a h₁ h₅ => ⟨h₁, h₅, fun b _ _ => hfails b⟩, hiff.2 ⟨by decide, ?_⟩⟩
  intro a ha
  refine ⟨(hfails a).2, ha.2.1.trans (by decide), ?_⟩
  unfold WebhookTask.errorOf Sample.delivering Sample.unanswered
  by_cases h : a = 2
  · simp only [h, if_true]
    exact ifSome_some.2 (by decide)
  · simp only [h, if_false]
    exact ifSome_none

/-- The first attempt is answered with 503, and the second one raises an
    exception that is no `HTTPError`: nothing is recorded. -/
theorem delivery_lost :
    (Sample.delivering Sample.interrupted).Attempted 1 ∧ (Sample.delivering Sample.interrupted).Attempted 2 ∧
      RunsTo Sample.site Sample.completedWorld (.webhook (Sample.delivering Sample.interrupted))
        Sample.completedWorld
        (.webhook ((Sample.delivering Sample.interrupted).goto (.done .raised))) ∧
      ¬ (Sample.delivering Sample.interrupted).Recorded Sample.completedWorld.db Sample.completedWorld.db := by
  refine ⟨⟨le_rfl, by decide, fun b h₁ hb => by omega⟩, ⟨by decide, by decide, fun b h₁ hb => ?_⟩,
    Finishes.of_alone (n := 5) rfl rfl, WebhookTask.not_recorded_self _⟩
  obtain rfl : b = 1 := by omega
  exact ⟨rfl, fun h => by cases h⟩

/-! ## What is delivered -/

section
variable {S : Site} {w w₁ : World} {r : RunTask} {f : ExtractionState} {db' : Db} {data : Obj}

/-- The row of a run that ended `completed`. -/
theorem resultOf_persistDb (hstatus : f.status = some .completed) (hpersist : r.persistDb S w f = some db') :
    ∃ extracted row, encryptedExtraction S r.tenantId r.env.nonces f = .ok extracted ∧
      db'.resultOf r.documentId = some row ∧ row.tenantId = r.tenantId ∧
      row.extractedJson = some extracted := by
  cases hdoc : w.db.document? r.tenantId r.documentId with
  | none => simp [RunTask.persistDb, hdoc] at hpersist
  | some document =>
    obtain ⟨hid, -, -⟩ := find_of_document? hdoc
    have hfinal : finalStatus f = .completed := by rw [finalStatus, hstatus]; rfl
    obtain ⟨extracted, henc, hnone, hrows⟩ := (persistDb_rows hdoc hpersist).2.results (Or.inl hfinal)
    refine ⟨extracted, { (extractionResult document.id r.tenantId f extracted).stored with
      id := w.db.nextId }, henc, ?_, rfl, rfl⟩
    rw [← hid, Db.resultOf, hrows, Rows.find_append_one, ← Db.resultOf, hnone]
    simp [ExtractionResult.stored, extractionResult]

/-- **What is delivered is what was extracted** exactly if no path of
    `pii_fields` addresses a string of the extraction: the payload holds the
    envelopes of the strings that were encrypted. -/
theorem delivered_extraction_iff {t : WebhookTask} {document : Document} {url secret : String}
    (hstatus : f.status = some .completed) (hdata : f.extractedJson = some data)
    (hplain : ∀ path s, data.lookup path = some (.str s) → isEncrypted s = false)
    (hpersist : r.persistDb S w f = some db') (ht : t ∈ r.scheduledWebhooks f)
    (hraises : t.env.raises .extraction = false)
    (hkept : w₁.db.resultOf r.documentId = db'.resultOf r.documentId) :
    ∃ request, (t.goto (.extraction document url secret)).move S w₁ =
        { task := t.goto (.post request 1 none []) } ∧
      (request.payload.extractedJson = f.extractedJson ↔
        ∀ p ∈ f.piiFields.getD [], ∀ s, data.lookup (Path.keys p) ≠ some (.str s)) := by
  obtain ⟨extracted, row, henc, hrow, htenant, hextracted⟩ := resultOf_persistDb hstatus hpersist
  obtain rfl : t = { documentId := r.documentId, tenantId := r.tenantId, env := r.env.webhook } := by
    rw [RunTask.scheduledWebhooks, if_pos hstatus] at ht
    exact List.mem_singleton.1 ht
  refine ⟨_, if_neg (ne_true_of_eq_false hraises), ?_⟩
  have hsealed : extracted = data ↔ Sealed (f.piiFields.getD []) data := by
    unfold encryptedExtraction at henc
    rw [hdata, Option.getD_some] at henc
    dsimp only at henc
    split_ifs at henc with hnone
    · rw [hnone]
      refine iff_of_true (Except.ok.inj henc).symm fun p hp => ?_
      cases hp
    · exact encryptFields_eq_self_iff henc
  have hpayload : ((w₁.db.resultOf r.documentId).filter fun row => row.tenantId = r.tenantId).bind
      (fun row => row.extractedJson) = some extracted := by
    rw [hkept, hrow]
    simp [Option.filter, htenant, hextracted]
  refine Iff.trans (b := some extracted = f.extractedJson) (by rw [← hpayload]; exact Iff.rfl) ?_
  rw [hdata, Option.some.injEq, hsealed]
  refine forall₃_congr fun p hp s => ⟨fun h hs => ?_, fun h hs => absurd hs h⟩
  have := h hs
  rw [hplain _ s hs] at this
  cases this

end

/-- The request that a task POSTs next. -/
def Task.request? : Task → Option WebhookRequest
  | .webhook t =>
    match t.pc with
    | .post request _ _ _ => some request
    | _ => none
  | _ => none

namespace Sample

/-- The deployment with an encryption key. -/
def keyedSite : Site :=
  { site with
    cipher :=
      { site.cipher with
        b64encode := fun _ => "q80="
        b64decode := fun _ => .ok (List.replicate 32 0)
        piiEncryptionKey := some "key" } }

def extraction : Obj := [("name", .str "Ann")]

theorem extraction_plain (path : List String) (s : String) (h : extraction.lookup path = some (.str s)) :
    isEncrypted s = false := by
  match path, h with
  | [k], h =>
    simp only [extraction, Obj.lookup, Obj.get?] at h
    split_ifs at h
    cases h
    decide
  | k :: k' :: ks, h =>
    simp only [extraction, Obj.lookup, Obj.get?] at h
    split_ifs at h

end Sample

theorem delivered_extraction_iff_sample :
    (∃ f db' request, Sample.run.reached (Sample.world []) = some f ∧
      Sample.run.persistDb Sample.keyedSite (Sample.world []) f = some db' ∧
      ((Sample.delivering Sample.env.webhook.post).goto (.extraction Sample.document "" "")).move
          Sample.keyedSite { db := db' } =
        { task := (Sample.delivering Sample.env.webhook.post).goto (.post request 1 none []) } ∧
      request.payload.extractedJson = f.extractedJson) ∧
    ∃ f db' request, Sample.run.reached (Sample.world ["name"]) = some f ∧
      Sample.run.persistDb Sample.keyedSite (Sample.world ["name"]) f = some db' ∧
      ((Sample.delivering Sample.env.webhook.post).goto (.extraction Sample.document "" "")).move
          Sample.keyedSite { db := db' } =
        { task := (Sample.delivering Sample.env.webhook.post).goto (.post request 1 none []) } ∧
      request.payload.extractedJson ≠ f.extractedJson := by
  have hdelivered : ∀ fields, (Sample.run.reached (Sample.world fields)).any (fun f =>
      decide (f.status = some .completed) && decide (f.extractedJson = some Sample.extraction) &&
        decide (f.piiFields.getD [] = fields) &&
        (Sample.run.persistDb Sample.keyedSite (Sample.world fields) f).isSome) = true →
      ∃ f db' request, Sample.run.reached (Sample.world fields) = some f ∧
        Sample.run.persistDb Sample.keyedSite (Sample.world fields) f = some db' ∧
        ((Sample.delivering Sample.env.webhook.post).goto (.extraction Sample.document "" "")).move
            Sample.keyedSite { db := db' } =
          { task := (Sample.delivering Sample.env.webhook.post).goto (.post request 1 none []) } ∧
        (request.payload.extractedJson = f.extractedJson ↔
          ∀ p ∈ fields, ∀ s, Sample.extraction.lookup (Path.keys p) ≠ some (.str s)) := by
    intro fields hrun
    obtain ⟨f, hf, hfacts⟩ := (Option.any_eq_true _ _).1 hrun
    simp only [Bool.and_eq_true, decide_eq_true_eq] at hfacts
    obtain ⟨⟨⟨hstatus, hdata⟩, hfields⟩, hpersist⟩ := hfacts
    obtain ⟨db', hdb'⟩ := Option.isSome_iff_exists.1 hpersist
    have hscheduled : Sample.delivering Sample.env.webhook.post ∈ Sample.run.scheduledWebhooks f := by
      rw [RunTask.scheduledWebhooks, if_pos hstatus]
      exact List.mem_singleton_self _
    have hpost : ∃ request, ((Sample.delivering Sample.env.webhook.post).goto
        (.extraction Sample.document "" "")).move Sample.keyedSite { db := db' } =
          { task := (Sample.delivering Sample.env.webhook.post).goto (.post request 1 none []) } ∧
        (request.payload.extractedJson = f.extractedJson ↔
          ∀ p ∈ f.piiFields.getD [], ∀ s, Sample.extraction.lookup (Path.keys p) ≠ some (.str s)) :=
      delivered_extraction_iff hstatus hdata Sample.extraction_plain hdb' hscheduled rfl rfl
    obtain ⟨request, hmove, hiff⟩ := hpost
    rw [hfields] at hiff
    exact ⟨f, db', request, hf, hdb', hmove, hiff⟩
  constructor
  · obtain ⟨f, db', request, hf, hdb', hmove, hiff⟩ := hdelivered [] (by decide +kernel)
    exact ⟨f, db', request, hf, hdb', hmove, hiff.2 fun p hp => absurd hp List.not_mem_nil⟩
  · obtain ⟨f, db', request, hf, hdb', hmove, hiff⟩ := hdelivered ["name"] (by decide +kernel)
    refine ⟨f, db', request, hf, hdb', hmove, fun heq => ?_⟩
    exact hiff.1 heq "name" (List.mem_singleton_self _) "Ann" (by decide)

/-- A completed run of a schema with a PII field: the delivery POSTs the
    envelope of the name. -/
theorem delivers_envelope :
    (Sample.run.reached (Sample.world ["name"])).bind (fun f => f.extractedJson) = some Sample.extraction ∧
      ∃ q request, exec (System.step Sample.keyedSite) ⟨Sample.world ["name"], [.run Sample.run]⟩
          (List.replicate 22 0 ++ [1, 1, 1]) = some q ∧
        q.tasks[1]?.bind Task.request? = some request ∧
        request.payload.extractedJson = some [("name", .str "ocrenc:v1:q80=")] := by
  refine ⟨by decide +kernel, ?_⟩
  have hrun : (exec (System.step Sample.keyedSite) ⟨Sample.world ["name"], [.run Sample.run]⟩
      (List.replicate 22 0 ++ [1, 1, 1])).any (fun q =>
        (q.tasks[1]?.bind Task.request?).any fun request =>
          decide (request.payload.extractedJson = some [("name", .str "ocrenc:v1:q80=")])) = true := by
    decide +kernel
  obtain ⟨q, hq, hrequest⟩ := (Option.any_eq_true _ _).1 hrun
  obtain ⟨request, hrequest, hpayload⟩ := (Option.any_eq_true _ _).1 hrequest
  exact ⟨q, request, hq, hrequest, of_decide_eq_true hpayload⟩

end OcrService
