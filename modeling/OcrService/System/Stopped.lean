/-
  Cancellation and the nodes of a run.

  `erase_document` registers the document in its process, but no node looks at
  the registry: a run in flight goes on to load the blob and to call the
  extraction chain, unless it has done so already, or an exception, a halted
  state or a saved extraction keeps it from it (`registration_stops_iff`).
-/
import OcrService.System.Transactions
import OcrService.Pipeline.Middle

namespace OcrService

open Trans PyData Nodes

/-- The calls that the next step of a run makes. -/
def RunTask.calls (r : RunTask) : List Call :=
  match r.pc with
  | .node n s _ => if r.env.raises (.node n) then [] else (n.run r.env.K s).calls
  | _ => []

/-- The call loads the blob or invokes the extraction chain. -/
def Call.touches : Call → Bool
  | .load _ | .extract _ => true
  | .parse _ => false

/-- Task `i` is an erasure about to register its document in the process in which
    task `j` is running it. -/
structure Registers (q : System) (i j : ℕ) (e : EraseTask) (r : RunTask) : Prop where
  erase : q.tasks[i]? = some (.erase e)
  starts : e.pc = .register
  run : q.tasks[j]? = some (.run r)
  document : r.documentId = e.documentId
  process : r.proc = e.proc
  row : ∃ document, q.shared.db.document? r.tenantId r.documentId = some document

/-- Whatever happens after step `i`, no node that task `j` starts loads the blob
    or invokes the chain. -/
def StopsAfter (S : Site) (q : System) (i j : ℕ) : Prop :=
  ∀ q' q'' r, System.step S q i = some q' → Reach (System.step S) (fun _ _ => True) q' q'' →
    q''.tasks[j]? = some (.run r) → ∀ c ∈ r.calls, c.touches = false

/-! ## Where a run stands -/

/-- The points at which an exception would end the run before its next load, or
    before its call of the chain; the write of a checkpoint is none of them. -/
def RunPc.ahead : RunPc → List RunPoint
  | .loadDocument => [.loadDocument, .loadSchema, .openSaver, .readThread, .node .parse]
  | .loadSchema _ => [.loadSchema, .openSaver, .readThread, .node .parse]
  | .openSaver _ => [.openSaver, .readThread, .node .parse]
  | .saveInput _ => [.readThread, .node .parse]
  | .node .parse _ _ => [.node .parse]
  | .save .parse _ _ | .node .guardrail _ _ => [.node .guardrail, .node .extract]
  | .save .guardrail _ _ | .node .extract _ _ => [.node .extract]
  | _ => []

/-- The state in which `extract_node` will run. -/
def RunPc.atExtract (K : Components) : RunPc → Option ExtractionState
  | .save .parse s _ | .node .guardrail s _ => some (NodeName.guardrail.leaves K s)
  | .save .guardrail s _ | .node .extract s _ => some s
  | _ => none

/-- The run has got past `extract_node`, or an exception ends it before its next
    load or call, or `extract_node` will find a halted state or an extraction. -/
def RunPc.Through (E : RunEnv) (pc : RunPc) : Prop :=
  pc.ahead = [] ∨ (∃ p ∈ pc.ahead, E.raises p = true) ∨
    ∃ s, pc.atExtract E.K = some s ∧ (halted s = true ∨ hasExtraction s = true)

section
variable {S : Site} {w : World} {r r' : RunTask} {E : RunEnv} {pc pc' : RunPc} {p : RunPoint}
  {l : List RunPoint} {s : ExtractionState}

/-- A step without an exception. -/
theorem RunPc.Through.tail (h : pc.Through E) (hpc : pc.ahead = p :: l) (hp : ¬ E.raises p = true)
    (hpc' : pc'.ahead = l) (hat : pc'.atExtract E.K = pc.atExtract E.K) : pc'.Through E := by
  rcases h with h | ⟨p', hp', hraise⟩ | h
  · rw [hpc] at h
    cases h
  · rw [hpc] at hp'
    rcases List.mem_cons.1 hp' with rfl | hp'
    · exact absurd hraise hp
    · exact Or.inr (Or.inl ⟨p', by rw [hpc']; exact hp', hraise⟩)
  · exact Or.inr (Or.inr (by rw [hat]; exact h))

/-- The write of a checkpoint, whether it raises or not. -/
theorem RunPc.Through.write (h : pc.Through E) (hahead : pc'.ahead = pc.ahead)
    (hat : pc'.atExtract E.K = pc.atExtract E.K) : pc'.Through E := by
  unfold RunPc.Through at h ⊢
  rwa [hahead, hat]

/-- Before its load a run is kept from it by an exception only. -/
theorem RunPc.Through.raises (h : pc.Through E) (hpc : pc.ahead = [p]) (hat : pc.atExtract E.K = none) :
    E.raises p = true := by
  rcases h with h | ⟨p', hp', hraise⟩ | ⟨s, hs, -⟩
  · rw [hpc] at h
    cases h
  · rw [hpc] at hp'
    rw [← List.mem_singleton.1 hp']
    exact hraise
  · rw [hat] at hs
    cases hs

/-- **A run that will not touch the document stays so.** -/
theorem through_move (h : r.pc.Through r.env) :
    ∃ pc, (r.move S w).task = r.goto pc ∧ pc.Through r.env := by
  have hlate {pc : RunPc} (hpc : pc.ahead = []) : pc.Through r.env := Or.inl hpc
  have hfail : ∃ pc, r.fail.task = r.goto pc ∧ pc.Through r.env := ⟨_, rfl, hlate rfl⟩
  cases hpc : r.pc <;> rw [hpc] at h <;> simp only [RunTask.move, hpc]
  case loadDocument =>
    split_ifs with hraise
    · exact hfail
    · cases w.db.document? r.tenantId r.documentId with
      | none => exact ⟨_, rfl, hlate rfl⟩
      | some document => exact ⟨_, rfl, h.tail rfl hraise rfl rfl⟩
  case loadSchema document =>
    split_ifs with hraise
    · exact hfail
    · exact ⟨_, rfl, h.tail rfl hraise rfl rfl⟩
  case openSaver input =>
    split_ifs with hraise
    · exact hfail
    · exact ⟨_, rfl, h.tail rfl hraise rfl rfl⟩
  case saveInput input =>
    split_ifs with hraise
    · exact hfail
    · exact ⟨_, rfl, h.tail rfl hraise rfl rfl⟩
  case node n s unsaved =>
    split_ifs with hraise
    · exact hfail
    · cases hrun : (n.run r.env.K s).result with
      | error e => exact hfail
      | ok u =>
        refine ⟨_, rfl, ?_⟩
        cases n with
        | parse => exact absurd (h.raises rfl rfl) hraise
        | guardrail =>
          refine h.tail rfl hraise rfl ?_
          simp only [RunPc.atExtract, leaves_of_ok hrun]
        | _ => exact hlate rfl
  case save n s unsaved =>
    refine ⟨_, rfl, ?_⟩
    cases n with
    | parse => exact h.write rfl rfl
    | guardrail => exact h.write rfl rfl
    | extract | score => exact hlate rfl
    | route =>
      refine hlate ?_
      simp only [RunPc.afterNode, NodeName.next]
      cases routeDecision s <;> rfl
    | deliver | review | dlq => exact hlate rfl
  case guard final document =>
    unfold RunTask.persistOutcome
    split_ifs
    · exact ⟨_, rfl, hlate rfl⟩
    · cases persistWrites S r.tenantId r.env.nonces document final with
      | error e => exact hfail
      | ok ws => exact ⟨_, rfl, hlate rfl⟩
  case done outcome => exact ⟨.done outcome, by rw [RunTask.goto, ← hpc], hlate rfl⟩
  all_goals
    repeat' split
    all_goals first
      | exact hfail
      | exact ⟨_, rfl, hlate rfl⟩

/-- A run that will not touch the document does not touch it now. -/
theorem Through.calls (h : r.pc.Through r.env) : ∀ c ∈ r.calls, c.touches = false := by
  unfold RunTask.calls
  cases hpc : r.pc with
  | node n s unsaved =>
    rw [hpc] at h
    dsimp only
    split_ifs with hraise
    · intro c hc
      cases hc
    · intro c hc
      cases n with
      | parse => exact absurd (h.raises rfl rfl) hraise
      | guardrail =>
        rw [show (NodeName.guardrail.run r.env.K s).calls = [] from guardrail_calls] at hc
        cases hc
      | extract =>
        rcases h with h | ⟨p, hp, h⟩ | ⟨s', hs', h⟩
        · cases h
        · rw [List.mem_singleton.1 hp] at h
          exact absurd h hraise
        · cases hs'
          rw [NodeName.run, extractNode_passed h] at hc
          cases hc
      | score =>
        simp only [NodeName.run, scoreNode] at hc
        repeat' split at hc
        all_goals cases hc
      | route | deliver | review | dlq => cases hc
  | _ =>
    intro c hc
    cases hc

end

/-! ## A run that touches the document -/

/-- The input channels of a run of `_load_initial_state`. -/
structure Loaded (s : ExtractionState) : Prop where
  live : s.isCancelled = some false
  storageKey : ∃ key, s.fileStorageKey = some key
  tenantId : ∃ t, s.tenantId = some t
  schemaId : ∃ σ, s.schemaId = some σ

/-- A node leaves the input channels alone. -/
theorem Loaded.node {K : Components} {n : NodeName} {s u : ExtractionState}
    (hrun : (n.run K s).result = .ok u) (h : Loaded s) : Loaded (s.update u) := by
  have hu : u.isCancelled = none ∧ u.fileStorageKey = none ∧ u.tenantId = none ∧ u.schemaId = none := by
    cases n <;> simp only [NodeName.run, parseNode, guardrailNode, extractNode, scoreNode, routeNode,
      deliverNode, reviewNode, dlqNode, deadLettered] at hrun
    all_goals
      repeat' split at hrun
      all_goals cases hrun
      all_goals exact ⟨rfl, rfl, rfl, rfl⟩
  obtain ⟨h₁, h₂, h₃, h₄⟩ := hu
  constructor
  · simp [ExtractionState.update, h₁, h.live]
  · simpa [ExtractionState.update, h₂] using h.storageKey
  · simpa [ExtractionState.update, h₃] using h.tenantId
  · simpa [ExtractionState.update, h₄] using h.schemaId

theorem Loaded.channels {saved : Option ExtractionState} {input : ExtractionState}
    (h : Loaded input) : Loaded (OcrService.channels saved input) := by
  obtain ⟨hlive, ⟨key, hkey⟩, ⟨t, ht⟩, σ, hσ⟩ := h
  constructor
  · simp [OcrService.channels, ExtractionState.update, hlive]
  · exact ⟨key, by simp [OcrService.channels, ExtractionState.update, hkey]⟩
  · exact ⟨t, by simp [OcrService.channels, ExtractionState.update, ht]⟩
  · exact ⟨σ, by simp [OcrService.channels, ExtractionState.update, hσ]⟩

/-- The state of every run carries an input of `_load_initial_state`. -/
def Known.loaded : Known where
  state _ := Loaded
  channels := Loaded.channels
  node := Loaded.node

theorem reads_loaded {x : Task} {w : World} : x.Reads Known.loaded w := by
  unfold Task.Reads
  repeat' split
  all_goals first
    | trivial
    | exact fun _ _ => trivial
    | exact fun _ _ => ⟨trivial, trivial⟩
    | exact ⟨rfl, ⟨_, rfl⟩, ⟨_, rfl⟩, _, rfl⟩

section
variable {S : Site} {q₀ q : System} {i j : ℕ} {r r' : RunTask} {e : EraseTask} {s : ExtractionState}
  {unsaved : Bool}

theorem runs_loaded (hfresh : ∀ x ∈ q₀.tasks, x.Fresh)
    (h : Reach (System.step S) (fun _ _ => True) q₀ q) : ∀ x ∈ q.tasks, x.Holds S Known.loaded :=
  (reach_known (G := fun _ => True) (κ := fun _ => Known.loaded)
    (fun _ _ _ _ _ _ _ => reads_loaded) (fun _ _ _ _ _ _ _ _ => ⟨trivial, .refl _⟩) h trivial
    fun x hx => (hfresh x hx).holds).2

/-- Task `j` may go on to load the blob or to call the chain. -/
def Touches (S : Site) (q : System) (j : ℕ) : Prop :=
  ∃ q' r, Reach (System.step S) (fun _ _ => True) q q' ∧ q'.tasks[j]? = some (.run r) ∧
    ∃ c ∈ r.calls, c.touches = true

/-- A run takes its next step. -/
theorem step_run (hr : q.tasks[j]? = some (.run r)) :
    ∃ q', System.step S q j = some q' ∧ q'.shared = q.shared.apply (r.move S q.shared).change ∧
      q'.tasks[j]? = some (.run (r.move S q.shared).task) := by
  have hs : System.step S q j = some
      { shared := (Task.effect S q.shared (.run r)).shared
        tasks := q.tasks.set j (Task.effect S q.shared (.run r)).task ++
          (Task.effect S q.shared (.run r)).spawned } := by
    rw [System.step, Pool.step, hr]
  refine ⟨_, hs, rfl, ?_⟩
  have := Pool.getElem?_step hs hr hr
  rw [if_pos rfl] at this
  exact this

theorem touches_step (hr : q.tasks[j]? = some (.run r)) (hm : (r.move S q.shared).task = r')
    (h : ∀ q', q'.shared = q.shared.apply (r.move S q.shared).change →
      q'.tasks[j]? = some (.run r') → Touches S q' j) : Touches S q j := by
  obtain ⟨q', hs, hshared, hr'⟩ := step_run (S := S) hr
  rw [hm] at hr'
  obtain ⟨q'', r'', hreach, hr'', hc⟩ := h q' hshared hr'
  exact ⟨q'', r'', (Reach.tail .refl trivial hs).trans hreach, hr'', hc⟩

theorem touches_extract (hr : q.tasks[j]? = some (.run (r.goto (.node .extract s unsaved))))
    (h : ∀ p ∈ (RunPc.node .extract s unsaved).ahead, r.env.raises p = false) (hs : halted s = false)
    (hx : hasExtraction s = false) (hl : Loaded s) : Touches S q j := by
  obtain ⟨hraise, -⟩ := List.forall_mem_cons.1 h
  obtain ⟨t, ht⟩ := hl.tenantId
  obtain ⟨σ, hσ⟩ := hl.schemaId
  have hcalls : (NodeName.extract.run r.env.K s).calls = [.extract (extractArgs s t σ)] := by
    rw [NodeName.run, extractNode_fresh hs hx ht hσ]
  refine ⟨q, _, .refl, hr, .extract (extractArgs s t σ), ?_, rfl⟩
  simp only [RunTask.calls, RunTask.goto, hraise, Bool.false_eq_true, if_false, hcalls]
  exact List.mem_cons_self

theorem touches_saveGuardrail (hr : q.tasks[j]? = some (.run (r.goto (.save .guardrail s unsaved))))
    (h : ∀ p ∈ (RunPc.save .guardrail s unsaved).ahead, r.env.raises p = false) (hs : halted s = false)
    (hx : hasExtraction s = false) (hl : Loaded s) : Touches S q j := by
  have hm := RunTask.move_save (S := S) (w := q.shared) (r := r) .guardrail s unsaved
  refine touches_step hr (congrArg Move.task hm) fun q' _ hr' => ?_
  exact touches_extract hr' h hs hx hl

theorem touches_guardrail (hr : q.tasks[j]? = some (.run (r.goto (.node .guardrail s unsaved))))
    (h : ∀ p ∈ (RunPc.node .guardrail s unsaved).ahead, r.env.raises p = false)
    (hs : halted (NodeName.guardrail.leaves r.env.K s) = false)
    (hx : hasExtraction (NodeName.guardrail.leaves r.env.K s) = false) (hl : Loaded s) :
    Touches S q j := by
  obtain ⟨hraise, h⟩ := List.forall_mem_cons.1 h
  obtain ⟨u, hu⟩ := result_ok (K := r.env.K) (s := s) (n := .guardrail) (by simp)
  have hm := RunTask.move_node (S := S) (w := q.shared) (r := r) .guardrail s unsaved
  rw [hraise, if_neg Bool.false_ne_true, hu] at hm
  rw [leaves_of_ok hu] at hs hx
  refine touches_step hr (congrArg Move.task hm) fun q' _ hr' => ?_
  exact touches_saveGuardrail hr' h hs hx (Loaded.node hu hl)

theorem touches_saveParse (hr : q.tasks[j]? = some (.run (r.goto (.save .parse s unsaved))))
    (h : ∀ p ∈ (RunPc.save .parse s unsaved).ahead, r.env.raises p = false)
    (hs : halted (NodeName.guardrail.leaves r.env.K s) = false)
    (hx : hasExtraction (NodeName.guardrail.leaves r.env.K s) = false) (hl : Loaded s) :
    Touches S q j := by
  have hm := RunTask.move_save (S := S) (w := q.shared) (r := r) .parse s unsaved
  refine touches_step hr (congrArg Move.task hm) fun q' _ hr' => ?_
  exact touches_guardrail hr' h hs hx hl

/-- `parse_node` loads the blob. -/
theorem touches_parse (hr : q.tasks[j]? = some (.run (r.goto (.node .parse s unsaved))))
    (h : ∀ p ∈ (RunPc.node .parse s unsaved).ahead, r.env.raises p = false) (hl : Loaded s) : Touches S q j := by
  obtain ⟨hraise, -⟩ := List.forall_mem_cons.1 h
  obtain ⟨key, hkey⟩ := hl.storageKey
  refine ⟨q, _, .refl, hr, .load key, ?_, rfl⟩
  simp only [RunTask.calls, RunTask.goto, hraise, Bool.false_eq_true, if_false, NodeName.run,
    parseNode, hl.live, hkey, Option.some.injEq]
  cases r.env.K.load key with
  | error e => exact List.mem_cons_self
  | ok content =>
    dsimp only
    cases r.env.K.parse content <;> exact List.mem_cons_self

theorem touches_saveInput (hr : q.tasks[j]? = some (.run (r.goto (.saveInput s))))
    (h : ∀ p ∈ (RunPc.saveInput s).ahead, r.env.raises p = false) (hl : Loaded s) : Touches S q j := by
  obtain ⟨hraise, h⟩ := List.forall_mem_cons.1 h
  have hm := RunTask.move_saveInput (S := S) (w := q.shared) (r := r) s
  rw [hraise, if_neg Bool.false_ne_true] at hm
  refine touches_step hr (congrArg Move.task hm) fun q' _ hr' => ?_
  exact touches_parse hr' h (Loaded.channels hl)

theorem touches_openSaver (hr : q.tasks[j]? = some (.run (r.goto (.openSaver s))))
    (h : ∀ p ∈ (RunPc.openSaver s).ahead, r.env.raises p = false) (hl : Loaded s) : Touches S q j := by
  obtain ⟨hraise, h⟩ := List.forall_mem_cons.1 h
  have hm := RunTask.move_openSaver (S := S) (w := q.shared) (r := r) s
  rw [hraise, if_neg Bool.false_ne_true] at hm
  refine touches_step hr (congrArg Move.task hm) fun q' _ hr' => ?_
  exact touches_saveInput hr' h hl

theorem touches_loadSchema {document : Document}
    (hr : q.tasks[j]? = some (.run (r.goto (.loadSchema document))))
    (h : ∀ p ∈ (RunPc.loadSchema document).ahead, r.env.raises p = false) : Touches S q j := by
  obtain ⟨hraise, h⟩ := List.forall_mem_cons.1 h
  have hm := RunTask.move_loadSchema (S := S) (w := q.shared) (r := r) document
  rw [hraise, if_neg Bool.false_ne_true] at hm
  refine touches_step hr (congrArg Move.task hm) fun q' _ hr' => ?_
  exact touches_openSaver hr' h ⟨rfl, ⟨_, rfl⟩, ⟨_, rfl⟩, _, rfl⟩

theorem touches_loadDocument {document : Document}
    (hr : q.tasks[j]? = some (.run (r.goto .loadDocument)))
    (hdoc : q.shared.db.document? r.tenantId r.documentId = some document)
    (h : ∀ p ∈ RunPc.loadDocument.ahead, r.env.raises p = false) : Touches S q j := by
  obtain ⟨hraise, h⟩ := List.forall_mem_cons.1 h
  have hm := RunTask.move_loadDocument (S := S) (w := q.shared) (r := r)
  rw [hraise, if_neg Bool.false_ne_true, hdoc] at hm
  refine touches_step hr (congrArg Move.task hm) fun q' _ hr' => ?_
  exact touches_loadSchema hr' h

/-- **A run that is not through may touch the document.** -/
theorem touches_of_not_through {document : Document} (hr : q.tasks[j]? = some (.run r))
    (hdoc : q.shared.db.document? r.tenantId r.documentId = some document)
    (hholds : r.Holds S Known.loaded) (h : ¬ r.pc.Through r.env) : Touches S q j := by
  obtain ⟨hahead, hraises, hskip⟩ : r.pc.ahead ≠ [] ∧ (∀ p ∈ r.pc.ahead, r.env.raises p = false) ∧
      ∀ s, r.pc.atExtract r.env.K = some s → halted s = false ∧ hasExtraction s = false := by
    simp only [RunPc.Through, not_or, not_exists, not_and, Bool.not_eq_true] at h
    exact ⟨h.1, h.2.1, fun s hs => h.2.2 s hs⟩
  have hgoto {pc : RunPc} (hpc : r.pc = pc) : q.tasks[j]? = some (.run (r.goto pc)) := by
    rw [hr, RunTask.goto, ← hpc]
  unfold RunTask.Holds at hholds
  cases hpc : r.pc with
  | loadDocument =>
    rw [hpc] at hraises
    exact touches_loadDocument (hgoto hpc) hdoc hraises
  | loadSchema document =>
    rw [hpc] at hraises
    exact touches_loadSchema (hgoto hpc) hraises
  | openSaver s =>
    rw [hpc] at hraises hholds
    exact touches_openSaver (hgoto hpc) hraises hholds
  | saveInput s =>
    rw [hpc] at hraises hholds
    exact touches_saveInput (hgoto hpc) hraises hholds
  | node n s unsaved =>
    rw [hpc] at hahead hraises hholds hskip
    cases n with
    | parse => exact touches_parse (hgoto hpc) hraises hholds
    | guardrail =>
      obtain ⟨hs, hx⟩ := hskip _ rfl
      exact touches_guardrail (hgoto hpc) hraises hs hx hholds
    | extract =>
      obtain ⟨hs, hx⟩ := hskip _ rfl
      exact touches_extract (hgoto hpc) hraises hs hx hholds
    | _ => exact absurd rfl hahead
  | save n s unsaved =>
    rw [hpc] at hahead hraises hholds hskip
    cases n with
    | parse =>
      obtain ⟨hs, hx⟩ := hskip _ rfl
      exact touches_saveParse (hgoto hpc) hraises hs hx hholds
    | guardrail =>
      obtain ⟨hs, hx⟩ := hskip _ rfl
      exact touches_saveGuardrail (hgoto hpc) hraises hs hx hholds
    | _ => exact absurd rfl hahead
  | _ =>
    rw [hpc] at hahead
    exact absurd rfl hahead

/-! ## The registration -/

/-- The registration leaves database and run alone. -/
theorem Registers.step (h : Registers q i j e r) :
    ∃ q', System.step S q i = some q' ∧ q'.shared.db = q.shared.db ∧
      q'.tasks[j]? = some (.run r) := by
  have hmove : e.move S q.shared = { change := .cancel e.proc e.documentId, task := e.goto .read } := by
    have hgoto : e = e.goto .register := by rw [EraseTask.goto, ← h.starts]
    rw [hgoto]
    rfl
  have hs : System.step S q i = some
      { shared := (Task.effect S q.shared (.erase e)).shared
        tasks := q.tasks.set i (Task.effect S q.shared (.erase e)).task ++
          (Task.effect S q.shared (.erase e)).spawned } := by
    rw [System.step, Pool.step, h.erase]
  have hne : i ≠ j := by
    rintro rfl
    cases Option.some.inj (h.erase.symm.trans h.run)
  refine ⟨_, hs, ?_, ?_⟩
  · simp only [Task.effect, Task.move, hmove]
    rfl
  · have := Pool.getElem?_step hs h.erase h.run
    rw [if_neg hne] at this
    exact this

/-- **Cancellation stops a run between nodes** iff the run has got past
    `extract_node` when its document is registered, or is kept from its next
    load or call by something else: an exception, a halted state, a saved
    extraction. -/
theorem registration_stops_iff (hfresh : ∀ x ∈ q₀.tasks, x.Fresh)
    (hreach : Reach (System.step S) (fun _ _ => True) q₀ q) (h : Registers q i j e r) :
    StopsAfter S q i j ↔ r.pc.Through r.env := by
  obtain ⟨q₁, hs, hdb, hr⟩ := h.step (S := S)
  constructor
  · intro hstops
    by_contra hthrough
    obtain ⟨document, hdoc⟩ := h.row
    rw [← hdb] at hdoc
    obtain ⟨q₂, r', hreach', hr', c, hc, htouch⟩ := touches_of_not_through (S := S) hr hdoc
      (runs_loaded hfresh hreach _ (List.mem_of_getElem? h.run)) hthrough
    rw [hstops q₁ q₂ r' hs hreach' hr' c hc] at htouch
    cases htouch
  · intro hthrough q' q'' r' hs' hreach' hr'
    obtain rfl := Option.some.inj (hs.symm.trans hs')
    have hinv : ∃ r, q''.tasks[j]? = some (.run r) ∧ r.pc.Through r.env := by
      refine hreach'.invariant (I := fun q => ∃ r, q.tasks[j]? = some (.run r) ∧
        r.pc.Through r.env) ⟨r, hr, hthrough⟩ ?_
      rintro q k q' ⟨r, hr, hthrough⟩ - hs
      rcases Pool.moved_or_same_of_step hs hr with ⟨-, hmoved⟩ | ⟨-, hsame⟩
      · obtain ⟨pc, hmove, hpc⟩ := through_move (S := S) (w := q.shared) hthrough
        refine ⟨r.goto pc, ?_, hpc⟩
        rw [hmoved, ← hmove]
        rfl
      · exact ⟨r, hsame, hthrough⟩
    obtain ⟨r'', hr'', hthrough'⟩ := hinv
    cases Option.some.inj (hr''.symm.trans hr')
    exact Through.calls hthrough'

end

namespace Sample

/-- A run whose first checkpoint cannot be written. -/
def unsavedRun : RunTask := { run with env := { env with raises := fun p => decide (p = .saveInput) } }

end Sample

/-- The document is registered when the run is about to write its first checkpoint:
    the write fails, and the run goes on all the same. -/
theorem registration_sample :
    ∃ q r, Reach (System.step Sample.site) (fun _ _ => True)
        ⟨Sample.world [], [.run Sample.unsavedRun, .erase Sample.erase]⟩ q ∧
      Registers q 1 0 Sample.erase r ∧ ¬ StopsAfter Sample.site q 1 0 := by
  have hreach : Reach (System.step Sample.site) (fun _ _ => True)
      ⟨Sample.world [], [.run Sample.unsavedRun, .erase Sample.erase]⟩
      ⟨Sample.world [], [.run (Sample.unsavedRun.goto (.saveInput (initialState Sample.documentId
        Sample.tenantId Sample.document (some (Sample.schema []))))), .erase Sample.erase]⟩ :=
    reach_of_exec (l := [0, 0, 0]) rfl
  have hfresh : ∀ x ∈ [Task.run Sample.unsavedRun, .erase Sample.erase], x.Fresh := by
    intro x hx
    rcases List.mem_cons.1 hx with rfl | hx
    · rfl
    · rw [List.mem_singleton.1 hx]
      rfl
  refine ⟨_, _, hreach, ⟨rfl, rfl, rfl, rfl, rfl, Sample.document, rfl⟩, ?_⟩
  rw [registration_stops_iff hfresh hreach ⟨rfl, rfl, rfl, rfl, rfl, Sample.document, rfl⟩]
  rintro (hahead | ⟨p, hp, hraise⟩ | ⟨s, hs, -⟩)
  · cases hahead
  · rw [of_decide_eq_true hraise] at hp
    revert hp
    decide
  · cases hs

/-- A run loads the blob after its document was registered. -/
theorem registered_run_loads :
    ∃ q r, Reach (System.step Sample.site) (fun _ _ => True)
        ⟨Sample.world [], [.run Sample.run, .erase Sample.erase]⟩ q ∧
      Registers q 1 0 Sample.erase r ∧ ¬ StopsAfter Sample.site q 1 0 := by
  refine ⟨_, _, reach_of_exec (l := [0, 0, 0, 0]) rfl, ⟨rfl, rfl, rfl, rfl, rfl, _, rfl⟩, ?_⟩
  intro h
  have := h _ _ _ rfl .refl rfl (.load "key") List.mem_cons_self
  cases this

end OcrService
