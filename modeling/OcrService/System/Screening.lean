/-
  What the model is asked about.

  `extract_node` calls the extraction chain on the text in its state.  A run under
  way that is to call it has been through `guardrail_node` with that text, whatever
  checkpoint its thread was resumed from and whatever the other tasks do in between
  (`reach_screened`).  With the shipped patterns, no text with a prompt injection
  reaches the model (`injection_kept_out`).
-/
import OcrService.Domain.Injection
import OcrService.System.Stopped
import OcrService.Pipeline.Course

namespace OcrService

open Trans PyStr PyStr.Regex PyData Nodes

/-- No guardrail blocks the text that `extract_node` will find. -/
def RunTask.Screened (r : RunTask) : Prop :=
  match r.pc with
  | .save .guardrail s _ | .node .extract s _ =>
    halted s = false → ∀ o ∈ runGuardrails r.env.K.tools (s.rawText.getD ""), o.result ≠ .block
  | _ => True

def Task.Screened : Task → Prop
  | .run r => r.Screened
  | _ => True

/-- The tools of the guardrails of a run, or of the run that a request enqueues. -/
def Task.tools : Task → Option TextTools
  | .run r => some r.env.K.tools
  | .extract x => some x.run.K.tools
  | .retry y => some y.run.K.tools
  | _ => none

section
variable {S : Site} {w : World} {ok : System → ℕ → Prop} {q₀ q : System} {r : RunTask} {x : Task}
  {args : ExtractArgs}

theorem Task.Fresh.screened (h : x.Fresh) : x.Screened := by
  cases x with
  | run r =>
    show r.Screened
    unfold RunTask.Screened
    rw [show r.pc = .loadDocument from h]
    trivial
  | _ => trivial

/-- What `guardrail_node` leaves is halted or screened. -/
theorem guardrail_screens {K : Components} {s u : ExtractionState}
    (h : (NodeName.guardrail.run K s).result = .ok u) (hs : halted (s.update u) = false) :
    ∀ o ∈ runGuardrails K.tools ((s.update u).rawText.getD ""), o.result ≠ .block := by
  have hleaves := guardrail_leaves K s
  rw [leaves_of_ok h] at hleaves
  generalize s.update u = s' at hs hleaves
  cases hleaves with
  | skipped hskip =>
    rw [hskip] at hs
    cases hs
  | blocked _ hu _ =>
    rw [halted_of_status (status_update hu)] at hs
    cases hs
  | guarded _ hblock => exact hblock

theorem RunTask.move_screened (h : r.Screened) : (r.move S w).task.Screened := by
  have hfail : r.fail.task.Screened := trivial
  unfold RunTask.Screened at h
  cases hpc : r.pc <;> simp only [hpc] at h <;> simp only [RunTask.move, hpc]
  case node n s unsaved =>
    split_ifs
    · exact hfail
    · cases hrun : (n.run r.env.K s).result with
      | error e => exact hfail
      | ok u =>
        cases n with
        | guardrail => exact guardrail_screens hrun
        | _ => trivial
  case save n s unsaved =>
    unfold RunPc.afterNode
    cases n with
    | guardrail => exact h
    | route =>
      simp only [NodeName.next, NodeName.ofBranch]
      cases routeDecision s <;> trivial
    | _ => trivial
  case guard f document =>
    unfold RunTask.persistOutcome
    split_ifs
    · trivial
    · cases persistWrites S r.tenantId r.env.nonces document f <;> trivial
  case done o =>
    unfold RunTask.Screened
    simp only [hpc]
  all_goals
    repeat' split
    all_goals trivial

theorem RunTask.move_env : (r.move S w).task.env = r.env := by
  cases hpc : r.pc <;> simp only [RunTask.move, RunTask.persistOutcome, hpc]
  all_goals
    repeat' split
    all_goals rfl

theorem ExtractRequest.move_run {x : ExtractRequest} : (x.move S w).task.run = x.run := by
  cases hpc : x.pc <;> simp only [ExtractRequest.move, hpc]
  all_goals
    repeat' split
    all_goals rfl

theorem ExtractRequest.spawned_env {x : ExtractRequest} {v : RunTask} (hv : v ∈ (x.move S w).spawned) :
    v.env = x.run := by
  cases hpc : x.pc <;> simp only [ExtractRequest.move, hpc] at hv
  case enqueue =>
    rw [List.mem_singleton.1 hv]
    rfl
  all_goals
    repeat' split at hv
    all_goals cases hv

theorem RetryRequest.move_run {y : RetryRequest} : (y.move w).task.run = y.run := by
  cases hpc : y.pc <;> simp only [RetryRequest.move, hpc]
  all_goals
    repeat' split
    all_goals rfl

theorem RetryRequest.spawned_env {y : RetryRequest} {v : RunTask} (hv : v ∈ (y.move w).spawned) :
    v.env = y.run := by
  cases hpc : y.pc <;> simp only [RetryRequest.move, hpc] at hv
  case enqueue =>
    rw [List.mem_singleton.1 hv]
    rfl
  all_goals
    repeat' split at hv
    all_goals cases hv

/-- A task keeps its tools, -/
theorem Task.move_tools : (x.move S w).task.tools = x.tools := by
  cases x with
  | run r => exact congrArg (fun env => some env.K.tools) RunTask.move_env
  | extract x => exact congrArg (fun env => some env.K.tools) ExtractRequest.move_run
  | retry y => exact congrArg (fun env => some env.K.tools) RetryRequest.move_run
  | _ => rfl

/-- and passes them on to the run that it enqueues. -/
theorem Task.spawned_tools {u : Task} (hu : u ∈ (x.move S w).spawned) : ∀ t ∈ u.tools, t ∈ x.tools := by
  cases x with
  | run r =>
    obtain ⟨v, -, rfl⟩ := List.mem_map.1 hu
    intro t ht
    cases ht
  | extract x =>
    obtain ⟨v, hv, rfl⟩ := List.mem_map.1 hu
    intro t ht
    rwa [Task.tools, ExtractRequest.spawned_env hv] at ht
  | retry y =>
    obtain ⟨v, hv, rfl⟩ := List.mem_map.1 hu
    intro t ht
    rwa [Task.tools, RetryRequest.spawned_env hv] at ht
  | webhook | erase | review | schema => cases hu

/-- The guardrails of every run, those enqueued included, have the tools of the first ones. -/
theorem reach_tools {T : TextTools} (htools : ∀ x ∈ q₀.tasks, ∀ t ∈ x.tools, t = T)
    (h : Reach (System.step S) ok q₀ q) : ∀ x ∈ q.tasks, ∀ t ∈ x.tools, t = T := by
  refine (Pool.reach_invariant (G := fun _ => True) (L := fun _ x => ∀ t ∈ x.tools, t = T) ?_ ?_ h trivial
    htools).2
  · intro q i x _ hx _ _
    refine ⟨trivial, fun t ht => ?_, fun u hu t ht => hx t (Task.spawned_tools hu t ht)⟩
    rw [show ((Task.effect S q.shared x).task).tools = x.tools from Task.move_tools] at ht
    exact hx t ht
  · intro q i x _ _ _ _ u hu
    exact hu

/-- **A run under way has screened its text.** -/
theorem reach_screened (hfresh : ∀ x ∈ q₀.tasks, x.Fresh) (h : Reach (System.step S) ok q₀ q) :
    ∀ x ∈ q.tasks, x.Screened := by
  refine (Pool.reach_invariant (G := fun _ => True) (L := fun _ x => x.Screened) ?_ ?_ h trivial
    fun x hx => (hfresh x hx).screened).2
  · intro q i x _ hx _ _
    refine ⟨trivial, ?_, fun u hu => (Task.spawned_fresh hu).screened⟩
    cases x with
    | run r => exact RunTask.move_screened hx
    | _ => trivial
  · intro q i x _ _ _ _ u hu
    exact hu

theorem scoreNode_calls (s : ExtractionState) : (scoreNode s).calls = [] := by
  unfold scoreNode
  split_ifs
  · rfl
  · cases propertyCount (s.jsonSchema.getD []) <;> rfl

/-- The text that the next step of a run asks the chain about. -/
theorem text_of_call (h : r.Screened) (hcall : .extract args ∈ r.calls) :
    ∀ o ∈ runGuardrails r.env.K.tools args.text, o.result ≠ .block := by
  unfold RunTask.calls at hcall
  unfold RunTask.Screened at h
  cases hpc : r.pc with
  | node n s unsaved =>
    simp only [hpc] at h hcall
    split_ifs at hcall
    · cases hcall
    · cases n with
      | extract =>
        obtain ⟨hlive, htext⟩ := extract_calls hcall
        rw [htext]
        exact h hlive
      | parse => exact absurd hcall (extract_notMem_parse args)
      | guardrail =>
        rw [NodeName.run, guardrail_calls] at hcall
        cases hcall
      | score =>
        rw [NodeName.run, scoreNode_calls] at hcall
        cases hcall
      | _ => cases hcall
  | _ =>
    simp only [hpc] at hcall
    cases hcall

/-- A text that the quality guardrail does not block is not blank. -/
theorem strip_ne_nil {T : TextTools} {text : String}
    (h : ((textQualityGuardrail T).run text).result ≠ .block) : strip text.toList ≠ [] := by
  intro hblank
  refine h ?_
  simp only [textQualityGuardrail, hblank]
  rfl

/-- **Prompt injections are kept out.**  Whatever the tasks do in any order, and
    whatever earlier runs left on the thread, a text that a run asks the model about
    is not blank and contains no match of an injection pattern; nor has it, anywhere
    in it, a text that a pattern without word boundaries matches by itself. -/
theorem injection_kept_out {T : CharTables} {printable : Char → Bool}
    (hfresh : ∀ x ∈ q₀.tasks, x.Fresh)
    (htools : ∀ x ∈ q₀.tasks, ∀ t ∈ x.tools, t = textTools T printable)
    (h : Reach (System.step S) ok q₀ q) (hr : .run r ∈ q.tasks) (hcall : .extract args ∈ r.calls) :
    strip args.text.toList ≠ [] ∧ (∀ p ∈ injectionPatterns, ¬ p.Contains T.word args.text) ∧
      ∀ p ∈ injectionPatterns, p.boundaryFree = true → ∀ s, p.Contains T.word s →
        ¬ s.toList <:+: args.text.toList := by
  have hpass := text_of_call (reach_screened hfresh h _ hr) hcall
  rw [reach_tools htools h _ hr _ rfl] at hpass
  have hinjection := hpass ((injectionGuardrail (textTools T printable)).run args.text) List.mem_cons_self
  have hquality := hpass ((textQualityGuardrail (textTools T printable)).run args.text)
    (List.mem_cons_of_mem _ List.mem_cons_self)
  have hnone := not_contains_of_not_block hinjection
  exact ⟨strip_ne_nil hquality, hnone,
    fun p hp hfree s hs => not_infix_of_not_contains hfree hs (hnone p hp)⟩

theorem mem_llmCalls {cs : List Call} (h : args ∈ llmCalls cs) : .extract args ∈ cs := by
  obtain ⟨c, hc, heq⟩ := List.mem_filterMap.1 h
  cases c with
  | extract a =>
    obtain rfl := Option.some.inj heq
    exact hc
  | _ => cases heq

end

namespace Sample

/-- A run whose guardrails have the shipped patterns. -/
def screenedRun : RunTask :=
  { run with env := { env with K := { env.K with tools := textTools .ascii fun _ => true } } }

/-- A run that is about to call the chain, and what it calls it with. -/
def asking : Task → Option (RunTask × ExtractArgs)
  | .run r => (llmCalls r.calls).head?.map fun args => (r, args)
  | _ => none

end Sample

/-- The run of a harmless document. -/
theorem injection_kept_out_sample :
    ∃ q r args, Reach (System.step Sample.site) (fun _ _ => True)
        ⟨Sample.world [], [.run Sample.screenedRun]⟩ q ∧
      .run r ∈ q.tasks ∧ .extract args ∈ r.calls ∧
      ∀ p ∈ injectionPatterns, ¬ p.Contains CharTables.ascii.word args.text := by
  have hfresh : ∀ x ∈ [Task.run Sample.screenedRun], x.Fresh := by
    intro x hx
    rw [List.mem_singleton.1 hx]
    rfl
  have htools : ∀ x ∈ [Task.run Sample.screenedRun], ∀ t ∈ x.tools,
      t = textTools .ascii fun _ => true := by
    intro x hx t ht
    rw [List.mem_singleton.1 hx] at ht
    exact (Option.some.inj ht).symm
  have hrun : ((exec (System.step Sample.site) ⟨Sample.world [], [.run Sample.screenedRun]⟩
      (List.replicate 8 0)).bind fun q => q.tasks[0]?.bind Sample.asking).isSome = true := by
    decide +kernel
  obtain ⟨⟨r, args⟩, hasks⟩ := Option.isSome_iff_exists.1 hrun
  obtain ⟨q, hq, hasks⟩ := Option.bind_eq_some_iff.1 hasks
  obtain ⟨x, hx, hasks⟩ := Option.bind_eq_some_iff.1 hasks
  have hreach := reach_of_exec hq
  cases x with
  | run r' =>
    obtain ⟨a, ha, heq⟩ := Option.map_eq_some_iff.1 hasks
    obtain ⟨rfl, rfl⟩ := Prod.mk.inj heq
    have hcall := mem_llmCalls (List.mem_of_head? ha)
    have hr := List.mem_of_getElem? hx
    obtain ⟨-, hnone, -⟩ := injection_kept_out hfresh htools hreach hr hcall
    exact ⟨q, r', a, hreach, hr, hcall, hnone⟩
  | _ => cases hasks

end OcrService
