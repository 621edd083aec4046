/-
  The extraction graph (`app/pipeline/graph.py`) and its invocation.

      START → parse → guardrail → extract → score → route → deliver/review/dlq → END

  `ainvoke` on a thread that has a checkpoint overwrites the channels of the
  input, keeps the others, and starts again at START; a node's update
  overwrites exactly its keys.  LangGraph bounds the number of supersteps.
-/
import OcrService.Pipeline.Nodes

namespace OcrService

/-- The nodes of `build_graph`. -/
inductive NodeName
  | parse | guardrail | extract | score | route | deliver | review | dlq
  deriving DecidableEq

namespace NodeName

/-- The function of a node. -/
def run (K : Components) (s : ExtractionState) : NodeName → NodeRun
  | parse => Nodes.parseNode K s
  | guardrail => Nodes.guardrailNode K s
  | extract => Nodes.extractNode K s
  | score => Nodes.scoreNode s
  | route => Nodes.routeNode s
  | deliver => Nodes.deliverNode
  | review => Nodes.reviewNode
  | dlq => Nodes.dlqNode s

/-- The terminal node of a branch. -/
def ofBranch : Nodes.Branch → NodeName
  | .deliver => deliver
  | .review => review
  | .dlq => dlq

/-- The edges of the graph, `none` is END; the edge out of `route` is
    conditional. -/
def next (s : ExtractionState) : NodeName → Option NodeName
  | parse => some guardrail
  | guardrail => some extract
  | extract => some score
  | score => some route
  | route => some (ofBranch (Nodes.routeDecision s))
  | deliver | review | dlq => none

end NodeName

/-- What an invocation of the graph did. -/
structure GraphRun where
  calls : List Call
  visited : List NodeName
  result : Except String ExtractionState

/-- LangGraph's default `recursion_limit`. -/
def recursionLimit : ℕ := 25

/-- The supersteps from a node on, at most `fuel` of them. -/
def supersteps (K : Components) : ℕ → NodeName → ExtractionState → GraphRun
  | 0, _, _ => ⟨[], [], .error "GraphRecursionError"⟩
  | fuel + 1, n, s =>
    match (n.run K s).result with
    | .error e => ⟨(n.run K s).calls, [n], .error e⟩
    | .ok u =>
      match n.next (s.update u) with
      | none => ⟨(n.run K s).calls, [n], .ok (s.update u)⟩
      | some m =>
        let rest := supersteps K fuel m (s.update u)
        ⟨(n.run K s).calls ++ rest.calls, n :: rest.visited, rest.result⟩

/-- The channels an invocation starts from: those of the thread's checkpoint,
    overwritten by the input. -/
def channels (saved : Option ExtractionState) (input : ExtractionState) : ExtractionState :=
  (saved.getD {}).update input

/-- `graph.ainvoke(input, config)` on a thread with checkpoint `saved`. -/
def ainvoke (K : Components) (saved : Option ExtractionState) (input : ExtractionState) : GraphRun :=
  supersteps K recursionLimit .parse (channels saved input)

end OcrService
