import Mathlib.Algebra.BigOperators.Group.List.Basic
import Mathlib.Algebra.GroupWithZero.Nat
import Mathlib.Data.Rat.Defs

/-!
# The buffers of a query plan

`EXPLAIN (ANALYZE, BUFFERS)` gives every plan node the blocks it has touched, those of its
descendants included. The query-tuning lab reads the root. The pagination lab adds up the whole
tree, so a block is counted once for each node above it. Counters are natural numbers here; those of
JSON are doubles, which count exactly as long as the sums are below 2^53.
-/

namespace SystemsLab.Pagination

/-- A plan node. One without `Plans` has no children. -/
inductive PlanNode
  | mk (nodeType : String) (sharedHitBlocks sharedReadBlocks : Option ℕ)
    (plans : List PlanNode)

namespace PlanNode

def nodeType : PlanNode → String
  | .mk nodeType _ _ _ => nodeType

def sharedHitBlocks : PlanNode → Option ℕ
  | .mk _ hit _ _ => hit

def sharedReadBlocks : PlanNode → Option ℕ
  | .mk _ _ read _ => read

def plans : PlanNode → List PlanNode
  | .mk _ _ _ plans => plans

def sharedHit (node : PlanNode) : ℕ := node.sharedHitBlocks.getD 0

def sharedRead (node : PlanNode) : ℕ := node.sharedReadBlocks.getD 0

@[elab_as_elim] theorem induction {P : PlanNode → Prop}
    (node : ∀ n : PlanNode, (∀ c ∈ n.plans, P c) → P n) : ∀ n, P n
  | .mk nodeType hit read plans => node (.mk nodeType hit read plans) fun c (_ : c ∈ plans) =>
    induction node c

end PlanNode

structure PlanJson where
  plan : PlanNode
  planningTime : ℚ
  executionTime : ℚ

structure PlanBuffers where
  sharedHit : ℕ
  sharedRead : ℕ
  deriving DecidableEq, Repr

mutual

def sumBuffers : PlanNode → PlanBuffers
  | .mk _ hit read plans => addChildren ⟨hit.getD 0,read.getD 0⟩ plans

/-- The loop over the children. -/
def addChildren (sum : PlanBuffers) : List PlanNode → PlanBuffers
  | [] => sum
  | child::rest =>
    let childSum := sumBuffers child
    addChildren ⟨sum.sharedHit + childSum.sharedHit,sum.sharedRead + childSum.sharedRead⟩ rest

end

structure ExplainResult where
  planningTimeMs : ℚ
  executionTimeMs : ℚ
  topNodeType : String
  buffers : PlanBuffers
  raw : PlanJson

def explain (plan : PlanJson) : ExplainResult where
  planningTimeMs := plan.planningTime
  executionTimeMs := plan.executionTime
  topNodeType := plan.plan.nodeType
  buffers := sumBuffers plan.plan
  raw := plan

mutual

def flattenNodes : PlanNode → List PlanNode
  | .mk nodeType hit read plans => .mk nodeType hit read plans::flattenChildren plans

def flattenChildren : List PlanNode → List PlanNode
  | [] => []
  | child::rest => flattenNodes child ++ flattenChildren rest

end

structure QueryTuningResult where
  label : String
  queryText : String
  planningTimeMs : ℚ
  executionTimeMs : ℚ
  nodes : List PlanNode
  totalSharedHitBlocks : ℕ
  totalSharedReadBlocks : ℕ
  rawPlan : PlanJson

def explainAnalyzeJson (label queryText : String) (planJson : PlanJson) : QueryTuningResult :=
  let nodes := flattenNodes planJson.plan
  { label
    queryText
    planningTimeMs := planJson.planningTime
    executionTimeMs := planJson.executionTime
    nodes
    totalSharedHitBlocks := (nodes.head?.bind PlanNode.sharedHitBlocks).getD 0
    totalSharedReadBlocks := (nodes.head?.bind PlanNode.sharedReadBlocks).getD 0
    rawPlan := planJson }

private theorem flattenChildren_eq (plans : List PlanNode) :
    flattenChildren plans = plans.flatMap flattenNodes := by
  induction plans with
  | nil => rfl
  | cons child rest ih => rw [flattenChildren,ih,List.flatMap_cons]

private theorem flattenNodes_eq (n : PlanNode) :
    flattenNodes n = n::n.plans.flatMap flattenNodes := by
  cases n
  rw [flattenNodes,flattenChildren_eq]
  rfl

namespace PlanNode

/-- A counter added up over all nodes. -/
def total (counter : PlanNode → ℕ) (n : PlanNode) : ℕ := ((flattenNodes n).map counter).sum

private theorem total_eq (counter : PlanNode → ℕ) (n : PlanNode) :
    n.total counter = counter n + (n.plans.map (total counter)).sum := by
  unfold total
  rw [flattenNodes_eq,List.map_cons,List.sum_cons,List.map_flatMap,List.flatMap_def,
    List.sum_flatten,List.map_map]
  rfl

end PlanNode

private theorem addChildren_eq {plans : List PlanNode} (h : ∀ c ∈ plans,
    sumBuffers c = ⟨c.total PlanNode.sharedHit,c.total PlanNode.sharedRead⟩) (sum : PlanBuffers) :
    addChildren sum plans =
      ⟨sum.sharedHit + (plans.map (PlanNode.total PlanNode.sharedHit)).sum,
        sum.sharedRead + (plans.map (PlanNode.total PlanNode.sharedRead)).sum⟩ := by
  induction plans generalizing sum with
  | nil => rfl
  | cons child rest ih =>
    rw [addChildren,h child List.mem_cons_self,ih fun c hc => h c (List.mem_cons_of_mem _ hc)]
    simp only [List.map_cons,List.sum_cons,Nat.add_assoc]

private theorem sumBuffers_eq (n : PlanNode) :
    sumBuffers n = ⟨n.total PlanNode.sharedHit,n.total PlanNode.sharedRead⟩ := by
  induction n using PlanNode.induction with
  | node n ih =>
    rw [PlanNode.total_eq,PlanNode.total_eq]
    cases n with
    | mk nodeType hit read plans => exact addChildren_eq ih ⟨hit.getD 0,read.getD 0⟩

private theorem explainAnalyzeJson_root (label queryText : String) (planJson : PlanJson) :
    (explainAnalyzeJson label queryText planJson).totalSharedHitBlocks =
      planJson.plan.sharedHit ∧
    (explainAnalyzeJson label queryText planJson).totalSharedReadBlocks =
      planJson.plan.sharedRead := by
  unfold explainAnalyzeJson
  rw [flattenNodes_eq]
  exact ⟨rfl,rfl⟩

namespace PlanNode

/-- What a node counts includes what its children count. -/
def Cumulative (counter : PlanNode → ℕ) (n : PlanNode) : Prop :=
  ∀ m ∈ flattenNodes n, (m.plans.map counter).sum ≤ counter m

variable {counter : PlanNode → ℕ} {n : PlanNode}

private theorem Cumulative.root (h : n.Cumulative counter) :
    (n.plans.map counter).sum ≤ counter n :=
  h n (by rw [flattenNodes_eq]; exact List.mem_cons_self)

private theorem Cumulative.child (h : n.Cumulative counter) {c : PlanNode} (hc : c ∈ n.plans) :
    c.Cumulative counter := by
  intro m hm
  apply h
  rw [flattenNodes_eq]
  exact List.mem_cons_of_mem _ (List.mem_flatMap.mpr ⟨c,hc,hm⟩)

private theorem le_total (counter : PlanNode → ℕ) (n : PlanNode) : counter n ≤ n.total counter := by
  rw [total_eq]
  exact Nat.le_add_right _ _

private theorem Cumulative.total_eq_zero (h : n.Cumulative counter) (hzero : counter n = 0) :
    n.total counter = 0 := by
  induction n using PlanNode.induction with
  | node n ih =>
    have hsum : (n.plans.map counter).sum = 0 := by
      have := h.root
      omega
    rw [List.sum_eq_zero_iff_forall_eq_nat] at hsum
    rw [total_eq,hzero,Nat.zero_add]
    apply List.sum_eq_zero
    intro k hk
    obtain ⟨c,hc,rfl⟩ := List.mem_map.mp hk
    exact ih c hc (h.child hc) (hsum _ (List.mem_map_of_mem hc))

/-- The sum over the tree is the root's counter only if nothing happens below the root. -/
theorem Cumulative.total_eq_iff (h : n.Cumulative counter) :
    n.total counter = counter n ↔ ∀ c ∈ n.plans, counter c = 0 := by
  rw [total_eq,Nat.add_eq_left]
  constructor
  · intro hsum c hc
    rw [List.sum_eq_zero_iff_forall_eq_nat] at hsum
    have hzero := hsum _ (List.mem_map_of_mem hc)
    have hle := le_total counter c
    omega
  · intro hall
    apply List.sum_eq_zero
    intro k hk
    obtain ⟨c,hc,rfl⟩ := List.mem_map.mp hk
    exact (h.child hc).total_eq_zero (hall c hc)

end PlanNode

/-- The pagination lab reports the counters of the root, and so what the query-tuning lab does. -/
def ReportsTotals (label queryText : String) (planJson : PlanJson) : Prop :=
  (explain planJson).buffers = ⟨planJson.plan.sharedHit,planJson.plan.sharedRead⟩ ∧
  (explain planJson).buffers.sharedHit =
    (explainAnalyzeJson label queryText planJson).totalSharedHitBlocks ∧
  (explain planJson).buffers.sharedRead =
    (explainAnalyzeJson label queryText planJson).totalSharedReadBlocks

/-- On cumulative counters it does so exactly if no child of the root has touched a block. -/
theorem explain_reportsTotals_iff (label queryText : String) {planJson : PlanJson}
    (hhit : planJson.plan.Cumulative PlanNode.sharedHit)
    (hread : planJson.plan.Cumulative PlanNode.sharedRead) :
    ReportsTotals label queryText planJson ↔
      ∀ c ∈ planJson.plan.plans, c.sharedHit = 0 ∧ c.sharedRead = 0 := by
  obtain ⟨hhits,hreads⟩ := explainAnalyzeJson_root label queryText planJson
  have hbuffers : (explain planJson).buffers =
      ⟨planJson.plan.total PlanNode.sharedHit,planJson.plan.total PlanNode.sharedRead⟩ :=
    sumBuffers_eq planJson.plan
  unfold ReportsTotals
  rw [hhits,hreads,hbuffers,PlanBuffers.mk.injEq,hhit.total_eq_iff,hread.total_eq_iff]
  simp only [and_self,forall_and]

/-- A page of an index scan under a limit: four blocks, all of them touched by the scan. -/
def limitOverIndexScan : PlanJson where
  plan := .mk "Limit" (some 4) (some 0) [.mk "Index Scan" (some 4) (some 0) []]
  planningTime := 0
  executionTime := 0

theorem limitOverIndexScan_overcounted :
    limitOverIndexScan.plan.Cumulative PlanNode.sharedHit ∧
    limitOverIndexScan.plan.Cumulative PlanNode.sharedRead ∧
    (explain limitOverIndexScan).buffers = ⟨8,0⟩ ∧
    (explainAnalyzeJson "page" "SELECT" limitOverIndexScan).totalSharedHitBlocks = 4 ∧
    ¬ ReportsTotals "page" "SELECT" limitOverIndexScan := by
  refine ⟨?_,?_,rfl,rfl,fun h => ?_⟩
  · simp [PlanNode.Cumulative,limitOverIndexScan,flattenNodes,flattenChildren,PlanNode.plans,
      PlanNode.sharedHit,PlanNode.sharedHitBlocks]
  · simp [PlanNode.Cumulative,limitOverIndexScan,flattenNodes,flattenChildren,PlanNode.plans,
      PlanNode.sharedRead,PlanNode.sharedReadBlocks]
  · exact absurd h.1 (by decide)

/-- The row of an insert costs nothing to compute. -/
def insertOverResult : PlanJson where
  plan := .mk "Insert" (some 3) (some 1) [.mk "Result" (some 0) (some 0) []]
  planningTime := 0
  executionTime := 0

theorem insertOverResult_reportsTotals : ReportsTotals "insert" "INSERT" insertOverResult := by
  apply (explain_reportsTotals_iff "insert" "INSERT" _ _).mpr
  · simp [insertOverResult,PlanNode.plans,PlanNode.sharedHit,PlanNode.sharedRead,
      PlanNode.sharedHitBlocks,PlanNode.sharedReadBlocks]
  · simp [PlanNode.Cumulative,insertOverResult,flattenNodes,flattenChildren,PlanNode.plans,
      PlanNode.sharedHit,PlanNode.sharedHitBlocks]
  · simp [PlanNode.Cumulative,insertOverResult,flattenNodes,flattenChildren,PlanNode.plans,
      PlanNode.sharedRead,PlanNode.sharedReadBlocks]

end SystemsLab.Pagination
