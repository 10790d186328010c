import Mathlib
import RootCx.Lib.TopologicalOrder
import RootCx.Workflow.Expr

/-! # Workflow graphs -/

namespace RootCx.Workflow

open TopologicalOrder (Ordered)

inductive TriggerKind where
  | manual
  | schedule
  | webhook
  | recordChange
  | channel
  deriving DecidableEq, Repr

inductive ControlKind where
  | ifElse
  | switch
  | merge
  | set
  | loop
  | wait
  | stop
  deriving DecidableEq, Repr

inductive WorkflowNodeKind where
  | trigger (trigger : TriggerKind)
  | tool (toolName : Text)
  | control (control : ControlKind)
  | code
  | subWorkflow (workflowId : Text)
  deriving DecidableEq, Repr

def WorkflowNodeKind.isTrigger : WorkflowNodeKind → Bool
  | .trigger _ => true
  | _ => false

structure WorkflowNode where
  id : Text
  kind : WorkflowNodeKind
  params : Json

/-- An edge from an output port of one node to an input port of another. -/
structure WorkflowEdge where
  source : Text
  target : Text
  fromOutput : UInt8
  toInput : UInt8
  deriving DecidableEq

structure WorkflowGraph where
  nodes : List WorkflowNode
  edges : List WorkflowEdge

namespace WorkflowGraph

variable (graph : WorkflowGraph)

def ids : List Text := graph.nodes.map WorkflowNode.id

def inbound (id : Text) : List WorkflowEdge := graph.edges.filter fun edge => decide (edge.target = id)

/-- The runner's `node_map`: of two nodes with one id the later one stays. -/
def node (id : Text) : Option WorkflowNode := graph.nodes.reverse.find? fun node => decide (node.id = id)

theorem id_of_node {graph : WorkflowGraph} {id : Text} {node : WorkflowNode} (found : graph.node id = some node) :
    node.id = id := by
  simpa using List.find?_some found

/-! ## Validation -/

/-- The ids that have been seen before. -/
def repeated : List Text → List Text → List Text
  | _, [] => []
  | seen, id :: rest => if id ∈ seen then id :: repeated seen rest else repeated (id :: seen) rest

/-- The nodes that one spelling of a reference names, added to the errors where they do not exist. -/
def nodeRefs (valid : List Text) (pattern : Text) (quote : Char) : Nat → Text → List Text → List Text
  | 0, _, errors => errors
  | fuel + 1, rest, errors =>
    match Expr.cut pattern rest with
    | none => errors
    | some (_, after) =>
      match Expr.cut [quote] after with
      | none => errors
      | some (nodeId, rest) =>
        let msg := "expression references nonexistent node: " ++ nodeId
        nodeRefs valid pattern quote fuel rest
          (if nodeId ∉ valid ∧ msg ∉ errors then errors ++ [msg] else errors)

def extractNodeRefs (s : Text) (valid errors : List Text) : List Text :=
  nodeRefs valid "$node['" '\'' s.length s
    (nodeRefs valid "$node[\"" '"' s.length s errors)

mutual

def collectNodeRefs : Json → List Text → List Text → List Text
  | .str s, valid, errors => extractNodeRefs s valid errors
  | .obj entries, valid, errors => collectEntriesRefs entries valid errors
  | .arr items, valid, errors => collectItemsRefs items valid errors
  | _, _, errors => errors

def collectItemsRefs : List Json → List Text → List Text → List Text
  | [], _, errors => errors
  | item :: rest, valid, errors => collectItemsRefs rest valid (collectNodeRefs item valid errors)

def collectEntriesRefs : List (Text × Json) → List Text → List Text → List Text
  | [], _, errors => errors
  | (_, value) :: rest, valid, errors => collectEntriesRefs rest valid (collectNodeRefs value valid errors)

end

def danglingEdges (edge : WorkflowEdge) : List Text :=
  (if edge.source ∈ graph.ids then [] else ["edge references nonexistent source node: " ++ edge.source]) ++
    (if edge.target ∈ graph.ids then [] else ["edge references nonexistent target node: " ++ edge.target])

/-- Validate the structure of a graph before execution; all issues are collected. -/
def validate : Except (List Text) Unit :=
  let duplicates := (repeated [] graph.ids).map ("duplicate node id: ".toList ++ ·)
  let noTrigger := if graph.nodes.any (·.kind.isTrigger) then [] else ["graph has no trigger node".toList]
  let structural := duplicates ++ noTrigger ++ graph.edges.flatMap graph.danglingEdges
  let errors := graph.nodes.foldl (fun errors node => collectNodeRefs node.params graph.ids errors) structural
  if errors = [] then .ok () else .error errors

/-! What the validation accepts -/

theorem nodeRefs_length (valid : List Text) (pattern : Text) (quote : Char) (fuel : Nat) (rest : Text) (errors : List Text) :
    errors.length ≤ (nodeRefs valid pattern quote fuel rest errors).length := by
  induction fuel generalizing rest errors with
  | zero => exact le_rfl
  | succ fuel ih =>
    unfold nodeRefs
    split
    · exact le_rfl
    · split
      · exact le_rfl
      · refine le_trans ?_ (ih _ _)
        split
        · rw [List.length_append]
          exact Nat.le_add_right _ _
        · exact le_rfl

theorem extractNodeRefs_length (s : Text) (valid errors : List Text) :
    errors.length ≤ (extractNodeRefs s valid errors).length :=
  (nodeRefs_length ..).trans (nodeRefs_length ..)

mutual

theorem collectNodeRefs_length : ∀ (value : Json) (valid errors : List Text),
    errors.length ≤ (collectNodeRefs value valid errors).length
  | .str s, valid, errors => by
    rw [collectNodeRefs]
    exact extractNodeRefs_length s valid errors
  | .obj entries, valid, errors => by
    rw [collectNodeRefs]
    exact collectEntriesRefs_length entries valid errors
  | .arr items, valid, errors => by
    rw [collectNodeRefs]
    exact collectItemsRefs_length items valid errors
  | .null, _, _ | .bool _, _, _ | .number _, _, _ => by rw [collectNodeRefs] <;> nofun

theorem collectItemsRefs_length : ∀ (items : List Json) (valid errors : List Text),
    errors.length ≤ (collectItemsRefs items valid errors).length
  | [], _, _ => le_rfl
  | item :: rest, valid, errors =>
    (collectNodeRefs_length item valid errors).trans (collectItemsRefs_length rest valid _)

theorem collectEntriesRefs_length : ∀ (entries : List (Text × Json)) (valid errors : List Text),
    errors.length ≤ (collectEntriesRefs entries valid errors).length
  | [], _, _ => le_rfl
  | (_, value) :: rest, valid, errors =>
    (collectNodeRefs_length value valid errors).trans (collectEntriesRefs_length rest valid _)

end

theorem collect_length (nodes : List WorkflowNode) (valid errors : List Text) :
    errors.length ≤ (nodes.foldl (fun errors node => collectNodeRefs node.params valid errors) errors).length := by
  induction nodes generalizing errors with
  | nil => exact le_rfl
  | cons node nodes ih =>
    exact (collectNodeRefs_length node.params valid errors).trans (ih _)

theorem target_mem_ids {graph : WorkflowGraph} (accepted : graph.validate = .ok ()) {edge : WorkflowEdge}
    (mem : edge ∈ graph.edges) : edge.target ∈ graph.ids := by
  unfold validate at accepted
  dsimp only at accepted
  generalize noTrigger : (if graph.nodes.any (·.kind.isTrigger) then [] else ["graph has no trigger node".toList]) = untriggered at accepted
  split at accepted
  case isTrue clean =>
    have few := collect_length graph.nodes graph.ids
      ((repeated [] graph.ids).map ("duplicate node id: ".toList ++ ·) ++ untriggered ++ graph.edges.flatMap graph.danglingEdges)
    rw [clean] at few
    have empty := List.eq_nil_of_length_eq_zero (Nat.le_zero.mp few)
    have sound := List.flatMap_eq_nil_iff.mp (List.append_eq_nil_iff.mp empty).2 edge mem
    by_contra missing
    have dangling := (List.append_eq_nil_iff.mp sound).2
    rw [if_neg missing] at dangling
    cases dangling
  case isFalse => cases accepted

theorem exists_node {graph : WorkflowGraph} {id : Text} (mem : id ∈ graph.ids) : ∃ node, graph.node id = some node := by
  obtain ⟨node, listed, named⟩ := List.mem_map.mp mem
  apply Option.isSome_iff_exists.mp
  exact List.find?_isSome.mpr ⟨node, List.mem_reverse.mpr listed, decide_eq_true named⟩

/-! ## The order of a run -/

/-- Source and target of every edge, as the sort sees them. -/
def arrows : List (Text × Text) := graph.edges.map fun edge => (edge.source, edge.target)

/-- The ids that the queue of the sort starts with, up to their order: that is the
    order of a hash map. -/
def roots : List Text := graph.ids.dedup.filter fun id => decide (TopologicalOrder.inDegree graph.arrows [] id = 0)

/-- Kahn's algorithm.  Every id is queued at most once, so the entries of the count
    bound the rounds. -/
def topoSort (roots : List Text) : List Text :=
  TopologicalOrder.loop graph.arrows (graph.nodes.length + graph.edges.length)
    (TopologicalOrder.inDegree graph.arrows []) roots

theorem ready_roots {graph : WorkflowGraph} {roots : List Text} (started : roots.Perm graph.roots) :
    TopologicalOrder.Ready graph.arrows [] (TopologicalOrder.inDegree graph.arrows []) roots := by
  apply TopologicalOrder.Ready.start
  · rw [started.nodup_iff]
    exact (List.nodup_dedup _).filter _
  · intro root mem
    have mem := started.mem_iff.mp mem
    simpa [WorkflowGraph.roots] using (List.mem_filter.mp mem).2

theorem topoSort_nodup {graph : WorkflowGraph} {roots : List Text} (started : roots.Perm graph.roots) :
    (graph.topoSort roots).Nodup :=
  ((ready_roots started).loop (TopologicalOrder.ordered_nil _)).1

theorem topoSort_ordered {graph : WorkflowGraph} {roots : List Text} (started : roots.Perm graph.roots) :
    Ordered graph.arrows (graph.topoSort roots) :=
  ((ready_roots started).loop (TopologicalOrder.ordered_nil _)).2

theorem source_mem_of_inbound {graph : WorkflowGraph} {order front rest : List Text} {id : Text}
    (ordered : Ordered graph.arrows order) (split : order = front ++ id :: rest) {edge : WorkflowEdge}
    (into : edge ∈ graph.inbound id) : edge.source ∈ front := by
  obtain ⟨mem, target⟩ := List.mem_filter.mp into
  exact ordered front id rest split (edge.source, edge.target)
    (List.mem_map.mpr ⟨edge, mem, rfl⟩) (by simpa using target)

end WorkflowGraph

end RootCx.Workflow
