import Canon.Lib.Machine
import Canon.Lib.Maps
import Canon.Tlog.Event
import Mathlib.Data.List.Induction

/-! # Two projections of the goal graph

    `goal_graph_consumer.rs` keeps the goal graph of a running system from the events it
    sees; `goal_graph_projector.rs` rebuilds it from the payloads of the same events in
    the log.  The consumer marks a retracted node and keeps its edges; the projector
    takes the node out and its edges with it, and it reads no node without a name.

    The nodes of the two agree as long as no node without a name is active.  For edges,
    one has to look at the order of events: the projector has an edge when it was
    defined after the last retraction of either end.
-/

namespace Canon.Runtime

open Canon.Tlog

/-! ### Events -/

structure GoalNodeCreated where
  nodeId : String
  description : String
  deps : List String
  caps : List String
  nodeType : String
  priority : UInt8
  budget : Option UInt32
  created : Bool

structure GoalNodeRetracted where
  nodeId : String
  retracted : Bool

structure GoalNodeRewritten where
  nodeId : String
  newDescription : String
  newCaps : List String

structure GoalEdgeDefined where
  fromNodeId : String
  toNodeId : String
  created : Bool

def isGoalGraphKind : EventKind → Bool
  | .goalNodeCreated | .goalNodeRetracted | .goalNodeRewritten | .goalEdgeDefined => true
  | _ => false

/-- An event, as the consumer sees it. -/
inductive PlanningEvent where
  | goalNodeCreated (e : GoalNodeCreated)
  | goalNodeRetracted (e : GoalNodeRetracted)
  | goalNodeRewritten (e : GoalNodeRewritten)
  | goalEdgeDefined (e : GoalEdgeDefined)
  | other (kind : EventKind) (data : Json) (h : isGoalGraphKind kind = false)

namespace PlanningEvent

def kind : PlanningEvent → EventKind
  | goalNodeCreated _ => .goalNodeCreated
  | goalNodeRetracted _ => .goalNodeRetracted
  | goalNodeRewritten _ => .goalNodeRewritten
  | goalEdgeDefined _ => .goalEdgeDefined
  | other kind _ _ => kind

/-- `payload_data`: the serialised event. -/
def payloadData : PlanningEvent → Json
  | goalNodeCreated e => .obj
      [("node_id", .str e.nodeId), ("description", .str e.description),
        ("deps", .arr (e.deps.map .str)), ("caps", .arr (e.caps.map .str)),
        ("node_type", .str e.nodeType), ("priority", .nat e.priority.toNat),
        ("budget", (e.budget.map fun b => Json.nat b.toNat).getD .null),
        ("created", .bool e.created)]
  | goalNodeRetracted e => .obj [("node_id", .str e.nodeId), ("retracted", .bool e.retracted)]
  | goalNodeRewritten e => .obj
      [("node_id", .str e.nodeId), ("new_description", .str e.newDescription),
        ("new_caps", .arr (e.newCaps.map .str))]
  | goalEdgeDefined e => .obj
      [("from_node_id", .str e.fromNodeId), ("to_node_id", .str e.toNodeId),
        ("created", .bool e.created)]
  | other _ data _ => data

/-- The event in the log; `canon` has what the event itself does not say. -/
def wire (e : PlanningEvent) (canon : CanonEvent) : CanonEvent :=
  { canon with kind := e.kind, payload := { canon.payload with data := e.payloadData } }

end PlanningEvent

/-! ### The consumer -/

structure GoalNode where
  nodeId : String
  description : String
  deps : List String
  caps : List String
  nodeType : String
  priority : UInt8
  retracted : Bool

structure GoalGraph where
  nodes : FMap String GoalNode
  edges : List (String × String)

/-- What both projections say about a node. -/
structure GoalView where
  description : String
  deps : List String
  caps : List String
  nodeType : String
  priority : UInt8
deriving DecidableEq

namespace GoalGraph

def default : GoalGraph where
  nodes := FMap.empty
  edges := []

/-- `get_mut` and a change. -/
def modify (g : GoalGraph) (nodeId : String) (change : GoalNode → GoalNode) : GoalGraph :=
  match g.nodes nodeId with
  | none => g
  | some node => { g with nodes := g.nodes.insert nodeId (change node) }

def apply (g : GoalGraph) : PlanningEvent → GoalGraph
  | .goalNodeCreated e =>
    let node : GoalNode :=
      { nodeId := e.nodeId, description := e.description, deps := e.deps, caps := e.caps,
        nodeType := e.nodeType, priority := e.priority, retracted := false }
    { g with nodes := g.nodes.insert e.nodeId node }
  | .goalNodeRetracted e => g.modify e.nodeId fun node => { node with retracted := true }
  | .goalNodeRewritten e => g.modify e.nodeId fun node =>
      { node with description := e.newDescription, caps := e.newCaps }
  | .goalEdgeDefined e => { g with edges := g.edges ++ [(e.fromNodeId, e.toNodeId)] }
  | .other .. => g

def view (node : GoalNode) : GoalView :=
  { description := node.description, deps := node.deps, caps := node.caps,
    nodeType := node.nodeType, priority := node.priority }

/-- The active nodes, as a map. -/
def active (g : GoalGraph) : FMap String GoalView := fun id =>
  ((g.nodes id).filter fun node => !node.retracted).map view

end GoalGraph

def goalGraphMachine : Machine GoalGraph PlanningEvent where
  step := GoalGraph.apply

/-! ### The projector -/

structure GoalNodeState where
  nodeId : String
  description : String
  deps : List String
  caps : List String
  nodeType : String
  priority : UInt8
  budget : Option UInt32
  status : String

structure GoalGraphState where
  nodes : FMap String GoalNodeState
  edges : List (String × String)
  seqProcessed : Nat

/-- A text of a payload; the empty one when it is missing. -/
def payloadStr (data : Json) (key : String) : String := ((data.get key).bind Json.asStr).getD ""

/-- The texts of an array of a payload. -/
def payloadStrs (data : Json) (key : String) : Option (List String) :=
  ((data.get key).bind Json.asArray).map fun items => items.filterMap Json.asStr

namespace GoalGraphState

def default : GoalGraphState where
  nodes := FMap.empty
  edges := []
  seqProcessed := 0

def modify (s : GoalGraphState) (nodeId : String) (change : GoalNodeState → GoalNodeState) :
    GoalGraphState :=
  match s.nodes nodeId with
  | none => s
  | some node => { s with nodes := s.nodes.insert nodeId (change node) }

/-- The part of `apply_planning_event` up to the sequence number; nothing when it
    returns before that. -/
def project (s : GoalGraphState) (kind : EventKind) (data : Json) : Option GoalGraphState :=
  match kind with
  | .goalNodeCreated =>
    let nodeId := payloadStr data "node_id"
    let node : GoalNodeState :=
      { nodeId := nodeId
        description := payloadStr data "description"
        deps := (payloadStrs data "deps").getD []
        caps := (payloadStrs data "caps").getD []
        nodeType := ((data.get "node_type").bind Json.asStr).getD "analysis"
        priority := UInt8.ofNat (((data.get "priority").bind Json.asU64).getD 1)
        budget := ((data.get "budget").bind Json.asU64).map UInt32.ofNat
        status := "pending" }
    if nodeId = "" then none else some { s with nodes := s.nodes.insert nodeId node }
  | .goalNodeRetracted =>
    let nodeId := payloadStr data "node_id"
    some { s with
      nodes := s.nodes.erase nodeId
      edges := s.edges.filter fun edge => edge.1 ≠ nodeId ∧ edge.2 ≠ nodeId }
  | .goalNodeRewritten =>
    some (s.modify (payloadStr data "node_id") fun node =>
      { node with
        description := ((data.get "new_description").bind Json.asStr).getD node.description
        caps := (payloadStrs data "new_caps").getD node.caps
        status := "pending" })
  | .goalEdgeDefined =>
    let source := payloadStr data "from_node_id"
    let target := payloadStr data "to_node_id"
    if source ≠ "" ∧ target ≠ "" ∧ (source, target) ∉ s.edges then
      some { s with edges := s.edges ++ [(source, target)] }
    else some s
  | .nodeStarted =>
    some (s.modify (payloadStr data "node_id") fun node => { node with status := "running" })
  | .nodeCompleted =>
    some (s.modify (payloadStr data "node_id") fun node => { node with status := "completed" })
  | .nodeFailed =>
    some (s.modify (payloadStr data "node_id") fun node => { node with status := "failed" })
  | _ => some s

def applyPlanningEvent (s : GoalGraphState) (canon : CanonEvent) : GoalGraphState :=
  match s.project canon.kind canon.payload.data with
  | none => s
  | some s' => { s' with seqProcessed := max s'.seqProcessed canon.ts }

def view (node : GoalNodeState) : GoalView :=
  { description := node.description, deps := node.deps, caps := node.caps,
    nodeType := node.nodeType, priority := node.priority }

/-- Every node that is there is active. -/
def active (s : GoalGraphState) : FMap String GoalView := fun id => (s.nodes id).map view

end GoalGraphState

def projectorMachine : Machine GoalGraphState CanonEvent where
  step := GoalGraphState.applyPlanningEvent

/-- The same active nodes with the same contents, and the same edges between them. -/
structure Agree (g : GoalGraph) (s : GoalGraphState) : Prop where
  nodes : ∀ id, g.active id = s.active id
  edges : ∀ source target, (g.active source).isSome → (g.active target).isSome →
    ((source, target) ∈ g.edges ↔ (source, target) ∈ s.edges)

/-! ### Nodes -/

section Nodes

variable {g : GoalGraph} {s : GoalGraphState}

def PlanningEvent.Creates (id : String) : PlanningEvent → Prop
  | .goalNodeCreated e => e.nodeId = id
  | _ => False

def PlanningEvent.Retracts (id : String) : PlanningEvent → Prop
  | .goalNodeRetracted e => e.nodeId = id
  | _ => False

def PlanningEvent.Defines (source target : String) : PlanningEvent → Prop
  | .goalEdgeDefined e => e.fromNodeId = source ∧ e.toNodeId = target
  | _ => False

/-- How an event changes the active node with an id. -/
def PlanningEvent.effect (id : String) (node : Option GoalView) : PlanningEvent → Option GoalView
  | .goalNodeCreated e =>
    if e.nodeId = id then
      some { description := e.description, deps := e.deps, caps := e.caps,
             nodeType := e.nodeType, priority := e.priority }
    else node
  | .goalNodeRetracted e => if e.nodeId = id then none else node
  | .goalNodeRewritten e =>
    if e.nodeId = id then
      node.map fun v => { v with description := e.newDescription, caps := e.newCaps }
    else node
  | .goalEdgeDefined _ | .other .. => node

theorem GoalGraph.modify_nodes (nodeId : String) (change : GoalNode → GoalNode) (id : String) :
    (g.modify nodeId change).nodes id =
      if nodeId = id then (g.nodes id).map change else g.nodes id := by
  apply FMap.modified_apply
  · intro h
    rw [GoalGraph.modify, h]
  · intro v h
    rw [GoalGraph.modify, h]

theorem GoalGraphState.modify_nodes (nodeId : String) (change : GoalNodeState → GoalNodeState)
    (id : String) :
    (s.modify nodeId change).nodes id =
      if nodeId = id then (s.nodes id).map change else s.nodes id := by
  apply FMap.modified_apply
  · intro h
    rw [GoalGraphState.modify, h]
  · intro v h
    rw [GoalGraphState.modify, h]

theorem active_apply (e : PlanningEvent) (id : String) :
    (g.apply e).active id = e.effect id (g.active id) := by
  cases e with
  | goalNodeCreated e =>
    unfold GoalGraph.active GoalGraph.apply PlanningEvent.effect
    by_cases h : e.nodeId = id
    · simp [h, GoalGraph.view]
    · simp [h, Ne.symm h]
  | goalNodeRetracted e =>
    show ((GoalGraph.modify g e.nodeId _).nodes id |>.filter _).map _ = _
    rw [GoalGraph.modify_nodes]
    unfold PlanningEvent.effect GoalGraph.active
    by_cases h : e.nodeId = id
    · rw [if_pos h]
      cases g.nodes id with
      | none => simp [h]
      | some node => simp [h]
    · simp [h]
  | goalNodeRewritten e =>
    show ((GoalGraph.modify g e.nodeId _).nodes id |>.filter _).map _ = _
    rw [GoalGraph.modify_nodes]
    unfold PlanningEvent.effect GoalGraph.active
    by_cases h : e.nodeId = id
    · rw [if_pos h]
      cases g.nodes id with
      | none => simp [h]
      | some node =>
        cases hretracted : node.retracted with
        | true => simp [h, Option.filter, hretracted]
        | false => simp [h, Option.filter, hretracted, GoalGraph.view]
    · simp [h]
  | goalEdgeDefined | other => rfl

/-- The texts of a serialised array come back. -/
theorem filterMap_asStr (items : List String) :
    items.filterMap (Json.asStr ∘ Json.str) = items :=
  List.filterMap_some

/-- What the projector makes of a serialised event. -/
theorem applyPlanningEvent_eq (canon : CanonEvent) (e : PlanningEvent) :
    ∃ s' seq, s.applyPlanningEvent (e.wire canon) = { s' with seqProcessed := seq } ∧
      (s.project e.kind e.payloadData).getD s = s' := by
  unfold GoalGraphState.applyPlanningEvent PlanningEvent.wire
  dsimp only
  cases s.project e.kind e.payloadData with
  | none => exact ⟨s, s.seqProcessed, rfl, rfl⟩
  | some s' => exact ⟨s', _, rfl, rfl⟩

theorem active_other {kind : EventKind} (data : Json) (h : isGoalGraphKind kind = false)
    (id : String) : ((s.project kind data).getD s).active id = s.active id := by
  have hstatus : ∀ nodeId status,
      (s.modify nodeId fun node => { node with status := status }).active id = s.active id := by
    intro nodeId status
    unfold GoalGraphState.active
    rw [GoalGraphState.modify_nodes]
    split
    · rw [Option.map_map]
      rfl
    · rfl
  cases kind with
  | goalNodeCreated | goalNodeRetracted | goalNodeRewritten | goalEdgeDefined => cases h
  | nodeStarted | nodeCompleted | nodeFailed => exact hstatus _ _
  | _ => rfl

/-- The projector reads back what was serialised, except a node without a name. -/
theorem active_project (e : PlanningEvent) {id : String} (hid : id ≠ "") :
    ((s.project e.kind e.payloadData).getD s).active id = e.effect id (s.active id) := by
  cases e with
  | goalNodeCreated e =>
    have hnode :
      payloadStr (PlanningEvent.goalNodeCreated e).payloadData "node_id" = e.nodeId := rfl
    unfold GoalGraphState.project PlanningEvent.kind PlanningEvent.effect
    dsimp only
    rw [hnode]
    by_cases hempty : e.nodeId = ""
    · have hne : e.nodeId ≠ id := by
        rw [hempty]
        exact Ne.symm hid
      simp [hempty, Ne.symm hid]
    · rw [if_neg hempty]
      unfold GoalGraphState.active
      by_cases h : e.nodeId = id
      · subst h
        simp [GoalGraphState.view, PlanningEvent.payloadData, payloadStr, payloadStrs, Json.get,
          List.lookup_cons, Json.asStr, Json.asArray, Json.nat, Json.asU64, filterMap_asStr]
      · simp [h, Ne.symm h]
  | goalNodeRetracted e =>
    have hnode :
        payloadStr (PlanningEvent.goalNodeRetracted e).payloadData "node_id" = e.nodeId := rfl
    unfold GoalGraphState.project PlanningEvent.kind PlanningEvent.effect
    dsimp only
    rw [hnode]
    unfold GoalGraphState.active
    by_cases h : e.nodeId = id
    · simp [h]
    · simp [h, Ne.symm h]
  | goalNodeRewritten e =>
    unfold GoalGraphState.project PlanningEvent.kind PlanningEvent.effect
    show (GoalGraphState.modify s e.nodeId _).active id = _
    unfold GoalGraphState.active
    dsimp only
    rw [GoalGraphState.modify_nodes]
    by_cases h : e.nodeId = id
    · rw [if_pos h, if_pos h, Option.map_map, Option.map_map]
      congr 1
      funext node
      simp [GoalGraphState.view, PlanningEvent.payloadData, payloadStrs, Json.get, List.lookup_cons,
        Json.asStr, Json.asArray, filterMap_asStr]
    · simp [h]
  | goalEdgeDefined e =>
    show ((GoalGraphState.project s .goalEdgeDefined _).getD s).active id = s.active id
    unfold GoalGraphState.project
    dsimp only
    split <;> rfl
  | other kind data h => exact active_other data h id

/-- No node without a name is projected. -/
theorem active_project_empty (e : PlanningEvent) (h : s.active "" = none) :
    ((s.project e.kind e.payloadData).getD s).active "" = none := by
  cases e with
  | goalNodeCreated e =>
    have hnode :
      payloadStr (PlanningEvent.goalNodeCreated e).payloadData "node_id" = e.nodeId := rfl
    unfold GoalGraphState.project PlanningEvent.kind
    dsimp only
    rw [hnode]
    by_cases hempty : e.nodeId = ""
    · rw [if_pos hempty]
      exact h
    · rw [if_neg hempty]
      unfold GoalGraphState.active at h ⊢
      simpa [Ne.symm hempty] using h
  | goalNodeRetracted e =>
    unfold GoalGraphState.project PlanningEvent.kind GoalGraphState.active
    unfold GoalGraphState.active at h
    dsimp only [Option.getD_some]
    rw [FMap.erase_apply]
    split
    · rfl
    · exact h
  | goalNodeRewritten e =>
    show (GoalGraphState.modify s e.nodeId _).active "" = none
    unfold GoalGraphState.active at h ⊢
    rw [GoalGraphState.modify_nodes]
    have hnone : s.nodes "" = none := Option.map_eq_none_iff.mp h
    split
    · simp [hnone]
    · exact h
  | goalEdgeDefined e =>
    show ((GoalGraphState.project s .goalEdgeDefined _).getD s).active "" = none
    unfold GoalGraphState.project
    dsimp only
    split <;> exact h
  | other kind data hkind =>
    rw [← h]
    exact active_other data hkind ""

end Nodes

/-! ### Edges -/

section Edges

variable {g : GoalGraph} {s : GoalGraphState}

theorem edges_apply (e : PlanningEvent) (source target : String) :
    (source, target) ∈ (g.apply e).edges ↔ (source, target) ∈ g.edges ∨
      e.Defines source target := by
  have hmodify : ∀ nodeId change, (g.modify nodeId change).edges = g.edges := by
    intro nodeId change
    unfold GoalGraph.modify
    split <;> rfl
  cases e with
  | goalEdgeDefined e => simp [GoalGraph.apply, PlanningEvent.Defines, eq_comm]
  | goalNodeRetracted e | goalNodeRewritten e =>
    simp [GoalGraph.apply, hmodify, PlanningEvent.Defines]
  | goalNodeCreated | other => simp [GoalGraph.apply, PlanningEvent.Defines]

/-- The projector has named edges only, and takes the edges of a retracted node out. -/
theorem edges_project (e : PlanningEvent) (source target : String) :
    (source, target) ∈ ((s.project e.kind e.payloadData).getD s).edges ↔
      (source ≠ "" ∧ target ≠ "" ∧ e.Defines source target) ∨
        (¬ (e.Retracts source ∨ e.Retracts target) ∧ (source, target) ∈ s.edges) := by
  have hmodify : ∀ nodeId change, (s.modify nodeId change).edges = s.edges := by
    intro nodeId change
    unfold GoalGraphState.modify
    split <;> rfl
  cases e with
  | goalNodeCreated e =>
    have hedges : ((s.project .goalNodeCreated
        (PlanningEvent.goalNodeCreated e).payloadData).getD s).edges = s.edges := by
      unfold GoalGraphState.project
      dsimp only
      split <;> rfl
    simp [PlanningEvent.kind, hedges, PlanningEvent.Defines, PlanningEvent.Retracts]
  | goalNodeRetracted e =>
    show (source, target) ∈ s.edges.filter (fun edge => edge.1 ≠ e.nodeId ∧ edge.2 ≠ e.nodeId) ↔ _
    rw [List.mem_filter]
    simp only [PlanningEvent.Defines, PlanningEvent.Retracts, decide_eq_true_eq, and_false,
      false_or, not_or, eq_comm (a := e.nodeId), ne_eq]
    exact and_comm
  | goalNodeRewritten e =>
    show (source, target) ∈ (GoalGraphState.modify s _ _).edges ↔ _
    rw [hmodify]
    simp [PlanningEvent.Defines, PlanningEvent.Retracts]
  | goalEdgeDefined e =>
    show (source, target) ∈ (Option.getD (if e.fromNodeId ≠ "" ∧ e.toNodeId ≠ "" ∧
      (e.fromNodeId, e.toNodeId) ∉ s.edges then
        some { s with edges := s.edges ++ [(e.fromNodeId, e.toNodeId)] } else some s) s).edges ↔ _
    simp only [PlanningEvent.Defines, PlanningEvent.Retracts, or_self, not_false_eq_true, true_and]
    by_cases hnew : e.fromNodeId ≠ "" ∧ e.toNodeId ≠ "" ∧ (e.fromNodeId, e.toNodeId) ∉ s.edges
    · rw [if_pos hnew]
      simp only [Option.getD_some, List.mem_append, List.mem_singleton, Prod.mk.injEq]
      constructor
      · rintro (hold | ⟨rfl, rfl⟩)
        · exact .inr hold
        · exact .inl ⟨hnew.1, hnew.2.1, rfl, rfl⟩
      · rintro (⟨-, -, rfl, rfl⟩ | hold)
        · exact .inr ⟨rfl, rfl⟩
        · exact .inl hold
    · rw [if_neg hnew]
      constructor
      · intro hold
        exact .inr hold
      · rintro (⟨hsource, htarget, rfl, rfl⟩ | hold)
        -- The edge was there already.
        · by_contra hnot
          exact hnew ⟨hsource, htarget, hnot⟩
        · exact hold
  | other kind data h =>
    have hedges : ((s.project kind data).getD s).edges = s.edges := by
      cases kind with
      | goalNodeCreated | goalNodeRetracted | goalNodeRewritten | goalEdgeDefined => cases h
      | nodeStarted | nodeCompleted | nodeFailed => exact hmodify _ _
      | _ => rfl
    simp [PlanningEvent.kind, PlanningEvent.payloadData, hedges, PlanningEvent.Defines,
      PlanningEvent.Retracts]

end Edges

/-! ### Runs -/

/-- The consumer and the projector after the same events. -/
def consumed (log : List (PlanningEvent × CanonEvent)) : GoalGraph :=
  goalGraphMachine.run .default (log.map Prod.fst)

def projected (log : List (PlanningEvent × CanonEvent)) : GoalGraphState :=
  projectorMachine.run .default (log.map fun e => e.1.wire e.2)

/-- The node was created, and not retracted since. -/
def Active (id : String) (events : List PlanningEvent) : Prop :=
  Machine.Since (PlanningEvent.Creates id) (PlanningEvent.Retracts id) events

/-- The edge was defined, and neither end retracted since. -/
def Standing (source target : String) (events : List PlanningEvent) : Prop :=
  Machine.Since (PlanningEvent.Defines source target)
    (fun e => e.Retracts source ∨ e.Retracts target) events

section Runs

variable (log : List (PlanningEvent × CanonEvent))

theorem projected_snoc (e : PlanningEvent × CanonEvent) :
    ∃ seq, projected (log ++ [e]) =
      { ((projected log).project e.1.kind e.1.payloadData).getD (projected log) with
        seqProcessed := seq } := by
  obtain ⟨s', seq, hstep, hproject⟩ := applyPlanningEvent_eq (s := projected log) e.2 e.1
  refine ⟨seq, ?_⟩
  rw [hproject, ← hstep]
  simp [projected, Machine.run_snoc, projectorMachine]

theorem consumed_snoc (e : PlanningEvent × CanonEvent) :
    consumed (log ++ [e]) = (consumed log).apply e.1 := by
  simp [consumed, Machine.run_snoc, goalGraphMachine]

theorem effect_isSome (e : PlanningEvent) (id : String) (node : Option GoalView) :
    (e.effect id node).isSome ↔ e.Creates id ∨ (¬ e.Retracts id ∧ node.isSome) := by
  cases e with
  | goalNodeCreated e =>
    by_cases h : e.nodeId = id
    · simp [PlanningEvent.effect, PlanningEvent.Creates, h]
    · simp [PlanningEvent.effect, PlanningEvent.Creates, PlanningEvent.Retracts, h]
  | goalNodeRetracted e =>
    by_cases h : e.nodeId = id
    · simp [PlanningEvent.effect, PlanningEvent.Creates, PlanningEvent.Retracts, h]
    · simp [PlanningEvent.effect, PlanningEvent.Creates, PlanningEvent.Retracts, h]
  | goalNodeRewritten e =>
    by_cases h : e.nodeId = id
    · simp [PlanningEvent.effect, PlanningEvent.Creates, PlanningEvent.Retracts, h]
    · simp [PlanningEvent.effect, PlanningEvent.Creates, PlanningEvent.Retracts, h]
  | goalEdgeDefined | other =>
    simp [PlanningEvent.effect, PlanningEvent.Creates, PlanningEvent.Retracts]

theorem consumed_active_iff (id : String) :
    ((consumed log).active id).isSome ↔ Active id (log.map Prod.fst) := by
  induction log using List.reverseRecOn with
  | nil => simp [consumed, Active, GoalGraph.default, GoalGraph.active]
  | append_singleton log e ih =>
    rw [consumed_snoc, active_apply, effect_isSome, ih, List.map_append]
    exact (Machine.since_snoc _ _ _ _).symm

theorem consumed_edges_iff (source target : String) :
    (source, target) ∈ (consumed log).edges ↔
      ∃ e ∈ log.map Prod.fst, e.Defines source target := by
  induction log using List.reverseRecOn with
  | nil => simp [consumed, GoalGraph.default]
  | append_singleton log e ih =>
    rw [consumed_snoc, edges_apply, ih]
    simp [or_and_right, exists_or]

theorem projected_edges_iff (source target : String) :
    (source, target) ∈ (projected log).edges ↔
      source ≠ "" ∧ target ≠ "" ∧ Standing source target (log.map Prod.fst) := by
  induction log using List.reverseRecOn with
  | nil => simp [projected, GoalGraphState.default, Standing]
  | append_singleton log e ih =>
    obtain ⟨seq, hsnoc⟩ := projected_snoc log e
    rw [hsnoc]
    apply (edges_project e.1 source target).trans
    have hstanding : Standing source target ((log ++ [e]).map Prod.fst) ↔
        e.1.Defines source target ∨
          (¬ (e.1.Retracts source ∨ e.1.Retracts target) ∧
            Standing source target (log.map Prod.fst)) := by
      rw [List.map_append]
      exact Machine.since_snoc _ _ _ _
    rw [ih, hstanding]
    grind

/-- Every named node is the same in both. -/
theorem active_agree {id : String} (hid : id ≠ "") :
    (consumed log).active id = (projected log).active id := by
  induction log using List.reverseRecOn with
  | nil => rfl
  | append_singleton log e ih =>
    obtain ⟨seq, hsnoc⟩ := projected_snoc log e
    rw [consumed_snoc, active_apply, ih, hsnoc]
    exact (active_project e.1 hid).symm

theorem projected_active_empty : (projected log).active "" = none := by
  induction log using List.reverseRecOn with
  | nil => rfl
  | append_singleton log e ih =>
    obtain ⟨seq, hsnoc⟩ := projected_snoc log e
    rw [hsnoc]
    exact active_project_empty e.1 ih

/-- **The two projections of the goal graph agree** exactly on the sequences of events
    that leave no node without a name active, and in which every edge between nodes that
    are active at the end was defined after the last retraction of either end. -/
theorem projections_agree_iff :
    Agree (consumed log) (projected log) ↔
      ¬ Active "" (log.map Prod.fst) ∧
        ∀ source target, Active source (log.map Prod.fst) → Active target (log.map Prod.fst) →
          (∃ e ∈ log.map Prod.fst, e.Defines source target) →
            Standing source target (log.map Prod.fst) := by
  constructor
  · intro h
    constructor
    · intro hempty
      have hactive := (consumed_active_iff log "").mpr hempty
      rw [h.nodes "", projected_active_empty] at hactive
      cases hactive
    · intro source target hsource htarget hdefined
      have hedge := (h.edges source target ((consumed_active_iff log source).mpr hsource)
        ((consumed_active_iff log target).mpr htarget)).mp
          ((consumed_edges_iff log source target).mpr hdefined)
      exact ((projected_edges_iff log source target).mp hedge).2.2
  · intro h
    have hnamed : ∀ id, ((consumed log).active id).isSome → id ≠ "" := by
      rintro id hid rfl
      exact h.1 ((consumed_active_iff log "").mp hid)
    constructor
    · intro id
      by_cases hid : id = ""
      · subst hid
        rw [projected_active_empty]
        by_contra hsome
        exact hnamed "" (Option.isSome_iff_ne_none.mpr hsome) rfl
      · exact active_agree log hid
    · intro source target hsource htarget
      rw [consumed_edges_iff, projected_edges_iff]
      constructor
      · intro hdefined
        exact ⟨hnamed source hsource, hnamed target htarget,
          h.2 source target ((consumed_active_iff log source).mp hsource)
            ((consumed_active_iff log target).mp htarget) hdefined⟩
      · rintro ⟨-, -, before, e, after, hsplit, hdefines, -⟩
        exact ⟨e, by rw [hsplit]; simp, hdefines⟩

end Runs

def sampleNode (id : String) : PlanningEvent :=
  .goalNodeCreated
    { nodeId := id, description := "task", deps := [], caps := ["code"], nodeType := "sub_task",
      priority := 128, budget := none, created := true }

/-- A node is retracted and created again; the edge to it was defined before. -/
def recreatedNode : List (PlanningEvent × CanonEvent) :=
  [sampleNode "a", sampleNode "b",
    .goalEdgeDefined { fromNodeId := "a", toNodeId := "b", created := true },
    .goalNodeRetracted { nodeId := "b", retracted := true }, sampleNode "b"].map fun e =>
      (e, default)

/-- The consumer still has the edge, the projector does not. -/
theorem recreated_node_disagrees : ¬ Agree (consumed recreatedNode) (projected recreatedNode) := by
  have hactive : ((consumed recreatedNode).active "a").isSome ∧
      ((consumed recreatedNode).active "b").isSome := by
    decide +kernel
  have hconsumed : ("a", "b") ∈ (consumed recreatedNode).edges := by
    decide +kernel
  have hprojected : ("a", "b") ∉ (projected recreatedNode).edges := by
    decide +kernel
  intro h
  exact hprojected ((h.edges "a" "b" hactive.1 hactive.2).mp hconsumed)

end Canon.Runtime
