import Canon.Lib.Machine
import Canon.Lib.Maps
import Canon.Tlog.Event
import Mathlib.Data.List.Induction

/-! # The capability graph of a log

    `capability_graph_projector.rs` rebuilds from a log which capabilities were asked for and
    how each ended.  A request puts its node in anew; a tool call puts one in when there is
    none.

    * `replayCapabilityGraph`: the projection,
    * `birth`: the event that put a node in, and what came after it,
    * `node_of_log`: every node, read off its birth and what came after.
-/

namespace Canon.Tlog.CapabilityGraph

variable (e : CanonEvent)

structure CapabilityOpNode where
  capabilityId : String
  name : String
  nodeId : String
  status : String
  durationMs : Option Nat
  result : Option Json
deriving Repr, Inhabited

structure CapabilityOpEdge where
  fromNode : String
  toNode : String
  kind : String
deriving DecidableEq, Repr

structure CapabilityGraphState where
  nodes : FMap String CapabilityOpNode
  edges : List CapabilityOpEdge

/-- The state of a replay. -/
structure Replaying extends CapabilityGraphState where
  /-- When each capability was asked for last. -/
  startTimes : FMap String Nat

def Replaying.empty : Replaying where
  nodes := FMap.empty
  edges := []
  startTimes := FMap.empty

/-! ### The fields of an event -/

def field (key : String) : Option String :=
  (e.payload.data.get key).bind Json.asStr

def requestId : String := (field e "request_id").getD ""

def toolCallId : String :=
  ((field e "tool_call_id").or (field e "request_id")).getD ""

def nodeIdOf : String := (field e "node_id").getD ""

def succeeded : Bool :=
  match e.payload.data.get "success" with
  | some (.bool b) => b
  | _ => false

/-! ### The projection -/

def requestNode : CapabilityOpNode where
  capabilityId := requestId e
  name := (field e "name").getD ""
  nodeId := nodeIdOf e
  status := "pending"
  durationMs := none
  result := none

def callNode : CapabilityOpNode where
  capabilityId := toolCallId e
  name := (field e "kind").getD "tool"
  nodeId := ""
  status := "pending"
  durationMs := none
  result := none

/-- Change a node that is there. -/
def modify (s : Replaying) (id : String)
    (f : CapabilityOpNode → CapabilityOpNode) : Replaying :=
  match s.nodes id with
  | some node => { s with nodes := s.nodes.insert id (f node) }
  | none => s

/-- The time since the start, when the start is known. -/
def timed (s : Replaying) (id : String) (ts : Nat) (node : CapabilityOpNode) :
    CapabilityOpNode :=
  match s.startTimes id with
  | some start => { node with durationMs := some (ts - start) }
  | none => node

def applyEvent (s : Replaying) (e : CanonEvent) : Replaying :=
  match e.kind with
  | .capabilityRequested =>
    let id := requestId e
    if id = "" then s
    else
      { s with
        startTimes := s.startTimes.insert id e.ts
        nodes := s.nodes.insert id (requestNode e) }
  | .capabilityCompleted =>
    let id := requestId e
    modify s id fun node => timed s id e.ts { node with status := "completed" }
  | .capabilityFailed => modify s (requestId e) fun node => { node with status := "failed" }
  | .toolCall =>
    let id := toolCallId e
    if id = "" then s
    else
      { s with
        edges := s.edges ++ [{ fromNode := nodeIdOf e, toNode := id, kind := "tool_call" }]
        nodes := if (s.nodes id).isSome then s.nodes else s.nodes.insert id (callNode e) }
  | .toolResult =>
    let id := toolCallId e
    if id = "" then s
    else
      modify s id fun node =>
        timed s id e.ts
          { node with
            status := if succeeded e then "completed" else "failed"
            result := e.payload.data.get "output" }
  | _ => s

def machine : Machine Replaying CanonEvent where
  step := applyEvent

/-- The projection of the events of a log. -/
def replayCapabilityGraph (events : List CanonEvent) : CapabilityGraphState :=
  (machine.run .empty events).toCapabilityGraphState

/-! ### Histories -/

section Histories

variable (id : String)
variable (e : CanonEvent)

/-- A request puts the node in, whatever was there. -/
def requests : Bool :=
  e.kind = .capabilityRequested ∧ requestId e = id ∧ id ≠ ""

/-- A call puts the node in when there is none. -/
def calls : Bool := e.kind = .toolCall ∧ toolCallId e = id ∧ id ≠ ""

def completes : Bool := e.kind = .capabilityCompleted ∧ requestId e = id

def fails : Bool := e.kind = .capabilityFailed ∧ requestId e = id

def returns : Bool := e.kind = .toolResult ∧ toolCallId e = id ∧ id ≠ ""

/-- How an event settles the node. -/
def settles : Option String :=
  if completes id e then some "completed"
  else if fails id e then some "failed"
  else if returns id e then some (if succeeded e then "completed" else "failed")
  else none

/-- The event that put the node in, and what came after it, the newest first: the last
    request, or where there is none the first call. -/
def birth : List CanonEvent → Option (CanonEvent × List CanonEvent)
  | [] => none
  | e :: before =>
    if requests id e then some (e, [])
    else
      match birth before with
      | some (b, after) => some (b, e :: after)
      | none => if calls id e then some (e, []) else none

/-- The node that came in with `b`, after the events in `after`. -/
def grown (b : CanonEvent) (after : List CanonEvent) : CapabilityOpNode :=
  let node := if requests id b then requestNode b else callNode b
  { node with
    status := (after.findSome? (settles id)).getD "pending"
    durationMs :=
      if requests id b then
        (after.find? fun e => completes id e || returns id e).map fun e => e.ts - b.ts
      else none
    result := (after.find? (returns id)).bind fun e => e.payload.data.get "output" }

/-- The node a log leaves under an identifier. -/
def expected (events : List CanonEvent) : Option CapabilityOpNode :=
  (birth id events.reverse).map fun b => grown id b.1 b.2

end Histories

/-- The edges of a log: one for each tool call with an identifier. -/
def edgesOf (events : List CanonEvent) : List CapabilityOpEdge :=
  events.filterMap fun e =>
    if e.kind = .toolCall ∧ toolCallId e ≠ "" then
      some { fromNode := nodeIdOf e, toNode := toolCallId e, kind := "tool_call" }
    else none

/-! ### One event -/

/-- What an event makes of a node that is there. -/
def touch (id : String) (e : CanonEvent) (start : Option Nat) (node : CapabilityOpNode) :
    CapabilityOpNode :=
  let since := (start.map fun start => e.ts - start).or node.durationMs
  if completes id e then { node with status := "completed", durationMs := since }
  else if fails id e then { node with status := "failed" }
  else if returns id e then
    { node with
      status := if succeeded e then "completed" else "failed"
      durationMs := since
      result := e.payload.data.get "output" }
  else node

/-- `f` is what `g` does to the node of `k`; no other node changes. -/
theorem modify_nodes (s : Replaying) {k id : String} {f g : CapabilityOpNode → CapabilityOpNode}
    (hself : k = id → g = f) (hother : k ≠ id → g = fun node => node) :
    (modify s k f).nodes id = (s.nodes id).map g := by
  have hnodes : (modify s k f).nodes id = if k = id then (s.nodes id).map f else s.nodes id := by
    apply FMap.modified_apply
    · intro h
      rw [modify, h]
    · intro v h
      rw [modify, h]
  rw [hnodes]
  by_cases hid : k = id
  · rw [if_pos hid, hself hid]
  · rw [if_neg hid, hother hid, Option.map_id']

theorem modify_startTimes (s : Replaying) (k : String)
    (f : CapabilityOpNode → CapabilityOpNode) : (modify s k f).startTimes = s.startTimes := by
  rw [modify]
  split <;> rfl

theorem modify_edges (s : Replaying) (k : String)
    (f : CapabilityOpNode → CapabilityOpNode) : (modify s k f).edges = s.edges := by
  rw [modify]
  split <;> rfl

section Step

variable (s : Replaying) (id : String) (e : CanonEvent)

theorem timed_eq (ts : Nat) (node : CapabilityOpNode) :
    timed s id ts node =
      { node with
        durationMs := ((s.startTimes id).map fun start => ts - start).or node.durationMs } := by
  rw [timed]
  cases s.startTimes id <;> rfl

theorem applyEvent_startTimes :
    (applyEvent s e).startTimes id = if requests id e then some e.ts else s.startTimes id := by
  have hrequests : requests id e = decide (e.kind = .capabilityRequested ∧
      requestId e = id ∧ id ≠ "") := rfl
  rw [hrequests]
  unfold applyEvent
  split
  · rename_i hkind
    by_cases hempty : requestId e = ""
    · simp [hempty, hkind]
    · by_cases hid : requestId e = id
      · subst hid
        simp [hempty, hkind]
      · have hne : id ≠ requestId e := fun h => hid h.symm
        simp [hempty, hkind, hid, hne]
  · rename_i hkind
    simp [modify_startTimes, hkind]
  · rename_i hkind
    simp [modify_startTimes, hkind]
  · rename_i hkind
    simp only [hkind]
    split <;> simp
  · rename_i hkind
    simp only [hkind]
    split <;> simp [modify_startTimes]
  · rename_i hkind _ _ _ _
    have hother : ¬ e.kind = .capabilityRequested := hkind
    simp [hother]

/-- An event of another kind, or about another node. -/
theorem touch_eq_self {start : Option Nat} (hcompletes : completes id e = false)
    (hfails : fails id e = false) (hreturns : returns id e = false) :
    touch id e start = fun node => node := by
  funext node
  simp [touch, hcompletes, hfails, hreturns]

theorem applyEvent_nodes :
    (applyEvent s e).nodes id =
      if requests id e then some (requestNode e)
      else if calls id e then some ((s.nodes id).getD (callNode e))
      else (s.nodes id).map (touch id e (s.startTimes id)) := by
  unfold applyEvent
  split
  · rename_i hkind
    have hcalls : calls id e = false := by simp [calls, hkind]
    have htouch : touch id e (s.startTimes id) = fun node => node :=
      touch_eq_self id e (by simp [completes, hkind]) (by simp [fails, hkind])
        (by simp [returns, hkind])
    rw [hcalls, htouch]
    by_cases hempty : requestId e = ""
    · simp [requests, hkind, hempty]
    · by_cases hid : requestId e = id
      · subst hid
        simp [requests, hkind, hempty]
      · have hne : id ≠ requestId e := fun h => hid h.symm
        simp [requests, hkind, hempty, hid, hne]
  · rename_i hkind
    have hrequests : requests id e = false := by simp [requests, hkind]
    have hcalls : calls id e = false := by simp [calls, hkind]
    rw [hrequests, hcalls]
    apply modify_nodes
    · intro hid
      subst hid
      funext node
      rw [timed_eq]
      simp [touch, completes, hkind]
    · intro hid
      exact touch_eq_self id e (by simp [completes, hid]) (by simp [fails, hid])
        (by simp [returns, hkind])
  · rename_i hkind
    have hrequests : requests id e = false := by simp [requests, hkind]
    have hcalls : calls id e = false := by simp [calls, hkind]
    rw [hrequests, hcalls]
    apply modify_nodes
    · intro hid
      subst hid
      funext node
      simp [touch, completes, fails, hkind]
    · intro hid
      exact touch_eq_self id e (by simp [completes, hid]) (by simp [fails, hid])
        (by simp [returns, hkind])
  · rename_i hkind
    have hrequests : requests id e = false := by simp [requests, hkind]
    have htouch : touch id e (s.startTimes id) = fun node => node :=
      touch_eq_self id e (by simp [completes, hkind]) (by simp [fails, hkind])
        (by simp [returns, hkind])
    rw [hrequests, htouch]
    by_cases hempty : toolCallId e = ""
    · simp [calls, hkind, hempty]
    · by_cases hid : toolCallId e = id
      · subst hid
        cases hnode : s.nodes (toolCallId e) with
        | none => simp [calls, hkind, hempty, hnode]
        | some node => simp [calls, hkind, hempty, hnode]
      · have hne : id ≠ toolCallId e := fun h => hid h.symm
        cases hnode : s.nodes (toolCallId e) with
        | none => simp [calls, hempty, hid, hne, hnode]
        | some node => simp [calls, hempty, hid, hnode]
  · rename_i hkind
    have hrequests : requests id e = false := by simp [requests, hkind]
    have hcalls : calls id e = false := by simp [calls, hkind]
    have hcompletes : completes id e = false := by simp [completes, hkind]
    have hfails : fails id e = false := by simp [fails, hkind]
    rw [hrequests, hcalls]
    by_cases hempty : toolCallId e = ""
    · have htouch : touch id e (s.startTimes id) = fun node => node :=
        touch_eq_self id e hcompletes hfails (by simp [returns, hempty, eq_comm])
      simp [hempty, htouch]
    · simp only [if_neg hempty]
      apply modify_nodes
      · intro hid
        subst hid
        funext node
        rw [timed_eq]
        simp [touch, hcompletes, hfails, returns, hkind, hempty]
      · intro hid
        exact touch_eq_self id e hcompletes hfails (by simp [returns, hid])
  · rename_i hrequested hcompleted hfailed hcalled hreturned
    have hrequests : requests id e = false := by simpa [requests] using fun h => absurd h hrequested
    have hcalls : calls id e = false := by simpa [calls] using fun h => absurd h hcalled
    have htouch : touch id e (s.startTimes id) = fun node => node :=
      touch_eq_self id e (by simpa [completes] using fun h => absurd h hcompleted)
        (by simpa [fails] using fun h => absurd h hfailed)
        (by simpa [returns] using fun h => absurd h hreturned)
    rw [hrequests, hcalls, htouch]
    simp

end Step

variable {id : String} {e : CanonEvent}

/-! ### What came after the birth -/

theorem returns_of_completes (h : completes id e = true) :
    returns id e = false := by
  have hkind : e.kind = .capabilityCompleted := (of_decide_eq_true h).1
  simp [returns, hkind]

theorem returns_of_fails (h : fails id e = true) :
    returns id e = false := by
  have hkind : e.kind = .capabilityFailed := (of_decide_eq_true h).1
  simp [returns, hkind]

/-- One more event after the birth. -/
theorem grown_cons (id : String) (b e : CanonEvent) (after : List CanonEvent) :
    grown id b (e :: after) =
      touch id e (if requests id b then some b.ts else none) (grown id b after) := by
  by_cases hcompletes : completes id e = true
  · have hreturns := returns_of_completes hcompletes
    by_cases hb : requests id b = true <;> simp [grown, touch, settles, hcompletes, hreturns, hb]
  · by_cases hfails : fails id e = true
    · have hreturns := returns_of_fails hfails
      by_cases hb : requests id b = true <;>
        simp [grown, touch, settles, hcompletes, hfails, hreturns, hb]
    · by_cases hreturns : returns id e = true
      · by_cases hb : requests id b = true <;>
          simp [grown, touch, settles, hcompletes, hfails, hreturns, hb]
      · by_cases hb : requests id b = true <;>
          simp [grown, touch, settles, hcompletes, hfails, hreturns, hb]

theorem not_requests_of_calls (h : calls id e = true) :
    requests id e = false := by
  have hkind : e.kind = .toolCall := (of_decide_eq_true h).1
  simp [requests, hkind]

theorem grown_of_calls (h : calls id e = true) :
    grown id e [] = callNode e := by
  simp [grown, not_requests_of_calls h, callNode]

theorem grown_of_requests (h : requests id e = true) :
    grown id e [] = requestNode e := by
  simp [grown, h, requestNode]

/-- Where no request came last, a call changes nothing of a node that is there. -/
theorem touch_of_calls (h : calls id e = true) (start : Option Nat) :
    touch id e start = fun node => node := by
  have hkind : e.kind = .toolCall := (of_decide_eq_true h).1
  exact touch_eq_self id e (by simp [completes, hkind]) (by simp [fails, hkind])
    (by simp [returns, hkind])

/-! ### Runs -/

/-- When a log's last request under an identifier was. -/
def startOf (id : String) (events : List CanonEvent) : Option Nat :=
  (birth id events.reverse).bind fun b => if requests id b.1 then some b.1.ts else none

theorem birth_snoc (id : String) (events : List CanonEvent) (e : CanonEvent) :
    birth id (events ++ [e]).reverse =
      if requests id e then some (e, [])
      else
        match birth id events.reverse with
        | some (b, after) => some (b, e :: after)
        | none => if calls id e then some (e, []) else none := by
  rw [List.reverse_append]
  rfl

theorem startOf_snoc (id : String) (events : List CanonEvent) (e : CanonEvent) :
    startOf id (events ++ [e]) = if requests id e then some e.ts else startOf id events := by
  rw [startOf, birth_snoc, startOf]
  by_cases hrequests : requests id e = true
  · simp [hrequests]
  · rw [if_neg hrequests, if_neg hrequests]
    cases birth id events.reverse with
    | some b => rfl
    | none =>
      by_cases hcalls : calls id e = true
      · simp [hcalls, hrequests]
      · simp [hcalls]

theorem expected_snoc (id : String) (events : List CanonEvent) (e : CanonEvent) :
    expected id (events ++ [e]) =
      if requests id e then some (requestNode e)
      else if calls id e then some ((expected id events).getD (callNode e))
      else (expected id events).map (touch id e (startOf id events)) := by
  rw [expected, birth_snoc, expected, startOf]
  by_cases hrequests : requests id e = true
  · simp [hrequests, grown_of_requests hrequests]
  · rw [if_neg hrequests, if_neg hrequests]
    cases birth id events.reverse with
    | some b =>
      by_cases hcalls : calls id e = true
      · simp [hcalls, grown_cons, touch_of_calls hcalls]
      · simp [hcalls, grown_cons]
    | none =>
      by_cases hcalls : calls id e = true
      · simp [hcalls, grown_of_calls hcalls]
      · simp [hcalls]

theorem edgesOf_snoc (events : List CanonEvent) (e : CanonEvent) :
    edgesOf (events ++ [e]) = edgesOf events ++ edgesOf [e] := by
  rw [edgesOf, List.filterMap_append]
  rfl

theorem applyEvent_edges (s : Replaying) (e : CanonEvent) :
    (applyEvent s e).edges = s.edges ++ edgesOf [e] := by
  unfold applyEvent edgesOf
  split
  · rename_i hkind
    simp only [List.filterMap_cons, List.filterMap_nil, hkind]
    split <;> simp
  · rename_i hkind
    simp [modify_edges, hkind]
  · rename_i hkind
    simp [modify_edges, hkind]
  · rename_i hkind
    by_cases hempty : toolCallId e = "" <;> simp [hkind, hempty]
  · rename_i hkind
    by_cases hempty : toolCallId e = "" <;> simp [hkind, hempty, modify_edges]
  · rename_i _ _ _ hcalled _
    have hother : ¬ e.kind = .toolCall := hcalled
    simp [hother]

structure Reflects (events : List CanonEvent) (s : Replaying) : Prop where
  nodes : ∀ id, s.nodes id = expected id events
  startTimes : ∀ id, s.startTimes id = startOf id events
  edges : s.edges = edgesOf events

theorem Reflects.step {events : List CanonEvent} {s : Replaying}
    (h : Reflects events s) (e : CanonEvent) : Reflects (events ++ [e]) (applyEvent s e) where
  nodes := by
    intro id
    rw [applyEvent_nodes, h.nodes, h.startTimes, expected_snoc]
  startTimes := by
    intro id
    rw [applyEvent_startTimes, h.startTimes, startOf_snoc]
  edges := by rw [applyEvent_edges, h.edges, edgesOf_snoc]

theorem reflects_replay (events : List CanonEvent) :
    Reflects events (machine.run .empty events) := by
  induction events using List.reverseRecOn with
  | nil => exact ⟨fun _ => rfl, fun _ => rfl, rfl⟩
  | append_singleton events e ih =>
    rw [Machine.run_snoc]
    exact ih.step e

/-- Every node of the projection is the one its birth and the events after it make, and the
    edges are those of the tool calls. -/
theorem node_of_log (events : List CanonEvent) :
    (∀ id, (replayCapabilityGraph events).nodes id = expected id events) ∧
      (replayCapabilityGraph events).edges = edgesOf events :=
  ⟨(reflects_replay events).nodes, (reflects_replay events).edges⟩

end Canon.Tlog.CapabilityGraph
