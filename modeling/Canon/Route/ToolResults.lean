import Canon.Lib.Maps
import Canon.Loop.Events

/-! # Tool results in the route context

    What the router's context does with the result of a tool call: it counts the
    result, notes it in the causal graph and in the list of recent results, and
    writes a journal line with the output, cut to 512 bytes.
-/

namespace Canon.Route

open Canon.Loop

structure JournalLine where
  lane : Text
  summary : Text

inductive CausalNodeKind where
  | llmCall (requestId : Text) (role agentId : Option Text)
  | loopPlanned (actionId actionKind : Text)
  | toolCall (toolCallId kind : Text)
  | toolResult (toolResultId : Text) (success : Bool)
  | loopActed (actionId : Option Text) (success : Bool)
  | loopVerified (passed : Bool)
  | subTaskResult (dispatchId agentId : Text) (success : Bool)

structure CausalEdge where
  fromNode : Text
  toNode : Text
  kind : Text

structure CausalGraph where
  nodes : FMap Text CausalNodeKind
  edges : List CausalEdge

namespace CausalGraph

def upsertNode (g : CausalGraph) (key : Text) (kind : CausalNodeKind) : CausalGraph :=
  if (g.nodes key).isSome then g else { g with nodes := g.nodes.insert key kind }

def recordToolResult (g : CausalGraph) (tr : ToolResult) : CausalGraph :=
  let g := g.upsertNode tr.toolResultId (.toolResult tr.toolResultId tr.success)
  { g with edges := g.edges ++ [⟨tr.toolCallId, tr.toolResultId, "resolved"⟩] }

end CausalGraph

/-- The fields of the context that a tool result reads or changes. -/
structure RouteContext where
  pendingToolResultIds : List Text
  batchResultCount : Nat
  batchAnyFailed : Bool
  batchIsPlanOnly : Bool
  batchSettled : Option (Nat × Bool)
  causalGraph : CausalGraph
  recentToolResults : List Json
  /-- The action kind and the planning request of an action. -/
  actionMeta : FMap Text (Text × Option Text)
  journal : List JournalLine

namespace RouteContext

def empty : RouteContext :=
  ⟨[], 0, false, false, none, ⟨FMap.empty, []⟩, [], FMap.empty, []⟩

def pushJournal (c : RouteContext) (lane summary : Text) : RouteContext :=
  let journal := c.journal ++ [⟨lane, summary⟩]
  { c with journal := journal.drop (journal.length - 32) }

/-- The output of a tool as the journal shows it; nothing when the cut is inside a
    character. -/
def outputText (jsonToString : Json → Text) (output : Json) : Option Text :=
  let text := jsonToString output
  if Text.byteLen text > 512 then
    (Text.takeBytes? 512 text).map (· ++ "...<truncated>".toList)
  else some text

/-- The handling of a tool result; nothing when it panics. -/
def onToolResult (jsonToString : Json → Text) (c : RouteContext) (tr : ToolResult) :
    Option RouteContext :=
  let c := { c with
    pendingToolResultIds := c.pendingToolResultIds.filter (· ≠ tr.toolCallId)
    batchResultCount := c.batchResultCount + 1
    batchAnyFailed := c.batchAnyFailed || !tr.success
    causalGraph := c.causalGraph.recordToolResult tr }
  (outputText jsonToString tr.output).map fun outputText =>
    let (actionKind, llmRequestId) := (c.actionMeta tr.nodeId).getD ([], none)
    let results := c.recentToolResults ++
      [.obj [("node_id", jsonText tr.nodeId), ("kind", jsonText tr.kind),
        ("action", jsonText actionKind), ("llm_request_id", jsonOption llmRequestId),
        ("success", .bool tr.success), ("request_id", jsonText tr.requestId),
        ("tool_call_id", jsonText tr.toolCallId), ("tool_result_id", jsonText tr.toolResultId),
        ("output", tr.output)]]
    let c := { c with
      recentToolResults := if results.length > 8 then results.tail else results
      batchSettled :=
        if c.batchIsPlanOnly then c.batchSettled else some (c.batchResultCount, c.batchAnyFailed) }
    c.pushJournal "tool"
      ("tool_result kind=".toList ++ tr.kind ++ " success=".toList ++ Text.ofBool tr.success ++
        " tool_call_id=".toList ++ tr.toolCallId ++ " tool_result_id=".toList ++
        tr.toolResultId ++ " output=".toList ++ outputText)

end RouteContext

end Canon.Route
