import Canon.Lib.Fallible
import Canon.Graph.Invariant
import Canon.Ir.EmitTlog

/-! # The event log read back

    Replaying the events of a representation: nodes come in the order of the arena and
    call sites behind them, so a node keeps its number, and every edge finds its ends.
    All of this rests on labels that are pairwise distinct.  The number of a call site
    is its place cut to a `u32`.
-/

namespace Canon.Ir

open Canon.Graph

/-! ### What the validation says -/

theorem check_eq_ok {holds : Bool} {message : String} (h : check holds message = .ok ()) :
    holds = true := by
  unfold check at h
  split at h
  · assumption
  · cases h

/-- What is left of the validation for the log. -/
structure SealedIR.Valid (ir : SealedIR) : Prop where
  names : ∀ node ∈ ir.nodes, nodeBaseLabel ir.toCanonIR node.kind ≠ none
  ids : ∀ (i : Nat) (node : Node), ir.nodes[i]? = some node → node.id.toNat = i
  cols : ∀ g ∈ ir.writtenGraphs, ∀ dst ∈ g.colIdx, dst < ir.nodes.length
  rows : ∀ g ∈ ir.writtenGraphs, g.rowPtr.length = g.nodeData.length + 1
  nodeData : ∀ g ∈ ir.writtenGraphs, g.nodeData.length = ir.nodes.length
  edgeData : ∀ g ∈ ir.writtenGraphs, g.colIdx.length = g.edgeData.length

theorem validateNodes_ok {ir : CanonIR ItemKind} {seen : List CanonId} {labels : List Text}
    {nodes : List Node} (h : validateNodes ir seen labels nodes = .ok ()) :
    (nodes.map (·.id)).Nodup ∧ (∀ node ∈ nodes, node.id ∉ seen) ∧
      ∀ node ∈ nodes, nodeBaseLabel ir node.kind ≠ none := by
  induction nodes generalizing seen labels with
  | nil => simp
  | cons node nodes ih =>
    unfold validateNodes at h
    dsimp only at h
    split at h
    · cases h
    · rename_i hnew
      split at h
      · cases h
      · rename_i base hbase
        split at h
        · cases h
        · obtain ⟨hnodup, hseen, hnames⟩ := ih h
          refine ⟨?_, ?_, ?_⟩
          · rw [List.map_cons, List.nodup_cons]
            refine ⟨?_, hnodup⟩
            intro hmem
            obtain ⟨other, hother, hid⟩ := List.mem_map.mp hmem
            exact hseen other hother (by simp [hid])
          · intro other hother
            rcases List.mem_cons.mp hother with rfl | hother
            · exact hnew
            · intro hmem
              exact hseen other hother (List.mem_cons_of_mem _ hmem)
          · intro other hother
            rcases List.mem_cons.mp hother with rfl | hother
            · simp [hbase]
            · exact hnames other hother

/-- Distinct numbers that are positions as `u32` are positions. -/
theorem toNat_eq_of_ofNat {ids : List CanonId} (hnodup : ids.Nodup)
    (hids : ∀ (i : Nat) (id : CanonId), ids[i]? = some id → id = UInt32.ofNat i)
    {i : Nat} {id : CanonId} (hi : ids[i]? = some id) : id.toNat = i := by
  have hlt : i < ids.length := (List.getElem?_eq_some_iff.mp hi).1
  have hnum : id.toNat = i % 2 ^ 32 := by rw [hids i id hi, UInt32.toNat_ofNat']
  -- The position a cut number stands for has the same number.
  have hmod : i % 2 ^ 32 < ids.length := Nat.lt_of_le_of_lt (Nat.mod_le _ _) hlt
  have hget : ids[i % 2 ^ 32]? = some id := by
    rw [List.getElem?_eq_getElem hmod, Option.some.injEq]
    rw [hids _ _ (List.getElem?_eq_getElem hmod), hids i id hi, ← UInt32.toNat_inj,
      UInt32.toNat_ofNat', UInt32.toNat_ofNat', Nat.mod_mod]
  rw [hnum]
  exact nodup_iff_getElem?_inj.mp hnodup _ _ id hget hi

theorem exists_label_of_written {ir : SealedIR} {g : CsrGraph} (h : g ∈ ir.writtenGraphs) :
    ∃ label, (label, g) ∈ ir.graphs := by
  simp only [SealedIR.writtenGraphs, List.mem_cons, List.not_mem_nil, or_false] at h
  simp only [SealedIR.graphs, List.mem_cons, List.not_mem_nil, or_false, Prod.mk.injEq]
  rcases h with rfl | rfl | rfl | rfl | rfl | rfl | rfl | rfl
  · exact ⟨_, .inl ⟨rfl, rfl⟩⟩
  · exact ⟨_, .inr (.inl ⟨rfl, rfl⟩)⟩
  · exact ⟨_, .inr (.inr (.inr (.inl ⟨rfl, rfl⟩)))⟩
  · exact ⟨_, .inr (.inr (.inr (.inr (.inl ⟨rfl, rfl⟩))))⟩
  · exact ⟨_, .inr (.inr (.inl ⟨rfl, rfl⟩))⟩
  · exact ⟨_, .inr (.inr (.inr (.inr (.inr (.inl ⟨rfl, rfl⟩)))))⟩
  · exact ⟨_, .inr (.inr (.inr (.inr (.inr (.inr (.inl ⟨rfl, rfl⟩))))))⟩
  · exact ⟨_, .inr (.inr (.inr (.inr (.inr (.inr (.inr ⟨rfl, rfl⟩))))))⟩

theorem validateGraph_ok {label : String} {g : CsrGraph} {nodeCount : Nat}
    (h : validateGraph label g nodeCount = .ok ()) :
    g.rowPtr.length = g.nodeData.length + 1 ∧ g.nodeData.length = nodeCount ∧
      g.colIdx.length = g.edgeData.length := by
  obtain ⟨_, hrows, h⟩ := bind_eq_ok.mp h
  obtain ⟨_, hnodes, hedges⟩ := bind_eq_ok.mp h
  exact ⟨by simpa using check_eq_ok hrows, by simpa using check_eq_ok hnodes,
    by simpa using check_eq_ok hedges⟩

theorem valid_of_validateStructural {ir : SealedIR} (h : validateStructural ir = .ok ()) :
    ir.Valid := by
  obtain ⟨_, hunique, h⟩ := bind_eq_ok.mp h
  obtain ⟨_, hends, h⟩ := bind_eq_ok.mp h
  obtain ⟨_, hcsr, horder⟩ := bind_eq_ok.mp h
  obtain ⟨hnodup, -, hnames⟩ := validateNodes_ok hunique
  obtain ⟨_, hgraphs, -⟩ := bind_eq_ok.mp hends
  obtain ⟨_, -, h⟩ := bind_eq_ok.mp hcsr
  obtain ⟨_, -, hshapes⟩ := bind_eq_ok.mp h
  obtain ⟨_, hpos, -⟩ := bind_eq_ok.mp horder
  have hshape : ∀ g ∈ ir.writtenGraphs, g.rowPtr.length = g.nodeData.length + 1 ∧
      g.nodeData.length = ir.nodes.length ∧ g.colIdx.length = g.edgeData.length := by
    intro g hg
    obtain ⟨label, hmem⟩ := exists_label_of_written hg
    exact validateGraph_ok (forM_eq_ok hshapes _ hmem)
  have hids : ∀ (i : Nat) (id : CanonId), (ir.nodes.map (·.id))[i]? = some id →
      id = UInt32.ofNat i := by
    intro i id hi
    rw [List.getElem?_map, Option.map_eq_some_iff] at hi
    obtain ⟨node, hnode, rfl⟩ := hi
    have hmem : (node, i) ∈ ir.nodes.zipIdx := List.mem_zipIdx_iff_getElem?.mpr hnode
    simpa using check_eq_ok (forM_eq_ok hpos _ hmem)
  exact {
    names := hnames
    ids := fun i node hnode => toNat_eq_of_ofNat hnodup hids (by simp [hnode])
    cols := by
      intro g hg dst hdst
      obtain ⟨label, hmem⟩ := exists_label_of_written hg
      have hall := check_eq_ok (forM_eq_ok hgraphs _ hmem)
      simpa using List.all_eq_true.mp hall dst hdst
    rows := fun g hg => (hshape g hg).1
    nodeData := fun g hg => (hshape g hg).2.1
    edgeData := fun g hg => (hshape g hg).2.2 }

/-! ### Replaying -/

/-- The ends and the kind of an edge. -/
def triple (e : CodeGraphEdge) : Nat × Nat × String := (e.src, e.dst, e.kind)

/-- What a projection shows of its nodes and edges; a label leads to the number of its
    node. -/
structure Shows (st : GraphState) (labels kinds : List String)
    (edges : List (Nat × Nat × String)) : Prop where
  index : ∀ label id, st.symbolToId label = some id ↔
    label ≠ "" ∧ ∃ i, labels[i]? = some label ∧ id = asU32 i
  labels : st.graph.nodes.map (·.symbol) = labels
  kinds : st.graph.nodes.map (·.kind) = kinds
  edges : st.graph.edges.map triple = edges

/-- The events one after the other, whatever the caller chose for sessions. -/
def replay (clear : Bool) (st : GraphState) (events : List RustcEvent) : GraphState :=
  graphMachine.run st (events.map fun event => (event, clear))

section Replay

variable {clear : Bool} {st : GraphState} {labels kinds : List String}
  {edges : List (Nat × Nat × String)}

@[simp] theorem replay_nil : replay clear st [] = st := rfl

theorem replay_cons (event : RustcEvent) (events : List RustcEvent) :
    replay clear st (event :: events) = replay clear (graphMachine.step st (event, clear)) events :=
  rfl

theorem replay_append (as bs : List RustcEvent) :
    replay clear st (as ++ bs) = replay clear (replay clear st as) bs := by
  rw [replay, List.map_append, Machine.run_append]
  rfl

theorem shows_empty : Shows .empty [] [] [] := by
  refine ⟨?_, rfl, rfl, rfl⟩
  simp [GraphState.empty]

theorem Shows.symbolToId_of_getElem? (h : Shows st labels kinds edges) {label : String} {i : Nat}
    (hne : label ≠ "") (hi : labels[i]? = some label) : st.symbolToId label = some (asU32 i) :=
  (h.index label _).mpr ⟨hne, i, hi, rfl⟩

theorem Shows.node (h : Shows st labels kinds edges) {label kind : String} (hnew : label ∉ labels)
    (hlabel : label ≠ "") (hkind : kind ≠ "") (file : String) (line : Nat) :
    Shows (graphMachine.step st (.nodeDefined label kind file line, clear)) (labels ++ [label])
      (kinds ++ [kind]) edges := by
  have hfind : st.findNode label = none := by
    cases hfound : st.symbolToId label with
    | none => simp [GraphState.findNode, hfound]
    | some id =>
      obtain ⟨-, i, hi, -⟩ := (h.index label id).mp hfound
      exact absurd (List.mem_of_getElem? hi) hnew
  have hstep : graphMachine.step st (.nodeDefined label kind file line, clear) =
      pushNode st label kind file line := by
    show (applyNode st label kind file line).2 = _
    simp [applyNode, hfind, hlabel, hkind]
  have hlength : st.graph.nodes.length = labels.length := by
    rw [← h.labels, List.length_map]
  rw [hstep]
  refine ⟨?_, ?_, ?_, h.edges⟩
  · intro other id
    simp only [pushNode, String.isEmpty_iff, hlabel, if_false, hlength]
    rw [FMap.insert_apply]
    by_cases hother : other = label
    -- The label is new, so it only stands at the end.
    · subst hother
      rw [if_pos rfl]
      constructor
      · intro hid
        exact ⟨hlabel, labels.length, by simp, (Option.some.inj hid).symm⟩
      · rintro ⟨-, i, hi, rfl⟩
        have hlast : i = labels.length := by
          by_contra hne
          have hlt := (List.getElem?_eq_some_iff.mp hi).1
          rw [List.length_append, List.length_singleton] at hlt
          rw [List.getElem?_append_left (by omega)] at hi
          exact hnew (List.mem_of_getElem? hi)
        rw [hlast]
    · rw [if_neg hother, h.index other id]
      have hold : ∀ i : Nat, (labels ++ [label])[i]? = some other ↔ labels[i]? = some other := by
        intro i
        by_cases hi : i < labels.length
        · rw [List.getElem?_append_left hi]
        · have hge : labels.length ≤ i := Nat.not_lt.mp hi
          rw [List.getElem?_append_right hge, List.getElem?_eq_none hge]
          simp [List.getElem?_singleton, Ne.symm hother]
      simp only [hold]
  · simp [pushNode, h.labels]
  · simp [pushNode, h.kinds]

theorem Shows.edge (h : Shows st labels kinds edges) (src dst kind : String) :
    Shows (graphMachine.step st (.edgeDefined src dst kind, clear)) labels kinds
      (edges ++ ((st.symbolToId src).bind fun s => (st.symbolToId dst).map fun d =>
        (s, d, kind)).toList) := by
  cases hsrc : st.symbolToId src with
  | none =>
    have hstep : graphMachine.step st (.edgeDefined src dst kind, clear) = st := by
      simp [graphMachine, applyRustcEventToGraph, GraphState.ends, hsrc]
    rw [hstep]
    simpa using h
  | some s =>
    cases hdst : st.symbolToId dst with
    | none =>
      have hstep : graphMachine.step st (.edgeDefined src dst kind, clear) = st := by
        simp [graphMachine, applyRustcEventToGraph, GraphState.ends, hsrc, hdst]
      rw [hstep]
      simpa using h
    | some d =>
      have hstep : graphMachine.step st (.edgeDefined src dst kind, clear) =
          st.withEdges (st.graph.edges ++ [{ src := s, dst := d, kind := kind }]) := by
        simp [graphMachine, applyRustcEventToGraph, GraphState.ends, hsrc, hdst]
      rw [hstep]
      refine ⟨h.index, h.labels, h.kinds, ?_⟩
      simp [GraphState.withEdges, ← h.edges, triple]

/-- Events that say nothing about nodes or edges. -/
def Closing : RustcEvent → Prop
  | .fileSeen _ => True
  | .callsiteObserved => True
  | .symbolDefined => True
  | .spanDefined => True
  | _ => False

theorem Shows.closing (h : Shows st labels kinds edges) {event : RustcEvent}
    (hevent : Closing event) : Shows (graphMachine.step st (event, clear)) labels kinds edges := by
  cases event with
  | fileSeen path =>
    simp only [graphMachine, applyRustcEventToGraph]
    split
    · exact h
    · exact ⟨h.index, h.labels, h.kinds, h.edges⟩
  | callsiteObserved => exact h
  | symbolDefined => exact h
  | spanDefined => exact h
  | _ => exact hevent.elim

theorem Shows.closings (h : Shows st labels kinds edges) {events : List RustcEvent}
    (hevents : ∀ event ∈ events, Closing event) :
    Shows (replay clear st events) labels kinds edges := by
  induction events generalizing st with
  | nil => exact h
  | cons event events ih =>
    rw [replay_cons]
    exact ih (h.closing (hevents event (by simp))) (fun e he => hevents e (by simp [he]))

end Replay

/-! ### Places -/

/-- The place of a node in the arena. -/
def place (count : Nat) (id : CanonId) : Option Nat :=
  if id.toNat < count then some id.toNat else none

def placeEdge (count : Nat) (e : IdEdge) : Option (Nat × Nat × String) :=
  (place count e.1).bind fun src => (place count e.2.1).map fun dst =>
    (src, dst, edgeKindStr e.2.2)

theorem nodeLabel_eq_empty {label : Text} : nodeLabel label = "" ↔ label = [] := by
  rw [nodeLabel, ← String.toList_inj]
  simp

theorem nodeLabel_inj {a b : Text} : nodeLabel a = nodeLabel b ↔ a = b := by
  rw [nodeLabel, nodeLabel, ← String.toList_inj]
  simp

section Places

variable (clear : Bool) {st : GraphState} {labels : List Text} {sites kinds : List String}
  {edges : List (Nat × Nat × String)}

/-- A label leads to the place of its node. -/
theorem Shows.symbolToId_labelFor (h : Shows st (labels.map nodeLabel ++ sites) kinds edges)
    (hlabels : [] ∉ labels) (id : CanonId) :
    st.symbolToId (labelFor labels id) = place labels.length id := by
  unfold place
  split
  · rename_i hlt
    have hget : labels[id.toNat]? = some labels[id.toNat] := List.getElem?_eq_getElem hlt
    -- A number of the arena is never cut.
    have hnumber : asU32 id.toNat = id.toNat := asU32_of_lt id.toNat_lt
    rw [labelFor, hget, Option.getD_some]
    refine (h.symbolToId_of_getElem? (i := id.toNat) ?_ ?_).trans (by rw [hnumber])
    · rw [Ne, nodeLabel_eq_empty]
      intro hempty
      exact hlabels (hempty ▸ List.getElem_mem hlt)
    · rw [List.getElem?_append_left (by simpa using hlt), List.getElem?_map, hget]
      rfl
  · rename_i hge
    rw [labelFor, List.getElem?_eq_none (Nat.not_lt.mp hge)]
    show st.symbolToId "" = none
    cases hid : st.symbolToId "" with
    | none => rfl
    | some n => exact absurd rfl ((h.index "" n).mp hid).1

theorem Shows.edgeEvents (h : Shows st (labels.map nodeLabel ++ sites) kinds edges)
    (hlabels : [] ∉ labels) (es : List IdEdge) :
    Shows (replay clear st (es.map (edgeEvent labels))) (labels.map nodeLabel ++ sites) kinds
      (edges ++ es.filterMap (placeEdge labels.length)) := by
  induction es generalizing st edges with
  | nil => simpa using h
  | cons e es ih =>
    have hedge : Shows (graphMachine.step st (edgeEvent labels e, clear)) _ kinds _ :=
      h.edge (labelFor labels e.1) (labelFor labels e.2.1) (edgeKindStr e.2.2)
    rw [h.symbolToId_labelFor hlabels, h.symbolToId_labelFor hlabels] at hedge
    have hrest := ih hedge
    rw [List.append_assoc] at hrest
    have hcons : (e :: es).filterMap (placeEdge labels.length) =
        (placeEdge labels.length e).toList ++ es.filterMap (placeEdge labels.length) := by
      cases hplace : placeEdge labels.length e <;> simp [hplace]
    rw [hcons]
    exact hrest

end Places

/-! ### Nodes and call sites -/

theorem nodeKindStr_ne_empty (kind : NodeKind) : nodeKindStr kind ≠ "" := by
  cases kind <;> decide

def kindStr (node : Node) : String := nodeKindStr (canonNodeKind node.kind)

section Phases

variable (clear : Bool) {edges : List (Nat × Nat × String)}

theorem Shows.nodeEvents (ir : CanonIR ItemKind) (labels : List Text)
    (spans : Option (FMap Text (List SpanInfo))) {st : GraphState} {before kinds : List String}
    {nodes : List Node} (cursor : FMap Text Nat) (files : List Text)
    (h : Shows st before kinds edges)
    (hnodup : (before ++ nodes.map fun node => labelFor labels node.id).Nodup)
    (hlabels : ∀ node ∈ nodes, labelFor labels node.id ≠ "") :
    Shows (replay clear st (nodeEvents ir labels spans cursor files nodes).1)
      (before ++ nodes.map fun node => labelFor labels node.id) (kinds ++ nodes.map kindStr)
      edges := by
  induction nodes generalizing st before kinds cursor files with
  | nil => simpa [Canon.Ir.nodeEvents] using h
  | cons node nodes ih =>
    rw [List.map_cons, List.append_cons] at hnodup
    rw [List.map_cons, List.map_cons, List.append_cons, List.append_cons kinds]
    have hnew : labelFor labels node.id ∉ before := by
      intro hmem
      rw [List.append_assoc, List.nodup_append] at hnodup
      exact hnodup.2.2 _ hmem _ (by simp) rfl
    unfold Canon.Ir.nodeEvents
    dsimp only
    rw [replay_cons]
    apply ih
    · exact h.node hnew (hlabels node (by simp)) (nodeKindStr_ne_empty _) _ _
    · exact hnodup
    · intro other hother
      exact hlabels other (by simp [hother])

/-- The numbers of the call sites, in the order of the calls. -/
def siteNumbers : FMap CanonId UInt32 → List (CanonId × CanonId) → List (CanonId × UInt32)
  | _, [] => []
  | idxByFn, (src, _) :: calls =>
    let idx := (idxByFn src).getD 0
    (src, idx) :: siteNumbers (idxByFn.insert src (idx + 1)) calls

def siteLabels (idxByFn : FMap CanonId UInt32) (calls : List (CanonId × CanonId)) : List String :=
  (siteNumbers idxByFn calls).map fun site => nodeLabel (callsiteLabel site.1 site.2)

/-- The edges at a call site: from the first block of the caller and to the callee. -/
def edgesOfSite (ir : SealedIR) (site : Nat) (call : CanonId × CanonId) :
    List (Nat × Nat × String) :=
  let count := ir.nodes.length
  (((ir.fnFirstBlock call.1).bind (place count)).toList.map fun block =>
    (block, site, edgeKindStr .hasBlock)) ++
      ((place count call.2).toList.map fun dst => (site, dst, edgeKindStr .call))

theorem callsiteLabel_ne_nil (src : CanonId) (idx : UInt32) : callsiteLabel src idx ≠ [] :=
  List.append_ne_nil_of_left_ne_nil (by decide) _

/-- The node that came last. -/
theorem Shows.symbolToId_last {st : GraphState} {labels kinds : List String} {label : String}
    (h : Shows st (labels ++ [label]) kinds edges) (hlabel : label ≠ "") :
    st.symbolToId label = some (asU32 labels.length) :=
  h.symbolToId_of_getElem? hlabel (by simp)

/-- The events of one call site. -/
def siteEvents (ir : SealedIR) (labels : List Text) (label : String) (call : CanonId × CanonId) :
    List RustcEvent :=
  .nodeDefined label (nodeKindStr .callSite) "" 0 ::
    (((ir.fnFirstBlock call.1).toList.map fun block =>
      RustcEvent.edgeDefined (labelFor labels block) label (edgeKindStr .hasBlock)) ++
        [.edgeDefined label (labelFor labels call.2) (edgeKindStr .call)])

theorem callsiteEvents_cons (ir : SealedIR) (labels : List Text)
    (idxByFn : FMap CanonId UInt32) (call : CanonId × CanonId)
    (calls : List (CanonId × CanonId)) :
    callsiteEvents ir labels idxByFn (call :: calls) =
      siteEvents ir labels (nodeLabel (callsiteLabel call.1 ((idxByFn call.1).getD 0))) call ++
        callsiteEvents ir labels (idxByFn.insert call.1 ((idxByFn call.1).getD 0 + 1)) calls := by
  simp [callsiteEvents, siteEvents]

theorem Shows.siteEvents (ir : SealedIR) {labels : List Text} (hlabels : [] ∉ labels)
    (hcount : labels.length = ir.nodes.length) {st : GraphState} {sites kinds : List String}
    {label : String} (h : Shows st (labels.map nodeLabel ++ sites) kinds edges)
    (hnew : label ∉ labels.map nodeLabel ++ sites) (hlabel : label ≠ "")
    (call : CanonId × CanonId) :
    Shows (replay clear st (siteEvents ir labels label call))
      (labels.map nodeLabel ++ (sites ++ [label])) (kinds ++ [nodeKindStr .callSite])
      (edges ++ edgesOfSite ir (asU32 (ir.nodes.length + sites.length)) call) := by
  have hsite : Shows (graphMachine.step st (.nodeDefined label (nodeKindStr .callSite) "" 0, clear))
      (labels.map nodeLabel ++ (sites ++ [label])) (kinds ++ [nodeKindStr .callSite]) edges := by
    rw [← List.append_assoc]
    exact h.node hnew hlabel (nodeKindStr_ne_empty _) _ _
  rw [Canon.Ir.siteEvents, replay_cons]
  generalize graphMachine.step st _ = st at hsite
  have hlast : ∀ {st edges}, Shows st (labels.map nodeLabel ++ (sites ++ [label]))
      (kinds ++ [nodeKindStr .callSite]) edges →
        st.symbolToId label = some (asU32 (ir.nodes.length + sites.length)) := by
    intro st edges hst
    rw [← List.append_assoc] at hst
    rw [hst.symbolToId_last hlabel, List.length_append, List.length_map, hcount]
  -- The edge from the block, if the caller has one.
  have hblock : Shows (replay clear st ((ir.fnFirstBlock call.1).toList.map fun block =>
      RustcEvent.edgeDefined (labelFor labels block) label (edgeKindStr .hasBlock)))
      (labels.map nodeLabel ++ (sites ++ [label])) (kinds ++ [nodeKindStr .callSite])
      (edges ++ ((ir.fnFirstBlock call.1).bind (place ir.nodes.length)).toList.map fun block =>
        (block, asU32 (ir.nodes.length + sites.length), edgeKindStr .hasBlock)) := by
    cases hfirst : ir.fnFirstBlock call.1 with
    | none => simpa using hsite
    | some block =>
      have hedge : Shows (graphMachine.step st (.edgeDefined (labelFor labels block) label
          (edgeKindStr .hasBlock), clear)) _ _ _ := hsite.edge _ _ _
      rw [hsite.symbolToId_labelFor hlabels, hlast hsite, hcount] at hedge
      cases hplace : place ir.nodes.length block <;> simpa [hplace, replay_cons] using hedge
  rw [replay_append]
  generalize replay clear st _ = st at hblock
  have hedge : Shows (graphMachine.step st (.edgeDefined label (labelFor labels call.2)
      (edgeKindStr .call), clear)) _ _ _ := hblock.edge _ _ _
  rw [hblock.symbolToId_labelFor hlabels, hlast hblock, hcount] at hedge
  unfold edgesOfSite
  cases hplace : place ir.nodes.length call.2 <;> simpa [hplace, replay_cons] using hedge

theorem Shows.callsiteEvents (ir : SealedIR) {labels : List Text} (hlabels : [] ∉ labels)
    (hcount : labels.length = ir.nodes.length) {st : GraphState} {sites kinds : List String}
    {calls : List (CanonId × CanonId)} (idxByFn : FMap CanonId UInt32)
    (h : Shows st (labels.map nodeLabel ++ sites) kinds edges)
    (hnodup : (labels.map nodeLabel ++ (sites ++ siteLabels idxByFn calls)).Nodup) :
    Shows (replay clear st (callsiteEvents ir labels idxByFn calls))
      (labels.map nodeLabel ++ (sites ++ siteLabels idxByFn calls))
      (kinds ++ List.replicate calls.length (nodeKindStr .callSite))
      (edges ++ (calls.zipIdx sites.length).flatMap fun e =>
        edgesOfSite ir (asU32 (ir.nodes.length + e.2)) e.1) := by
  induction calls generalizing st sites kinds edges idxByFn with
  | nil => simpa [Canon.Ir.callsiteEvents, siteLabels, siteNumbers] using h
  | cons call calls ih =>
    have hcons : siteLabels idxByFn (call :: calls) =
        nodeLabel (callsiteLabel call.1 ((idxByFn call.1).getD 0)) ::
          siteLabels (idxByFn.insert call.1 ((idxByFn call.1).getD 0 + 1)) calls := rfl
    have hne : nodeLabel (callsiteLabel call.1 ((idxByFn call.1).getD 0)) ≠ "" := by
      rw [Ne, nodeLabel_eq_empty]
      exact callsiteLabel_ne_nil _ _
    rw [hcons, List.append_cons sites] at hnodup ⊢
    rw [callsiteEvents_cons, replay_append]
    generalize nodeLabel (callsiteLabel call.1 ((idxByFn call.1).getD 0)) = label at *
    have hnew : label ∉ labels.map nodeLabel ++ sites := by
      intro hmem
      rw [← List.append_assoc, ← List.append_assoc, List.append_assoc _ [label],
        List.nodup_append] at hnodup
      exact hnodup.2.2 _ hmem _ (by simp) rfl
    have hsite := h.siteEvents clear ir hlabels hcount hnew hne call
    have hrest := ih _ hsite hnodup
    simpa [List.replicate_succ, List.zipIdx_cons] using hrest

end Phases

/-! ### Rows of edges -/

/-- No row ends behind the last edge. -/
def CsrGraph.RowsInRange (g : CsrGraph) : Prop :=
  ∀ (i start stop : Nat), g.rowPtr[i]? = some start → g.rowPtr[i + 1]? = some stop → start < stop →
    stop ≤ g.edgeData.length

variable {g : CsrGraph}

theorem row?_isSome_iff (hedges : g.colIdx.length = g.edgeData.length) {i : Nat}
    (hi : i + 1 < g.rowPtr.length) (src : CanonId) :
    (g.row? i src).isSome ↔ ∀ start stop, g.rowPtr[i]? = some start →
      g.rowPtr[i + 1]? = some stop → start < stop → stop ≤ g.edgeData.length := by
  have hstart : g.rowPtr[i]? = some g.rowPtr[i] := List.getElem?_eq_getElem (by omega)
  have hstop : g.rowPtr[i + 1]? = some g.rowPtr[i + 1] := List.getElem?_eq_getElem hi
  have hedge : ∀ e, ((g.colIdx[e]?).bind fun dstIdx => (g.edgeData[e]?).bind fun kind =>
      some (CsrEdge.mk i src dstIdx kind)).isSome ↔ e < g.edgeData.length := by
    intro e
    by_cases he : e < g.edgeData.length
    · simp [he, hedges]
    · simp [he, hedges]
  unfold CsrGraph.row?
  simp only [hstart, hstop, Option.bind_eq_bind, Option.bind_some, Option.pure_def,
    mapM_isSome_iff, hedge, Option.some.injEq, List.mem_range'_1]
  generalize g.rowPtr[i] = first
  generalize g.rowPtr[i + 1] = last
  constructor
  · rintro h start stop rfl rfl hlt
    have hlast := h (last - 1) (by omega)
    omega
  · intro h e he
    have hlast := h first last rfl rfl (by omega)
    omega

/-- All edges can be read exactly if no row ends behind the last edge. -/
theorem edges?_isSome_iff (hrows : g.rowPtr.length = g.nodeData.length + 1)
    (hedges : g.colIdx.length = g.edgeData.length) : g.edges?.isSome ↔ g.RowsInRange := by
  unfold CsrGraph.edges?
  rw [Option.isSome_map, mapM_isSome_iff]
  constructor
  · intro h i start stop hstart hstop
    have hi : i + 1 < g.rowPtr.length := (List.getElem?_eq_some_iff.mp hstop).1
    have hsrc : i < g.nodeData.length := by omega
    have hmem : (g.nodeData[i], i) ∈ g.nodeData.zipIdx :=
      List.mem_zipIdx_iff_getElem?.mpr (List.getElem?_eq_getElem hsrc)
    exact (row?_isSome_iff hedges hi _).mp (h _ hmem) start stop hstart hstop
  · rintro h ⟨src, i⟩ hmem
    have hi : i < g.nodeData.length :=
      (List.getElem?_eq_some_iff.mp (List.mem_zipIdx_iff_getElem?.mp hmem)).1
    exact (row?_isSome_iff hedges (by omega) _).mpr (h i)

theorem dstIdx_mem_of_row? {i : Nat} {src : CanonId} {row : List CsrEdge}
    (h : g.row? i src = some row) {e : CsrEdge} (he : e ∈ row) : e.dstIdx ∈ g.colIdx := by
  unfold CsrGraph.row? at h
  simp only [Option.bind_eq_bind, Option.bind_eq_some_iff] at h
  obtain ⟨start, -, stop, -, h⟩ := h
  obtain ⟨edgeIdx, -, hedge⟩ := exists_of_mem_mapM h he
  simp only [Option.bind_eq_some_iff, Option.pure_def, Option.some.injEq] at hedge
  obtain ⟨dstIdx, hdst, kind, -, rfl⟩ := hedge
  exact List.mem_of_getElem? hdst

theorem dstIdx_mem_of_edges? {edges : List CsrEdge} (h : g.edges? = some edges) {e : CsrEdge}
    (he : e ∈ edges) : e.dstIdx ∈ g.colIdx := by
  obtain ⟨rows, hrows, rfl⟩ := Option.map_eq_some_iff.mp h
  obtain ⟨row, hrow, he⟩ := List.mem_flatten.mp he
  obtain ⟨x, -, hx⟩ := exists_of_mem_mapM hrows hrow
  exact dstIdx_mem_of_row? hx he

/-- The edges of a graph between numbers of nodes. -/
def graphEdges (g : CsrGraph) : List IdEdge :=
  (g.edges?.getD []).filterMap fun e =>
    (g.nodeData[e.dstIdx]?).map fun dst => (e.src, dst, canonEdgeKind e.kind)

theorem emitIrEdges_eq {labels : List Text} (hedges : g.edges?.isSome)
    (hcols : ∀ dst ∈ g.colIdx, dst < g.nodeData.length) :
    emitIrEdges labels g = .ok ((graphEdges g).map (edgeEvent labels)) := by
  obtain ⟨edges, hedges⟩ := Option.isSome_iff_exists.mp hedges
  have hdst : ∀ e ∈ edges, g.nodeData[e.dstIdx]? ≠ none := by
    intro e he
    have hlt := hcols _ (dstIdx_mem_of_edges? hedges he)
    simpa using hlt
  unfold emitIrEdges graphEdges
  rw [hedges]
  dsimp only [Option.getD_some]
  clear hedges
  induction edges with
  | nil => rfl
  | cons e edges ih =>
    obtain ⟨dst, hget⟩ := Option.ne_none_iff_exists'.mp (hdst e (by simp))
    rw [List.mapM_cons, ih (fun e' he' => hdst e' (by simp [he'])), hget]
    simp [hget, bind, Except.bind, pure, Except.pure]

theorem edges?_isSome_of_emitIrEdges {labels : List Text} {events : List RustcEvent}
    (h : emitIrEdges labels g = .ok events) : g.edges?.isSome := by
  unfold emitIrEdges at h
  split at h
  · cases h
  · rename_i edges hedges
    rw [hedges]
    rfl

end Canon.Ir
