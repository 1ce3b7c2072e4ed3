import Canon.Ir.EmitReplay

/-! # When the event log is faithful

    The projection that the events of a representation lead to has one node for each node
    and each call and exactly the images of the edges, if no label stands for two of them.
    What can go wrong is a name that stands alone and reads like a generated label, a row
    of edges that ends behind the last edge, and a call site whose number is cut.
-/

namespace Canon.Ir

open Canon.Graph

/-! ### Labels of call sites -/

theorem callsiteLabel_inj {src src' : CanonId} {idx idx' : UInt32}
    (h : callsiteLabel src idx = callsiteLabel src' idx') : src = src' ∧ idx = idx' := by
  have hrest := List.append_cancel_left h
  have hsplit : ∀ (a : CanonId) (k : UInt32),
      Text.ofNat a.toNat ++ ("::".toList ++ Text.ofNat k.toNat) =
        (Text.ofNat a.toNat ++ [':']) ++ ':' :: Text.ofNat k.toNat := by
    intro a k
    rw [List.append_assoc]
    rfl
  rw [hsplit, hsplit] at hrest
  obtain ⟨hsrc, hidx⟩ := Text.append_ofNat_inj (by decide) hrest
  have hsrc := Text.ofNat_injective (List.append_cancel_right hsrc)
  exact ⟨UInt32.toNat_inj.mp hsrc, UInt32.toNat_inj.mp hidx⟩

theorem hash_not_mem_callsiteLabel (src : CanonId) (idx : UInt32) :
    '#' ∉ callsiteLabel src idx := by
  have hnum : ∀ n, '#' ∉ Text.ofNat n := by
    intro n hmem
    exact absurd (Text.isDigit_of_mem_ofNat hmem) (by decide)
  intro h
  rcases List.mem_append.mp h with h | h
  · exact absurd h (by decide)
  · rcases List.mem_append.mp h with h | h
    · exact hnum _ h
    · rcases List.mem_append.mp h with h | h
      · exact absurd h (by decide)
      · exact hnum _ h

theorem hash_mem_of_generated {names : List Text} {label : Text} (h : Generated names label) :
    '#' ∈ label := by
  obtain ⟨i, name, -, ⟨-, rfl⟩ | ⟨-, -, rfl⟩⟩ := h
  · simp
  · simp

/-- The callers, one for each call. -/
def callers (calls : List (CanonId × CanonId)) : List CanonId := calls.map (·.1)

/-- A call site has the number of calls its caller made before. -/
theorem siteNumbers_getElem? (calls : List (CanonId × CanonId)) (idxByFn : FMap CanonId UInt32)
    (j : Nat) :
    (siteNumbers idxByFn calls)[j]? = ((callers calls)[j]?).map fun src =>
      (src, (idxByFn src).getD 0 + UInt32.ofNat (((callers calls).take j).count src)) := by
  induction calls generalizing idxByFn j with
  | nil => simp [siteNumbers, callers]
  | cons call calls ih =>
    obtain ⟨src, dst⟩ := call
    cases j with
    | zero => simp [siteNumbers, callers]
    | succ j =>
      have hcons : callers ((src, dst) :: calls) = src :: callers calls := rfl
      rw [siteNumbers, hcons, List.getElem?_cons_succ, List.getElem?_cons_succ, ih]
      congr 1
      funext other
      by_cases hsrc : other = src
      · subst hsrc
        simp only [FMap.insert_self, Option.getD_some, List.take_succ_cons, List.count_cons_self,
          UInt32.ofNat_add, Prod.mk.injEq, true_and, UInt32.add_assoc]
        rw [UInt32.add_comm 1]
        rfl
      · simp [hsrc, Ne.symm hsrc]

theorem siteNumbers_empty_getElem? (calls : List (CanonId × CanonId)) (j : Nat) :
    (siteNumbers FMap.empty calls)[j]? = ((callers calls)[j]?).map fun src =>
      (src, UInt32.ofNat (((callers calls).take j).count src)) := by
  rw [siteNumbers_getElem?]
  congr 1
  funext src
  simp [FMap.empty]

section Count

variable {α : Type} [BEq α] [LawfulBEq α]

/-- An element that occurs more than `m` times occurs with `m` before it. -/
theorem exists_count_take_eq {l : List α} {a : α} {m : Nat} (h : m < l.count a) :
    ∃ j : Nat, l[j]? = some a ∧ (l.take j).count a = m := by
  induction l generalizing m with
  | nil => simp at h
  | cons b l ih =>
    by_cases hb : b = a
    · subst hb
      cases m with
      | zero => exact ⟨0, by simp, by simp⟩
      | succ m =>
        rw [List.count_cons_self] at h
        obtain ⟨j, hj, hcount⟩ := ih (m := m) (by omega)
        exact ⟨j + 1, by simpa using hj, by simp [hcount]⟩
    · rw [List.count_cons_of_ne hb] at h
      obtain ⟨j, hj, hcount⟩ := ih h
      exact ⟨j + 1, by simpa using hj, by simp [List.count_cons_of_ne hb, hcount]⟩

theorem count_take_lt {l : List α} {a : α} {j : Nat} (h : l[j]? = some a) {k : Nat} (hk : j < k) :
    (l.take j).count a < (l.take k).count a := by
  obtain ⟨hlt, hget⟩ := List.getElem?_eq_some_iff.mp h
  have hnext : (l.take (j + 1)).count a = (l.take j).count a + 1 := by
    rw [List.take_add_one, h]
    simp
  have hsub : (l.take (j + 1)).count a ≤ (l.take k).count a :=
    (List.take_sublist_take_left hk).count_le a
  omega

end Count

/-- Call sites are told apart exactly if no function makes more than `2 ^ 32` calls. -/
theorem nodup_siteNumbers_iff (calls : List (CanonId × CanonId)) :
    (siteNumbers FMap.empty calls).Nodup ↔ ∀ src, (callers calls).count src ≤ 2 ^ 32 := by
  rw [nodup_iff_getElem?_inj]
  constructor
  · intro hinj src
    by_contra hmany
    obtain ⟨i, hi, hfirst⟩ := exists_count_take_eq (m := 0) (a := src) (l := callers calls)
      (by omega)
    obtain ⟨j, hj, hlast⟩ := exists_count_take_eq (m := 2 ^ 32) (a := src) (l := callers calls)
      (by omega)
    have hsame : i = j := by
      apply hinj i j (src, 0)
      · rw [siteNumbers_empty_getElem?, hi, Option.map_some, hfirst]
        rfl
      · rw [siteNumbers_empty_getElem?, hj, Option.map_some, hlast]
        rfl
    rw [hsame, hlast] at hfirst
    exact absurd hfirst (by decide)
  · rintro hfew i j ⟨src, k⟩ hi hj
    rw [siteNumbers_empty_getElem?] at hi hj
    simp only [Option.map_eq_some_iff, Prod.mk.injEq] at hi hj
    obtain ⟨_, hi, rfl, hik⟩ := hi
    obtain ⟨src, hj, rfl, hjk⟩ := hj
    have hlt : ∀ {i}, (callers calls)[i]? = some src →
        ((callers calls).take i).count src < 2 ^ 32 := by
      intro i hi
      have hin : i < (callers calls).length := (List.getElem?_eq_some_iff.mp hi).1
      have hcount := count_take_lt hi hin
      rw [List.take_length] at hcount
      exact Nat.lt_of_lt_of_le hcount (hfew src)
    have hcounts : ((callers calls).take i).count src = ((callers calls).take j).count src := by
      have hnum := congrArg UInt32.toNat (hik.trans hjk.symm)
      rw [UInt32.toNat_ofNat', UInt32.toNat_ofNat', Nat.mod_eq_of_lt (hlt hi),
        Nat.mod_eq_of_lt (hlt hj)] at hnum
      exact hnum
    rcases Nat.lt_trichotomy i j with hij | hij | hij
    · exact absurd hcounts (Nat.ne_of_lt (count_take_lt hi hij))
    · exact hij
    · exact absurd hcounts.symm (Nat.ne_of_lt (count_take_lt hj hij))

theorem mem_siteNumbers_iff {calls : List (CanonId × CanonId)} {src : CanonId} {idx : UInt32} :
    (src, idx) ∈ siteNumbers FMap.empty calls ↔
      ∃ m < (callers calls).count src, idx = UInt32.ofNat m := by
  rw [List.mem_iff_getElem?]
  constructor
  · rintro ⟨j, hj⟩
    rw [siteNumbers_empty_getElem?] at hj
    simp only [Option.map_eq_some_iff, Prod.mk.injEq] at hj
    obtain ⟨src, hj, rfl, hidx⟩ := hj
    have hin : j < (callers calls).length := (List.getElem?_eq_some_iff.mp hj).1
    have hcount := count_take_lt hj hin
    rw [List.take_length] at hcount
    exact ⟨_, hcount, hidx.symm⟩
  · rintro ⟨m, hm, rfl⟩
    obtain ⟨j, hj, hcount⟩ := exists_count_take_eq hm
    refine ⟨j, ?_⟩
    rw [siteNumbers_empty_getElem?, hj, Option.map_some, hcount]

/-! ### All labels -/

/-- No label stands for two: no name that stands alone reads like a generated label or
    like the label of a call site, and call sites can be counted. -/
structure ClearLabels (names : List Text) (calls : List (CanonId × CanonId)) : Prop where
  nodes : ∀ name, Alone names name → ¬Generated names name
  sites : ∀ src, ∀ m < (callers calls).count src,
    ¬Alone names (callsiteLabel src (UInt32.ofNat m))
  counted : ∀ src, (callers calls).count src ≤ 2 ^ 32

def allLabels (names : List Text) (calls : List (CanonId × CanonId)) : List String :=
  (buildUniqueLabels names).map nodeLabel ++ siteLabels FMap.empty calls

theorem nodup_siteLabels_iff (calls : List (CanonId × CanonId)) :
    (siteLabels FMap.empty calls).Nodup ↔ ∀ src, (callers calls).count src ≤ 2 ^ 32 := by
  rw [← nodup_siteNumbers_iff]
  apply List.nodup_map_iff
  rintro ⟨src, idx⟩ ⟨src', idx'⟩ h
  obtain ⟨rfl, rfl⟩ := callsiteLabel_inj (nodeLabel_inj.mp h)
  rfl

/-- Only a name that stands alone can be the label of a call site. -/
theorem callsiteLabel_mem_iff {names : List Text} {src : CanonId} {idx : UInt32} :
    callsiteLabel src idx ∈ buildUniqueLabels names ↔ Alone names (callsiteLabel src idx) := by
  rw [List.mem_iff_getElem?]
  constructor
  · rintro ⟨i, hi⟩
    rw [buildUniqueLabels_getElem?] at hi
    obtain ⟨name, hname, hlabel⟩ := Option.map_eq_some_iff.mp hi
    rcases uniqueLabel_cases hname with ⟨halone, hself⟩ | ⟨-, hgen, -⟩
    · rw [← hlabel, hself]
      exact halone
    · rw [hlabel] at hgen
      exact absurd (hash_mem_of_generated hgen) (hash_not_mem_callsiteLabel src idx)
  · intro halone
    obtain ⟨i, hi⟩ := List.mem_iff_getElem?.mp halone.1
    refine ⟨i, ?_⟩
    rw [buildUniqueLabels_getElem?, hi, Option.map_some]
    rcases uniqueLabel_cases hi with ⟨-, hself⟩ | ⟨hnot, -⟩
    · rw [hself]
    · exact absurd halone hnot

theorem nodup_allLabels_iff (names : List Text) (calls : List (CanonId × CanonId)) :
    (allLabels names calls).Nodup ↔ ClearLabels names calls := by
  have hnodes : ((buildUniqueLabels names).map nodeLabel).Nodup ↔
      ∀ name, Alone names name → ¬Generated names name := by
    rw [← nodup_buildUniqueLabels_iff]
    exact List.nodup_map_iff fun _ _ => nodeLabel_inj.mp
  rw [allLabels, List.nodup_append, hnodes, nodup_siteLabels_iff]
  constructor
  · rintro ⟨hnames, hcalls, hdisjoint⟩
    refine ⟨hnames, ?_, hcalls⟩
    intro src m hm halone
    apply hdisjoint (nodeLabel (callsiteLabel src (UInt32.ofNat m)))
    · exact List.mem_map_of_mem (callsiteLabel_mem_iff.mpr halone)
    · exact List.mem_map.mpr ⟨(src, _), mem_siteNumbers_iff.mpr ⟨m, hm, rfl⟩, rfl⟩
    · rfl
  · intro hclear
    refine ⟨hclear.nodes, hclear.counted, ?_⟩
    rintro label hnode site hsite rfl
    obtain ⟨text, htext, rfl⟩ := List.mem_map.mp hnode
    obtain ⟨⟨src, idx⟩, hmem, hlabel⟩ := List.mem_map.mp hsite
    obtain ⟨m, hm, rfl⟩ := mem_siteNumbers_iff.mp hmem
    rw [← nodeLabel_inj.mp hlabel, callsiteLabel_mem_iff] at htext
    exact hclear.sites src m hm htext

/-! ### The events in closed form -/

namespace SealedIR

/-- The names of the nodes. -/
def names (ir : SealedIR) : List Text :=
  (ir.nodes.mapM fun node => nodeBaseLabel ir.toCanonIR node.kind).getD []

/-- The call edges, by caller and callee. -/
def calls (ir : SealedIR) : List (CanonId × CanonId) :=
  callEdges ir.callGraph (ir.callGraph.edges?.getD [])

def labels (ir : SealedIR) : List Text := buildUniqueLabels ir.names

end SealedIR

def structuralEvents (ir : SealedIR) (bundle : Option SymbolSpanBundle) (order : HashOrder) :
    List RustcEvent :=
  let nodes := nodeEvents ir.toCanonIR ir.labels (bundle.map buildSpanLookup) FMap.empty []
    ir.nodes
  nodes.1 ++
    ((blockEdges ir (order.fnBody ir.fnBody)).map (edgeEvent ir.labels) ++
      (callsiteEvents ir ir.labels FMap.empty ir.calls ++
        ((flowEdges ir (order.bodyBlocks ir.bodyBlocks)).map (edgeEvent ir.labels) ++
          ((ir.writtenGraphs.flatMap graphEdges).map (edgeEvent ir.labels) ++
            closingEvents ir bundle (order.files nodes.2)))))

section Emission

variable {ir : SealedIR}

theorem SealedIR.Valid.mapM_names (h : ir.Valid) :
    (ir.nodes.mapM fun node => nodeBaseLabel ir.toCanonIR node.kind) = some ir.names := by
  have hsome : (ir.nodes.mapM fun node => nodeBaseLabel ir.toCanonIR node.kind).isSome := by
    rw [mapM_isSome_iff]
    intro node hnode
    exact Option.isSome_iff_ne_none.mpr (h.names node hnode)
  obtain ⟨names, hnames⟩ := Option.isSome_iff_exists.mp hsome
  rw [SealedIR.names, hnames, Option.getD_some]

theorem SealedIR.Valid.edges?_isSome_iff (h : ir.Valid) {g : CsrGraph}
    (hg : g ∈ ir.writtenGraphs) : g.edges?.isSome ↔ g.RowsInRange :=
  Canon.Ir.edges?_isSome_iff (h.rows g hg) (h.edgeData g hg)

theorem callGraph_mem (ir : SealedIR) : ir.callGraph ∈ ir.writtenGraphs := by
  simp [SealedIR.writtenGraphs]

/-- With rows in range all events are written. -/
theorem emitIrTlog_eq (h : validateStructural ir = .ok ())
    (hrows : ∀ g ∈ ir.writtenGraphs, g.RowsInRange) (bundle : Option SymbolSpanBundle)
    (order : HashOrder) :
    emitIrTlog .structural ir bundle order = .ok (structuralEvents ir bundle order) := by
  have hvalid := valid_of_validateStructural h
  have hedges : ∀ g ∈ ir.writtenGraphs, g.edges?.isSome :=
    fun g hg => (hvalid.edges?_isSome_iff hg).mpr (hrows g hg)
  obtain ⟨calls, hcalls⟩ := Option.isSome_iff_exists.mp (hedges _ (callGraph_mem ir))
  have hgraphs : ir.writtenGraphs.mapM (emitIrEdges ir.labels) =
      .ok (ir.writtenGraphs.map fun g => (graphEdges g).map (edgeEvent ir.labels)) := by
    apply mapM_eq_ok
    intro g hg
    apply emitIrEdges_eq (hedges g hg)
    intro dst hdst
    rw [hvalid.nodeData g hg]
    exact hvalid.cols g hg dst hdst
  have hflat : (ir.writtenGraphs.map fun g => (graphEdges g).map (edgeEvent ir.labels)).flatten =
      (ir.writtenGraphs.flatMap graphEdges).map (edgeEvent ir.labels) := by
    rw [List.map_flatMap, List.flatMap_def]
  unfold emitIrTlog structuralEvents SealedIR.calls
  rw [h, hvalid.mapM_names, hcalls]
  show (ir.writtenGraphs.mapM (emitIrEdges ir.labels) >>= _) = _
  rw [hgraphs, ← hflat]
  rfl

/-- A row that is out of range stops the log. -/
theorem rows_of_emitIrTlog {mode : CaptureMode} {bundle : Option SymbolSpanBundle}
    {order : HashOrder} {events : List RustcEvent}
    (h : emitIrTlog mode ir bundle order = .ok events) :
    ∀ g ∈ ir.writtenGraphs, g.RowsInRange := by
  obtain ⟨_, hok, h⟩ := bind_eq_ok.mp h
  obtain ⟨_, -, h⟩ := bind_eq_ok.mp h
  obtain ⟨_, -, h⟩ := bind_eq_ok.mp h
  obtain ⟨_, hgraphs, -⟩ := bind_eq_ok.mp h
  intro g hg
  obtain ⟨_, hemit⟩ := exists_ok_of_mapM hgraphs g hg
  exact ((valid_of_validateStructural hok).edges?_isSome_iff hg).mp
    (edges?_isSome_of_emitIrEdges hemit)

end Emission

/-! ### The graph of the representation -/

namespace SealedIR

/-- The edges between nodes: to the blocks of a body, between its blocks, and those of the
    eight graphs. -/
def idEdges (ir : SealedIR) : List IdEdge :=
  blockEdges ir ir.fnBody ++ (flowEdges ir ir.bodyBlocks ++ ir.writtenGraphs.flatMap graphEdges)

/-- The edges at call sites, which have their places behind the nodes. -/
def siteEdges (ir : SealedIR) : List (Nat × Nat × String) :=
  ir.calls.zipIdx.flatMap fun e => edgesOfSite ir (ir.nodes.length + e.2) e.1

/-- The same edges, with the numbers that the call sites get. -/
def numberedSiteEdges (ir : SealedIR) : List (Nat × Nat × String) :=
  ir.calls.zipIdx.flatMap fun e => edgesOfSite ir (asU32 (ir.nodes.length + e.2)) e.1

/-- No edge is at a call site whose number is cut. -/
def SitesFit (ir : SealedIR) : Prop := ∀ e ∈ ir.siteEdges, e.1 < 2 ^ 32 ∧ e.2.1 < 2 ^ 32

end SealedIR

/-- One node for each node of the representation and one for each call, and exactly the
    images of the edges that join nodes. -/
structure Represents (ir : SealedIR) (graph : CodeGraphProjection) : Prop where
  nodes : graph.nodes.map (·.kind) =
    ir.nodes.map kindStr ++ List.replicate ir.calls.length (nodeKindStr .callSite)
  edges : (graph.edges.map triple).Perm
    (ir.idEdges.filterMap (placeEdge ir.nodes.length) ++ ir.siteEdges)

section Labels

variable {ir : SealedIR}

theorem SealedIR.Valid.labels_length (h : ir.Valid) : ir.labels.length = ir.nodes.length := by
  rw [SealedIR.labels, buildUniqueLabels_length, length_of_mapM h.mapM_names]

theorem nil_not_mem_labels (ir : SealedIR) : [] ∉ ir.labels := by
  intro hmem
  obtain ⟨e, -, he⟩ := List.mem_map.mp hmem
  exact uniqueLabel_ne_nil _ _ _ he

/-- The labels of the nodes in their order. -/
theorem SealedIR.Valid.map_labelFor (h : ir.Valid) :
    (ir.nodes.map fun node => labelFor ir.labels node.id) = ir.labels.map nodeLabel := by
  apply List.ext_getElem?
  intro i
  rw [List.getElem?_map, List.getElem?_map]
  by_cases hi : i < ir.nodes.length
  · have hnode : ir.nodes[i]? = some ir.nodes[i] := List.getElem?_eq_getElem hi
    have hi' : i < ir.labels.length := by
      rw [h.labels_length]
      exact hi
    have hlabel : ir.labels[i]? = some ir.labels[i] := List.getElem?_eq_getElem hi'
    rw [hnode, hlabel, Option.map_some, Option.map_some, labelFor, h.ids i _ hnode, hlabel,
      Option.getD_some]
  · rw [List.getElem?_eq_none (Nat.not_lt.mp hi), List.getElem?_eq_none]
    · rfl
    · rw [h.labels_length]
      exact Nat.not_lt.mp hi

theorem SealedIR.Valid.labelFor_ne_empty (h : ir.Valid) {node : Node} (hnode : node ∈ ir.nodes) :
    labelFor ir.labels node.id ≠ "" := by
  have hmem : labelFor ir.labels node.id ∈ ir.labels.map nodeLabel := by
    rw [← h.map_labelFor]
    exact List.mem_map_of_mem hnode
  obtain ⟨label, hlabel, heq⟩ := List.mem_map.mp hmem
  rw [← heq, Ne, nodeLabel_eq_empty]
  rintro rfl
  exact nil_not_mem_labels ir hlabel

end Labels

theorem closing_of_mem {ir : SealedIR} {bundle : Option SymbolSpanBundle} {files : List Text}
    {event : RustcEvent} (h : event ∈ closingEvents ir bundle files) : Closing event := by
  simp only [closingEvents, List.mem_append, List.mem_map, List.mem_replicate] at h
  rcases h with ⟨_, -, rfl⟩ | ⟨_, -, rfl⟩ | ⟨-, rfl⟩ | ⟨_, -, rfl⟩
  all_goals trivial

/-- With distinct labels every event finds its place. -/
theorem shows_structuralEvents {ir : SealedIR} (h : ir.Valid)
    (hnodup : (allLabels ir.names ir.calls).Nodup) (clear : Bool)
    (bundle : Option SymbolSpanBundle) (order : HashOrder) :
    Shows (replay clear .empty (structuralEvents ir bundle order)) (allLabels ir.names ir.calls)
      (ir.nodes.map kindStr ++ List.replicate ir.calls.length (nodeKindStr .callSite))
      ((blockEdges ir (order.fnBody ir.fnBody)).filterMap (placeEdge ir.nodes.length) ++
        ir.numberedSiteEdges ++
        (flowEdges ir (order.bodyBlocks ir.bodyBlocks)).filterMap (placeEdge ir.nodes.length) ++
        (ir.writtenGraphs.flatMap graphEdges).filterMap (placeEdge ir.nodes.length)) := by
  have hlabels := nil_not_mem_labels ir
  have hall : allLabels ir.names ir.calls =
      ir.labels.map nodeLabel ++ siteLabels FMap.empty ir.calls := rfl
  rw [hall] at hnodup ⊢
  have hnodes := shows_empty.nodeEvents clear ir.toCanonIR ir.labels (bundle.map buildSpanLookup)
    FMap.empty [] (by rw [h.map_labelFor]; exact (List.nodup_append.mp hnodup).1)
    (fun node hnode => h.labelFor_ne_empty hnode)
  rw [h.map_labelFor, List.nil_append, List.nil_append,
    ← List.append_nil (ir.labels.map nodeLabel)] at hnodes
  have hblocks := hnodes.edgeEvents clear hlabels (blockEdges ir (order.fnBody ir.fnBody))
  have hsites := hblocks.callsiteEvents clear ir hlabels h.labels_length FMap.empty hnodup
  have hflows := hsites.edgeEvents clear hlabels (flowEdges ir (order.bodyBlocks ir.bodyBlocks))
  have hgraphs := hflows.edgeEvents clear hlabels (ir.writtenGraphs.flatMap graphEdges)
  rw [h.labels_length, List.nil_append] at hgraphs
  unfold structuralEvents
  dsimp only
  rw [replay_append, replay_append, replay_append, replay_append, replay_append]
  exact hgraphs.closings fun event hevent => closing_of_mem hevent

/-! ### The numbers of the call sites -/

section Sites

variable {ir : SealedIR} {site : Nat} {call : CanonId × CanonId} {e : Nat × Nat × String}

theorem mem_edgesOfSite (h : e ∈ edgesOfSite ir site call) :
    (e.1 < 2 ^ 32 ∧ e.2.1 = site) ∨ (e.1 = site ∧ e.2.1 < 2 ^ 32) := by
  have hplace : ∀ {id : CanonId} {n : Nat}, place ir.nodes.length id = some n → n < 2 ^ 32 := by
    intro id n hn
    unfold place at hn
    split at hn
    · rw [← Option.some.inj hn]
      exact id.toNat_lt
    · cases hn
  rcases List.mem_append.mp h with hblock | hcallee
  · obtain ⟨block, hmem, rfl⟩ := List.mem_map.mp hblock
    obtain ⟨id, -, hid⟩ := Option.bind_eq_some_iff.mp (Option.mem_toList.mp hmem)
    exact .inl ⟨hplace hid, rfl⟩
  · obtain ⟨dst, hmem, rfl⟩ := List.mem_map.mp hcallee
    exact .inr ⟨rfl, hplace (Option.mem_toList.mp hmem)⟩

/-- A number only shows if the call has an edge. -/
theorem edgesOfSite_congr {other : Nat} (h : edgesOfSite ir site call ≠ [] → other = site) :
    edgesOfSite ir other call = edgesOfSite ir site call := by
  by_cases hnil : edgesOfSite ir site call = []
  · rw [hnil]
    simpa [edgesOfSite] using hnil
  · rw [h hnil]

theorem numberedSiteEdges_perm_iff (ir : SealedIR) :
    ir.numberedSiteEdges.Perm ir.siteEdges ↔ ir.SitesFit := by
  constructor
  · intro hperm e he
    obtain ⟨⟨call, i⟩, -, he⟩ := List.mem_flatMap.mp (hperm.mem_iff.mpr he)
    have hnumber := asU32_lt (ir.nodes.length + i)
    rcases mem_edgesOfSite he with ⟨hsrc, hdst⟩ | ⟨hsrc, hdst⟩
    · exact ⟨hsrc, hdst ▸ hnumber⟩
    · exact ⟨hsrc ▸ hnumber, hdst⟩
  · intro hfit
    have hsame : ir.numberedSiteEdges = ir.siteEdges := by
      rw [SealedIR.numberedSiteEdges, SealedIR.siteEdges, List.flatMap_def, List.flatMap_def]
      congr 1
      apply List.map_congr_left
      intro entry hentry
      apply edgesOfSite_congr
      intro hne
      obtain ⟨e, he⟩ := List.exists_mem_of_ne_nil _ hne
      obtain ⟨hsrc, hdst⟩ := hfit e (List.mem_flatMap.mpr ⟨entry, hentry, he⟩)
      rcases mem_edgesOfSite he with ⟨-, hsite⟩ | ⟨hsite, -⟩
      · exact asU32_of_lt (hsite ▸ hdst)
      · exact asU32_of_lt (hsite ▸ hsrc)
    rw [hsame]

end Sites

/-- The order of the hash maps does not matter, and the call sites decide. -/
theorem represents_iff_of_nodup {ir : SealedIR} (h : ir.Valid)
    (hnodup : (allLabels ir.names ir.calls).Nodup) (clear : Bool)
    (bundle : Option SymbolSpanBundle) (order : HashOrder) :
    Represents ir (replay clear .empty (structuralEvents ir bundle order)).graph ↔
      ir.SitesFit := by
  have hshows := shows_structuralEvents h hnodup clear bundle order
  have hblocks : ((blockEdges ir (order.fnBody ir.fnBody)).filterMap
      (placeEdge ir.nodes.length)).Perm
        ((blockEdges ir ir.fnBody).filterMap (placeEdge ir.nodes.length)) :=
    ((order.fnBody_perm ir.fnBody).flatMap_right _).filterMap _
  have hflows : ((flowEdges ir (order.bodyBlocks ir.bodyBlocks)).filterMap
      (placeEdge ir.nodes.length)).Perm
        ((flowEdges ir ir.bodyBlocks).filterMap (placeEdge ir.nodes.length)) :=
    ((order.bodyBlocks_perm ir.bodyBlocks).flatMap_right _).filterMap _
  have hedges : ((replay clear .empty (structuralEvents ir bundle order)).graph.edges.map
      triple).Perm (ir.idEdges.filterMap (placeEdge ir.nodes.length) ++ ir.numberedSiteEdges) := by
    rw [hshows.edges, SealedIR.idEdges, List.filterMap_append, List.filterMap_append]
    apply (((hblocks.append_right _).append hflows).append_right _).trans
    rw [List.append_assoc, List.append_assoc, List.append_assoc]
    exact List.perm_append_comm.append_left _
  rw [← numberedSiteEdges_perm_iff, ← List.perm_append_left_iff]
  constructor
  · intro hrep
    exact hedges.symm.trans hrep.edges
  · intro hperm
    exact ⟨hshows.kinds, hedges.trans hperm⟩

/-! ### Labels that are not distinct -/

/-- The label of the node an event defines. -/
def definedLabel : RustcEvent → Option String
  | .nodeDefined symbol _ _ _ => some symbol
  | _ => none

/-- The events of the log: definitions of nodes and edges, and those that close it. -/
def Written : RustcEvent → Prop
  | .nodeDefined _ _ _ _ => True
  | .edgeDefined _ _ _ => True
  | event => Closing event

/-- Every node has a label of its own, and the index leads from it to some node. -/
structure Labelled (labels : List String) (st : GraphState) : Prop where
  mem : ∀ symbol ∈ st.graph.nodes.map (·.symbol), symbol ∈ labels
  distinct : (st.graph.nodes.map (·.symbol)).Nodup
  indexed : ∀ symbol ∈ st.graph.nodes.map (·.symbol), ∃ id, st.symbolToId symbol = some id ∧
    id < st.graph.nodes.length

section Labelled

variable {clear : Bool} {st : GraphState} {labels : List String}

theorem Labelled.applyNode (h : Labelled labels st) {symbol : String} (hmem : symbol ∈ labels)
    (hne : symbol ≠ "") (kind file : String) (line : Nat) :
    Labelled labels (applyNode st symbol kind file line).2 := by
  rcases applyNode_cases st symbol kind file line with
    ⟨-, heq⟩ | ⟨-, ⟨id, node, hfind, heq⟩ | ⟨hfind, heq⟩⟩
  · rw [heq]
    exact h
  -- A known node keeps its symbol.
  · have hnode := getElem?_of_findNode hfind
    have hsame : (updateNode st id node kind file line).graph.nodes.map (·.symbol) =
        st.graph.nodes.map (·.symbol) := by
      apply List.ext_getElem?
      intro i
      simp only [updateNode, List.getElem?_map, List.getElem?_set]
      split
      · rename_i hi
        rw [← hi, hnode, if_pos (List.getElem?_eq_some_iff.mp hnode).1]
        rfl
      · rfl
    have hlength : (updateNode st id node kind file line).graph.nodes.length =
        st.graph.nodes.length := List.length_set
    rw [heq]
    exact ⟨by rw [hsame]; exact h.mem, by rw [hsame]; exact h.distinct,
      by rw [hsame, hlength]; exact h.indexed⟩
  · have hnew : symbol ∉ st.graph.nodes.map (·.symbol) := by
      intro hold
      obtain ⟨id, hid, hlt⟩ := h.indexed symbol hold
      simp [GraphState.findNode, hne, hid, List.getElem?_eq_getElem hlt] at hfind
    have hsymbols : (pushNode st symbol kind file line).graph.nodes.map (·.symbol) =
        st.graph.nodes.map (·.symbol) ++ [symbol] := by
      simp [pushNode]
    have hlength : (pushNode st symbol kind file line).graph.nodes.length =
        st.graph.nodes.length + 1 := by
      simp [pushNode]
    rw [heq]
    refine ⟨?_, ?_, ?_⟩
    · rw [hsymbols]
      intro s hs
      rcases List.mem_append.mp hs with hs | hs
      · exact h.mem s hs
      · rw [List.mem_singleton.mp hs]
        exact hmem
    · rw [hsymbols, List.nodup_append]
      refine ⟨h.distinct, by simp, ?_⟩
      rintro s hs t ht rfl
      exact hnew (List.mem_singleton.mp ht ▸ hs)
    · rw [hsymbols, hlength]
      intro s hs
      simp only [pushNode, String.isEmpty_iff, hne, if_false, FMap.insert_apply]
      split
      · exact ⟨_, rfl, Nat.lt_succ_of_le (asU32_le _)⟩
      · rename_i hother
        rcases List.mem_append.mp hs with hs | hs
        · obtain ⟨id, hid, hlt⟩ := h.indexed s hs
          exact ⟨id, hid, by omega⟩
        · exact absurd (List.mem_singleton.mp hs) hother

theorem Labelled.step (h : Labelled labels st) {event : RustcEvent} (hevent : Written event)
    (hlabel : ∀ label, definedLabel event = some label → label ∈ labels ∧ label ≠ "") :
    Labelled labels (graphMachine.step st (event, clear)) := by
  cases event with
  | nodeDefined symbol kind file line =>
    obtain ⟨hmem, hne⟩ := hlabel symbol rfl
    exact h.applyNode hmem hne kind file line
  | edgeDefined src dst kind =>
    simp only [graphMachine, applyRustcEventToGraph]
    split
    · exact h
    · exact ⟨h.mem, h.distinct, h.indexed⟩
  | fileSeen path =>
    simp only [graphMachine, applyRustcEventToGraph]
    split
    · exact h
    · exact ⟨h.mem, h.distinct, h.indexed⟩
  | callsiteObserved => exact h
  | symbolDefined => exact h
  | spanDefined => exact h
  | _ => exact absurd hevent (by simp [Written, Closing])

theorem Labelled.replay (h : Labelled labels st) {events : List RustcEvent}
    (hevents : ∀ event ∈ events, Written event) (hne : "" ∉ labels)
    (hlabels : ∀ label ∈ events.filterMap definedLabel, label ∈ labels) :
    Labelled labels (replay clear st events) := by
  induction events generalizing st with
  | nil => exact h
  | cons event events ih =>
    rw [replay_cons]
    refine ih (h.step (hevents event (by simp)) ?_) (fun e he => hevents e (by simp [he])) ?_
    · intro label hlabel
      have hmem := hlabels label (List.mem_filterMap.mpr ⟨event, by simp, hlabel⟩)
      exact ⟨hmem, fun hempty => hne (hempty ▸ hmem)⟩
    · intro label hlabel
      obtain ⟨e, he, hdefined⟩ := List.mem_filterMap.mp hlabel
      exact hlabels label (List.mem_filterMap.mpr ⟨e, by simp [he], hdefined⟩)

end Labelled

/-! The labels that the parts of the log define. -/

/-- Events of the log with the labels they define. -/
structure DefinesAll (events : List RustcEvent) (labels : List String) : Prop where
  written : ∀ event ∈ events, Written event
  labels : events.filterMap definedLabel = labels

theorem DefinesAll.append {as bs : List RustcEvent} {ls ms : List String} (ha : DefinesAll as ls)
    (hb : DefinesAll bs ms) : DefinesAll (as ++ bs) (ls ++ ms) where
  written := by
    intro event hevent
    rcases List.mem_append.mp hevent with hevent | hevent
    · exact ha.written event hevent
    · exact hb.written event hevent
  labels := by rw [List.filterMap_append, ha.labels, hb.labels]

theorem definesAll_node (symbol kind file : String) (line : Nat) :
    DefinesAll [.nodeDefined symbol kind file line] [symbol] :=
  ⟨by simp [Written], rfl⟩

theorem definesAll_edges {events : List RustcEvent}
    (h : ∀ event ∈ events, ∃ src dst kind, event = .edgeDefined src dst kind) :
    DefinesAll events [] where
  written := by
    intro event hevent
    obtain ⟨_, _, _, rfl⟩ := h event hevent
    trivial
  labels := by
    rw [List.filterMap_eq_nil_iff]
    intro event hevent
    obtain ⟨_, _, _, rfl⟩ := h event hevent
    rfl

theorem definesAll_idEdges (labels : List Text) (es : List IdEdge) :
    DefinesAll (es.map (edgeEvent labels)) [] := by
  apply definesAll_edges
  intro event hevent
  obtain ⟨e, -, rfl⟩ := List.mem_map.mp hevent
  exact ⟨_, _, _, rfl⟩

theorem definesAll_closing (ir : SealedIR) (bundle : Option SymbolSpanBundle) (files : List Text) :
    DefinesAll (closingEvents ir bundle files) [] where
  written := by
    intro event hevent
    have hclosing := closing_of_mem hevent
    cases event <;> first | exact hclosing | exact hclosing.elim
  labels := by
    rw [List.filterMap_eq_nil_iff]
    intro event hevent
    have hclosing := closing_of_mem hevent
    cases event <;> first | rfl | exact hclosing.elim

theorem definesAll_nodes (ir : CanonIR ItemKind) (labels : List Text)
    (spans : Option (FMap Text (List SpanInfo))) (cursor : FMap Text Nat) (files : List Text)
    (nodes : List Node) :
    DefinesAll (nodeEvents ir labels spans cursor files nodes).1
      (nodes.map fun node => labelFor labels node.id) := by
  induction nodes generalizing cursor files with
  | nil => exact ⟨by simp [nodeEvents], rfl⟩
  | cons node nodes ih => exact (definesAll_node _ _ _ _).append (ih _ _)

theorem definesAll_site (ir : SealedIR) (labels : List Text) (label : String)
    (call : CanonId × CanonId) : DefinesAll (siteEvents ir labels label call) [label] := by
  have hedges : DefinesAll
      (((ir.fnFirstBlock call.1).toList.map fun block =>
        RustcEvent.edgeDefined (labelFor labels block) label (edgeKindStr .hasBlock)) ++
          [.edgeDefined label (labelFor labels call.2) (edgeKindStr .call)]) [] := by
    apply definesAll_edges
    intro event hevent
    rcases List.mem_append.mp hevent with hevent | hevent
    · obtain ⟨block, -, rfl⟩ := List.mem_map.mp hevent
      exact ⟨_, _, _, rfl⟩
    · rw [List.mem_singleton.mp hevent]
      exact ⟨_, _, _, rfl⟩
  exact (definesAll_node label _ _ _).append hedges

theorem definesAll_sites (ir : SealedIR) (labels : List Text) (idxByFn : FMap CanonId UInt32)
    (calls : List (CanonId × CanonId)) :
    DefinesAll (callsiteEvents ir labels idxByFn calls) (siteLabels idxByFn calls) := by
  induction calls generalizing idxByFn with
  | nil => exact ⟨by simp [callsiteEvents], rfl⟩
  | cons call calls ih =>
    rw [callsiteEvents_cons]
    exact (definesAll_site ir labels _ call).append (ih _)

theorem SealedIR.Valid.definesAll {ir : SealedIR} (h : ir.Valid) (bundle : Option SymbolSpanBundle)
    (order : HashOrder) :
    DefinesAll (structuralEvents ir bundle order) (allLabels ir.names ir.calls) := by
  have hnodes := definesAll_nodes ir.toCanonIR ir.labels (bundle.map buildSpanLookup) FMap.empty []
    ir.nodes
  rw [h.map_labelFor] at hnodes
  have hrest := (definesAll_idEdges ir.labels (ir.writtenGraphs.flatMap graphEdges)).append
    (definesAll_closing ir bundle (order.files (nodeEvents ir.toCanonIR ir.labels
      (bundle.map buildSpanLookup) FMap.empty [] ir.nodes).2))
  have hflow := (definesAll_idEdges ir.labels
    (flowEdges ir (order.bodyBlocks ir.bodyBlocks))).append hrest
  have hsites := (definesAll_sites ir ir.labels FMap.empty ir.calls).append hflow
  have hblocks := (definesAll_idEdges ir.labels
    (blockEdges ir (order.fnBody ir.fnBody))).append hsites
  have hall := hnodes.append hblocks
  simp only [List.nil_append, List.append_nil] at hall
  exact hall

theorem siteLabels_length (idxByFn : FMap CanonId UInt32) (calls : List (CanonId × CanonId)) :
    (siteLabels idxByFn calls).length = calls.length := by
  induction calls generalizing idxByFn with
  | nil => rfl
  | cons call calls ih => exact congrArg (· + 1) (ih _)

theorem empty_not_mem_allLabels (ir : SealedIR) : "" ∉ allLabels ir.names ir.calls := by
  intro hmem
  rcases List.mem_append.mp hmem with hmem | hmem
  · obtain ⟨label, hlabel, hempty⟩ := List.mem_map.mp hmem
    rw [nodeLabel_eq_empty.mp hempty] at hlabel
    exact nil_not_mem_labels ir hlabel
  · obtain ⟨site, -, hempty⟩ := List.mem_map.mp hmem
    exact callsiteLabel_ne_nil _ _ (nodeLabel_eq_empty.mp hempty)

/-- Labels that stand for two leave fewer nodes. -/
theorem nodup_of_represents {ir : SealedIR} (h : ir.Valid) {clear : Bool}
    {bundle : Option SymbolSpanBundle} {order : HashOrder}
    (hrep : Represents ir (replay clear .empty (structuralEvents ir bundle order)).graph) :
    (allLabels ir.names ir.calls).Nodup := by
  have hdefines := h.definesAll bundle order
  have hempty : Labelled (allLabels ir.names ir.calls) .empty := ⟨by simp [GraphState.empty,
    CodeGraphProjection.default], List.nodup_nil, by simp [GraphState.empty,
    CodeGraphProjection.default]⟩
  have hlabelled : Labelled _ (replay clear _ _) := hempty.replay hdefines.written
    (empty_not_mem_allLabels ir) (fun label hlabel => hdefines.labels ▸ hlabel)
  have hlength := congrArg List.length hrep.nodes
  generalize (replay clear .empty (structuralEvents ir bundle order)) = st at hlabelled hlength
  have hcount : (allLabels ir.names ir.calls).length ≤ (st.graph.nodes.map (·.symbol)).length := by
    rw [allLabels, List.length_append, List.length_map, siteLabels_length, List.length_map,
      ← SealedIR.labels, h.labels_length]
    simp at hlength
    omega
  have hsubperm := List.subperm_of_subset hlabelled.distinct hlabelled.mem
  exact (hsubperm.perm_of_length_le hcount).nodup_iff.mp hlabelled.distinct

/-! ### The main result -/

/-- What a representation needs for a faithful log: labels that are told apart, rows of
    edges that end where the edges do, and numbers for the call sites. -/
structure Loggable (ir : SealedIR) : Prop where
  rows : ∀ g ∈ ir.writtenGraphs, g.RowsInRange
  labels : ClearLabels ir.names ir.calls
  sites : ir.SitesFit

/-- **The event log is faithful** for a representation that passes the validation exactly
    if its labels are told apart, its rows are in range and its call sites can be
    numbered. -/
theorem log_represents_iff {ir : SealedIR} (h : validateStructural ir = .ok ()) (clear : Bool)
    (bundle : Option SymbolSpanBundle) (order : HashOrder) :
    ((buildUniqueLabels ir.names).Nodup ∧
      ∃ events, emitIrTlog .structural ir bundle order = .ok events ∧
        Represents ir (replay clear .empty events).graph) ↔ Loggable ir := by
  have hvalid := valid_of_validateStructural h
  constructor
  · rintro ⟨-, events, hemit, hrep⟩
    have hrows := rows_of_emitIrTlog hemit
    rw [emitIrTlog_eq h hrows] at hemit
    rw [← Except.ok.inj hemit] at hrep
    have hnodup := nodup_of_represents hvalid hrep
    exact ⟨hrows, (nodup_allLabels_iff _ _).mp hnodup,
      (represents_iff_of_nodup hvalid hnodup clear bundle order).mp hrep⟩
  · rintro ⟨hrows, hlabels, hsites⟩
    refine ⟨(nodup_buildUniqueLabels_iff _).mpr hlabels.nodes, _, emitIrTlog_eq h hrows _ _, ?_⟩
    have hnodup := (nodup_allLabels_iff _ _).mpr hlabels
    exact (represents_iff_of_nodup hvalid hnodup clear bundle order).mpr hsites

/-! ### Small representations -/

/-- Entries in the order they were inserted in. -/
def HashOrder.inserted : HashOrder where
  fnBody := id
  bodyBlocks := id
  files := id
  fnBody_perm := List.Perm.refl
  bodyBlocks_perm := List.Perm.refl
  files_perm := List.Perm.refl

/-- Nodes with one edge in the call graph, or none. -/
def smallIr (names : List Text) (kinds : List ItemKind) (call : Option (Nat × Nat)) : SealedIR :=
  let count := kinds.length
  let numbers := (List.range count).map UInt32.ofNat
  let rowPtr := (List.range (count + 1)).map fun i =>
    if (call.map fun c => decide (c.1 < i)).getD false then 1 else 0
  let colIdx := (call.map (·.2)).toList
  let noEdges : CsrGraph := ⟨numbers, List.replicate (count + 1) 0, [], []⟩
  { nodes := kinds.zipIdx.map fun e => ⟨UInt32.ofNat e.2, .other e.1⟩
    nameIntern := ⟨names, FMap.empty⟩
    pathIntern := .new
    bodyIntern := .new
    typeIndex := FMap.empty
    emitOrder := numbers
    nameGraph := noEdges
    typeGraph := noEdges
    callGraph := ⟨numbers, rowPtr, colIdx, colIdx.map fun _ => .calls⟩
    moduleGraph := noEdges
    cfgGraph := noEdges
    regionGraph := noEdges
    valueGraph := noEdges
    macroGraph := noEdges
    graphCsr := ⟨rowPtr, colIdx, colIdx.map fun _ => 7⟩
    graphCsrRev := ⟨List.replicate (count + 1) 0, [], []⟩ }

/-- Two structs named `a`, and one named like the second of them is labelled. -/
def twice : SealedIR :=
  smallIr ["a".toList, "a#1".toList] [.struct 0, .struct 0, .struct 1] none

example : twice.labels = ["a#0".toList, "a#1".toList, "a#1".toList] := by decide

theorem generated_name_merges_nodes :
    validateStructural twice = .ok () ∧ ¬(buildUniqueLabels twice.names).Nodup ∧
      ¬∃ events, emitIrTlog .structural twice none .inserted = .ok events ∧
        Represents twice (replay false .empty events).graph := by
  have hvalid : validateStructural twice = .ok () := rfl
  have hlabels : ¬(buildUniqueLabels twice.names).Nodup := by decide
  refine ⟨hvalid, hlabels, ?_⟩
  rintro ⟨events, hemit, hrep⟩
  rw [emitIrTlog_eq hvalid (rows_of_emitIrTlog hemit)] at hemit
  rw [← Except.ok.inj hemit] at hrep
  have hnodup := nodup_of_represents (valid_of_validateStructural hvalid) hrep
  rw [nodup_allLabels_iff] at hnodup
  exact hlabels ((nodup_buildUniqueLabels_iff _).mpr hnodup.nodes)

/-- A function that calls another one. -/
def caller : SealedIR := smallIr ["f".toList, "g".toList] [.fn 0 none, .fn 1 none] (some (0, 1))

theorem caller_log_represents :
    validateStructural caller = .ok () ∧ (buildUniqueLabels caller.names).Nodup ∧
      ∃ events, emitIrTlog .structural caller none .inserted = .ok events ∧
        Represents caller (replay false .empty events).graph := by
  have hvalid : validateStructural caller = .ok () := rfl
  have hedges : ∀ g ∈ caller.writtenGraphs, g.edges?.isSome := by decide
  have hlabels : (allLabels caller.names caller.calls).Nodup := by decide
  refine ⟨hvalid, (log_represents_iff hvalid false none .inserted).mpr ⟨?_, ?_, ?_⟩⟩
  · intro g hg
    exact ((valid_of_validateStructural hvalid).edges?_isSome_iff hg).mp (hedges g hg)
  · exact (nodup_allLabels_iff _ _).mp hlabels
  · unfold SealedIR.SitesFit
    decide

end Canon.Ir
