import Canon.Ir.EmitTlog
import Canon.Lib.Json

/-! # Proving invariants with a solver

    `smt/encoder.rs` states a graph as a formula: a constant for each block, error and
    variable, an implication for each flow, an equation for each assignment.
    `prove_invariants` asks a solver whether the negation of a candidate can hold with it,
    and remembers the verdicts.

    * `Formula`, `Model`, `Sound`: what is sent to the solver and what it is trusted with,
    * `build`, `proveInvariants`: the encoding and the loop over the candidates,
    * `satisfiable_iff`: what the encoding says of a candidate,
    * `Remembers`: what the cache holds while a batch is checked,
    * `verdicts_of_batch`: the verdict of every candidate of a batch.
-/

namespace Canon.Analysis.Smt

open Canon.Ir

/-! ### Graphs -/

structure Node where
  id : UInt32
  kind : NodeKind

structure Edge where
  src : UInt32
  dst : UInt32
  kind : EdgeKind

structure AnalysisGraph where
  nodes : List Node
  edges : List Edge

variable (graph : AnalysisGraph)

/-- The node that `id_to_index` leads to: of several with one identifier the last. -/
def AnalysisGraph.nodeAt (id : UInt32) : Option Node :=
  graph.nodes.reverse.find? fun n => n.id = id

/-! ### Formulas -/

/-- The Boolean constants, by what their names are made from. -/
inductive BoolConst where
  | bb (id : UInt32)
  | err (id : UInt32)
  | neg (predicate : Text)
deriving DecidableEq

inductive Formula where
  | const (c : BoolConst)
  | implies (a b : Formula)
  /-- Two bit vectors of 32 bits are equal. -/
  | bvEq (x y : UInt32)
  | not (f : Formula)

structure Model where
  bool : BoolConst → Bool
  val : UInt32 → BitVec 32

def Formula.Holds (m : Model) : Formula → Prop
  | const c => m.bool c = true
  | implies a b => a.Holds m → b.Holds m
  | bvEq x y => m.val x = m.val y
  | not f => ¬ f.Holds m

def Satisfiable (fs : List Formula) : Prop := ∃ m : Model, ∀ f ∈ fs, f.Holds m

inductive SatResult where
  | sat
  | unsat
  | unknown
deriving DecidableEq

/-- An answer other than "unknown" is right. -/
structure Sound (check : List Formula → SatResult) : Prop where
  sat : ∀ fs, check fs = .sat → Satisfiable fs
  unsat : ∀ fs, check fs = .unsat → ¬ Satisfiable fs

/-! ### The encoding -/

structure EncodedGraph where
  bb : FMap UInt32 Formula
  var : FMap UInt32 UInt32
  err : FMap UInt32 Formula
  flowImps : List Formula
  assignEqs : List Formula
  propEqs : List Formula
  errImps : List Formula

/-- One constant for each node of the kinds. -/
def nodeConsts {α : Type} (kinds : List NodeKind) (const : UInt32 → α) :
    FMap UInt32 α :=
  FMap.empty.insertAll
    ((graph.nodes.filter fun n => n.kind ∈ kinds).map fun n => (n.id, const n.id))

def blockConsts : FMap UInt32 Formula :=
  nodeConsts graph [.basicBlock] fun id => .const (.bb id)

def varConsts : FMap UInt32 UInt32 :=
  nodeConsts graph [.variable, .param] id

def errConsts : FMap UInt32 Formula :=
  nodeConsts graph [.error] fun id => .const (.err id)

/-- The formulas of the edges of one kind, where both ends are encoded. -/
def edgeFormulas {α β : Type} (kind : EdgeKind) (src : Edge → Option α) (dst : Edge → Option β)
    (formula : α → β → Formula) : List Formula :=
  graph.edges.filterMap fun e =>
    if e.kind = kind then do
      let s ← src e
      let d ← dst e
      pure (formula s d)
    else none

def build : EncodedGraph where
  bb := blockConsts graph
  var := varConsts graph
  err := errConsts graph
  flowImps :=
    edgeFormulas graph .flow (fun e => blockConsts graph e.src) (fun e => blockConsts graph e.dst)
      fun src dst => .implies src dst
  assignEqs :=
    edgeFormulas graph .assign (fun e => varConsts graph e.src) (fun e => varConsts graph e.dst)
      fun src dst => .bvEq dst src
  propEqs :=
    edgeFormulas graph .propagates (fun e => varConsts graph e.src)
      (fun e => varConsts graph e.dst) fun src dst => .bvEq dst src
  errImps :=
    edgeFormulas graph .errorToBlock (fun e => blockConsts graph e.dst)
      (fun e => errConsts graph e.src) fun block err => .implies block err

def assertAll (enc : EncodedGraph) : List Formula :=
  enc.flowImps ++ enc.assignEqs ++ enc.propEqs ++ enc.errImps

/-! ### Hashes -/

def asU32 (n : Nat) : UInt32 := UInt32.ofNat n

def idText (id : UInt32) : Text := Text.ofNat id.toNat

def fieldU32 (cand : Json) (key : String) : Option UInt32 :=
  ((cand.get key).bind Json.asU64).map asU32

def functionBlocks (fnId : UInt32) : List UInt32 :=
  (graph.edges.filterMap fun e =>
    if e.kind = .hasBlock ∧ e.src = fnId then
      (graph.nodeAt e.dst).bind fun n => if n.kind = .basicBlock then some n.id else none
    else none).mergeSort fun a b => a ≤ b

def functionForBlock (blockId : UInt32) : Option UInt32 :=
  (graph.edges.find? fun e => e.kind = .hasBlock ∧ e.dst = blockId).map Edge.src

/-- The edges of a function as texts. -/
def edgeTexts (blocks : List UInt32) : List Text :=
  (graph.edges.filterMap fun e =>
    if e.kind = .flow ∧ e.src ∈ blocks ∧ e.dst ∈ blocks then
      some ("flow:".toList ++ idText e.src ++ "->".toList ++ idText e.dst)
    else if e.kind = .errorToBlock ∧ e.dst ∈ blocks then
      some ("err:".toList ++ idText e.src ++ "->".toList ++ idText e.dst)
    else none).mergeSort fun a b => String.ofList a ≤ String.ofList b

/-- What a session is given: the solver, the hash of a list of parts, and the clock. -/
structure SmtSession where
  check : List Formula → SatResult
  hashParts : List Text → Text
  nowTs : Nat

variable (S : SmtSession) (graph : AnalysisGraph)

def functionGraphHash (fnId : UInt32) : Text :=
  let blocks := functionBlocks graph fnId
  let header := "fn:".toList ++ idText fnId
  if blocks = [] then S.hashParts [header]
  else
    S.hashParts
      (header :: (blocks.map fun b => "bb:".toList ++ idText b) ++ edgeTexts graph blocks)

variable (enc : EncodedGraph) (cache : ProofCache) (cand : Json)

def invariantGraphHash : Text :=
  match fieldU32 cand "function_id" with
  | some fid => functionGraphHash S graph fid
  | none =>
    match (fieldU32 cand "block_id").bind (functionForBlock graph) with
    | some fid => functionGraphHash S graph fid
    | none => S.hashParts ["graph:".toList ++ Text.ofNat graph.nodes.length]

def invariantKey (predicate graphHash : Text) : Text :=
  S.hashParts ["inv:".toList ++ predicate, graphHash]

/-! ### Candidates -/

structure CacheEntry where
  result : String
  model : Option Json
  graphHash : Text
  timestamp : Nat

abbrev ProofCache := FMap Text CacheEntry

def ProofCache.lookup (key graphHash : Text) : Option CacheEntry :=
  (cache key).bind fun entry => if entry.graphHash = graphHash then some entry else none

structure InvariantSmtResult where
  predicate : Text
  smtVerdict : String
  counterexample : Option Json

def predicateOf : Text :=
  ((cand.get "predicate").bind Json.asText).getD "unknown".toList

def varEqNegation : Option Formula := do
  let l ← enc.var ((fieldU32 cand "lhs").getD 0)
  let r ← enc.var ((fieldU32 cand "rhs").getD 0)
  pure (.not (.bvEq l r))

/-- What the kind of a candidate asserts against it. -/
def kindNegation : Option Formula :=
  match (cand.get "kind").bind Json.asStr with
  | some "bb_true" => ((fieldU32 cand "block_id").bind enc.bb).map .not
  | some "err_unreachable" => (fieldU32 cand "error_id").bind enc.err
  | some "var_eq" => varEqNegation enc cand
  | _ => none

/-- Where the kind asserts nothing, a constant that nothing else speaks of. -/
def negation : Formula :=
  (kindNegation enc cand).getD (.const (.neg (predicateOf cand)))

def verdictOf : String :=
  match S.check (assertAll (build graph) ++ [negation (build graph) cand]) with
  | .unsat => "proven"
  | .sat => "violated"
  | .unknown => "unverified"

def counterexampleOf (verdict : String) : Option Json :=
  if verdict = "violated" then some (.obj []) else none

/-- One candidate. -/
def proveCandidate : InvariantSmtResult × ProofCache :=
  let pred := predicateOf cand
  let graphHash := invariantGraphHash S graph cand
  let key := invariantKey S pred graphHash
  match cache.lookup key graphHash with
  | some entry => (⟨pred, entry.result, entry.model⟩, cache)
  | none =>
    let verdict := verdictOf S graph cand
    let counterexample := counterexampleOf verdict
    (⟨pred, verdict, counterexample⟩,
      cache.insert key ⟨verdict, counterexample, graphHash, S.nowTs⟩)

def proveCandidates : ProofCache → List Json → List InvariantSmtResult × ProofCache
  | cache, [] => ([], cache)
  | cache, cand :: cands =>
    let (result, cache) := proveCandidate S graph cache cand
    let (results, cache) := proveCandidates cache cands
    (result :: results, cache)

def resultJson (r : InvariantSmtResult) : Json :=
  .obj
    [("counterexample", r.counterexample.getD .null),
      ("predicate", .str (String.ofList r.predicate)), ("smt_verdict", .str r.smtVerdict)]

/-- A field of an object, set; the fields stay sorted.  Nothing of any other value. -/
def withField (key : String) (value : Json) : Json → Json
  | .obj entries =>
    .obj ((entries.filter fun e => e.1 < key) ++ (key, value) ::
      entries.filter fun e => key < e.1)
  | j => j

def candidatesOf (invariants : Json) : List Json :=
  ((invariants.get "candidates").bind Json.asArray).getD []

def proveInvariants (invariants : Json) : Json × ProofCache :=
  let (results, cache) := proveCandidates S graph cache (candidatesOf invariants)
  (withField "smt_verdicts" (.arr (results.map resultJson)) invariants, cache)

/-! ### What the encoding states -/

section Encoding

variable {graph : AnalysisGraph}

theorem nodeConsts_eq_some {α : Type} {kinds : List NodeKind} {const : UInt32 → α} {id : UInt32}
    {a : α} :
    nodeConsts graph kinds const id = some a ↔
      a = const id ∧ ∃ n ∈ graph.nodes, n.kind ∈ kinds ∧ n.id = id := by
  unfold nodeConsts
  by_cases h : ∃ n ∈ graph.nodes, n.kind ∈ kinds ∧ n.id = id
  -- Nodes of one identifier give one constant, so the last of them does not matter.
  · obtain ⟨n, hn, hkind, rfl⟩ := h
    have hmem : n ∈ graph.nodes.filter fun n => n.kind ∈ kinds := by simp [hn, hkind]
    rw [FMap.insertAll_map (g := fun m : Node => const m.id) hmem (fun m _ hid => by rw [hid])]
    constructor
    · intro hsome
      exact ⟨(Option.some.inj hsome).symm, n, hn, hkind, rfl⟩
    · intro hright
      rw [hright.1]
  · rw [FMap.insertAll_of_not_mem]
    · simp [h]
    · intro e he hid
      obtain ⟨n, hn, rfl⟩ := List.mem_map.mp he
      have hn := List.mem_filter.mp hn
      exact h ⟨n, hn.1, of_decide_eq_true hn.2, hid⟩

/-- A variable or a parameter of the graph. -/
def IsVar (graph : AnalysisGraph) (id : UInt32) : Prop :=
  ∃ n ∈ graph.nodes, n.kind ∈ [NodeKind.variable, NodeKind.param] ∧ n.id = id

theorem varConsts_eq_some {id v : UInt32} : varConsts graph id = some v ↔ v = id ∧ IsVar graph id :=
  nodeConsts_eq_some

/-- An assignment or a propagation between two variables. -/
def Equates (graph : AnalysisGraph) (x y : UInt32) : Prop :=
  (∃ e ∈ graph.edges, (e.kind = .assign ∨ e.kind = .propagates) ∧ e.dst = x ∧ e.src = y) ∧
    IsVar graph x ∧ IsVar graph y

theorem mem_edgeFormulas {α β : Type} {kind : EdgeKind} {src : Edge → Option α}
    {dst : Edge → Option β} {formula : α → β → Formula} {f : Formula} :
    f ∈ edgeFormulas graph kind src dst formula ↔
      ∃ e ∈ graph.edges, e.kind = kind ∧ ∃ s, src e = some s ∧ ∃ d, dst e = some d ∧
        f = formula s d := by
  unfold edgeFormulas
  rw [List.mem_filterMap]
  constructor
  · intro hf
    obtain ⟨e, he, hf⟩ := hf
    by_cases hkind : e.kind = kind
    · rw [if_pos hkind] at hf
      obtain ⟨s, hs, hf⟩ := Option.bind_eq_some_iff.mp hf
      obtain ⟨d, hd, hf⟩ := Option.bind_eq_some_iff.mp hf
      exact ⟨e, he, hkind, s, hs, d, hd, (Option.some.inj hf).symm⟩
    · rw [if_neg hkind] at hf
      cases hf
  · intro hf
    obtain ⟨e, he, hkind, s, hs, d, hd, rfl⟩ := hf
    refine ⟨e, he, ?_⟩
    rw [if_pos hkind, hs, hd]
    rfl

/-- The formulas of an edge kind between variables. -/
theorem mem_varFormulas {kind : EdgeKind} {f : Formula} :
    f ∈ edgeFormulas graph kind (fun e => varConsts graph e.src) (fun e => varConsts graph e.dst)
        (fun src dst => .bvEq dst src) ↔
      ∃ e ∈ graph.edges, e.kind = kind ∧ IsVar graph e.dst ∧ IsVar graph e.src ∧
        f = .bvEq e.dst e.src := by
  rw [mem_edgeFormulas]
  constructor
  · intro h
    obtain ⟨e, he, hkind, s, hs, d, hd, rfl⟩ := h
    obtain ⟨rfl, hsvar⟩ := varConsts_eq_some.mp hs
    obtain ⟨rfl, hdvar⟩ := varConsts_eq_some.mp hd
    exact ⟨e, he, hkind, hdvar, hsvar, rfl⟩
  · intro h
    obtain ⟨e, he, hkind, hd, hs, rfl⟩ := h
    have hs := varConsts_eq_some.mpr ⟨rfl, hs⟩
    have hd := varConsts_eq_some.mpr ⟨rfl, hd⟩
    exact ⟨e, he, hkind, _, hs, _, hd, rfl⟩

/-- An equation is stated for each pair that the graph equates. -/
theorem bvEq_mem_assertAll {x y : UInt32} (h : Equates graph x y) :
    .bvEq x y ∈ assertAll (build graph) := by
  obtain ⟨⟨e, he, hkind, rfl, rfl⟩, hx, hy⟩ := h
  unfold assertAll
  rcases hkind with hkind | hkind
  · have hmem : Formula.bvEq e.dst e.src ∈ (build graph).assignEqs :=
      mem_varFormulas.mpr ⟨e, he, hkind, hx, hy, rfl⟩
    simp [hmem]
  · have hmem : Formula.bvEq e.dst e.src ∈ (build graph).propEqs :=
      mem_varFormulas.mpr ⟨e, he, hkind, hx, hy, rfl⟩
    simp [hmem]

/-- Whatever is stated is an implication between constants or such an equation. -/
theorem of_mem_assertAll {f : Formula} (h : f ∈ assertAll (build graph)) :
    (∃ a b, f = .implies (.const a) (.const b)) ∨ ∃ x y, f = .bvEq x y ∧ Equates graph x y := by
  have hvar : ∀ {kind : EdgeKind}, kind = .assign ∨ kind = .propagates →
      f ∈ edgeFormulas graph kind (fun e => varConsts graph e.src) (fun e => varConsts graph e.dst)
        (fun src dst => .bvEq dst src) →
      ∃ x y, f = .bvEq x y ∧ Equates graph x y := by
    intro kind hkind hf
    obtain ⟨e, he, rfl, hd, hs, hf⟩ := mem_varFormulas.mp hf
    exact ⟨_, _, hf, ⟨e, he, hkind, rfl, rfl⟩, hd, hs⟩
  unfold assertAll at h
  rcases List.mem_append.mp h with h | h
  · rcases List.mem_append.mp h with h | h
    · rcases List.mem_append.mp h with h | h
      · obtain ⟨e, he, hkind, s, hs, d, hd, rfl⟩ := mem_edgeFormulas.mp h
        obtain ⟨rfl, -⟩ := nodeConsts_eq_some.mp hs
        obtain ⟨rfl, -⟩ := nodeConsts_eq_some.mp hd
        exact .inl ⟨_, _, rfl⟩
      · exact .inr (hvar (.inl rfl) h)
    · exact .inr (hvar (.inr rfl) h)
  · obtain ⟨e, he, hkind, s, hs, d, hd, rfl⟩ := mem_edgeFormulas.mp h
    obtain ⟨rfl, -⟩ := nodeConsts_eq_some.mp hs
    obtain ⟨rfl, -⟩ := nodeConsts_eq_some.mp hd
    exact .inl ⟨_, _, rfl⟩

/-- Where all Boolean constants agree, the equations are all there is. -/
theorem holds_assertAll {m : Model} {b : Bool} (hbool : m.bool = fun _ => b)
    (hval : ∀ x y, Equates graph x y → m.val x = m.val y) :
    ∀ f ∈ assertAll (build graph), f.Holds m := by
  intro f hf
  rcases of_mem_assertAll hf with h | h
  · obtain ⟨c, d, rfl⟩ := h
    show m.bool c = true → m.bool d = true
    rw [hbool]
    exact id
  · obtain ⟨x, y, rfl, hxy⟩ := h
    exact hval x y hxy

/-! ### What can be proved -/

/-- Linked by assignments and propagations, in any direction. -/
def Linked (graph : AnalysisGraph) : UInt32 → UInt32 → Prop :=
  Relation.EqvGen (Equates graph)

theorem Linked.val_eq {x y : UInt32} (h : Linked graph x y) {m : Model}
    (hm : ∀ f ∈ assertAll (build graph), f.Holds m) : m.val x = m.val y := by
  induction h with
  | rel x y hxy => exact hm _ (bvEq_mem_assertAll hxy)
  | refl x => rfl
  | symm x y _ ih => exact ih.symm
  | trans x y z _ _ ihxy ihyz => exact ihxy.trans ihyz

/-- A candidate that says two variables of the graph to be equal. -/
def Equation (graph : AnalysisGraph) (cand : Json) (l r : UInt32) : Prop :=
  (cand.get "kind").bind Json.asStr = some "var_eq" ∧
    (fieldU32 cand "lhs").getD 0 = l ∧ (fieldU32 cand "rhs").getD 0 = r ∧
    IsVar graph l ∧ IsVar graph r

/-- Only equations can be proved, and only between linked variables. -/
def Provable (graph : AnalysisGraph) (cand : Json) : Prop :=
  ∃ l r, Equation graph cand l r ∧ Linked graph l r

theorem varEqNegation_build (graph : AnalysisGraph) (cand : Json) (f : Formula) :
    varEqNegation (build graph) cand = some f ↔
      IsVar graph ((fieldU32 cand "lhs").getD 0) ∧ IsVar graph ((fieldU32 cand "rhs").getD 0) ∧
        f = .not (.bvEq ((fieldU32 cand "lhs").getD 0) ((fieldU32 cand "rhs").getD 0)) := by
  constructor
  · intro h
    obtain ⟨l, hl, h⟩ := Option.bind_eq_some_iff.mp h
    obtain ⟨r, hr, h⟩ := Option.bind_eq_some_iff.mp h
    obtain ⟨rfl, hlvar⟩ := varConsts_eq_some.mp hl
    obtain ⟨rfl, hrvar⟩ := varConsts_eq_some.mp hr
    exact ⟨hlvar, hrvar, (Option.some.inj h).symm⟩
  · intro h
    obtain ⟨hl, hr, rfl⟩ := h
    unfold varEqNegation
    have hl : (build graph).var _ = some _ := varConsts_eq_some.mpr ⟨rfl, hl⟩
    have hr : (build graph).var _ = some _ := varConsts_eq_some.mpr ⟨rfl, hr⟩
    rw [hl, hr]
    rfl

/-- An inequality for an equation; of other candidates one constant or its negation. -/
theorem kindNegation_cases {graph : AnalysisGraph} {cand : Json} {f : Formula}
    (h : kindNegation (build graph) cand = some f) :
    (∃ l r, Equation graph cand l r ∧ f = .not (.bvEq l r)) ∨
      (cand.get "kind").bind Json.asStr ≠ some "var_eq" ∧
        ∃ c, f = .const c ∨ f = .not (.const c) := by
  unfold kindNegation at h
  split at h
  · rename_i hkind
    obtain ⟨g, hg, rfl⟩ := Option.map_eq_some_iff.mp h
    obtain ⟨id, -, hid⟩ := Option.bind_eq_some_iff.mp hg
    have hid : blockConsts graph id = some g := hid
    obtain ⟨rfl, -⟩ := nodeConsts_eq_some.mp hid
    exact .inr ⟨by simp [hkind], _, .inr rfl⟩
  · rename_i hkind
    obtain ⟨id, -, hid⟩ := Option.bind_eq_some_iff.mp h
    have hid : errConsts graph id = some f := hid
    obtain ⟨rfl, -⟩ := nodeConsts_eq_some.mp hid
    exact .inr ⟨by simp [hkind], _, .inl rfl⟩
  · rename_i hkind
    obtain ⟨hl, hr, rfl⟩ := (varEqNegation_build graph cand f).mp h
    exact .inl ⟨_, _, ⟨hkind, rfl, rfl, hl, hr⟩, rfl⟩
  · cases h

/-- What is asserted against a candidate: an inequality, or one constant. -/
theorem negation_cases (graph : AnalysisGraph) (cand : Json) :
    (∃ l r, Equation graph cand l r ∧ negation (build graph) cand = .not (.bvEq l r)) ∨
      (¬ ∃ l r, Equation graph cand l r) ∧
        ∃ c, negation (build graph) cand = .const c ∨
          negation (build graph) cand = .not (.const c) := by
  unfold negation
  cases hneg : kindNegation (build graph) cand with
  | some f =>
    rcases kindNegation_cases hneg with h | ⟨hkind, hc⟩
    · exact .inl h
    · refine .inr ⟨fun h => ?_, hc⟩
      obtain ⟨l, r, heq, -⟩ := h
      exact hkind heq
  | none =>
    refine .inr ⟨fun h => ?_, _, .inl rfl⟩
    obtain ⟨l, r, hkind, rfl, rfl, hl, hr⟩ := h
    have hsame : kindNegation (build graph) cand = varEqNegation (build graph) cand := by
      simp only [kindNegation, hkind]
    rw [hneg, (varEqNegation_build graph cand _).mpr ⟨hl, hr, rfl⟩] at hsame
    cases hsame

theorem satisfiable_iff (graph : AnalysisGraph) (cand : Json) :
    Satisfiable (assertAll (build graph) ++ [negation (build graph) cand]) ↔
      ¬ Provable graph cand := by
  classical
  have hboth : ∀ {m : Model}, (∀ f ∈ assertAll (build graph), f.Holds m) →
      (negation (build graph) cand).Holds m →
      Satisfiable (assertAll (build graph) ++ [negation (build graph) cand]) := by
    intro m hall hneg
    refine ⟨m, fun f hf => ?_⟩
    rcases List.mem_append.mp hf with hf | hf
    · exact hall f hf
    · rw [List.mem_singleton.mp hf]
      exact hneg
  rcases negation_cases graph cand with h | h
  · obtain ⟨l, r, heq, hneg⟩ := h
    constructor
    -- A model agrees on linked variables, and so not with the inequality.
    · intro hsat hprov
      obtain ⟨m, hm⟩ := hsat
      obtain ⟨l', r', heq', hlink⟩ := hprov
      obtain ⟨-, rfl, rfl, -⟩ := heq
      obtain ⟨-, rfl, rfl, -⟩ := heq'
      have hval := hlink.val_eq (m := m) fun f hf => hm f (by simp [hf])
      have hnot := hm (negation (build graph) cand) (by simp)
      rw [hneg] at hnot
      exact hnot hval
    -- The class of the left side is zero, everything else is one.
    · intro hprov
      have hlink : ¬ Linked graph l r := fun hlink => hprov ⟨l, r, heq, hlink⟩
      let m : Model := ⟨fun _ => true, fun x => if Linked graph l x then 0 else 1⟩
      apply hboth (m := m)
      · apply holds_assertAll rfl
        intro x y hxy
        have hiff : Linked graph l x ↔ Linked graph l y := by
          constructor
          · intro hx
            exact hx.trans _ _ _ (.rel _ _ hxy)
          · intro hy
            exact hy.trans _ _ _ (.symm _ _ (.rel _ _ hxy))
        simp only [m, hiff]
      · rw [hneg]
        show m.val l ≠ m.val r
        have hl : m.val l = 0 := if_pos (.refl l)
        have hr : m.val r = 1 := if_neg hlink
        rw [hl, hr]
        decide
  -- One constant is free: all Boolean constants take the value it needs.
  · obtain ⟨hno, c, hneg⟩ := h
    have hprov : ¬ Provable graph cand := by
      intro h
      obtain ⟨l, r, heq, -⟩ := h
      exact hno ⟨l, r, heq⟩
    refine iff_of_true ?_ hprov
    rcases hneg with hneg | hneg
    · refine hboth (m := ⟨fun _ => true, fun _ => 0⟩) (holds_assertAll rfl fun _ _ _ => rfl) ?_
      rw [hneg]
      rfl
    · refine hboth (m := ⟨fun _ => false, fun _ => 0⟩) (holds_assertAll rfl fun _ _ _ => rfl) ?_
      rw [hneg]
      exact Bool.false_ne_true

end Encoding

/-! ### Verdicts -/

theorem verdictOf_cases {S : SmtSession} (hS : Sound S.check) (graph : AnalysisGraph)
    (cand : Json) :
    verdictOf S graph cand = "unverified" ∨
      verdictOf S graph cand = "proven" ∧ Provable graph cand ∨
        verdictOf S graph cand = "violated" ∧ ¬ Provable graph cand := by
  unfold verdictOf
  cases h : S.check (assertAll (build graph) ++ [negation (build graph) cand]) with
  | unknown => exact .inl rfl
  | unsat =>
    have hunsat := hS.unsat _ h
    rw [satisfiable_iff, not_not] at hunsat
    exact .inr (.inl ⟨rfl, hunsat⟩)
  | sat => exact .inr (.inr ⟨rfl, (satisfiable_iff graph cand).mp (hS.sat _ h)⟩)

section Batch

variable {S : SmtSession} {graph : AnalysisGraph}

/-- What the cache takes a candidate to be. -/
def slot (S : SmtSession) (graph : AnalysisGraph) (cand : Json) : Text × Text :=
  (predicateOf cand, invariantGraphHash S graph cand)

def keyOf (S : SmtSession) (graph : AnalysisGraph) (cand : Json) : Text :=
  invariantKey S (slot S graph cand).1 (slot S graph cand).2

/-- Different slots of a batch have different keys. -/
def KeysDistinct (S : SmtSession) (graph : AnalysisGraph) (cands : List Json) : Prop :=
  ∀ c ∈ cands, ∀ c' ∈ cands, keyOf S graph c = keyOf S graph c' → slot S graph c = slot S graph c'

def entryOf (S : SmtSession) (graph : AnalysisGraph) (cand : Json) : CacheEntry where
  result := verdictOf S graph cand
  model := counterexampleOf (verdictOf S graph cand)
  graphHash := (slot S graph cand).2
  timestamp := S.nowTs

/-- The first candidate with the slot of `cand`. -/
def firstLike (S : SmtSession) (graph : AnalysisGraph) (cands : List Json) (cand : Json) :
    Option Json :=
  cands.find? fun c => slot S graph c = slot S graph cand

/-- The result of a candidate: the verdict is that of the first with its slot. -/
def resultIn (S : SmtSession) (graph : AnalysisGraph) (cands : List Json) (cand : Json) :
    InvariantSmtResult :=
  let verdict := verdictOf S graph ((firstLike S graph cands cand).getD cand)
  ⟨predicateOf cand, verdict, counterexampleOf verdict⟩

/-- The cache holds the first of every slot done. -/
def Remembers (S : SmtSession) (graph : AnalysisGraph) (cands done : List Json)
    (cache : ProofCache) : Prop :=
  ∀ c ∈ cands, cache (keyOf S graph c) = (firstLike S graph done c).map (entryOf S graph)

theorem firstLike_slot {done : List Json} {c first : Json}
    (h : firstLike S graph done c = some first) : slot S graph first = slot S graph c :=
  by simpa using List.find?_some h

theorem firstLike_congr {done : List Json} {c c' : Json}
    (h : slot S graph c = slot S graph c') :
    firstLike S graph done c = firstLike S graph done c' := by
  unfold firstLike
  rw [h]

theorem firstLike_append (done rest : List Json) (c : Json) :
    firstLike S graph (done ++ rest) c =
      (firstLike S graph done c).or (firstLike S graph rest c) :=
  List.find?_append

theorem firstLike_self (c : Json) (rest : List Json) :
    firstLike S graph (c :: rest) c = some c :=
  List.find?_cons_of_pos (decide_eq_true rfl)

variable {cands done rest : List Json} {cache : ProofCache}

/-- A slot that was seen: the entry is found, and the cache stays. -/
theorem proveCandidate_seen {c first : Json}
    (hcache : cache (keyOf S graph c) = some (entryOf S graph first))
    (hslot : slot S graph first = slot S graph c) :
    proveCandidate S graph cache c =
      (⟨predicateOf c, verdictOf S graph first, counterexampleOf (verdictOf S graph first)⟩,
        cache) := by
  have hcache : cache (invariantKey S (predicateOf c) (invariantGraphHash S graph c)) =
      some (entryOf S graph first) := hcache
  have hhash : (entryOf S graph first).graphHash = invariantGraphHash S graph c :=
    congrArg Prod.snd hslot
  simp only [proveCandidate, ProofCache.lookup, hcache, Option.bind_some, if_pos hhash]
  rfl

/-- A slot that is new: the solver is asked, and its verdict kept. -/
theorem proveCandidate_new {c : Json} (hcache : cache (keyOf S graph c) = none) :
    proveCandidate S graph cache c =
      (⟨predicateOf c, verdictOf S graph c, counterexampleOf (verdictOf S graph c)⟩,
        cache.insert (keyOf S graph c) (entryOf S graph c)) := by
  have hcache : cache (invariantKey S (predicateOf c) (invariantGraphHash S graph c)) = none :=
    hcache
  simp only [proveCandidate, ProofCache.lookup, hcache, Option.bind_none]
  rfl

theorem firstLike_singleton (c c' : Json) :
    firstLike S graph [c] c' = if slot S graph c = slot S graph c' then some c else none := by
  unfold firstLike
  by_cases h : slot S graph c = slot S graph c' <;> simp [h]

theorem Remembers.seen (h : Remembers S graph cands done cache) {c first : Json}
    (hdone : firstLike S graph done c = some first) :
    Remembers S graph cands (done ++ [c]) cache := by
  intro c' hc'
  rw [firstLike_append, h c' hc', firstLike_singleton]
  by_cases hsame : slot S graph c = slot S graph c'
  · rw [← firstLike_congr hsame, hdone]
    rfl
  · rw [if_neg hsame, Option.or_none]

theorem Remembers.new (h : Remembers S graph cands done cache)
    (hkeys : KeysDistinct S graph cands) {c : Json} (hc : c ∈ cands)
    (hdone : firstLike S graph done c = none) :
    Remembers S graph cands (done ++ [c])
      (cache.insert (keyOf S graph c) (entryOf S graph c)) := by
  intro c' hc'
  rw [firstLike_append, firstLike_singleton]
  by_cases hsame : slot S graph c = slot S graph c'
  -- The entry just put in, and the first of its slot.
  · have hkey : keyOf S graph c' = keyOf S graph c := by
      unfold keyOf
      rw [hsame]
    rw [hkey, FMap.insert_self, ← firstLike_congr hsame, hdone, if_pos hsame]
    rfl
  -- Another slot, and by the keys another entry.
  · have hkey : keyOf S graph c' ≠ keyOf S graph c := by
      intro hkey
      exact hsame (hkeys c hc c' hc' hkey.symm)
    rw [FMap.insert_of_ne _ _ hkey, h c' hc', if_neg hsame, Option.or_none]

/-- One candidate of a batch. -/
theorem Remembers.step (h : Remembers S graph cands done cache)
    (hkeys : KeysDistinct S graph cands) {c : Json} (hcands : cands = done ++ c :: rest) :
    (proveCandidate S graph cache c).1 = resultIn S graph cands c ∧
      Remembers S graph cands (done ++ [c]) (proveCandidate S graph cache c).2 := by
  have hc : c ∈ cands := by simp [hcands]
  have hfirst : firstLike S graph cands c = (firstLike S graph done c).or (some c) := by
    rw [hcands, firstLike_append, firstLike_self]
  have hcache := h c hc
  unfold resultIn
  rw [hfirst]
  cases hdone : firstLike S graph done c with
  | some first =>
    rw [hdone] at hcache
    rw [proveCandidate_seen hcache (firstLike_slot hdone)]
    exact ⟨rfl, h.seen hdone⟩
  | none =>
    rw [hdone] at hcache
    rw [proveCandidate_new hcache]
    exact ⟨rfl, h.new hkeys hc hdone⟩

/-- A whole batch. -/
theorem Remembers.run (h : Remembers S graph cands done cache)
    (hkeys : KeysDistinct S graph cands) (hcands : cands = done ++ rest) :
    (proveCandidates S graph cache rest).1 = rest.map (resultIn S graph cands) := by
  induction rest generalizing done cache with
  | nil => rfl
  | cons c rest ih =>
    obtain ⟨hresult, hnext⟩ := h.step hkeys hcands
    have htail := ih hnext (by simp [hcands])
    show (proveCandidate S graph cache c).1 ::
      (proveCandidates S graph (proveCandidate S graph cache c).2 rest).1 = _
    rw [hresult, htail]
    rfl

end Batch

/-- **A batch of invariants.**  Every candidate gets the verdict of the first one with
    its predicate and graph hash.  Where the solver answers, that verdict is "proven" for
    the equations between linked variables, and "violated" for everything else. -/
theorem verdicts_of_batch (S : SmtSession) (graph : AnalysisGraph) (hS : Sound S.check)
    (invariants : Json) (hkeys : KeysDistinct S graph (candidatesOf invariants)) :
    (proveInvariants S graph .empty invariants).1 =
        withField "smt_verdicts"
          (.arr ((candidatesOf invariants).map fun cand =>
            resultJson (resultIn S graph (candidatesOf invariants) cand))) invariants ∧
      ∀ cand, verdictOf S graph cand = "unverified" ∨
        verdictOf S graph cand = "proven" ∧ Provable graph cand ∨
          verdictOf S graph cand = "violated" ∧ ¬ Provable graph cand := by
  have hempty : Remembers S graph (candidatesOf invariants) [] .empty := fun _ _ => rfl
  have hrun : (proveCandidates S graph .empty (candidatesOf invariants)).1 =
      (candidatesOf invariants).map (resultIn S graph (candidatesOf invariants)) :=
    hempty.run hkeys rfl
  refine ⟨?_, verdictOf_cases hS graph⟩
  unfold proveInvariants
  show withField _ (.arr ((proveCandidates S graph _ _).1.map resultJson)) _ = _
  rw [hrun, List.map_map]
  rfl

open Classical in
/-- A session whose solver always decides, and whose hash is the text that is hashed. -/
noncomputable def decidingSession : SmtSession where
  check fs := if Satisfiable fs then .sat else .unsat
  hashParts parts := parts.flatMap fun part => part ++ ['\x00']
  nowTs := 0

theorem decidingSession_sound : Sound decidingSession.check where
  sat := by
    intro fs h
    by_contra hsat
    have hcheck : decidingSession.check fs = .unsat := if_neg hsat
    rw [hcheck] at h
    cases h
  unsat := by
    intro fs h hsat
    have hcheck : decidingSession.check fs = .sat := if_pos hsat
    rw [hcheck] at h
    cases h

/-- A variable assigned to another, and three candidates: the second takes the verdict
    of the first, whose predicate it has. -/
theorem verdicts_of_batch_copy :
    let graph : AnalysisGraph :=
      ⟨[⟨1, .variable⟩, ⟨2, .variable⟩, ⟨3, .basicBlock⟩], [⟨1, 2, .assign⟩]⟩
    let equation : Json :=
      .obj [("kind", .str "var_eq"), ("lhs", .nat 1), ("predicate", .str "copy"), ("rhs", .nat 2)]
    let reversed : Json :=
      .obj [("kind", .str "var_eq"), ("lhs", .nat 2), ("predicate", .str "copy"), ("rhs", .nat 1)]
    let block : Json :=
      .obj [("block_id", .nat 3), ("kind", .str "bb_true"), ("predicate", .str "entered")]
    let invariants : Json := .obj [("candidates", .arr [equation, reversed, block])]
    (proveInvariants decidingSession graph .empty invariants).1 =
        withField "smt_verdicts"
          (.arr ((candidatesOf invariants).map fun cand =>
            resultJson (resultIn decidingSession graph (candidatesOf invariants) cand)))
          invariants ∧
      ∀ cand, verdictOf decidingSession graph cand = "unverified" ∨
        verdictOf decidingSession graph cand = "proven" ∧ Provable graph cand ∨
          verdictOf decidingSession graph cand = "violated" ∧ ¬ Provable graph cand :=
  verdicts_of_batch decidingSession _ decidingSession_sound _ (by
    show ∀ c ∈ _, ∀ c' ∈ _, _ = _ → _ = _
    decide +kernel)

end Canon.Analysis.Smt
