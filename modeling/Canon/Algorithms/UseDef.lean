import Mathlib.Data.Finset.Prod
import Canon.Lib.Fallible
import Canon.Algorithms.ReachingDefinitions

/-! # Use-def chains

    `build_use_def_chains` of `control_flow/use_def.rs`: for every use of a variable, each of
    its definitions is searched for a path to the use that meets no other definition.

    * `search`, `canReachWithoutRedef`, `buildUseDefChains`: the model,
    * `Searched`: what the search has seen, preserved by its steps,
    * `canReachWithoutRedef_spec`: the paths it finds,
    * `predecessors`, `dataflowFacts`: the same graph and facts for the reaching definitions,
    * `use_def_chains_agree`: both analyses find the same.
-/

namespace Canon.Algorithms.UseDef

open Relation ReachingDefinitions

variable (adj : List (List BlockId)) (facts : UseDefFacts)

/-! ### Model -/

abbrev VarId := Nat

/-- The variables in the order in which the map gives them, and the sets of blocks in the
    order in which they are gone through. -/
structure UseDefFacts where
  defs : List (VarId × List BlockId)
  uses : FMap VarId (List BlockId)
  nodup : (defs.map Prod.fst).Nodup

/-- The neighbours of a block are pushed, except where a definition cuts the chain; nothing
    when one of them is the block that is searched for. -/
def pushNeighbours (n target : Nat) (redefs : List BlockId) :
    List BlockId → List BlockId → Option (List BlockId)
  | [], stack => some stack
  | v :: rest, stack =>
    if v ≥ n then pushNeighbours n target redefs rest stack
    else if v = target then none
    else if v ∈ redefs then pushNeighbours n target redefs rest stack
    else pushNeighbours n target redefs rest (v :: stack)

/-- Nothing for a block that is out of range, where the code panics, and when the fuel is
    spent. -/
def search (adj : List (List BlockId)) (target : BlockId) (redefs : List BlockId) :
    Nat → (BlockId → Bool) → List BlockId → Option Bool
  | 0, _, _ => none
  | _ + 1, _, [] => some false
  | fuel + 1, visited, u :: stack =>
    match adj[u]? with
    | none => none
    | some neighbours =>
      if visited u then search adj target redefs fuel visited stack
      else
        match pushNeighbours adj.length target redefs neighbours stack with
        | none => some true
        | some stack => search adj target redefs fuel (Function.update visited u true) stack

/-- How many neighbours there are in all. -/
def edges : Nat := (adj.map List.length).sum

def canReachWithoutRedef (redefs : List BlockId) (start target : BlockId) : Option Bool :=
  if start = target then some true
  else search adj target redefs (edges adj + 2) (fun _ => false) [start]

/-- The test of one definition against one use. -/
def reachesUse (defBlocks : List BlockId) (defBlock useBlock : BlockId) : Option Bool :=
  if defBlock = useBlock then some true
  else canReachWithoutRedef adj defBlocks defBlock useBlock

/-- The definitions that reach one use. -/
def reachingAt (defBlocks : List BlockId) (useBlock : BlockId) :
    Option (Finset BlockId) :=
  defBlocks.foldlM (fun reaching defBlock => do
    let reaches ← reachesUse adj defBlocks defBlock useBlock
    pure (if reaches then insert defBlock reaching else reaching)) ∅

/-- The chains of one variable. -/
def varChains (defBlocks useBlocks : List BlockId) :
    Option (FMap BlockId (Finset BlockId)) := do
  let entries ← useBlocks.mapM fun useBlock => do
    let reaching ← reachingAt adj defBlocks useBlock
    pure (useBlock, reaching)
  pure (FMap.empty.insertAll entries)

def buildUseDefChains :
    Option (FMap VarId (FMap BlockId (Finset BlockId))) := do
  let entries ← facts.defs.mapM fun entry => do
    let chains ← varChains adj entry.2 ((facts.uses entry.1).getD [])
    pure (entry.1, chains)
  pure (FMap.empty.insertAll entries)

/-! ### The same graph and facts for the reaching definitions -/

/-- The blocks of the graph that have an edge to a block. -/
def predecessors : FMap BlockId (List BlockId) := fun b =>
  if b < adj.length then
    some ((List.range adj.length).filter fun p => b ∈ adj.getD p [])
  else none

def UseDefFacts.defBlocks (v : VarId) : List BlockId :=
  (facts.defs.lookup v).getD []

/-- The variables that a block defines. -/
def UseDefFacts.definedIn (b : BlockId) : Finset VarId :=
  (facts.defs.map Prod.fst).toFinset.filter fun v => b ∈ facts.defBlocks v

/-- A block makes its own definitions and kills the others of the same variables. -/
def dataflowFacts :
    DataflowFacts (VarId × BlockId) where
  gen b := some (facts.definedIn b ×ˢ {b})
  kill b := some (facts.definedIn b ×ˢ (Finset.range adj.length).erase b)

/-- The definitions and the uses are in blocks of the graph. -/
def InBlocks : Prop :=
  (∀ e ∈ facts.defs, ∀ b ∈ e.2, b < adj.length) ∧
    ∀ v us, facts.uses v = some us → ∀ b ∈ us, b < adj.length

/-! ### The search -/

/-- An edge of the graph: a neighbour that is out of range is none. -/
def Edge (a b : BlockId) : Prop :=
  b ∈ adj.getD a [] ∧ b < adj.length

/-- An edge to a block that does not define the variable. -/
def Clear (redefs : List BlockId) (a b : BlockId) : Prop :=
  Edge adj a b ∧ b ∉ redefs

/-- A path of at least one edge with no definition on it. -/
def ReachesClear (redefs : List BlockId) (start target : BlockId) :
    Prop :=
  ∃ q, ReflTransGen (Clear adj redefs) start q ∧ Edge adj q target

variable {adj : List (List BlockId)} {redefs stack rest : List BlockId} {start target u v : BlockId}
  {visited : BlockId → Bool} {n : Nat}

theorem edge_lt (h : Edge adj u v) : u < adj.length := by
  by_contra hout
  have hnone := h.1
  rw [List.getD_eq_getElem?_getD, List.getElem?_eq_none (Nat.le_of_not_lt hout)] at hnone
  exact List.not_mem_nil hnone

theorem pushNeighbours_none (h : pushNeighbours n target redefs rest stack = none) :
    target ∈ rest ∧ target < n := by
  fun_induction pushNeighbours n target redefs rest stack with
  | case1 stack => cases h
  | case2 v rest stack hv ih =>
    exact ⟨List.mem_cons_of_mem v (ih h).1, (ih h).2⟩
  | case3 rest stack hv => exact ⟨List.mem_cons_self, Nat.lt_of_not_le hv⟩
  | case4 v rest stack hv hne hmem ih =>
    exact ⟨List.mem_cons_of_mem v (ih h).1, (ih h).2⟩
  | case5 v rest stack hv hne hmem ih =>
    exact ⟨List.mem_cons_of_mem v (ih h).1, (ih h).2⟩

/-- What is on the stack afterwards. -/
theorem pushNeighbours_some {out : List BlockId}
    (h : pushNeighbours n target redefs rest stack = some out) :
    (∀ v, v ∈ out ↔ v ∈ stack ∨ (v ∈ rest ∧ v < n ∧ v ∉ redefs)) ∧
      (∀ v ∈ rest, v < n → v ≠ target) ∧ out.length ≤ stack.length + rest.length := by
  fun_induction pushNeighbours n target redefs rest stack with
  | case1 stack =>
    rw [Option.some.inj h]
    simp
  | case2 w rest stack hw ih =>
    obtain ⟨hmem, hto, hlength⟩ := ih h
    refine ⟨?_, ?_, ?_⟩
    · intro v
      rw [hmem, List.mem_cons]
      by_cases hvw : v = w
      · rw [hvw]
        have hnot : ¬ w < n := Nat.not_lt_of_le hw
        simp [hnot]
      · simp [hvw]
    · intro v hv hlt
      rcases List.mem_cons.mp hv with rfl | hv
      · exact absurd hlt (Nat.not_lt_of_le hw)
      · exact hto v hv hlt
    · rw [List.length_cons]
      omega
  | case3 rest stack hw => cases h
  | case4 w rest stack hw hne hmem' ih =>
    obtain ⟨hmem, hto, hlength⟩ := ih h
    refine ⟨?_, ?_, ?_⟩
    · intro v
      rw [hmem, List.mem_cons]
      by_cases hvw : v = w
      · rw [hvw]
        simp [hmem']
      · simp [hvw]
    · intro v hv hlt
      rcases List.mem_cons.mp hv with rfl | hv
      · exact hne
      · exact hto v hv hlt
    · rw [List.length_cons]
      omega
  | case5 w rest stack hw hne hmem' ih =>
    obtain ⟨hmem, hto, hlength⟩ := ih h
    refine ⟨?_, ?_, ?_⟩
    · intro v
      rw [hmem, List.mem_cons, List.mem_cons]
      by_cases hvw : v = w
      · rw [hvw]
        have hlt : w < n := Nat.lt_of_not_le hw
        simp [hmem', hlt]
      · simp [hvw]
    · intro v hv hlt
      rcases List.mem_cons.mp hv with rfl | hv
      · exact hne
      · exact hto v hv hlt
    · rw [List.length_cons] at hlength ⊢
      omega

/-- What the search has seen: the blocks on the stack and the visited ones are reached, and
    the edges of a visited block have been followed. -/
structure Searched (adj : List (List BlockId)) (redefs : List BlockId) (start target : BlockId)
    (visited : BlockId → Bool) (stack : List BlockId) : Prop where
  seen : visited start = true ∨ start ∈ stack
  reached : ∀ v ∈ stack, ReflTransGen (Clear adj redefs) start v
  inRange : ∀ v ∈ stack, v < adj.length
  followed : ∀ u, visited u = true → ∀ v, Edge adj u v → v ≠ target ∧
    (v ∉ redefs → visited v = true ∨ v ∈ stack)

theorem Searched.skip (h : Searched adj redefs start target visited (u :: stack))
    (hu : visited u = true) : Searched adj redefs start target visited stack := by
  have hleft : ∀ {v}, visited v = true ∨ v ∈ u :: stack → visited v = true ∨ v ∈ stack := by
    intro v hor
    rcases hor with hv | hv
    · exact .inl hv
    · rcases List.mem_cons.mp hv with rfl | hv
      · exact .inl hu
      · exact .inr hv
  refine ⟨hleft h.seen, fun v hv => h.reached v (List.mem_cons_of_mem u hv),
    fun v hv => h.inRange v (List.mem_cons_of_mem u hv), ?_⟩
  intro w hw v hedge
  obtain ⟨hne, hseen⟩ := h.followed w hw v hedge
  exact ⟨hne, fun hv => hleft (hseen hv)⟩

theorem Searched.visit {out : List BlockId}
    (h : Searched adj redefs start target visited (u :: stack))
    (hpush : pushNeighbours adj.length target redefs (adj.getD u []) stack = some out) :
    Searched adj redefs start target (Function.update visited u true) out := by
  obtain ⟨hmem, hto, -⟩ := pushNeighbours_some hpush
  have hseen : ∀ {v}, visited v = true ∨ v ∈ u :: stack →
      Function.update visited u true v = true ∨ v ∈ out := by
    intro v hor
    by_cases hvu : v = u
    · left
      rw [hvu, Function.update_self]
    · rw [Function.update_of_ne hvu]
      rcases hor with hv | hv
      · exact .inl hv
      · exact .inr ((hmem v).mpr (.inl ((List.mem_cons.mp hv).resolve_left hvu)))
  refine ⟨hseen h.seen, ?_, ?_, ?_⟩
  · intro v hv
    rcases (hmem v).mp hv with hv | ⟨hv, hlt, hdef⟩
    · exact h.reached v (List.mem_cons_of_mem u hv)
    · exact (h.reached u List.mem_cons_self).tail ⟨⟨hv, hlt⟩, hdef⟩
  · intro v hv
    rcases (hmem v).mp hv with hv | ⟨-, hlt, -⟩
    · exact h.inRange v (List.mem_cons_of_mem u hv)
    · exact hlt
  · intro w hw v hedge
    by_cases hwu : w = u
    · rw [hwu] at hedge
      exact ⟨hto v hedge.1 hedge.2,
        fun hdef => .inr ((hmem v).mpr (.inr ⟨hedge.1, hedge.2, hdef⟩))⟩
    · rw [Function.update_of_ne hwu] at hw
      obtain ⟨hne, hfollowed⟩ := h.followed w hw v hedge
      exact ⟨hne, fun hdef => hseen (hfollowed hdef)⟩

/-- A search that has nothing left to look at has seen every path. -/
theorem Searched.not_reaches (h : Searched adj redefs start target visited []) :
    ¬ ReachesClear adj redefs start target := by
  intro ⟨q, hpath, hedge⟩
  have hvisited : ∀ {q}, ReflTransGen (Clear adj redefs) start q → visited q = true := by
    intro q hpath
    induction hpath with
    | refl => exact h.seen.resolve_right List.not_mem_nil
    | tail _ hstep ih =>
      exact ((h.followed _ ih _ hstep.1).2 hstep.2).resolve_right List.not_mem_nil
  exact (h.followed q (hvisited hpath) target hedge).1 rfl

/-- How many neighbours the blocks that are not visited have. -/
def unfollowed (adj : List (List BlockId)) (visited : BlockId → Bool) : Nat :=
  ((List.range adj.length).map fun u => if visited u then 0 else (adj.getD u []).length).sum

theorem unfollowed_update (hu : u < adj.length) (hnew : visited u = false) :
    unfollowed adj (Function.update visited u true) + (adj.getD u []).length =
      unfollowed adj visited := by
  have hsplit : ∀ l : List BlockId, l.Nodup → u ∈ l →
      (l.map fun w => if Function.update visited u true w then 0 else (adj.getD w []).length).sum +
        (adj.getD u []).length =
      (l.map fun w => if visited w then 0 else (adj.getD w []).length).sum := by
    intro l hnodup hmem
    obtain ⟨front, back, rfl⟩ := List.append_of_mem hmem
    have hother : ∀ w ∈ front ++ back, w ≠ u := by
      intro w hw heq
      rw [heq] at hw
      exact (List.nodup_middle.mp hnodup |> List.nodup_cons.mp).1 hw
    have hsame : ∀ l' : List BlockId, (∀ w ∈ l', w ≠ u) →
        (l'.map fun w => if Function.update visited u true w then 0 else (adj.getD w []).length) =
          l'.map fun w => if visited w then 0 else (adj.getD w []).length := by
      intro l' hl'
      apply List.map_congr_left
      intro w hw
      rw [Function.update_of_ne (hl' w hw)]
    rw [List.map_append, List.map_append, List.map_cons, List.map_cons, List.sum_append,
      List.sum_append, List.sum_cons, List.sum_cons, Function.update_self, hnew,
      hsame front fun w hw => hother w (List.mem_append_left _ hw),
      hsame back fun w hw => hother w (List.mem_append_right _ hw)]
    simp only [if_true, Bool.false_eq_true, if_false]
    omega
  exact hsplit _ List.nodup_range (List.mem_range.mpr hu)

/-- The search ends and finds a path where there is one. -/
theorem search_spec (fuel : Nat) : ∀ (visited : BlockId → Bool) (stack : List BlockId),
    Searched adj redefs start target visited stack →
      stack.length + unfollowed adj visited < fuel →
        ∃ found, search adj target redefs fuel visited stack = some found ∧
          (found = true ↔ ReachesClear adj redefs start target) := by
  induction fuel with
  | zero =>
    intro visited stack _ hfuel
    omega
  | succ fuel ih =>
    intro visited stack h hfuel
    match stack with
    | [] =>
      refine ⟨false, rfl, ?_⟩
      simp [h.not_reaches]
    | u :: stack =>
      have hu := h.inRange u List.mem_cons_self
      rw [search, List.getElem?_eq_getElem hu]
      have hneighbours : adj[u] = adj.getD u [] := by
        rw [List.getD_eq_getElem?_getD, List.getElem?_eq_getElem hu, Option.getD_some]
      rw [List.length_cons] at hfuel
      by_cases hvisited : visited u = true
      · simp only [hvisited, if_true]
        exact ih visited stack (h.skip hvisited) (by omega)
      · simp only [hvisited, if_false, Bool.false_eq_true]
        rw [hneighbours]
        cases hpush : pushNeighbours adj.length target redefs (adj.getD u []) stack with
        | none =>
          refine ⟨true, rfl, ?_⟩
          simp only [true_iff]
          exact ⟨u, h.reached u List.mem_cons_self, pushNeighbours_none hpush⟩
        | some out =>
          have hcount := unfollowed_update hu (Bool.eq_false_iff.mpr hvisited)
          obtain ⟨-, -, hlength⟩ := pushNeighbours_some hpush
          exact ih _ out (h.visit hpush) (by omega)

theorem unfollowed_none (adj : List (List BlockId)) :
    unfollowed adj (fun _ => false) = edges adj := by
  rw [unfollowed, edges]
  congr 1
  apply List.ext_getElem
  · simp
  · intro i hi hi'
    rw [List.length_map] at hi'
    simp [List.getD_eq_getElem?_getD, List.getElem?_eq_getElem hi']

theorem canReachWithoutRedef_spec (hstart : start < adj.length) (hne : start ≠ target) :
    ∃ found, canReachWithoutRedef adj redefs start target = some found ∧
      (found = true ↔ ReachesClear adj redefs start target) := by
  rw [canReachWithoutRedef, if_neg hne]
  apply search_spec
  · refine ⟨.inr List.mem_cons_self, ?_, ?_, fun u hu => by cases hu⟩
    · intro v hv
      rw [List.mem_singleton.mp hv]
    · intro v hv
      rw [List.mem_singleton.mp hv]
      exact hstart
  · rw [unfollowed_none, List.length_singleton]
    omega

/-! ### The chains -/

theorem reachesUse_spec {defBlocks : List BlockId} {d useBlock : BlockId}
    (hd : d < adj.length) :
    ∃ found, reachesUse adj defBlocks d useBlock = some found ∧
      (found = true ↔ d = useBlock ∨ ReachesClear adj defBlocks d useBlock) := by
  rw [reachesUse]
  by_cases heq : d = useBlock
  · exact ⟨true, if_pos heq, by simp [heq]⟩
  · rw [if_neg heq]
    obtain ⟨found, hrun, hiff⟩ : ∃ found,
        canReachWithoutRedef adj defBlocks d useBlock = some found ∧
          (found = true ↔ ReachesClear adj defBlocks d useBlock) :=
      canReachWithoutRedef_spec hd heq
    exact ⟨found, hrun, by simp [heq, hiff]⟩

theorem reachingAt_spec {defBlocks : List BlockId} (hdefs : ∀ d ∈ defBlocks, d < adj.length)
    (useBlock : BlockId) :
    ∃ reaching, reachingAt adj defBlocks useBlock = some reaching ∧
      ∀ d, d ∈ reaching ↔
        d ∈ defBlocks ∧ (d = useBlock ∨ ReachesClear adj defBlocks d useBlock) := by
  have hloop : ∀ rest : List BlockId, (∀ d ∈ rest, d < adj.length) → ∀ acc : Finset BlockId,
      ∃ reaching, rest.foldlM (fun reaching defBlock => do
          let reaches ← reachesUse adj defBlocks defBlock useBlock
          pure (if reaches then insert defBlock reaching else reaching)) acc = some reaching ∧
        ∀ d, d ∈ reaching ↔ d ∈ acc ∨
          (d ∈ rest ∧ (d = useBlock ∨ ReachesClear adj defBlocks d useBlock)) := by
    intro rest
    induction rest with
    | nil =>
      intro _ acc
      exact ⟨acc, rfl, by simp⟩
    | cons w rest ih =>
      intro hrest acc
      obtain ⟨hw, hrest⟩ := List.forall_mem_cons.mp hrest
      obtain ⟨found, hfound, hiff⟩ : ∃ found, reachesUse adj defBlocks w useBlock = some found ∧
          (found = true ↔ w = useBlock ∨ ReachesClear adj defBlocks w useBlock) :=
        reachesUse_spec hw
      obtain ⟨reaching, hrun, hall⟩ := ih hrest (if found then insert w acc else acc)
      refine ⟨reaching, ?_, ?_⟩
      · rw [List.foldlM_cons, hfound]
        exact hrun
      · intro d
        rw [hall, List.mem_cons]
        by_cases hd : d = w
        · rw [hd]
          cases found with
          | true => simp [hiff.mp rfl]
          | false =>
            have hnot : ¬ (w = useBlock ∨ ReachesClear adj defBlocks w useBlock) :=
              fun h => absurd (hiff.mpr h) (by decide)
            simp [hnot]
        · cases found with
          | true => simp [hd]
          | false => simp [hd]
  obtain ⟨reaching, hrun, hall⟩ := hloop defBlocks hdefs ∅
  refine ⟨reaching, hrun, ?_⟩
  intro d
  rw [hall]
  simp

theorem varChains_spec {defBlocks : List BlockId} (hdefs : ∀ d ∈ defBlocks, d < adj.length)
    (useBlocks : List BlockId) :
    ∃ chains, varChains adj defBlocks useBlocks = some chains ∧
      ∀ u ∈ useBlocks, ∃ reaching, chains u = some reaching ∧
        ∀ d, d ∈ reaching ↔ d ∈ defBlocks ∧ (d = u ∨ ReachesClear adj defBlocks d u) := by
  choose reaching hrun hall using fun useBlock => reachingAt_spec hdefs useBlock
  refine ⟨FMap.empty.insertAll (useBlocks.map fun u => (u, reaching u)), ?_, ?_⟩
  · rw [varChains, mapM_eq_some (g := fun u => (u, reaching u)) fun u _ => by rw [hrun u]; rfl]
    rfl
  · intro u hu
    refine ⟨reaching u, ?_, hall u⟩
    exact FMap.insertAll_map (f := id) hu (fun w _ hw => congrArg reaching hw) _

theorem buildUseDefChains_spec {facts : UseDefFacts} (hin : InBlocks adj facts) :
    ∃ chains, buildUseDefChains adj facts = some chains ∧
      ∀ e ∈ facts.defs, ∃ m, chains e.1 = some m ∧
        ∀ u ∈ (facts.uses e.1).getD [], ∃ reaching, m u = some reaching ∧
          ∀ d, d ∈ reaching ↔ d ∈ e.2 ∧ (d = u ∨ ReachesClear adj e.2 d u) := by
  have hone : ∀ e : VarId × List BlockId, ∃ m, e ∈ facts.defs →
      varChains adj e.2 ((facts.uses e.1).getD []) = some m ∧
        ∀ u ∈ (facts.uses e.1).getD [], ∃ reaching, m u = some reaching ∧
          ∀ d, d ∈ reaching ↔ d ∈ e.2 ∧ (d = u ∨ ReachesClear adj e.2 d u) := by
    intro e
    by_cases he : e ∈ facts.defs
    · obtain ⟨m, hrun, hall⟩ := varChains_spec (hin.1 e he) ((facts.uses e.1).getD [])
      exact ⟨m, fun _ => ⟨hrun, hall⟩⟩
    · exact ⟨FMap.empty, fun hmem => absurd hmem he⟩
  choose m hm using hone
  refine ⟨FMap.empty.insertAll (facts.defs.map fun e => (e.1, m e)), ?_, ?_⟩
  · rw [buildUseDefChains, mapM_eq_some (g := fun e => (e.1, m e)) fun e he => by
      rw [(hm e he).1]; rfl]
    rfl
  · intro e he
    refine ⟨m e, ?_, (hm e he).2⟩
    refine FMap.insertAll_map (f := Prod.fst) he ?_ _
    intro e' he' hkey
    rw [List.inj_on_of_nodup_map facts.nodup he' he hkey]

/-! ### The reaching definitions -/

theorem mem_predBlocks {a b : BlockId} : a ∈ predBlocks (predecessors adj) b ↔ Edge adj a b := by
  rw [predBlocks, predecessors]
  constructor
  · intro h
    split at h
    · rename_i hb
      obtain ⟨-, hmem⟩ := List.mem_filter.mp h
      exact ⟨of_decide_eq_true hmem, hb⟩
    · exact absurd h List.not_mem_nil
  · intro h
    rw [if_pos h.2, Option.getD_some]
    exact List.mem_filter.mpr ⟨List.mem_range.mpr (edge_lt h), decide_eq_true h.1⟩

theorem predecessors_closed (adj : List (List BlockId)) :
    Closed (List.range adj.length) (predecessors adj) := by
  intro b _ p hp
  exact List.mem_range.mpr (edge_lt (mem_predBlocks.mp hp))

theorem defBlocks_of_mem {facts : UseDefFacts} {e : VarId × List BlockId} (he : e ∈ facts.defs) :
    facts.defBlocks e.1 = e.2 := by
  obtain ⟨front, back, hsplit⟩ := List.append_of_mem he
  have hnodup := facts.nodup
  rw [hsplit, List.map_append, List.map_cons] at hnodup
  have hlookup : facts.defs.lookup e.1 = some e.2 := by
    rw [List.lookup_eq_some_iff]
    refine ⟨front, back, hsplit, ?_⟩
    intro e' he'
    rw [bne_iff_ne]
    intro hkey
    have hdisjoint := (List.nodup_append.mp hnodup).2.2 e'.1 (List.mem_map_of_mem he') e.1
      List.mem_cons_self
    exact hdisjoint hkey.symm
  rw [UseDefFacts.defBlocks, hlookup, Option.getD_some]

variable {facts : UseDefFacts} {e : VarId × List BlockId} {d b : BlockId}

theorem mem_definedIn (he : e ∈ facts.defs) : e.1 ∈ facts.definedIn b ↔ b ∈ e.2 := by
  rw [UseDefFacts.definedIn, Finset.mem_filter, defBlocks_of_mem he, List.mem_toFinset]
  simp only [List.mem_map_of_mem he, true_and]

theorem mem_gen (he : e ∈ facts.defs) :
    (e.1, d) ∈ (dataflowFacts adj facts).genOf b ↔ b ∈ e.2 ∧ d = b := by
  show (e.1, d) ∈ facts.definedIn b ×ˢ {b} ↔ _
  rw [Finset.mem_product, mem_definedIn he, Finset.mem_singleton]

theorem mem_kill (he : e ∈ facts.defs) :
    (e.1, d) ∈ (dataflowFacts adj facts).killOf b ↔ b ∈ e.2 ∧ d ≠ b ∧ d < adj.length := by
  show (e.1, d) ∈ facts.definedIn b ×ˢ (Finset.range adj.length).erase b ↔ _
  rw [Finset.mem_product, mem_definedIn he, Finset.mem_erase, Finset.mem_range]

/-- A block lets a definition pass when it does not define the variable, or is the block of
    that definition. -/
theorem passes_iff {a : BlockId} (he : e ∈ facts.defs) (hd : d < adj.length) :
    Passes (predecessors adj) (dataflowFacts adj facts) (e.1, d) a b ↔
      Edge adj a b ∧ (b ∈ e.2 → d = b) := by
  rw [Passes, mem_predBlocks, mem_gen he, mem_kill he]
  constructor
  · intro ⟨hedge, hpass⟩
    refine ⟨hedge, ?_⟩
    intro hb
    by_contra hne
    exact hne (hpass ⟨hb, hne, hd⟩).2
  · intro ⟨hedge, hpass⟩
    exact ⟨hedge, fun hkill => absurd (hpass hkill.1) hkill.2.1⟩

/-- The paths of both analyses: a path that comes back to the definition has a last visit
    there, after which it is clear. -/
theorem entering_iff (he : e ∈ facts.defs) (hmem : d ∈ e.2) (hd : d < adj.length)
    (u : BlockId) :
    Entering (predecessors adj) (dataflowFacts adj facts) (e.1, d) u ↔
      ReachesClear adj e.2 d u := by
  constructor
  · intro ⟨p, q, hgen, hpath, hq⟩
    obtain ⟨-, hdp⟩ := (mem_gen he).mp hgen
    rw [← hdp] at hpath
    refine ⟨q, ?_, mem_predBlocks.mp hq⟩
    clear hq
    induction hpath with
    | refl => exact .refl
    | @tail x y _ hstep ih =>
      obtain ⟨hedge, hpass⟩ := (passes_iff he hd).mp hstep
      by_cases hy : y ∈ e.2
      · rw [← hpass hy]
      · exact ih.tail ⟨hedge, hy⟩
  · intro ⟨q, hpath, hedge⟩
    refine ⟨d, q, (mem_gen he).mpr ⟨hmem, rfl⟩, ?_, mem_predBlocks.mpr hedge⟩
    have hsteps : ∀ a b, Clear adj e.2 a b →
        Passes (predecessors adj) (dataflowFacts adj facts) (e.1, d) a b :=
      fun a b h => (passes_iff he hd).mpr ⟨h.1, fun hb => absurd hb h.2⟩
    exact ReflTransGen.mono hsteps _ _ hpath

/-- For every graph and all facts about its blocks, a definition is in the chain of a use
    exactly when it is in the block of the use or reaches that block. -/
theorem use_def_chains_agree (adj : List (List BlockId)) (facts : UseDefFacts)
    (hin : InBlocks adj facts) :
    ∃ chains r, buildUseDefChains adj facts = some chains ∧
      reachingDefinitions (List.range adj.length) (predecessors adj) (dataflowFacts adj facts) =
        some r ∧
      ∀ e ∈ facts.defs, ∃ m, chains e.1 = some m ∧
        ∀ u ∈ (facts.uses e.1).getD [], ∃ reaching, m u = some reaching ∧
          ∀ d ∈ e.2, (d ∈ reaching ↔ d = u ∨ (e.1, d) ∈ r.intoOf u) := by
  obtain ⟨chains, hchains, hall⟩ := buildUseDefChains_spec hin
  obtain ⟨r, hr, -, hpaths⟩ :=
    reachingDefinitions_spec (predecessors_closed adj) (dataflowFacts adj facts)
  refine ⟨chains, r, hchains, hr, ?_⟩
  intro e he
  obtain ⟨m, hm, huses⟩ := hall e he
  refine ⟨m, hm, ?_⟩
  intro u hu
  obtain ⟨reaching, hreaching, hiff⟩ := huses u hu
  refine ⟨reaching, hreaching, ?_⟩
  intro d hd
  have hrange : u < adj.length := by
    cases huse : facts.uses e.1 with
    | none =>
      rw [huse] at hu
      exact absurd hu List.not_mem_nil
    | some us =>
      rw [huse] at hu
      exact hin.2 e.1 us huse u hu
  rw [hiff, hpaths u (List.mem_range.mpr hrange), entering_iff he hd (hin.1 e he d hd)]
  simp [hd]

/-- A loop: the variable is defined in block 0, used in 1 and defined again in 2. -/
def loopFacts : UseDefFacts := ⟨[(0, [0, 2])], FMap.empty.insert 0 [1, 2], by decide⟩

theorem loopFacts_inBlocks : InBlocks [[1], [2], [1]] loopFacts := by
  constructor
  · decide
  · intro v us huse b hb
    by_cases hv : v = 0
    · rw [hv] at huse
      have hus : us = [1, 2] := (Option.some.inj huse).symm
      rw [hus] at hb
      revert b
      decide
    · have hnone : loopFacts.uses v = none := FMap.insert_of_ne _ _ hv
      rw [hnone] at huse
      cases huse

theorem use_def_chains_agree_loop :
    ∃ chains r, buildUseDefChains [[1], [2], [1]] loopFacts = some chains ∧
      reachingDefinitions (List.range 3) (predecessors [[1], [2], [1]])
        (dataflowFacts [[1], [2], [1]] loopFacts) = some r ∧
      ∀ e ∈ loopFacts.defs, ∃ m, chains e.1 = some m ∧
        ∀ u ∈ (loopFacts.uses e.1).getD [], ∃ reaching, m u = some reaching ∧
          ∀ d ∈ e.2, (d ∈ reaching ↔ d = u ∨ (e.1, d) ∈ r.intoOf u) :=
  use_def_chains_agree [[1], [2], [1]] loopFacts loopFacts_inBlocks

end Canon.Algorithms.UseDef
