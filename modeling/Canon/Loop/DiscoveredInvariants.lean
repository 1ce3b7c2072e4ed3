import Mathlib.Data.Finmap
import Mathlib.Data.Countable.Basic
import Mathlib.Logic.Equiv.List
import Canon.Lib.History
import Canon.Lib.Machine
import Canon.Loop.Constraints

/-! # Discovered invariants

    `canon-invariant` counts how often a failure was seen.  Once a fingerprint is supported
    often enough, the invariant of its pattern is promoted; three pieces of negative
    evidence demote it.  Supports and promotions are written to a file, negative evidence
    is not.

    * `DiscoveryFile.Exact`: what the store relies on,
    * `evidenceMachine`: the store without its file, and `discoveryMachine_simulates`,
    * `discovered_invariants_history`: supports, active invariants and demotions, read off
      the history of calls.
-/

namespace Canon.Loop

/-! ### Data -/

deriving instance DecidableEq for ConstraintState

inductive FailureKind where
  | invalidPlanBatch
  | routeRewrite
deriving DecidableEq, Repr

structure FailureFingerprint where
  kind : FailureKind
  route : Option ConstraintRoute
  state : ConstraintState
deriving DecidableEq, Repr

inductive DiscoveredInvariant where
  | forcePlanWhenMissingTarget
  | forcePlanWhenValidationBlocked
  | forcePlanWhenObjectiveContradiction
  | forceObserveWhenNoActionableFailure
deriving DecidableEq, Repr

structure InvariantPromotion where
  invariant : DiscoveredInvariant
  support : Nat
  fingerprint : FailureFingerprint
deriving DecidableEq, Repr

abbrev Supports := Finmap fun _ : FailureFingerprint => Nat

/-- A count for every invariant in it. -/
abbrev Tally := Finmap fun _ : DiscoveredInvariant => Nat

structure InvariantDiscoveryState where
  threshold : Nat
  supports : Supports
  promoted : Tally
  negativeEvidence : Tally

structure PersistedInvariantDiscoveryState where
  supports : List (FailureFingerprint × Nat)
  promoted : List (DiscoveredInvariant × Nat)

/-- `collect` into a map: a later entry replaces an earlier one. -/
def collect {κ : Type} [DecidableEq κ] (entries : List (κ × Nat)) : Finmap fun _ : κ => Nat :=
  entries.foldl (fun m e => m.insert e.1 e.2) ∅

/-- What the standard library and `serde_json` do for the store: the order in which a map
    is iterated, and the two directions of its text. -/
structure DiscoveryFile where
  iterSupports : Supports → List (FailureFingerprint × Nat)
  iterPromoted : Tally → List (DiscoveredInvariant × Nat)
  toStringPretty : PersistedInvariantDiscoveryState → Option Text
  fromStr : Text → Option PersistedInvariantDiscoveryState

/-- Every entry is iterated once, and the text is read back as it was written. -/
structure DiscoveryFile.Exact (F : DiscoveryFile) : Prop where
  supports_nodup : ∀ m, ((F.iterSupports m).map Prod.fst).Nodup
  mem_supports : ∀ m fp n, (fp, n) ∈ F.iterSupports m ↔ m.lookup fp = some n
  promoted_nodup : ∀ m, ((F.iterPromoted m).map Prod.fst).Nodup
  mem_promoted : ∀ m i n, (i, n) ∈ F.iterPromoted m ↔ m.lookup i = some n
  roundTrip : ∀ p, ∃ raw, F.toStringPretty p = some raw ∧ F.fromStr raw = some p

/-! ### The calls -/

def fingerprintPattern (fingerprint : FailureFingerprint) : Option DiscoveredInvariant :=
  match fingerprint.route with
  | some .observe =>
    if !fingerprint.state.realPathExists then some .forcePlanWhenMissingTarget else none
  | some .verify | some .conclude =>
    if fingerprint.state.validationBlocked || fingerprint.state.entrypointMissing ||
        fingerprint.state.moduleGapsPresent then
      some .forcePlanWhenValidationBlocked
    else if fingerprint.state.routeObjectiveContradiction then
      some .forcePlanWhenObjectiveContradiction
    else none
  | some .plan =>
    if fingerprint.state.failureClassNoActionable ||
        (fingerprint.state.recentNoSemanticProgress && !fingerprint.state.actionableFailure &&
          !fingerprint.state.validationBlocked && !fingerprint.state.entrypointMissing &&
          !fingerprint.state.moduleGapsPresent && fingerprint.state.realPathExists) then
      some .forceObserveWhenNoActionableFailure
    else none
  | _ => none

/-- The support an invariant needs; two of them do not heed the configured threshold. -/
def supportNeeded (threshold : Nat) : DiscoveredInvariant → Nat
  | .forcePlanWhenMissingTarget => 3
  | .forceObserveWhenNoActionableFailure => 3
  | _ => threshold

/-- `saturating_add(1)` of a `u32`. -/
def saturatingSucc (n : Nat) : Nat := min (n + 1) (2 ^ 32 - 1)

/-- The state behind the lock, and the text of the file when there is one. -/
structure InvariantStore where
  state : InvariantDiscoveryState
  file : Option Text

def emptyStore (threshold : Nat) : InvariantStore where
  state := { threshold := threshold, supports := ∅, promoted := ∅, negativeEvidence := ∅ }
  file := none

section Calls

variable (F : DiscoveryFile)

/-- Writes succeed. -/
def InvariantStore.saveToDisk (store : InvariantStore) : InvariantStore :=
  let persisted : PersistedInvariantDiscoveryState :=
    { supports := F.iterSupports store.state.supports
      promoted := F.iterPromoted store.state.promoted }
  match F.toStringPretty persisted with
  | none => store
  | some json => { store with file := some json }

def InvariantDiscoveryState.loadFromDisk (state : InvariantDiscoveryState) (file : Option Text) :
    InvariantDiscoveryState :=
  match file.bind F.fromStr with
  | none => state
  | some persisted =>
    { state with supports := collect persisted.supports, promoted := collect persisted.promoted }

def reloadDiscoveredInvariantsFromDisk (store : InvariantStore) : InvariantStore :=
  let fresh : InvariantDiscoveryState :=
    { threshold := store.state.threshold, supports := ∅, promoted := ∅, negativeEvidence := ∅ }
  { store with state := fresh.loadFromDisk F store.file }

def observeFailureFingerprint (fingerprint : FailureFingerprint) (store : InvariantStore) :
    Option InvariantPromotion × InvariantStore :=
  match fingerprintPattern fingerprint with
  | none => (none, store)
  | some invariant =>
    let support := saturatingSucc ((store.state.supports.lookup fingerprint).getD 0)
    let state := { store.state with supports := store.state.supports.insert fingerprint support }
    let store := { store with state := state }.saveToDisk F
    if support < supportNeeded store.state.threshold invariant then (none, store)
    else
      let state := { store.state with
        promoted := store.state.promoted.insert invariant support
        negativeEvidence := store.state.negativeEvidence.erase invariant }
      (some { invariant := invariant, support := support, fingerprint := fingerprint },
        { store with state := state }.saveToDisk F)

def recordNegativeEvidence (invariant : DiscoveredInvariant) (store : InvariantStore) :
    InvariantStore :=
  let entry := saturatingSucc ((store.state.negativeEvidence.lookup invariant).getD 0)
  let state := { store.state with
    negativeEvidence := store.state.negativeEvidence.insert invariant entry }
  let demotionThreshold := 3
  if demotionThreshold ≤ entry then
    let state := { state with
      promoted := state.promoted.erase invariant
      negativeEvidence := state.negativeEvidence.erase invariant }
    { store with state := state }.saveToDisk F
  else { store with state := state }

def InvariantStore.discoveredInvariants (store : InvariantStore) : Finset DiscoveredInvariant :=
  store.state.promoted.keys

inductive DiscoveryCall where
  | observe (fingerprint : FailureFingerprint)
  | negative (invariant : DiscoveredInvariant)
  | reload
deriving DecidableEq, Repr

def discoveryMachine : Machine InvariantStore DiscoveryCall where
  step store
    | .observe fingerprint => (observeFailureFingerprint F fingerprint store).2
    | .negative invariant => recordNegativeEvidence F invariant store
    | .reload => reloadDiscoveredInvariantsFromDisk F store

end Calls

/-! ### The store without its file -/

namespace InvariantDiscoveryState

def observe (state : InvariantDiscoveryState) (fingerprint : FailureFingerprint) :
    InvariantDiscoveryState :=
  match fingerprintPattern fingerprint with
  | none => state
  | some invariant =>
    let support := saturatingSucc ((state.supports.lookup fingerprint).getD 0)
    let state := { state with supports := state.supports.insert fingerprint support }
    if support < supportNeeded state.threshold invariant then state
    else
      { state with
        promoted := state.promoted.insert invariant support
        negativeEvidence := state.negativeEvidence.erase invariant }

def negative (state : InvariantDiscoveryState) (invariant : DiscoveredInvariant) :
    InvariantDiscoveryState :=
  let entry := saturatingSucc ((state.negativeEvidence.lookup invariant).getD 0)
  if 3 ≤ entry then
    { state with
      promoted := state.promoted.erase invariant
      negativeEvidence := (state.negativeEvidence.insert invariant entry).erase invariant }
  else { state with negativeEvidence := state.negativeEvidence.insert invariant entry }

end InvariantDiscoveryState

/-- The calls on a state that a reload finds as it was, but for the negative evidence. -/
def evidenceMachine : Machine InvariantDiscoveryState DiscoveryCall where
  step state
    | .observe fingerprint => state.observe fingerprint
    | .negative invariant => state.negative invariant
    | .reload => { state with negativeEvidence := ∅ }

section Disk

variable {F : DiscoveryFile}

/-- The file holds what the state persists; there is none while that is nothing. -/
def InvariantStore.OnDisk (F : DiscoveryFile) (store : InvariantStore) : Prop :=
  (store.file = none ∧ store.state.supports = ∅ ∧ store.state.promoted = ∅) ∨
    ∃ raw persisted, store.file = some raw ∧ F.fromStr raw = some persisted ∧
      collect persisted.supports = store.state.supports ∧
      collect persisted.promoted = store.state.promoted

theorem collect_foldl_lookup {κ : Type} [DecidableEq κ] {entries : List (κ × Nat)}
    (hnodup : (entries.map Prod.fst).Nodup) (m : Finmap fun _ : κ => Nat) (k : κ) (n : Nat) :
    (entries.foldl (fun m e => m.insert e.1 e.2) m).lookup k = some n ↔
      (k, n) ∈ entries ∨ (k ∉ entries.map Prod.fst ∧ m.lookup k = some n) := by
  induction entries generalizing m with
  | nil => simp
  | cons e entries ih =>
    obtain ⟨hnot, hrest⟩ := List.nodup_cons.mp hnodup
    rw [List.foldl_cons, ih hrest]
    by_cases hk : k = e.1
    · subst hk
      rw [Finmap.lookup_insert]
      have hno : (e.1, n) ∉ entries := fun h => hnot (List.mem_map.mpr ⟨_, h, rfl⟩)
      constructor
      · rintro (h | ⟨-, h⟩)
        · exact absurd h hno
        · left
          rw [← Option.some.inj h]
          exact List.mem_cons_self
      · rintro (h | ⟨h, -⟩)
        · rcases List.mem_cons.mp h with h | h
          · exact .inr ⟨hnot, by rw [← h]⟩
          · exact absurd h hno
        · exact absurd List.mem_cons_self h
    · rw [Finmap.lookup_insert_of_ne _ hk]
      have hne : ∀ n', (k, n') ≠ e := fun n' h => hk (by rw [← h])
      simp [hk, hne]

/-- A map is read back from the entries it is iterated in. -/
theorem collect_eq {κ : Type} [DecidableEq κ] {entries : List (κ × Nat)}
    {m : Finmap fun _ : κ => Nat} (hnodup : (entries.map Prod.fst).Nodup)
    (hmem : ∀ k n, (k, n) ∈ entries ↔ m.lookup k = some n) : collect entries = m := by
  apply Finmap.ext_lookup
  intro k
  apply Option.ext
  intro n
  unfold collect
  rw [collect_foldl_lookup hnodup, ← hmem]
  simp

theorem onDisk_saveToDisk (hF : F.Exact) (store : InvariantStore) :
    (store.saveToDisk F).OnDisk F := by
  obtain ⟨raw, hto, hfrom⟩ := hF.roundTrip
    { supports := F.iterSupports store.state.supports
      promoted := F.iterPromoted store.state.promoted }
  right
  unfold InvariantStore.saveToDisk
  simp only [hto]
  exact ⟨raw, _, rfl, hfrom, collect_eq (hF.supports_nodup _) (hF.mem_supports _),
    collect_eq (hF.promoted_nodup _) (hF.mem_promoted _)⟩

@[simp] theorem saveToDisk_state (F : DiscoveryFile) (store : InvariantStore) :
    (store.saveToDisk F).state = store.state := by
  unfold InvariantStore.saveToDisk
  dsimp only
  split <;> rfl

theorem discoveryMachine_step_state (store : InvariantStore) (hdisk : store.OnDisk F)
    (call : DiscoveryCall) :
    ((discoveryMachine F).step store call).state = evidenceMachine.step store.state call := by
  cases call with
  | observe fingerprint =>
    show (observeFailureFingerprint F fingerprint store).2.state = store.state.observe fingerprint
    unfold observeFailureFingerprint InvariantDiscoveryState.observe
    split
    · rfl
    · simp only [saveToDisk_state]
      split <;> simp only [saveToDisk_state]
  | negative invariant =>
    show (recordNegativeEvidence F invariant store).state = store.state.negative invariant
    unfold recordNegativeEvidence InvariantDiscoveryState.negative
    dsimp only
    split
    · rw [saveToDisk_state]
    · rfl
  | reload =>
    show (InvariantDiscoveryState.loadFromDisk F _ store.file) =
      { store.state with negativeEvidence := ∅ }
    unfold InvariantDiscoveryState.loadFromDisk
    rcases hdisk with ⟨hfile, hsupports, hpromoted⟩ | ⟨raw, p, hfile, hread, hsupports, hpromoted⟩
    · rw [hfile]
      show InvariantDiscoveryState.mk _ _ _ _ = InvariantDiscoveryState.mk _ _ _ _
      rw [hsupports, hpromoted]
    · rw [hfile]
      show (match F.fromStr raw with | none => _ | some persisted => _) = _
      rw [hread]
      show InvariantDiscoveryState.mk _ _ _ _ = InvariantDiscoveryState.mk _ _ _ _
      rw [hsupports, hpromoted]

theorem discoveryMachine_step_onDisk (hF : F.Exact) (store : InvariantStore)
    (call : DiscoveryCall) (hdisk : store.OnDisk F) :
    ((discoveryMachine F).step store call).OnDisk F := by
  cases call with
  | observe fingerprint =>
    show (observeFailureFingerprint F fingerprint store).2.OnDisk F
    unfold observeFailureFingerprint
    split
    · exact hdisk
    · dsimp only
      split
      · exact onDisk_saveToDisk hF _
      · exact onDisk_saveToDisk hF _
  | negative invariant =>
    show (recordNegativeEvidence F invariant store).OnDisk F
    unfold recordNegativeEvidence
    dsimp only
    split
    · exact onDisk_saveToDisk hF _
    · exact hdisk
  | reload =>
    have hstate := discoveryMachine_step_state store hdisk .reload
    have hfile : ((discoveryMachine F).step store .reload).file = store.file := rfl
    unfold InvariantStore.OnDisk
    rw [hstate, hfile]
    exact hdisk

theorem emptyStore_onDisk (threshold : Nat) : (emptyStore threshold).OnDisk F :=
  .inl ⟨rfl, rfl, rfl⟩

/-- The file does not show. -/
theorem discoveryMachine_simulates (hF : F.Exact) (threshold : Nat) (calls : List DiscoveryCall) :
    ((discoveryMachine F).run (emptyStore threshold) calls).state =
      evidenceMachine.run (emptyStore threshold).state calls :=
  Machine.run_simulates _ _ InvariantStore.state
    (fun store call hdisk => discoveryMachine_step_onDisk hF store call hdisk)
    (fun store call hdisk => discoveryMachine_step_state store hdisk call) calls
    (emptyStore_onDisk threshold)

theorem run_onDisk (hF : F.Exact) (threshold : Nat) (calls : List DiscoveryCall) :
    ((discoveryMachine F).run (emptyStore threshold) calls).OnDisk F :=
  Machine.run_invariant _ (fun store call hdisk => discoveryMachine_step_onDisk hF store call hdisk)
    calls (emptyStore_onDisk threshold)

end Disk

/-! ### The history of calls -/

/-- How many of the calls observe a failure. -/
def observationCount (calls : List DiscoveryCall) : Nat :=
  calls.countP fun
    | .observe _ => true
    | _ => false

/-- The call is an observation after which its fingerprint has the support that the
    invariant, which is that of its pattern, needs. -/
def Promotes (threshold : Nat) (invariant : DiscoveredInvariant) (before : List DiscoveryCall)
    (call : DiscoveryCall) : Prop :=
  ∃ fingerprint, call = .observe fingerprint ∧ fingerprintPattern fingerprint = some invariant ∧
    supportNeeded threshold invariant ≤ (before ++ [call]).count (.observe fingerprint)

/-- The negative evidence starts again. -/
def Resets (threshold : Nat) (invariant : DiscoveredInvariant) (before : List DiscoveryCall)
    (call : DiscoveryCall) : Prop :=
  Promotes threshold invariant before call ∨ call = .reload

section History

variable {threshold : Nat} {invariant : DiscoveredInvariant}
variable (calls : List DiscoveryCall)

theorem observationCount_snoc (call : DiscoveryCall) :
    observationCount (calls ++ [call]) = observationCount calls + observationCount [call] := by
  simp only [observationCount, List.countP_append]

theorem count_le_observationCount (fingerprint : FailureFingerprint) :
    calls.count (.observe fingerprint) ≤ observationCount calls := by
  apply List.countP_mono_left
  intro call _ hcall
  rw [beq_iff_eq] at hcall
  rw [hcall]

/-- The evidence after the calls. -/
def evidence (threshold : Nat) (calls : List DiscoveryCall) : InvariantDiscoveryState :=
  evidenceMachine.run (emptyStore threshold).state calls

theorem evidence_snoc (threshold : Nat) (calls : List DiscoveryCall) (call : DiscoveryCall) :
    evidence threshold (calls ++ [call]) = evidenceMachine.step (evidence threshold calls) call :=
  Machine.run_snoc _ _ _ _

theorem evidence_threshold (threshold : Nat) (calls : List DiscoveryCall) :
    (evidence threshold calls).threshold = threshold := by
  refine Machine.run_invariant _ (I := fun s => InvariantDiscoveryState.threshold s = threshold)
    ?_ calls rfl
  intro state call h
  cases call with
  | observe fingerprint =>
    show (state.observe fingerprint).threshold = threshold
    unfold InvariantDiscoveryState.observe
    split
    · exact h
    · dsimp only
      split <;> exact h
  | negative invariant =>
    show (state.negative invariant).threshold = threshold
    unfold InvariantDiscoveryState.negative
    dsimp only
    split <;> exact h
  | reload => exact h

/-- What an observation does. -/
theorem observe_of_pattern {state : InvariantDiscoveryState} {fingerprint : FailureFingerprint}
    (h : fingerprintPattern fingerprint = some invariant) {support : Nat}
    (hsupport : support = saturatingSucc ((state.supports.lookup fingerprint).getD 0)) :
    (state.observe fingerprint).supports = state.supports.insert fingerprint support ∧
      (state.observe fingerprint).promoted =
        (if support < supportNeeded state.threshold invariant then state.promoted
          else state.promoted.insert invariant support) ∧
      (state.observe fingerprint).negativeEvidence =
        (if support < supportNeeded state.threshold invariant then state.negativeEvidence
          else state.negativeEvidence.erase invariant) := by
  subst hsupport
  unfold InvariantDiscoveryState.observe
  rw [h]
  dsimp only
  split
  · exact ⟨rfl, rfl, rfl⟩
  · exact ⟨rfl, rfl, rfl⟩

theorem observe_of_no_pattern {state : InvariantDiscoveryState} {fingerprint : FailureFingerprint}
    (h : fingerprintPattern fingerprint = none) : state.observe fingerprint = state := by
  unfold InvariantDiscoveryState.observe
  rw [h]

theorem negative_supports (state : InvariantDiscoveryState) (invariant : DiscoveredInvariant) :
    (state.negative invariant).supports = state.supports := by
  unfold InvariantDiscoveryState.negative
  dsimp only
  split <;> rfl

/-- The support is the number of observations, as long as the counter does not saturate. -/
theorem support_eq_count (hbound : observationCount calls < 2 ^ 32)
    (fingerprint : FailureFingerprint) :
    ((evidence threshold calls).supports.lookup fingerprint).getD 0 =
      if (fingerprintPattern fingerprint).isSome then calls.count (.observe fingerprint)
        else 0 := by
  induction calls using List.reverseRecOn with
  | nil => simp [evidence, emptyStore]
  | append_singleton calls call ih =>
    rw [observationCount_snoc] at hbound
    have ih := ih (by omega)
    rw [evidence_snoc, List.count_append]
    cases call with
    | observe observed =>
      have hone : observationCount [.observe observed] = 1 := rfl
      show (((evidence threshold calls).observe observed).supports.lookup fingerprint).getD 0 = _
      cases hpattern : fingerprintPattern observed with
      | none =>
        rw [observe_of_no_pattern hpattern, ih]
        by_cases hsame : fingerprint = observed
        · rw [hsame, hpattern]
          rfl
        · have hne : ¬ DiscoveryCall.observe observed = .observe fingerprint :=
            fun h => hsame (DiscoveryCall.observe.inj h).symm
          simp [hne]
      | some invariant =>
        rw [(observe_of_pattern hpattern rfl).1]
        by_cases hsame : fingerprint = observed
        · subst hsame
          rw [Finmap.lookup_insert, ih, hpattern]
          have hle := count_le_observationCount calls fingerprint
          show min (calls.count (.observe fingerprint) + 1) (2 ^ 32 - 1) =
            calls.count (.observe fingerprint) + [DiscoveryCall.observe fingerprint].count _
          rw [List.count_singleton_self]
          omega
        · have hne : ¬ DiscoveryCall.observe observed = .observe fingerprint :=
            fun h => hsame (DiscoveryCall.observe.inj h).symm
          rw [Finmap.lookup_insert_of_ne _ hsame, ih]
          simp [hne]
    | negative invariant =>
      show (((evidence threshold calls).negative invariant).supports.lookup fingerprint).getD 0 = _
      rw [negative_supports, ih]
      simp
    | reload =>
      show ((evidence threshold calls).supports.lookup fingerprint).getD 0 = _
      rw [ih]
      simp

/-- The support that decides about a promotion. -/
theorem support_after {calls : List DiscoveryCall} {fingerprint : FailureFingerprint}
    (hbound : observationCount (calls ++ [DiscoveryCall.observe fingerprint]) < 2 ^ 32)
    (hpattern : fingerprintPattern fingerprint = some invariant) :
    saturatingSucc (((evidence threshold calls).supports.lookup fingerprint).getD 0) =
      (calls ++ [DiscoveryCall.observe fingerprint]).count (.observe fingerprint) := by
  have h := @support_eq_count threshold _ hbound fingerprint
  rw [evidence_snoc, hpattern] at h
  have hinsert := (@observe_of_pattern _ (evidence threshold calls) _ hpattern _ rfl).1
  change (((evidence threshold calls).observe fingerprint).supports.lookup fingerprint).getD 0 = _
    at h
  rw [hinsert, Finmap.lookup_insert] at h
  exact h

/-- The negative evidence counted against an invariant. -/
def against (threshold : Nat) (invariant : DiscoveredInvariant) (calls : List DiscoveryCall) :
    Nat :=
  ((evidence threshold calls).negativeEvidence.lookup invariant).getD 0

/-- The invariant is among the promoted ones. -/
def Active (threshold : Nat) (invariant : DiscoveredInvariant) (calls : List DiscoveryCall) :
    Prop :=
  invariant ∈ (evidence threshold calls).promoted

/-- What a call can do to an invariant. -/
inductive Effect (threshold : Nat) (invariant : DiscoveredInvariant) (calls : List DiscoveryCall)
    (call : DiscoveryCall) : Prop where
  | promotes (hcall : Promotes threshold invariant calls call)
      (hactive : Active threshold invariant (calls ++ [call]))
      (hagainst : against threshold invariant (calls ++ [call]) = 0)
  | reloads (hcall : call = .reload)
      (hactive : Active threshold invariant (calls ++ [call]) ↔ Active threshold invariant calls)
      (hagainst : against threshold invariant (calls ++ [call]) = 0)
  | demotes (hcall : call = .negative invariant) (hthird : 2 ≤ against threshold invariant calls)
      (hactive : ¬ Active threshold invariant (calls ++ [call]))
      (hagainst : against threshold invariant (calls ++ [call]) = 0)
  | counts (hcall : call = .negative invariant) (hbelow : against threshold invariant calls < 2)
      (hactive : Active threshold invariant (calls ++ [call]) ↔ Active threshold invariant calls)
      (hagainst : against threshold invariant (calls ++ [call]) =
        against threshold invariant calls + 1)
  | passes (hcall : call ≠ .reload) (hother : call ≠ .negative invariant)
      (hnot : ¬ Promotes threshold invariant calls call)
      (hactive : Active threshold invariant (calls ++ [call]) ↔ Active threshold invariant calls)
      (hagainst : against threshold invariant (calls ++ [call]) = against threshold invariant calls)

theorem effect_observe {calls : List DiscoveryCall} {fingerprint : FailureFingerprint}
    (hbound : observationCount (calls ++ [DiscoveryCall.observe fingerprint]) < 2 ^ 32) :
    Effect threshold invariant calls (.observe fingerprint) := by
  have hcall : DiscoveryCall.observe fingerprint ≠ .reload := by simp
  have hother : DiscoveryCall.observe fingerprint ≠ .negative invariant := by simp
  have hstep : evidence threshold (calls ++ [.observe fingerprint]) =
      (evidence threshold calls).observe fingerprint := evidence_snoc _ _ _
  cases hpattern : fingerprintPattern fingerprint with
  | none =>
    have hsame :
      evidence threshold (calls ++ [.observe fingerprint]) = evidence threshold calls := by
      rw [hstep, observe_of_no_pattern hpattern]
    refine .passes hcall hother ?_ (by rw [Active, hsame, Active]) (by rw [against, hsame, against])
    rintro ⟨observed, hobserved, hsome, -⟩
    rw [← DiscoveryCall.observe.inj hobserved, hpattern] at hsome
    cases hsome
  | some promoted =>
    have hsupport := @support_after threshold _ _ _ hbound hpattern
    obtain ⟨-, hpromoted, hnegative⟩ :=
      @observe_of_pattern _ (evidence threshold calls) _ hpattern _ hsupport.symm
    rw [evidence_threshold] at hpromoted hnegative
    by_cases hlow : (calls ++ [DiscoveryCall.observe fingerprint]).count (.observe fingerprint) <
        supportNeeded threshold promoted
    -- The support does not suffice yet.
    · rw [if_pos hlow] at hpromoted hnegative
      refine .passes hcall hother ?_ (by rw [Active, hstep, hpromoted, Active])
        (by rw [against, hstep, hnegative, against])
      rintro ⟨observed, hobserved, hsome, hneeded⟩
      rw [← DiscoveryCall.observe.inj hobserved] at hsome hneeded
      rw [hpattern] at hsome
      rw [← Option.some.inj hsome] at hneeded
      omega
    · rw [if_neg hlow] at hpromoted hnegative
      by_cases hsame : promoted = invariant
      · subst hsame
        refine .promotes ⟨fingerprint, rfl, hpattern, by omega⟩ ?_ ?_
        · rw [Active, hstep, hpromoted, Finmap.mem_insert]
          exact .inl rfl
        · rw [against, hstep, hnegative, Finmap.lookup_erase]
          rfl
      -- Another invariant is promoted.
      · refine .passes hcall hother ?_ ?_ ?_
        · rintro ⟨observed, hobserved, hsome, -⟩
          rw [← DiscoveryCall.observe.inj hobserved, hpattern] at hsome
          exact hsame (Option.some.inj hsome)
        · rw [Active, hstep, hpromoted, Finmap.mem_insert]
          have hne : ¬ invariant = promoted := fun h => hsame h.symm
          simp only [hne, false_or]
          exact Iff.rfl
        · rw [against, hstep, hnegative, Finmap.lookup_erase_ne (Ne.symm hsame)]
          rfl

theorem not_promotes_negative {calls : List DiscoveryCall} {other : DiscoveredInvariant} :
    ¬ Promotes threshold invariant calls (.negative other) := by
  rintro ⟨fingerprint, hcall, -⟩
  cases hcall

theorem effect_negative {calls : List DiscoveryCall} {other : DiscoveredInvariant}
    (hbelow : against threshold invariant calls < 3) :
    Effect threshold invariant calls (.negative other) := by
  have hstep : evidence threshold (calls ++ [.negative other]) =
      (evidence threshold calls).negative other := evidence_snoc _ _ _
  unfold InvariantDiscoveryState.negative at hstep
  by_cases hsame : other = invariant
  · subst hsame
    have hentry : saturatingSucc
        (((evidence threshold calls).negativeEvidence.lookup other).getD 0) =
          against threshold other calls + 1 := by
      show min (against threshold other calls + 1) (2 ^ 32 - 1) = _
      omega
    rw [hentry] at hstep
    by_cases hthird : 2 ≤ against threshold other calls
    · rw [if_pos (by omega)] at hstep
      refine .demotes rfl hthird ?_ ?_
      · rw [Active, hstep, Finmap.mem_erase]
        exact fun h => h.1 rfl
      · rw [against, hstep, Finmap.lookup_erase]
        rfl
    · rw [if_neg (by omega)] at hstep
      refine .counts rfl (by omega) (by rw [Active, hstep, Active]) ?_
      rw [against, hstep, Finmap.lookup_insert]
      rfl
  · have hne : ¬ invariant = other := fun h => hsame h.symm
    have hother : DiscoveryCall.negative other ≠ .negative invariant :=
      fun h => hsame (DiscoveryCall.negative.inj h)
    dsimp only at hstep
    split at hstep
    · refine .passes (by simp) hother not_promotes_negative ?_ ?_
      · rw [Active, hstep, Finmap.mem_erase]
        exact ⟨fun h => h.2, fun h => ⟨hne, h⟩⟩
      · rw [against, hstep, Finmap.lookup_erase_ne hne, Finmap.lookup_insert_of_ne _ hne]
        rfl
    · refine .passes (by simp) hother not_promotes_negative (by rw [Active, hstep, Active]) ?_
      rw [against, hstep, Finmap.lookup_insert_of_ne _ hne]
      rfl

theorem effect_reload :
    Effect threshold invariant calls .reload := by
  have hstep : evidence threshold (calls ++ [.reload]) =
      { evidence threshold calls with negativeEvidence := ∅ } := evidence_snoc _ _ _
  refine .reloads rfl (by rw [Active, hstep, Active]) ?_
  rw [against, hstep, Finmap.lookup_empty]
  rfl

theorem effect {calls : List DiscoveryCall} {call : DiscoveryCall}
    (hbound : observationCount (calls ++ [call]) < 2 ^ 32)
    (hbelow : against threshold invariant calls < 3) :
    Effect threshold invariant calls call := by
  cases call with
  | observe fingerprint => exact effect_observe hbound
  | negative other => exact effect_negative hbelow
  | reload => exact effect_reload calls

/-- Two pieces of evidence are counted at most, as the third starts again. -/
theorem against_lt (hbound : observationCount calls < 2 ^ 32) :
    against threshold invariant calls < 3 := by
  induction calls using List.reverseRecOn with
  | nil => simp [against, evidence, emptyStore]
  | append_singleton calls call ih =>
    have hbefore : observationCount calls < 2 ^ 32 := by
      rw [observationCount_snoc] at hbound
      omega
    have ih := ih hbefore
    cases effect hbound ih with
    | promotes _ _ hagainst => omega
    | reloads _ _ hagainst => omega
    | demotes _ _ _ hagainst => omega
    | counts _ hlow _ hagainst => omega
    | passes _ _ _ _ hagainst => omega

/-- What is counted against an active invariant came after its last promotion or reload. -/
theorem against_eq_count (hbound : observationCount calls < 2 ^ 32)
    (hactive : Active threshold invariant calls) :
    ∃ after, History.AfterLast (Resets threshold invariant) calls after ∧
      against threshold invariant calls = after.count (.negative invariant) := by
  induction calls using List.reverseRecOn with
  | nil => exact absurd hactive Finmap.notMem_empty
  | append_singleton calls call ih =>
    have hbefore : observationCount calls < 2 ^ 32 := by
      rw [observationCount_snoc] at hbound
      omega
    have hbelow : against threshold invariant calls < 3 := against_lt calls hbefore
    cases effect hbound hbelow with
    | promotes hcall _ hagainst =>
      exact ⟨[], History.AfterLast.now (.inl hcall), hagainst⟩
    | reloads hcall _ hagainst =>
      exact ⟨[], History.AfterLast.now (.inr hcall), hagainst⟩
    | demotes _ _ hnot _ => exact absurd hactive hnot
    | counts hcall _ hsame hagainst =>
      obtain ⟨after, hlast, hcount⟩ := ih hbefore (hsame.mp hactive)
      subst hcall
      have hnot : ¬ Resets threshold invariant calls (.negative invariant) := by
        rintro (h | h)
        · exact not_promotes_negative h
        · cases h
      refine ⟨_, hlast.later hnot, ?_⟩
      rw [hagainst, hcount, List.count_append, List.count_singleton_self]
    | passes hreload hother hpromotes hsame hagainst =>
      obtain ⟨after, hlast, hcount⟩ := ih hbefore (hsame.mp hactive)
      have hnot : ¬ Resets threshold invariant calls call := by
        rintro (h | h)
        · exact hpromotes h
        · exact hreload h
      refine ⟨_, hlast.later hnot, ?_⟩
      rw [hagainst, hcount, List.count_append, List.count_singleton]
      simp [hother]

end History

/-! ### The store -/

section Store

variable (F : DiscoveryFile) (threshold : Nat)

/-- The store after calls on an empty one. -/
def storeAfter (calls : List DiscoveryCall) : InvariantStore :=
  (discoveryMachine F).run (emptyStore threshold) calls

/-- The call takes the invariant from the active ones. -/
def Demotes (invariant : DiscoveredInvariant) (before : List DiscoveryCall)
    (call : DiscoveryCall) : Prop :=
  invariant ∈ (storeAfter F threshold before).discoveredInvariants ∧
    invariant ∉ (storeAfter F threshold (before ++ [call])).discoveredInvariants

/-- The store read off the history of its calls. -/
structure ReadOff (calls : List DiscoveryCall) : Prop where
  support : ∀ fingerprint,
    ((storeAfter F threshold calls).state.supports.lookup fingerprint).getD 0 =
      if (fingerprintPattern fingerprint).isSome then calls.count (.observe fingerprint) else 0
  active : ∀ invariant, invariant ∈ (storeAfter F threshold calls).discoveredInvariants ↔
    History.Since (Promotes threshold invariant) (Demotes F threshold invariant) calls
  demoted : ∀ invariant call,
    invariant ∈ (storeAfter F threshold calls).discoveredInvariants →
      (Demotes F threshold invariant calls call ↔ call = .negative invariant ∧
        ∃ after, History.AfterLast (Resets threshold invariant) calls after ∧
          after.count (.negative invariant) = 2)
  reloaded_supports : (storeAfter F threshold (calls ++ [.reload])).state.supports =
    (storeAfter F threshold calls).state.supports
  reloaded_active : (storeAfter F threshold (calls ++ [.reload])).discoveredInvariants =
    (storeAfter F threshold calls).discoveredInvariants

variable {F threshold}

theorem mem_discoveredInvariants (hF : F.Exact) (calls : List DiscoveryCall)
    (invariant : DiscoveredInvariant) :
    invariant ∈ (storeAfter F threshold calls).discoveredInvariants ↔
      Active threshold invariant calls := by
  rw [InvariantStore.discoveredInvariants, Finmap.mem_keys, storeAfter,
    discoveryMachine_simulates hF]
  exact Iff.rfl

theorem demotes_iff (hF : F.Exact) {invariant : DiscoveredInvariant} {calls : List DiscoveryCall}
    {call : DiscoveryCall} :
    Demotes F threshold invariant calls call ↔
      Active threshold invariant calls ∧ ¬ Active threshold invariant (calls ++ [call]) := by
  rw [Demotes, mem_discoveredInvariants hF, mem_discoveredInvariants hF]

theorem active_iff_since (hF : F.Exact) (invariant : DiscoveredInvariant)
    (calls : List DiscoveryCall) (hbound : observationCount calls < 2 ^ 32) :
    Active threshold invariant calls ↔
      History.Since (Promotes threshold invariant) (Demotes F threshold invariant) calls := by
  induction calls using List.reverseRecOn with
  | nil =>
    rw [iff_false_right History.since_nil]
    exact Finmap.notMem_empty
  | append_singleton calls call ih =>
    have hbefore : observationCount calls < 2 ^ 32 := by
      rw [observationCount_snoc] at hbound
      omega
    have ih := ih hbefore
    rw [History.since_snoc, ← ih, demotes_iff hF]
    have hbelow : against threshold invariant calls < 3 := against_lt calls hbefore
    cases effect hbound hbelow with
    | promotes hcall hactive _ =>
      rw [iff_true_left hactive]
      exact .inl hcall
    | reloads hcall hsame _ =>
      have hnot : ¬ Promotes threshold invariant calls call := by
        rw [hcall]
        rintro ⟨fingerprint, h, -⟩
        cases h
      rw [hsame]
      simp [hnot]
    | demotes hcall _ hinactive _ =>
      have hnot : ¬ Promotes threshold invariant calls call := by
        rw [hcall]
        exact not_promotes_negative
      simp [hnot, hinactive]
    | counts hcall _ hsame _ =>
      have hnot : ¬ Promotes threshold invariant calls call := by
        rw [hcall]
        exact not_promotes_negative
      rw [hsame]
      simp [hnot]
    | passes _ _ hnot hsame _ =>
      rw [hsame]
      simp [hnot]

/-- An observation demotes nothing, whatever the counters are. -/
theorem Active.observe {invariant : DiscoveredInvariant} {calls : List DiscoveryCall}
    (h : Active threshold invariant calls) (fingerprint : FailureFingerprint) :
    Active threshold invariant (calls ++ [.observe fingerprint]) := by
  rw [Active, evidence_snoc]
  show invariant ∈ ((evidence threshold calls).observe fingerprint).promoted
  cases hpattern : fingerprintPattern fingerprint with
  | none =>
    rw [observe_of_no_pattern hpattern]
    exact h
  | some promoted =>
    rw [(observe_of_pattern hpattern rfl).2.1]
    split
    · exact h
    · rw [Finmap.mem_insert]
      exact .inr h

theorem demotes_iff_third (hF : F.Exact) {invariant : DiscoveredInvariant}
    {calls : List DiscoveryCall} (hbound : observationCount calls < 2 ^ 32)
    (hactive : Active threshold invariant calls) (call : DiscoveryCall) :
    Demotes F threshold invariant calls call ↔ call = .negative invariant ∧
      ∃ after, History.AfterLast (Resets threshold invariant) calls after ∧
        after.count (.negative invariant) = 2 := by
  obtain ⟨after, hlast, hcount⟩ := against_eq_count calls hbound hactive
  have hbelow : against threshold invariant calls < 3 := against_lt calls hbound
  rw [demotes_iff hF, and_iff_right hactive]
  have hquiet : ∀ effect : Effect threshold invariant calls call,
      (¬ Active threshold invariant (calls ++ [call]) ↔ call = .negative invariant ∧
        ∃ after, History.AfterLast (Resets threshold invariant) calls after ∧
          after.count (.negative invariant) = 2) := by
    intro effect
    cases effect with
    | promotes hcall hstays _ =>
      rw [iff_false_left (not_not.mpr hstays)]
      rintro ⟨rfl, -⟩
      exact not_promotes_negative hcall
    | reloads hcall hsame _ =>
      rw [iff_false_left (not_not.mpr (hsame.mpr hactive)), hcall]
      rintro ⟨h, -⟩
      cases h
    | demotes hcall hthird hgone _ =>
      rw [iff_true_left hgone]
      exact ⟨hcall, after, hlast, by omega⟩
    | counts hcall hlow hsame _ =>
      rw [iff_false_left (not_not.mpr (hsame.mpr hactive))]
      rintro ⟨-, after', hlast', htwo⟩
      rw [hlast'.unique hlast] at htwo
      omega
    | passes _ hother _ hsame _ =>
      rw [iff_false_left (not_not.mpr (hsame.mpr hactive))]
      exact fun h => hother h.1
  cases call with
  | observe fingerprint =>
    rw [iff_false_left (not_not.mpr (hactive.observe fingerprint))]
    rintro ⟨h, -⟩
    cases h
  | negative other => exact hquiet (effect_negative hbelow)
  | reload => exact hquiet (effect_reload calls)

/-- Support is counted, an invariant is active from a promotion to its demotion, the third
    piece of negative evidence demotes, and a reload loses nothing else. -/
theorem discovered_invariants_history (hF : F.Exact) (calls : List DiscoveryCall)
    (hbound : observationCount calls < 2 ^ 32) : ReadOff F threshold calls where
  support := by
    intro fingerprint
    rw [storeAfter, discoveryMachine_simulates hF]
    exact support_eq_count calls hbound fingerprint
  active := by
    intro invariant
    rw [mem_discoveredInvariants hF]
    exact active_iff_since hF invariant calls hbound
  demoted := by
    intro invariant call hactive
    rw [mem_discoveredInvariants hF] at hactive
    exact demotes_iff_third hF hbound hactive call
  reloaded_supports := by
    rw [storeAfter, storeAfter, Machine.run_snoc,
      discoveryMachine_step_state _ (run_onDisk hF threshold calls)]
    rfl
  reloaded_active := by
    rw [storeAfter, storeAfter, Machine.run_snoc]
    unfold InvariantStore.discoveredInvariants
    rw [discoveryMachine_step_state _ (run_onDisk hF threshold calls)]
    rfl

end Store

section Sample

-- Any numbering of the persisted states will do for the texts that are not spelled out.

def ConstraintState.toList (state : ConstraintState) : List Bool :=
  [state.semanticPathExists, state.semanticCargoProject, state.realPathExists,
    state.realCargoProject, state.actionableFailure, state.validationBlocked,
    state.entrypointMissing, state.moduleGapsPresent, state.recentNoSemanticProgress,
    state.failureClassNoActionable, state.failureScopeLocalized, state.failureScopeWorkspace,
    state.failureScopeTooling, state.routeObjectiveContradiction, state.hasPlan]

theorem ConstraintState.toList_injective : Function.Injective ConstraintState.toList := by
  intro state other h
  cases state
  cases other
  simpa [ConstraintState.toList] using h

theorem countable_persisted : Countable PersistedInvariantDiscoveryState := by
  have hstate : Countable ConstraintState := ConstraintState.toList_injective.countable
  have hroute : Function.Injective fun route : ConstraintRoute => route.ctorIdx := by
    intro a b
    cases a <;> cases b <;> simp [ConstraintRoute.ctorIdx]
  have hroute : Countable ConstraintRoute := hroute.countable
  have hinvariant : Function.Injective fun i : DiscoveredInvariant => i.ctorIdx := by
    intro a b
    cases a <;> cases b <;> simp [DiscoveredInvariant.ctorIdx]
  have hinvariant : Countable DiscoveredInvariant := hinvariant.countable
  have hfingerprint : Function.Injective fun fp : FailureFingerprint =>
      (fp.kind.ctorIdx, fp.route, fp.state) := by
    rintro ⟨a, r, s⟩ ⟨b, r', s'⟩
    cases a <;> cases b <;> simp [FailureKind.ctorIdx]
  have hfingerprint : Countable FailureFingerprint := hfingerprint.countable
  have hpersisted : Function.Injective fun p : PersistedInvariantDiscoveryState =>
      (p.supports, p.promoted) := by
    rintro ⟨s, m⟩ ⟨s', m'⟩
    simp
  exact hpersisted.countable

noncomputable instance : Encodable PersistedInvariantDiscoveryState :=
  have := countable_persisted
  Encodable.ofCountable _

deriving instance DecidableEq for PersistedInvariantDiscoveryState

/-- The observe route was rewritten while the target was missing. -/
def sampleFingerprint : FailureFingerprint where
  kind := .routeRewrite
  route := some .observe
  state := ⟨false, false, false, false, false, false, false, false, false, false, false, false,
    false, false, false⟩

def stateFields : List Text :=
  ["semantic_path_exists", "semantic_cargo_project", "real_path_exists", "real_cargo_project",
    "actionable_failure", "validation_blocked", "entrypoint_missing", "module_gaps_present",
    "recent_no_semantic_progress", "failure_class_no_actionable", "failure_scope_localized",
    "failure_scope_workspace", "failure_scope_tooling", "route_objective_contradiction", "has_plan"]

/-- The text of a file with one supported fingerprint. -/
def sampleJson (support promoted : Text) : Text :=
  '\x7b' :: "\n  \"supports\": [\n    [\n      \x7b\n        \"kind\": \"RouteRewrite\",".toList ++
    "\n        \"route\": \"Observe\",\n        \"state\": \x7b\n".toList ++
    Text.join ",\n" (stateFields.map fun field =>
      "          \"".toList ++ field ++ "\": false".toList) ++
    "\n        \x7d\n      \x7d,\n      ".toList ++ support ++
    "\n    ]\n  ],\n  \"promoted\": ".toList ++ promoted ++ "\n\x7d".toList

/-- What is persisted while the fingerprint is observed three times. -/
def sampleTexts : List (PersistedInvariantDiscoveryState × Text) :=
  [(⟨[(sampleFingerprint, 1)], []⟩, sampleJson "1" "[]"),
    (⟨[(sampleFingerprint, 2)], []⟩, sampleJson "2" "[]"),
    (⟨[(sampleFingerprint, 3)], []⟩, sampleJson "3" "[]"),
    (⟨[(sampleFingerprint, 3)], [(.forcePlanWhenMissingTarget, 3)]⟩, sampleJson "3"
      "[\n    [\n      \"ForcePlanWhenMissingTarget\",\n      3\n    ]\n  ]")]

/-- Any other text is the number of what it stands for. -/
noncomputable def sampleFile : DiscoveryFile where
  iterSupports m := m.entries.toList.map fun e => (e.1, e.2)
  iterPromoted m := m.entries.toList.map fun e => (e.1, e.2)
  toStringPretty p :=
    some (((sampleTexts.find? (·.1 = p)).map Prod.snd).getD
      (List.replicate (Encodable.encode p) '1'))
  fromStr raw :=
    ((sampleTexts.find? (·.2 = raw)).map fun e => some e.1).getD (Encodable.decode raw.length)

theorem iter_nodup {κ : Type} [DecidableEq κ] (m : Finmap fun _ : κ => Nat) :
    ((m.entries.toList.map fun e => (e.1, e.2)).map Prod.fst).Nodup := by
  rw [List.map_map]
  have h := m.nodupKeys.nodup_keys
  rw [← Multiset.coe_toList m.entries] at h
  exact h

theorem mem_iter {κ : Type} [DecidableEq κ] (m : Finmap fun _ : κ => Nat) (k : κ) (n : Nat) :
    (k, n) ∈ (m.entries.toList.map fun e => (e.1, e.2)) ↔ m.lookup k = some n := by
  rw [Finmap.lookup_eq_some_iff, List.mem_map]
  constructor
  · rintro ⟨e, he, h⟩
    rw [Multiset.mem_toList] at he
    cases h
    exact he
  · intro h
    exact ⟨⟨k, n⟩, Multiset.mem_toList.mpr h, rfl⟩

theorem sampleFile_exact : sampleFile.Exact where
  supports_nodup := iter_nodup
  mem_supports := mem_iter
  promoted_nodup := iter_nodup
  mem_promoted := mem_iter
  roundTrip := by
    intro p
    refine ⟨_, rfl, ?_⟩
    cases hfind : sampleTexts.find? (·.1 = p) with
    | some e =>
      have hback : ∀ e ∈ sampleTexts, sampleTexts.find? (·.2 = e.2) = some e := by decide +kernel
      have hp : e.1 = p := by simpa using List.find?_some hfind
      show ((sampleTexts.find? (·.2 = e.2)).map fun e => some e.1).getD _ = some p
      rw [hback e (List.mem_of_find?_eq_some hfind), ← hp]
      rfl
    | none =>
      have hbrace : ∀ e ∈ sampleTexts, '\x7b' ∈ e.2 := by decide +kernel
      have hother : sampleTexts.find? (·.2 = List.replicate (Encodable.encode p) '1') = none := by
        rw [List.find?_eq_none]
        intro e he heq
        have hfirst := hbrace e he
        rw [of_decide_eq_true heq] at hfirst
        exact absurd (List.eq_of_mem_replicate hfirst) (by decide)
      show ((sampleTexts.find? (·.2 = List.replicate (Encodable.encode p) '1')).map _).getD _ = _
      rw [hother]
      show Encodable.decode (List.replicate (Encodable.encode p) '1').length = some p
      rw [List.length_replicate, Encodable.encodek]

/-- A promotion, which a reload keeps, and a demotion. -/
theorem discovered_invariants_history_sample :
    ReadOff sampleFile 3 (List.replicate 3 (.observe sampleFingerprint) ++ .reload ::
      List.replicate 3 (.negative .forcePlanWhenMissingTarget)) :=
  discovered_invariants_history sampleFile_exact _ (by decide)

end Sample

end Canon.Loop
