import Canon.Lib.Claims
import Canon.Loop.Executor

/-! # Claims on files

    An action that writes files claims them first, and the report that it is done
    gives them back.  Two tables of the context are involved: who holds which file,
    and what each action took.

    * the machine of everything that touches the two tables: the two dispatches, the
      handling of a report, and work elsewhere,
    * `OnRecord`: every claim stands in the second table under its action,
    * `claims_atomic_iff`: when a conflict leaves no trace, and when a report leaves
      no claim behind.
-/

namespace Canon.Loop

open Act Claims

/-! ### The holder of a claim -/

def owner (key : Text) : Text × Text := (orchestrator, key)

theorem owner_injective : Function.Injective owner := by
  intro a b h
  exact (Prod.mk.inj h).2

/-- The files of a patch, as the dispatch resolves them. -/
def patchFiles (ctx : LoopContext) (patch : Text) : List FilePath :=
  (extractPathsFromPatch patch).map (resolveActionPath · ctx)

/-- The action may claim the file. -/
def MayClaim (t : FileWriteTracker) (key : Text) (path : FilePath) : Prop :=
  Free t (owner key) (FilePath.components path)

instance (t : FileWriteTracker) (key : Text) (path : FilePath) : Decidable (MayClaim t key path) :=
  inferInstanceAs (Decidable (Free t (owner key) (FilePath.components path)))

/-- The action holds the file. -/
def Holds (t : FileWriteTracker) (key : Text) (path : FilePath) : Prop :=
  t (FilePath.components path) = some (owner key)

/-- What is claimed before the first file that another action holds. -/
def beforeConflict (t : FileWriteTracker) (key : Text) (paths : List FilePath) : List FilePath :=
  paths.takeWhile fun path => MayClaim t key path

/-! ### Taking -/

section Taking

variable {t : FileWriteTracker} {key : Text}

theorem claim_of_mayClaim {path : FilePath} (h : MayClaim t key path) :
    FileWriteTracker.claim t path orchestrator key =
      .ok (t.insert (FilePath.components path) (owner key)) := by
  unfold FileWriteTracker.claim
  cases ht : t (FilePath.components path) with
  | none => rfl
  | some other =>
    have hother : other = owner key := h other ht
    simp [hother, owner]

theorem claim_of_not_mayClaim {path : FilePath} (h : ¬ MayClaim t key path) :
    ∃ other, FileWriteTracker.claim t path orchestrator key = .error other := by
  have hheld : ∃ other, t (FilePath.components path) = some other ∧ other ≠ owner key := by
    simpa [MayClaim, Free] using h
  obtain ⟨other, ht, hne⟩ := hheld
  refine ⟨other, ?_⟩
  have hdiffers : other.1 ≠ orchestrator ∨ other.2 ≠ key := by
    by_contra hsame
    push Not at hsame
    exact hne (Prod.ext hsame.1 hsame.2)
  unfold FileWriteTracker.claim
  simp [ht, hdiffers]

/-- The claims go as far as the first conflict, and stay. -/
theorem claimAll_fst (t : FileWriteTracker) (key : Text) (paths : List FilePath) :
    (claimAll key t paths).1 =
      claimed t (owner key) ((beforeConflict t key paths).map FilePath.components) := by
  induction paths generalizing t with
  | nil => simp [claimAll, beforeConflict]
  | cons path paths ih =>
    by_cases hpath : MayClaim t key path
    · have hrest : beforeConflict (t.insert (FilePath.components path) (owner key)) key paths =
          beforeConflict t key paths := by
        unfold beforeConflict
        congr 1
        funext p
        exact decide_eq_decide.mpr (free_insert_iff hpath _)
      have hstep : beforeConflict t key (path :: paths) = path :: beforeConflict t key paths := by
        simp [beforeConflict, hpath]
      rw [hstep, List.map_cons, ← claimed_insert, ← hrest, ← ih]
      simp only [claimAll, claim_of_mayClaim hpath]
    · obtain ⟨other, hother⟩ := claim_of_not_mayClaim hpath
      have hnone : beforeConflict t key (path :: paths) = [] := by
        simp [beforeConflict, hpath]
      simp only [hnone, List.map_nil, claimed_nil, claimAll, hother]

theorem claimAll_snd_eq_none_iff (t : FileWriteTracker) (key : Text) (paths : List FilePath) :
    (claimAll key t paths).2 = none ↔ ∀ path ∈ paths, MayClaim t key path := by
  induction paths generalizing t with
  | nil => simp [claimAll]
  | cons path paths ih =>
    by_cases hpath : MayClaim t key path
    · have hrest : ∀ p, MayClaim (t.insert (FilePath.components path) (owner key)) key p ↔
          MayClaim t key p := fun p => free_insert_iff hpath _
      simp only [claimAll, claim_of_mayClaim hpath, ih, hrest, List.forall_mem_cons, hpath,
        true_and]
    · obtain ⟨other, hother⟩ := claim_of_not_mayClaim hpath
      simp [claimAll, hother, hpath]

theorem beforeConflict_of_free {paths : List FilePath} (h : ∀ path ∈ paths, MayClaim t key path) :
    beforeConflict t key paths = paths := by
  unfold beforeConflict
  rw [List.takeWhile_eq_self_iff]
  intro path hpath
  exact decide_eq_true (h path hpath)

end Taking

/-! ### The dispatches and the report -/

section Steps

variable (H : Host) (W : World) (ctx : LoopContext) (planned : LoopPlanned)

/-- A conflict is reported, with the claims made before it. -/
theorem dispatchApplyPatch_of_conflict {patch : Text} (hpatch : planned.field "patch" = some patch)
    (h : ¬ ∀ path ∈ patchFiles ctx patch, MayClaim ctx.fileWriteTracker (actionKey planned) path) :
    ∃ agent action path,
      dispatchApplyPatch H W ctx planned =
        emitConflict H
          { ctx with
            fileWriteTracker := claimed ctx.fileWriteTracker (owner (actionKey planned))
              ((beforeConflict ctx.fileWriteTracker (actionKey planned)
                (patchFiles ctx patch)).map FilePath.components) } agent action path := by
  rw [← claimAll_snd_eq_none_iff, ← ne_eq, Option.ne_none_iff_exists'] at h
  obtain ⟨⟨agent, action, path⟩, hconflict⟩ := h
  refine ⟨agent, action, path, ?_⟩
  rw [← claimAll_fst]
  unfold dispatchApplyPatch
  rw [hpatch]
  dsimp only
  split
  · rename_i tracker agent' action' path' hclaims
    change claimAll _ _ (patchFiles ctx patch) = _ at hclaims
    rw [hclaims] at hconflict
    obtain ⟨rfl, rfl, rfl⟩ : agent' = agent ∧ action' = action ∧ path' = path := by
      simpa using hconflict
    rw [hclaims]
  · rename_i tracker hclaims
    change claimAll _ _ (patchFiles ctx patch) = _ at hclaims
    rw [hclaims] at hconflict
    cases hconflict

/-- Without a conflict all files are claimed and put on record. -/
theorem dispatchApplyPatch_of_mayClaim {patch : Text} (hpatch : planned.field "patch" = some patch)
    (h : ∀ path ∈ patchFiles ctx patch, MayClaim ctx.fileWriteTracker (actionKey planned) path) :
    (dispatchApplyPatch H W ctx planned).ctx.fileWriteTracker =
        claimed ctx.fileWriteTracker (owner (actionKey planned))
          ((patchFiles ctx patch).map FilePath.components) ∧
      (dispatchApplyPatch H W ctx planned).ctx.writePathsByAction =
        if patchFiles ctx patch = [] then ctx.writePathsByAction
        else ctx.writePathsByAction.insert (actionKey planned) (patchFiles ctx patch) := by
  have hclaims : claimAll (actionKey planned) ctx.fileWriteTracker (patchFiles ctx patch) =
      (claimed ctx.fileWriteTracker (owner (actionKey planned))
        ((patchFiles ctx patch).map FilePath.components), none) := by
    apply Prod.ext
    · rw [claimAll_fst, beforeConflict_of_free h]
    · exact (claimAll_snd_eq_none_iff _ _ _).mpr h
  unfold patchFiles resolveActionPath at hclaims ⊢
  unfold dispatchApplyPatch
  simp only [hpatch, hclaims]
  exact ⟨rfl, rfl⟩

/-- A file is written when it may be claimed. -/
theorem dispatchWrite_claims :
    ((dispatchWrite H ctx planned).ctx.fileWriteTracker = ctx.fileWriteTracker ∧
        (dispatchWrite H ctx planned).ctx.writePathsByAction = ctx.writePathsByAction) ∨
      ∃ path, planned.field "path" = some path ∧
        MayClaim ctx.fileWriteTracker (actionKey planned) (resolveActionPath path ctx) ∧
        (dispatchWrite H ctx planned).ctx.fileWriteTracker =
          claimed ctx.fileWriteTracker (owner (actionKey planned))
            [FilePath.components (resolveActionPath path ctx)] ∧
        (dispatchWrite H ctx planned).ctx.writePathsByAction =
          ctx.writePathsByAction.insert (actionKey planned) [resolveActionPath path ctx] := by
  unfold dispatchWrite
  split
  · rename_i path content hpath hcontent
    by_cases hmay : MayClaim ctx.fileWriteTracker (actionKey planned) (resolveActionPath path ctx)
    · right
      refine ⟨path, hpath, hmay, ?_⟩
      simp only [claim_of_mayClaim hmay]
      refine ⟨?_, rfl⟩
      rw [← claimed_insert, claimed_nil]
      rfl
    · left
      obtain ⟨other, hother⟩ := claim_of_not_mayClaim hmay
      simp only [hother]
      unfold emitConflict
      split
      · exact ⟨rfl, rfl⟩
      · exact ⟨rfl, rfl⟩
  · exact .inl ⟨rfl, rfl⟩

theorem foldl_release (t : FileWriteTracker) (paths : List FilePath) :
    paths.foldl FileWriteTracker.release t = released t (paths.map FilePath.components) := by
  induction paths generalizing t with
  | nil => 
    funext k
    simp [released]
  | cons path paths ih =>
    rw [List.foldl_cons, ih, List.map_cons, ← released_erase]
    rfl

/-! ### Reports -/

/-- The two tables of a context. -/
def tables (ctx : LoopContext) : FileWriteTracker × FMap Text (List FilePath) :=
  (ctx.fileWriteTracker, ctx.writePathsByAction)

@[simp] theorem tables_unblockTasks (done : Text) :
    tables (unblockTasks ctx done) = tables ctx := rfl

@[simp] theorem tables_settleIntents (acted : LoopActed) (actionId : Text) :
    tables (settleIntents ctx acted actionId) = tables ctx := by
  unfold settleIntents
  split <;> rfl

@[simp] theorem tables_applyPostActCleanup (actionKind : ActionKind) :
    tables (applyPostActCleanup ctx actionKind) = tables ctx := by
  unfold applyPostActCleanup
  simp only
  split <;> rfl

theorem tables_releasePaths_congr {a b : LoopContext} (h : tables a = tables b) (actionId : Text) :
    tables (releasePaths a actionId) = tables (releasePaths b actionId) := by
  obtain ⟨htracker, hpaths⟩ := Prod.mk.inj h
  unfold releasePaths
  rw [hpaths]
  cases b.writePathsByAction actionId with
  | none => exact h
  | some paths => simp [tables, htracker]

/-- A report gives back what is on record under the identifier it carries. -/
theorem tables_handleLoopActed (acted : LoopActed) :
    tables (handleLoopActed H ctx acted).ctx =
      match acted.actionId with
      | none => tables ctx
      | some actionId => tables (releasePaths ctx actionId) := by
  have hsettled : tables (handleLoopActed H ctx acted).ctx = tables (settleActed ctx acted) := by
    unfold handleLoopActed emitDebug
    simp only
    split
    · rfl
    · split <;> rfl
  rw [hsettled]
  unfold settleActed
  simp only [tables_unblockTasks]
  cases acted.actionId with
  | none => simp only [tables_applyPostActCleanup]; rfl
  | some actionId =>
    simp only [tables_unblockTasks]
    apply tables_releasePaths_congr
    simp only [tables_settleIntents, tables_applyPostActCleanup]
    rfl

end Steps

/-! ### Runs -/

/-- What touches the two tables, and everything else. -/
inductive ClaimEvent where
  | write (H : Host) (planned : LoopPlanned)
  | patch (H : Host) (W : World) (planned : LoopPlanned)
  | acted (H : Host) (acted : LoopActed)
  | elsewhere (next : LoopContext)

def claimMachine : Machine LoopContext ClaimEvent where
  step ctx
    | .write H planned => (dispatchWrite H ctx planned).ctx
    | .patch H W planned => (dispatchApplyPatch H W ctx planned).ctx
    | .acted H acted => (handleLoopActed H ctx acted).ctx
    | .elsewhere next =>
      { next with
        fileWriteTracker := ctx.fileWriteTracker
        writePathsByAction := ctx.writePathsByAction }

variable (paths : FMap Text (List FilePath))

/-- What is on record, by components. -/
def recordOf : FMap Text (List (List Component)) :=
  fun key => (paths key).map (List.map FilePath.components)

theorem recordOf_insert (key : Text) (files : List FilePath) :
    recordOf (paths.insert key files) =
      (recordOf paths).insert key (files.map FilePath.components) := by
  funext j
  by_cases hj : j = key
  · simp [recordOf, hj]
  · simp [recordOf, hj]

theorem recordOf_erase (key : Text) :
    recordOf (paths.erase key) = (recordOf paths).erase key := by
  funext j
  by_cases hj : j = key
  · simp [recordOf, hj]
  · simp [recordOf, hj]

/-- Every claim is on record under its action. -/
def OnRecord (claims : FileWriteTracker × FMap Text (List FilePath)) : Prop :=
  Recorded owner claims.1 (recordOf claims.2)

/-- The action holds no file but these. -/
def HoldsOnly (t : FileWriteTracker) (key : Text) (files : List FilePath) : Prop :=
  ∀ k, t k = some (owner key) → k ∈ files.map FilePath.components

/-- An action takes its files at once: it claims nothing before a conflict, and what
    it held already is among what it takes. -/
def Orderly (ctx : LoopContext) : ClaimEvent → Prop
  | .write _ planned => ∀ path, planned.field "path" = some path →
      MayClaim ctx.fileWriteTracker (actionKey planned) (resolveActionPath path ctx) →
      HoldsOnly ctx.fileWriteTracker (actionKey planned) [resolveActionPath path ctx]
  | .patch _ _ planned => ∀ patch, planned.field "patch" = some patch →
      if ∀ path ∈ patchFiles ctx patch, MayClaim ctx.fileWriteTracker (actionKey planned) path then
        patchFiles ctx patch = [] ∨
          HoldsOnly ctx.fileWriteTracker (actionKey planned) (patchFiles ctx patch)
      else
        ∀ path ∈ beforeConflict ctx.fileWriteTracker (actionKey planned) (patchFiles ctx patch),
          Holds ctx.fileWriteTracker (actionKey planned) path
  | .acted _ _ | .elsewhere _ => True

theorem onRecord_releasePaths {ctx : LoopContext} (h : OnRecord (tables ctx)) (actionId : Text) :
    OnRecord (tables (releasePaths ctx actionId)) := by
  unfold releasePaths
  cases hpaths : ctx.writePathsByAction actionId with
  | none => exact h
  | some paths =>
    have hrecord : recordOf (tables ctx).2 actionId = some (paths.map FilePath.components) := by
      simp [recordOf, tables, hpaths]
    have hreleased := Recorded.release h hrecord
    rw [← foldl_release, ← recordOf_erase] at hreleased
    exact hreleased

/-- Orderly steps keep the claims on record. -/
theorem onRecord_step {ctx : LoopContext} {event : ClaimEvent} (h : OnRecord (tables ctx))
    (horderly : Orderly ctx event) : OnRecord (tables (claimMachine.step ctx event)) := by
  cases event with
  | elsewhere next => exact h
  | acted H acted =>
    show OnRecord (tables (handleLoopActed H ctx acted).ctx)
    rw [tables_handleLoopActed]
    cases acted.actionId with
    | none => exact h
    | some actionId => exact onRecord_releasePaths h actionId
  | write H planned =>
    show OnRecord (tables (dispatchWrite H ctx planned).ctx)
    rcases dispatchWrite_claims H ctx planned with ⟨ht, hp⟩ | ⟨path, hpath, hmay, ht, hp⟩
    · rw [tables, ht, hp]
      exact h
    · have honly := horderly path hpath hmay
      have hclaimed := Recorded.claim h honly
      rw [tables, ht, hp, OnRecord, recordOf_insert]
      exact hclaimed
  | patch H W planned =>
    show OnRecord (tables (dispatchApplyPatch H W ctx planned).ctx)
    cases hpatch : planned.field "patch" with
    | none =>
      have hsame : (dispatchApplyPatch H W ctx planned).ctx = ctx := by
        unfold dispatchApplyPatch
        rw [hpatch]
        rfl
      rw [hsame]
      exact h
    | some patch =>
      have hsteps := horderly patch hpatch
      split at hsteps
      · rename_i hall
        obtain ⟨ht, hp⟩ := dispatchApplyPatch_of_mayClaim H W ctx planned hpatch hall
        rw [tables, ht, hp]
        by_cases hnil : patchFiles ctx patch = []
        · rw [if_pos hnil, hnil, List.map_nil, claimed_nil]
          exact h
        · have hclaimed := Recorded.claim h (hsteps.resolve_left hnil)
          rw [if_neg hnil, OnRecord, recordOf_insert]
          exact hclaimed
      · rename_i hconflict
        obtain ⟨agent, action, path, heq⟩ :=
          dispatchApplyPatch_of_conflict H W ctx planned hpatch hconflict
        have hsame : claimed ctx.fileWriteTracker (owner (actionKey planned))
            ((beforeConflict ctx.fileWriteTracker (actionKey planned)
              (patchFiles ctx patch)).map FilePath.components) = ctx.fileWriteTracker := by
          rw [claimed_eq_self_iff]
          intro k hk
          obtain ⟨file, hfile, rfl⟩ := List.mem_map.mp hk
          exact hsteps file hfile
        rw [heq, hsame]
        unfold emitConflict
        split
        · exact h
        · exact h

theorem onRecord_run {ctx : LoopContext} {events : List ClaimEvent} (h : OnRecord (tables ctx))
    (horderly : claimMachine.Along Orderly ctx events) :
    OnRecord (tables (claimMachine.run ctx events)) :=
  claimMachine.run_invariant_of_along (I := fun s => OnRecord (tables s))
    (fun _ _ hs hg => onRecord_step hs hg) h horderly

/-! ### Conflicts and reports -/

/-- A patch that runs into the claim of another action is not applied. -/
def Refused (H : Host) (W : World) (ctx : LoopContext) (planned : LoopPlanned) : Prop :=
  ∃ tracker agent action path,
    dispatchApplyPatch H W ctx planned =
      emitConflict H { ctx with fileWriteTracker := tracker } agent action path

/-- A file of the patch is claimed by another action. -/
def Contested (ctx : LoopContext) (planned : LoopPlanned) (patch : Text) : Prop :=
  ∃ path ∈ patchFiles ctx patch, ∃ other,
    ctx.fileWriteTracker (FilePath.components path) = some other ∧ other ≠ owner (actionKey planned)

theorem Contested.not_mayClaim {ctx : LoopContext} {planned : LoopPlanned} {patch : Text}
    (h : Contested ctx planned patch) :
    ¬ ∀ path ∈ patchFiles ctx patch, MayClaim ctx.fileWriteTracker (actionKey planned) path := by
  intro hall
  obtain ⟨path, hpath, other, hother, hne⟩ := h
  exact hne (hall path hpath other hother)

/-- After the report of an action no file is claimed by it. -/
def Settled (H : Host) (ctx : LoopContext) (planned : LoopPlanned) (acted : LoopActed) : Prop :=
  ∀ k, (handleLoopActed H ctx acted).ctx.fileWriteTracker k ≠ some (owner (actionKey planned))

theorem settled_iff {H : Host} {ctx : LoopContext} {planned : LoopPlanned} {acted : LoopActed}
    (hrecord : OnRecord (tables ctx)) (hreport : acted.actionId = planned.actionId) :
    Settled H ctx planned acted ↔
      planned.actionId.isSome ∨
        ∀ k, ctx.fileWriteTracker k ≠ some (owner (actionKey planned)) := by
  have htables := tables_handleLoopActed H ctx acted
  rw [hreport] at htables
  cases hid : planned.actionId with
  | none =>
    rw [hid] at htables
    have htracker : (handleLoopActed H ctx acted).ctx.fileWriteTracker = ctx.fileWriteTracker :=
      (Prod.mk.inj htables).1
    unfold Settled
    rw [htracker]
    simp
  | some actionId =>
    rw [hid] at htables
    have hkey : actionKey planned = actionId := by
      rw [actionKey, hid, Option.getD_some]
    refine iff_of_true ?_ (.inl rfl)
    intro k
    rw [(Prod.mk.inj htables).1, hkey]
    unfold releasePaths
    cases hpaths : ctx.writePathsByAction actionId with
    | none =>
      have hnone : recordOf (tables ctx).2 actionId = none := by
        simp [recordOf, tables, hpaths]
      exact Recorded.ne_of_none hrecord owner_injective hnone k
    | some paths =>
      have hsome : recordOf (tables ctx).2 actionId = some (paths.map FilePath.components) := by
        simp [recordOf, tables, hpaths]
      have hne := Recorded.released_ne hrecord owner_injective hsome k
      rw [← foldl_release] at hne
      exact hne

/-- In every orderly run a patch that meets the claim of another action is refused,
    without a trace exactly when the files in front of the conflict were its own
    already; and the report of an action leaves no claim behind exactly when it
    carries an identifier or there was no claim. -/
theorem claims_atomic_iff {workspace : FilePath} {policy : DestructiveCmdPolicy}
    {events : List ClaimEvent}
    (horderly : claimMachine.Along Orderly (LoopContext.new workspace policy) events) :
    let ctx := claimMachine.run (LoopContext.new workspace policy) events
    (∀ (H : Host) (W : World) (planned : LoopPlanned) (patch : Text),
        planned.field "patch" = some patch → Contested ctx planned patch →
        Refused H W ctx planned ∧
          ((dispatchApplyPatch H W ctx planned).ctx.fileWriteTracker = ctx.fileWriteTracker ↔
            ∀ path ∈ beforeConflict ctx.fileWriteTracker (actionKey planned) (patchFiles ctx patch),
              Holds ctx.fileWriteTracker (actionKey planned) path)) ∧
      ∀ (H : Host) (planned : LoopPlanned) (acted : LoopActed),
        acted.actionId = planned.actionId →
        (Settled H ctx planned acted ↔
          planned.actionId.isSome ∨
            ∀ k, ctx.fileWriteTracker k ≠ some (owner (actionKey planned))) := by
  intro ctx
  have hrecord : OnRecord (tables ctx) := onRecord_run (recorded_empty _) horderly
  refine ⟨?_, fun H planned acted hreport => settled_iff hrecord hreport⟩
  intro H W planned patch hpatch hcontested
  obtain ⟨agent, action, path, heq⟩ :=
    dispatchApplyPatch_of_conflict H W ctx planned hpatch hcontested.not_mayClaim
  refine ⟨⟨_, agent, action, path, heq⟩, ?_⟩
  have htracker : (dispatchApplyPatch H W ctx planned).ctx.fileWriteTracker =
      claimed ctx.fileWriteTracker (owner (actionKey planned))
        ((beforeConflict ctx.fileWriteTracker (actionKey planned)
          (patchFiles ctx patch)).map FilePath.components) := by
    rw [heq]
    unfold emitConflict
    split <;> rfl
  rw [htracker, claimed_eq_self_iff, List.forall_mem_map]
  rfl

/-! ### Two patches -/

def addX : String := "*** Begin Patch\n*** Add File: x\n+a\n*** End Patch"

def addYUpdateX : String :=
  "*** Begin Patch\n*** Add File: y\n+b\n*** Update File: x\n@@\n-a\n+c\n*** End Patch"

def patchPlan (actionId : Option Text) (patch : String) : LoopPlanned :=
  { (default : LoopPlanned) with
    actionKind := .applyPatch
    actionPayload := .obj [("patch", .str patch)]
    actionId := actionId }

def reportOf (planned : LoopPlanned) : LoopActed :=
  { (default : LoopActed) with actionKind := planned.actionKind, actionId := planned.actionId }

/-- The file of one patch is the first file of another, which is refused without a trace; and
    nothing stays claimed after the first. -/
theorem claims_atomic_refused :
    let ctx := claimMachine.run (LoopContext.new "/w" .block)
      [.patch tallyHost emptyDir (patchPlan (some ['a']) addX)]
    (Refused tallyHost emptyDir ctx (patchPlan (some ['b']) addX) ∧
        (dispatchApplyPatch tallyHost emptyDir ctx
          (patchPlan (some ['b']) addX)).ctx.fileWriteTracker = ctx.fileWriteTracker) ∧
      Settled tallyHost ctx (patchPlan (some ['a']) addX)
        (reportOf (patchPlan (some ['a']) addX)) := by
  have horderly : claimMachine.Along Orderly (LoopContext.new "/w" .block)
      [.patch tallyHost emptyDir (patchPlan (some ['a']) addX)] := by
    refine ⟨?_, trivial⟩
    intro patch hpatch
    split
    · right
      intro k hk
      cases hk
    · rename_i hconflict
      refine absurd ?_ hconflict
      intro path hpath other hother
      cases hother
  have hcontested : Contested
      (claimMachine.run (LoopContext.new "/w" .block)
        [.patch tallyHost emptyDir (patchPlan (some ['a']) addX)])
      (patchPlan (some ['b']) addX) addX.toList :=
    ⟨"/w/x".toList, by decide +kernel, owner ['a'], by decide +kernel, by decide⟩
  have hatomic := claims_atomic_iff horderly
  have hrefused := hatomic.1 tallyHost emptyDir _ _ rfl hcontested
  refine ⟨⟨hrefused.1, hrefused.2.mpr ?_⟩, (hatomic.2 tallyHost _ _ rfl).mpr (.inl rfl)⟩
  intro path hpath
  exact absurd hpath (List.eq_nil_iff_forall_not_mem.mp (by decide +kernel) path)

/-- The first patch has no identifier, and its claim of `x` stays.  The second one
    claims `y` before it meets that claim. -/
theorem claims_left_behind :
    ∃ events, let ctx := claimMachine.run (LoopContext.new "/w" .block) events
      (¬ ∀ (H : Host) (W : World) (planned : LoopPlanned) (patch : Text),
        planned.field "patch" = some patch → Contested ctx planned patch →
        Refused H W ctx planned ∧
          (dispatchApplyPatch H W ctx planned).ctx.fileWriteTracker = ctx.fileWriteTracker) ∧
      ¬ ∀ (H : Host) (planned : LoopPlanned) (acted : LoopActed),
        acted.actionId = planned.actionId → Settled H ctx planned acted := by
  refine ⟨[.patch tallyHost emptyDir (patchPlan none addX),
    .acted tallyHost (reportOf (patchPlan none addX))], ?_, ?_⟩
  · intro hall
    have hcontested : Contested
        (claimMachine.run (LoopContext.new "/w" .block)
          [.patch tallyHost emptyDir (patchPlan none addX),
            .acted tallyHost (reportOf (patchPlan none addX))])
        (patchPlan (some ['b']) addYUpdateX) addYUpdateX.toList := by
      refine ⟨"/w/x".toList, by decide +kernel, owner "tick:0:apply_patch".toList, ?_, ?_⟩
      · decide +kernel
      · decide
    have hsame := (hall tallyHost emptyDir (patchPlan (some ['b']) addYUpdateX)
      addYUpdateX.toList rfl hcontested).2
    have hclaimed := congrFun hsame (FilePath.components "/w/y".toList)
    revert hclaimed
    decide +kernel
  · intro hall
    have hfree := hall tallyHost (patchPlan none addX) (reportOf (patchPlan none addX)) rfl
      (FilePath.components "/w/x".toList)
    revert hfree
    decide +kernel

end Canon.Loop
