import Canon.Lib.Cut
import Canon.Lib.Fallible
import Canon.Loop.ActSafety
import Canon.Route.ToolResults

/-! # Where long texts are cut

    Several places keep a prefix of a long text for a prompt or a journal: the
    reports of other agents, the output of tools, the content of files, and what
    the planner is told about its last actions.  Each takes a fixed number of
    bytes, and each panics when these end inside a character.
-/

namespace Canon.Loop

open Act

variable (batchActed : List LoopActed)

/-! ### The planner's prompt -/

/-- `Option<i32>` as `{:?}` prints it. -/
def debugExitCode : Option Int → Text
  | none => "None"
  | some code => "Some(".toList ++ (toString code).toList ++ ")".toList

/-- A prefix of a text for the prompt; nothing when the cut is inside a character. -/
def promptCut (limit : Nat) (text : Text) : Option Text :=
  if Text.byteLen text > limit then Text.takeBytes? limit text else some text

/-- One of the last actions: its outcome and the beginning of what it printed. -/
def recentAction (action : LoopActed) : Option Text :=
  let entry := "- action=".toList ++ action.actionKind.asStr ++ " success=".toList ++
    Text.ofBool action.success ++ " exit_code=".toList ++ debugExitCode action.exitCode
  let stdout := Text.trim action.stdout
  let stderr := Text.trim action.stderr
  let withStdout :=
    if stdout ≠ [] then (promptCut 800 stdout).map (entry ++ "\n  stdout: ".toList ++ ·)
    else some entry
  withStdout.bind fun entry =>
    if stderr ≠ [] then (promptCut 400 stderr).map (entry ++ "\n  stderr: ".toList ++ ·)
    else some entry

/-- The actions the prompt shows: at most 24, the last one first. -/
def shownActions : List LoopActed := batchActed.reverse.take 24

def recentActions : Option (List Text) :=
  (shownActions batchActed).mapM recentAction

variable (reason : Option Text) (consecutiveInvalidPlanBatches : Nat)
    (results : List SemanticExecutionResultRecord) (jsonToStringPretty : Json → Text)
    (trend : ObjectiveTrendState) (batchToolResults : List ToolResult)

/-- One of the last tool results with the beginning of its output. -/
def recentToolResult (result : ToolResult) : Option Text :=
  (promptCut 600 (jsonToStringPretty result.output)).map fun truncated =>
    "- kind=".toList ++ result.kind ++ " success=".toList ++ Text.ofBool result.success ++
      "\n  output: ".toList ++ truncated

/-- The tool results the prompt shows: at most 12, the last one first. -/
def shownToolResults : List ToolResult :=
  batchToolResults.reverse.take 12

def recentToolResults :
    Option (List Text) :=
  (shownToolResults batchToolResults).mapM (recentToolResult jsonToStringPretty)

/-! ### The planner's hint -/

/-- The text without the space around it, on one line. -/
def oneLine (text : Text) : Text := (Text.trim text).map fun c => if c = '\n' then ' ' else c

def truncateHintText (text : Text) (maxLen : Nat) : Option Text :=
  let trimmed := oneLine text
  if Text.byteLen trimmed > maxLen then
    (Text.takeBytes? maxLen trimmed).map (· ++ "...".toList)
  else some trimmed

def SemanticExecutionResultRecord.renderLine (r : SemanticExecutionResultRecord) : Text :=
  "kind=".toList ++ r.kind ++ " attempted_kind=".toList ++ r.attemptedKind.getD "none" ++
    " progress=".toList ++ Text.ofBool r.semanticProgress ++ " targets=".toList ++
    (if r.targetFiles = [] then "none".toList else Text.join "|" r.targetFiles) ++
    " summary=".toList ++ r.summary

def ObjectiveTrendState.invalidPlanRate : Float32 :=
  if trend.planningAttempts = 0 then 0
  else Float32.ofNat trend.invalidPlanEvents / Float32.ofNat trend.planningAttempts

def retryTip : RetryPolicy → List Text
  | .none => []
  | .discoveryOnly =>
    ["Programmatic tip: next batch must be discovery-only; emit only list_dir/read_file."]
  | .singlePatchOnly =>
    ["Programmatic tip: next batch must contain exactly one apply_patch and no run_command."]
  | .correctiveRetry =>
    ["Programmatic tip: fix the previous invalid payload directly; do not default to discovery unless file contents are missing."]

/-- The lines of the hint that do not depend on the text of a failure. -/
def contextHintLines : List Text :=
  (reason.map ("Previous invalid-plan reason: ".toList ++ ·)).toList ++
    retryTip (retryPolicyForPlanningContext reason consecutiveInvalidPlanBatches results trend) ++
    (if latestGraphProofFailed results then
      ["Programmatic tip: the last semantic edit failed graph proof; refresh compiler context and do not repeat the same symbolic edit unchanged.".toList]
     else []) ++
    (if semanticNoProgressStreak results ≥ 2 then
      ["Programmatic tip: repeated no-progress batches indicate a stalled repair loop; change approach or refresh context before retrying.".toList]
     else []) ++
    (if trend.invalidPlanRate > 0.5 && trend.planningAttempts ≥ 3 then
      ["Programmatic tip: invalid-plan rate is high; simplify the next batch and avoid mixing multiple repair strategies.".toList]
     else []) ++
    (if trend.misalignmentPressureScore > 0 then
      ["Programmatic tip: contradiction events indicate goal/route drift; explicitly realign the next batch with the active repair objective.".toList]
     else []) ++
    (results.getLast?.map fun r => "Recent execution semantics: ".toList ++ r.renderLine).toList

/-- The line about the last failure.  Its text is cut here once more. -/
def failureHintLine (kind text : Text) : Option (List Text) :=
  (truncateHintText text 240).map fun text =>
    if text ≠ [] then
      ["Recent failure hint: last failed action was ".toList ++ kind ++ " with output: ".toList ++
        text]
    else []

def plannerHintLines (lastFailed : Option (Text × Text)) : Option (List Text) :=
  let out := contextHintLines reason consecutiveInvalidPlanBatches results trend
  match lastFailed with
  | none => some out
  | some (kind, text) => (failureHintLine kind text).map (out ++ ·)

def semanticPlannerHintLines (failureClass failureScope : Option Text) : List Text :=
  (if failureClass = some "no_actionable_failure" then
    ["Programmatic tip: typed failure_class=no_actionable_failure; do not emit repair actions. Refresh observation instead.".toList]
   else []) ++
  (if failureScope = some "localized" then
    ["Programmatic tip: typed failure_scope=localized; prefer semantic/file repair on the targeted source paths. Avoid workspace-wide bootstrap or config changes unless fresh observation proves drift.".toList]
   else if failureScope = some "workspace" ∨ failureScope = some "tooling" then
    ["Programmatic tip: typed failure_scope=workspace/tooling; prefer observe, bootstrap, config, or tool-level repair. Avoid localized semantic/file edits as the first batch.".toList]
   else [])

/-- The last failed action that printed something, with what it printed; only while no
    execution results are known. -/
def lastFailure :
    Option (Text × Text) :=
  if results = [] then
    (batchActed.reverse.find? fun a =>
        !a.success && (Text.trim a.stderr ≠ [] || Text.trim a.stdout ≠ [])).map fun a =>
      (a.actionKind.asStr, if Text.trim a.stderr ≠ [] then a.stderr else a.stdout)
  else none

def buildPlannerHint (lastInvalidPlanReason : Option Text) (consecutiveInvalidPlanBatches : Nat)
    (results : List SemanticExecutionResultRecord) (trend : ObjectiveTrendState)
    (summary : SemanticStateSummary) : Option Text :=
  let failed : Option (Option (Text × Text)) :=
    match lastFailure batchActed results with
    | none => some none
    | some (kind, text) => (truncateHintText text 240).map fun text => some (kind, text)
  failed.bind fun failed =>
    (plannerHintLines lastInvalidPlanReason consecutiveInvalidPlanBatches results trend
      failed).map fun lines =>
      let lines :=
        lines ++ semanticPlannerHintLines summary.primaryFailureClass summary.failureScope
      if lines = [] then "none" else Text.join "\n" lines

/-! ### When the places panic -/

theorem isSome_promptCut_iff (limit : Nat) (text : Text) :
    (promptCut limit text).isSome ↔ Text.CutsAt limit text := by
  have h := Text.isSome_cut_iff limit text id text
  rw [Option.map_id] at h
  exact h

theorem isSome_recentAction_iff (action : LoopActed) :
    (recentAction action).isSome ↔
      Text.CutsAt 800 (Text.trim action.stdout) ∧ Text.CutsAt 400 (Text.trim action.stderr) := by
  have hempty : ∀ limit, Text.CutsAt limit [] := fun limit => .inl (Nat.zero_le limit)
  have hstderr : ∀ entry : Text, (if Text.trim action.stderr ≠ [] then
      (promptCut 400 (Text.trim action.stderr)).map (entry ++ "\n  stderr: ".toList ++ ·)
      else some entry).isSome ↔ Text.CutsAt 400 (Text.trim action.stderr) := by
    intro entry
    by_cases h : Text.trim action.stderr = []
    · simp [h, hempty 400]
    · rw [if_pos h, Option.isSome_map, isSome_promptCut_iff]
  unfold recentAction
  by_cases h : Text.trim action.stdout = []
  · simp only [h, ne_eq, not_true_eq_false, if_false, Option.bind_some, hempty 800, true_and]
    exact hstderr _
  · rw [← isSome_promptCut_iff 800]
    simp only [h, ne_eq, not_false_eq_true, if_true]
    cases hcut : promptCut 800 (Text.trim action.stdout) with
    | none => simp
    | some text =>
      simp only [Option.map_some, Option.bind_some, Option.isSome_some, true_and]
      exact hstderr _

theorem isSome_recentActions_iff :
    (recentActions batchActed).isSome ↔ ∀ action ∈ shownActions batchActed,
      Text.CutsAt 800 (Text.trim action.stdout) ∧ Text.CutsAt 400 (Text.trim action.stderr) := by
  rw [recentActions, mapM_isSome_iff]
  exact forall₂_congr fun action _ => isSome_recentAction_iff action

theorem isSome_recentToolResults_iff :
    (recentToolResults jsonToStringPretty batchToolResults).isSome ↔
      ∀ result ∈ shownToolResults batchToolResults,
        Text.CutsAt 600 (jsonToStringPretty result.output) := by
  rw [recentToolResults, mapM_isSome_iff]
  refine forall₂_congr fun result _ => ?_
  rw [recentToolResult, Option.isSome_map, isSome_promptCut_iff]

theorem byteLen_oneLine_le (text : Text) : Text.byteLen (oneLine text) ≤ Text.byteLen text := by
  have hsize : ∀ c : Char, (if c = '\n' then ' ' else c).utf8Size = c.utf8Size := by
    intro c
    by_cases h : c = '\n'
    · rw [if_pos h, h]
      rfl
    · rw [if_neg h]
  have hmap : Text.byteLen (oneLine text) = Text.byteLen (Text.trim text) := by
    simp only [Text.byteLen, oneLine, List.map_map, Function.comp_def, hsize]
  rw [hmap]
  exact Text.byteLen_trim_le text

/-- The part that was kept is on one line already. -/
theorem oneLine_cut {front text : Text} (hfront : front <+: oneLine text) (hne : front ≠ []) :
    oneLine (front ++ "...".toList) = front ++ "...".toList := by
  obtain ⟨c, rest, rfl⟩ := List.exists_cons_of_ne_nil hne
  have hline : ∀ d ∈ c :: rest, d ≠ '\n' := by
    intro d hd
    obtain ⟨e, -, rfl⟩ := List.mem_map.mp (hfront.subset hd)
    by_cases he : e = '\n'
    · rw [if_pos he]
      decide
    · rwa [if_neg he]
  -- The first character is the first of a trimmed text.
  have hspace : Text.isWhitespace c = false := by
    obtain ⟨back, hback⟩ := hfront
    cases htrim : Text.trim text with
    | nil => simp [oneLine, htrim] at hback
    | cons d trimmed =>
      have hd := Text.isWhitespace_head_trim htrim
      have hdn : d ≠ '\n' := by
        intro h
        rw [h] at hd
        simp [Text.isWhitespace] at hd
      rw [oneLine, htrim, List.map_cons, if_neg hdn] at hback
      rw [(List.cons.inj hback).1]
      exact hd
  have hend : Text.trimEnd (rest ++ "...".toList) = rest ++ "...".toList := by
    have hdots : Text.trimEnd "...".toList = "...".toList := by decide
    have happ := Text.trimEnd_append (s := rest) (t := "...".toList) (by rw [hdots]; decide)
    rw [hdots] at happ
    exact happ
  rw [oneLine, List.cons_append, Text.trim_cons hspace, hend, ← List.cons_append]
  refine (List.map_congr_left ?_).trans (List.map_id _)
  intro d hd
  rcases List.mem_append.mp hd with hd | hd
  · exact if_neg (hline d hd)
  · have hdot : d = '.' := by simpa using hd
    rw [hdot]
    decide

theorem isSome_truncateHintText_iff (text : Text) (maxLen : Nat) :
    (truncateHintText text maxLen).isSome ↔ Text.CutsAt maxLen (oneLine text) :=
  Text.isSome_cut_iff maxLen (oneLine text) _ _

/-- The second cut of the same text does not panic. -/
theorem truncateHintText_again {text cut : Text} {maxLen : Nat} (hpos : 0 < maxLen)
    (h : truncateHintText text maxLen = some cut) : (truncateHintText cut maxLen).isSome := by
  rw [isSome_truncateHintText_iff]
  unfold truncateHintText at h
  dsimp only at h
  split at h
  · obtain ⟨front, htake, rfl⟩ := Option.map_eq_some_iff.mp h
    obtain ⟨hfront, hlen⟩ := (Text.takeBytes?_eq_some_iff _ _ _).mp htake
    have hne : front ≠ [] := by
      intro hnil
      rw [hnil] at hlen
      simp only [Text.byteLen, List.map_nil, List.sum_nil] at hlen
      omega
    rw [oneLine_cut hfront hne]
    exact .inr ⟨front, List.prefix_append _ _, hlen⟩
  · rename_i hshort
    rw [← Option.some.inj h]
    left
    have hle := byteLen_oneLine_le (oneLine text)
    omega

theorem isSome_plannerHintLines_iff (lastFailed : Option (Text × Text)) :
    (plannerHintLines reason consecutiveInvalidPlanBatches results trend lastFailed).isSome ↔
      ∀ kind text, lastFailed = some (kind, text) → (truncateHintText text 240).isSome := by
  unfold plannerHintLines
  cases lastFailed with
  | none => simp
  | some failed =>
    obtain ⟨kind, text⟩ := failed
    simp only [Option.isSome_map, failureHintLine, Option.some.injEq, Prod.mk.injEq]
    constructor
    · rintro h _ _ ⟨-, rfl⟩
      exact h
    · intro h
      exact h kind text ⟨rfl, rfl⟩

theorem isSome_buildPlannerHint_iff (lastInvalidPlanReason : Option Text)
    (consecutiveInvalidPlanBatches : Nat) (results : List SemanticExecutionResultRecord)
    (trend : ObjectiveTrendState) (summary : SemanticStateSummary) :
    (buildPlannerHint batchActed lastInvalidPlanReason consecutiveInvalidPlanBatches results trend
        summary).isSome ↔
      ∀ kind text, lastFailure batchActed results = some (kind, text) →
        Text.CutsAt 240 (oneLine text) := by
  unfold buildPlannerHint
  cases hlast : lastFailure batchActed results with
  | none => simp [plannerHintLines]
  | some failed =>
    obtain ⟨kind, text⟩ := failed
    have hgoal : (∀ kind' text', some (kind, text) = some (kind', text') →
        Text.CutsAt 240 (oneLine text')) ↔ Text.CutsAt 240 (oneLine text) := by
      constructor
      · intro h
        exact h kind text rfl
      · rintro h _ _ ⟨⟩
        exact h
    rw [hgoal, ← isSome_truncateHintText_iff]
    cases hcut : truncateHintText text 240 with
    | none => simp [hcut]
    | some cut =>
      have hagain := truncateHintText_again (by decide) hcut
      simp only [hcut, Option.map_some, Option.bind_some, Option.isSome_map, Option.isSome_some,
        iff_true]
      rw [isSome_plannerHintLines_iff]
      rintro _ _ ⟨⟩
      exact hagain

theorem panicked_handleSubtaskResult_iff (H : Host) (ctx : LoopContext) (result : SubTaskResult) :
    (handleSubtaskResult H ctx result).panicked = false ↔
      Text.CutsAt 256 (H.jsonToString result.output) := by
  rw [← Text.isSome_cut_iff 256 _ (· ++ "...<truncated>".toList) (H.jsonToString result.output)]
  unfold handleSubtaskResult
  dsimp only
  generalize (if Text.byteLen (H.jsonToString result.output) > 256 then
    (Text.takeBytes? 256 (H.jsonToString result.output)).map (· ++ "...<truncated>".toList)
    else some (H.jsonToString result.output)) = cut
  cases cut with
  | none => simp
  | some text => exact iff_of_true rfl rfl

theorem isSome_onToolResult_iff (jsonToString : Json → Text) (c : Route.RouteContext)
    (tr : ToolResult) :
    (c.onToolResult jsonToString tr).isSome ↔ Text.CutsAt 512 (jsonToString tr.output) := by
  unfold Route.RouteContext.onToolResult
  rw [Option.isSome_map]
  exact Text.isSome_cut_iff 512 _ _ _

theorem returns_dispatchRead_cut (H : Host) (W : World) (ctx : LoopContext)
    (planned : LoopPlanned) :
    Returns (dispatchRead H W ctx planned) ↔
      ∀ path content, planned.field "path" = some path →
        W.fs.readToString (resolveActionPath path ctx) = some content →
        Text.CutsAt 8000 content := by
  rw [returns_dispatchRead_iff]
  simp only [Text.takeBytes?_isSome_iff]
  exact Iff.rfl

/-- **Where texts are cut without a panic**: each place returns exactly when every text
    it cuts fits its limit or has characters that fill the limit. -/
theorem truncation_returns_iff (H : Host) (W : World) (jsonToStringPretty : Json → Text) :
    (∀ ctx result, (handleSubtaskResult H ctx result).panicked = false ↔
      Text.CutsAt 256 (H.jsonToString result.output)) ∧
    (∀ (c : Route.RouteContext) tr, (c.onToolResult H.jsonToString tr).isSome ↔
      Text.CutsAt 512 (H.jsonToString tr.output)) ∧
    (∀ ctx planned, Returns (dispatchRead H W ctx planned) ↔
      ∀ path content, planned.field "path" = some path →
        W.fs.readToString (resolveActionPath path ctx) = some content →
        Text.CutsAt 8000 content) ∧
    (∀ batchActed, (recentActions batchActed).isSome ↔ ∀ action ∈ shownActions batchActed,
      Text.CutsAt 800 (Text.trim action.stdout) ∧ Text.CutsAt 400 (Text.trim action.stderr)) ∧
    (∀ batchToolResults, (recentToolResults jsonToStringPretty batchToolResults).isSome ↔
      ∀ result ∈ shownToolResults batchToolResults,
        Text.CutsAt 600 (jsonToStringPretty result.output)) ∧
    (∀ batchActed reason batches results trend summary,
      (buildPlannerHint batchActed reason batches results trend summary).isSome ↔
        ∀ kind text, lastFailure batchActed results = some (kind, text) →
          Text.CutsAt 240 (oneLine text)) :=
  ⟨panicked_handleSubtaskResult_iff H, isSome_onToolResult_iff H.jsonToString,
    returns_dispatchRead_cut H W, isSome_recentActions_iff,
    isSome_recentToolResults_iff jsonToStringPretty, isSome_buildPlannerHint_iff⟩

/-- An action that printed 799 letters and an accented one. -/
def accentedOutput : LoopActed :=
  { (default : LoopActed) with stdout := List.replicate 799 'a' ++ ['é'] }

theorem recentActions_panics : recentActions [accentedOutput] = none := by
  have htrim : Text.trim accentedOutput.stdout = List.replicate 799 'a' ++ ['é'] := by
    show Text.trim ('a' :: (List.replicate 798 'a' ++ ['é'])) = _
    rw [Text.trim_cons (by decide), Text.trimEnd_concat, if_neg (by decide)]
    rfl
  have hnot : ¬ (recentActions [accentedOutput]).isSome := by
    rw [isSome_recentActions_iff]
    intro h
    have hcut := (h accentedOutput (by simp [shownActions])).1
    rw [htrim] at hcut
    exact Text.not_cutsAt_replicate 799 (by decide) (by decide) hcut
  simpa using hnot

end Canon.Loop
