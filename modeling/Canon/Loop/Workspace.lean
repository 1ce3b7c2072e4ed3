import Mathlib.Algebra.Order.Ring.Nat
import Canon.Loop.Constraints

/-! # What an observation says about the workspace

    The goal document (`canon-goal`), the model of the target directory
    (`env_model.rs`), the hints read from compiler messages (`compiler_hints.rs`),
    the planning preconditions derived from both, and the payload of an
    observation (`observe.rs`).

    A slice of a text by bytes that ends inside a character is a panic of the host
    language; where that can happen the result is an `Option`.
-/

namespace Canon.Loop

variable (fs : Fs) (text : Text) (root : FilePath) (goalText : Text)

/-! ### The goal document -/

structure GoalSpec where
  targetPath : Option FilePath
  requirements : List Text
  description : Text

/-- `s` without the copies of `p` at its start. -/
def trimStartMatches (p : Text) : Nat → Text → Text
  | 0, s => s
  | fuel + 1, s =>
    match Text.stripPrefix? p s with
    | some rest => trimStartMatches p fuel rest
    | none => s

structure GoalScan where
  inDescription : Bool
  descriptionLines : List Text
  targetPath : Option FilePath
  requirements : List Text

def scanGoalLine (scan : GoalScan) (line : Text) : GoalScan :=
  let trimmed := Text.trim line
  if Text.startsWith "# " trimmed then { scan with inDescription := true }
  else
    let scan := if Text.startsWith "## " trimmed then { scan with inDescription := false } else scan
    let scan :=
      if scan.inDescription && trimmed ≠ [] then
        { scan with descriptionLines := scan.descriptionLines ++ [trimmed] }
      else scan
    match Text.stripPrefix? "- Project path:" trimmed with
    | some path =>
      let candidate := Text.trimMatches '\x60' (Text.trim path)
      if candidate ≠ [] then { scan with targetPath := some candidate } else scan
    | none =>
      if Text.startsWith "- " trimmed then
        { scan with
          requirements := scan.requirements ++
            [Text.trim (trimStartMatches "- " trimmed.length trimmed)] }
      else scan

def parseAgentGoalMarkdown : GoalSpec :=
  let scan := (Text.lines goalText).foldl scanGoalLine ⟨false, [], none, []⟩
  { targetPath := scan.targetPath
    requirements := scan.requirements
    description := Text.join " " scan.descriptionLines }

/-! ### The workspace model -/

inductive EntrypointKind where
  | none
  | bin
  | lib
  | mixed
deriving DecidableEq, Repr

def EntrypointKind.asStr : EntrypointKind → Text
  | none => "none"
  | bin => "bin"
  | lib => "lib"
  | mixed => "mixed"

structure ModuleGap where
  declaredIn : FilePath
  moduleName : Text
  expectedPaths : List FilePath
deriving Repr

structure WorkspaceModel where
  targetRoot : FilePath
  pathExists : Bool
  repoInitialized : Bool
  cargoTomlExists : Bool
  cargoLockExists : Bool
  crateName : Option Text
  srcDirExists : Bool
  entrypointKind : EntrypointKind
  rustFileCount : Nat
  sourceFiles : List FilePath
  moduleGaps : List ModuleGap
deriving Repr

/-- The names of the Rust files below a node, each as the list of names that leads
    to it.  A directory called `target` is not entered. -/
def rustFilesOf : FileNode → List (List Text)
  | .file _ => []
  | .dir entries => rustFilesOfEntries entries
where
  rustFilesOfEntries : List (Text × FileNode) → List (List Text)
    | [] => []
    | (name, .file _) :: rest =>
      if name ≠ "target" && FilePath.extension name = some "rs"
        then [name] :: rustFilesOfEntries rest
      else rustFilesOfEntries rest
    | (name, .dir entries) :: rest =>
      if name = "target" then rustFilesOfEntries rest
      else (rustFilesOfEntries entries).map (name :: ·) ++ rustFilesOfEntries rest

def rustFilesBelow : List (List Text) :=
  ((fs.find root).map rustFilesOf).getD []

def countRustFiles : Nat := (rustFilesBelow fs root).length

/-- The source files relative to the root, in the order of their components. -/
def collectSourceFiles : List FilePath :=
  ((rustFilesBelow fs root).insertionSort fun a b => ¬ b < a).map (Text.join "/")

def parseCrateName (cargoToml : FilePath) : Option Text :=
  (fs.readToString cargoToml).bind fun contents =>
    (Text.lines contents).findSome? fun rawLine =>
      (Text.stripPrefix? "name" (Text.trim rawLine)).bind fun rest =>
        (Text.stripPrefix? "=" (Text.trimStart rest)).bind fun rest =>
          let value :=
            Text.trim (Text.trimMatches '\x27' (Text.trimMatches '\x22' (Text.trim rest)))
          if value ≠ [] then some value else none

def isIdentifierChar (c : Char) : Bool := c.isAlphanum || c = '_'

def parseModuleDeclaration (rawLine : Text) : Option Text :=
  let line := Text.trim rawLine
  if Text.startsWith "//" line || '\x7b' ∈ line then none
  else
    ((Text.stripPrefix? "pub mod " line).or (Text.stripPrefix? "mod " line)).bind fun candidate =>
      let name := Text.trim (Text.trimEndMatches ';' (Text.trim candidate))
      if name ≠ [] && name.all isIdentifierChar then some name else none

def parseModuleDeclarations (contents : Text) : List Text :=
  (Text.lines contents).filterMap parseModuleDeclaration

/-- The declared modules of one entrypoint that have no file. -/
def moduleGapsOf (root entry : FilePath) : List ModuleGap :=
  if !fs.pathExists entry then []
  else
    match fs.readToString entry with
    | none => []
    | some contents =>
      (parseModuleDeclarations contents).filterMap fun moduleName =>
        let parent := (FilePath.parent entry).getD root
        let expectedRs := FilePath.join parent (moduleName ++ ".rs".toList)
        let expectedMod := FilePath.join (FilePath.join parent moduleName) "mod.rs"
        if !fs.pathExists expectedRs && !fs.pathExists expectedMod then
          some { declaredIn := entry, moduleName := moduleName,
                 expectedPaths := [expectedRs, expectedMod] }
        else none

def collectModuleGaps : List ModuleGap :=
  moduleGapsOf fs root (FilePath.join root "src/lib.rs") ++
    moduleGapsOf fs root (FilePath.join root "src/main.rs")

/-- The first non-empty text between backticks on one line. -/
def extractPathFromGoalText : Option FilePath :=
  (Text.lines goalText).findSome? fun line =>
    match line.splitOn '\x60' with
    | _ :: path :: _ :: _ => if Text.trim path ≠ [] then some (Text.trim path) else none
    | _ => none

/-- The target directory and whether it exists. -/
def targetOf (workspace : FilePath) : FilePath × Bool :=
  let parsed := (parseAgentGoalMarkdown goalText).targetPath.or (extractPathFromGoalText goalText)
  -- What stands behind the first backtick wins, even when it does not exist.
  match (goalText.splitOn '\x60')[1]? with
  | some raw => (raw, fs.pathExists raw)
  | none =>
    match parsed with
    | some path => (path, fs.pathExists path)
    -- Without a path in the goal the workspace itself counts as missing.
    | none => (workspace, false)

def WorkspaceModel.inspect (workspace : FilePath) : WorkspaceModel :=
  let (targetRoot, pathExists) := targetOf fs goalText workspace
  if !pathExists then
    { targetRoot := targetRoot, pathExists := pathExists, repoInitialized := false,
      cargoTomlExists := false, cargoLockExists := false, crateName := none,
      srcDirExists := false, entrypointKind := .none, rustFileCount := 0, sourceFiles := [],
      moduleGaps := [] }
  else
    let srcDir := FilePath.join targetRoot "src"
    let entrypointKind : EntrypointKind :=
      match fs.pathExists (FilePath.join srcDir "main.rs"),
        fs.pathExists (FilePath.join srcDir "lib.rs") with
      | true, true => .mixed
      | true, false => .bin
      | false, true => .lib
      | false, false => .none
    { targetRoot := targetRoot
      pathExists := pathExists
      repoInitialized := fs.pathExists (FilePath.join targetRoot ".git")
      cargoTomlExists := fs.pathExists (FilePath.join targetRoot "Cargo.toml")
      cargoLockExists := fs.pathExists (FilePath.join targetRoot "Cargo.lock")
      crateName := parseCrateName fs (FilePath.join targetRoot "Cargo.toml")
      srcDirExists := fs.isDir srcDir
      entrypointKind := entrypointKind
      rustFileCount := countRustFiles fs targetRoot
      sourceFiles := collectSourceFiles fs targetRoot
      moduleGaps := collectModuleGaps fs targetRoot }

inductive BootstrapCommandChoice where
  | cargoNew
  | cargoInit
  | noBootstrapNeeded
deriving DecidableEq, Repr

def selectBootstrapCommand (targetRoot : FilePath) : BootstrapCommandChoice :=
  if !fs.pathExists targetRoot then .cargoNew
  else if !fs.pathExists (FilePath.join targetRoot "Cargo.toml") then .cargoInit
  else .noBootstrapNeeded

/-! ### Compiler hints -/

/-- The trimmed text between the first `marker` and the next backtick. -/
def extractBacktickedAfter (text marker : Text) : Option Text :=
  (Text.splitOnce? marker text).bind fun (_, tail) =>
    (Text.splitOnce? "\x60" tail).bind fun (value, _) =>
      if Text.trim value = [] then none else some (Text.trim value)

def extractMissingModuleName : Option Text :=
  extractBacktickedAfter text "file not found for module \x60"

def extractUnresolvedImportSymbol : Option Text :=
  (extractBacktickedAfter text "unresolved import \x60").or (extractBacktickedAfter text "no \x60")

def extractMissingSymbol : Option Text :=
  (((extractBacktickedAfter text "cannot find function \x60").or
    (extractBacktickedAfter text "cannot find type \x60")).or
    (extractBacktickedAfter text "cannot find value \x60")).or
    (extractBacktickedAfter text "cannot find struct, variant or union type \x60")

def extractDuplicateDefinitionSymbol : Option Text :=
  (extractBacktickedAfter text "the name \x60").or
    (extractBacktickedAfter text "duplicate definitions with name \x60")

def extractTraitBoundSummary : Option Text :=
  extractBacktickedAfter text "the trait bound \x60"

/-- The files the message points to, sorted and without repetitions. -/
def extractTargetFiles : List Text :=
  let files := (Text.lines text).filterMap fun line =>
    (Text.stripPrefix? "--> " (Text.trim line)).bind fun rest =>
      let path := Text.trim (rest.takeWhile (· ≠ ':'))
      if path ≠ [] then some path else none
  (files.insertionSort fun a b => ¬ b < a).dedup

def classifyFailureScope (targetFiles : List Text) : FailureScopeKind :=
  if Text.contains "rustc capture failed" text then .tooling
  else if targetFiles.any fun target => Text.trim target ≠ [] && target ≠ "none" then .localized
  else if Text.contains ".cargo/config.toml" text || Text.contains "Cargo.toml" text ||
      Text.contains "workspace" text || Text.contains "forbid" text ||
      Text.contains "target path does not exist" text ||
      Text.contains "failed to load manifest" text || Text.contains "manifest path" text ||
      Text.contains "cannot be run on existing Cargo packages" text ||
      Text.contains "use \x60cargo new\x60" text ||
      Text.contains "No such file or directory" text then .workspace
  else .tooling

/-- The text cut to `maxLen` bytes; nothing when the cut is inside a character. -/
def truncateText (maxLen : Nat) : Option Text :=
  if Text.byteLen text > maxLen then (Text.takeBytes? maxLen text).map (· ++ "...".toList)
  else some text

def hintOf (kind : CompilerHintKind) (summary repair : Text) (targetFiles : List Text)
    (scope : FailureScopeKind) : CompilerHintRecord :=
  { kind := kind.asStr, summary := summary, suggestedRepair := repair, targetFiles := targetFiles,
    failureScope := scope.asStr }

/-- A phrase with a quoted name in it. -/
def quoted (before name after : Text) : Text := before ++ '\x60' :: name ++ '\x60' :: after

/-- The hint of one message.  The outer `Option` is a panic, the inner one says that
    the message has no hint. -/
def hintOfText : Option (Option CompilerHintRecord) :=
  let targetFiles := extractTargetFiles text
  let scope := classifyFailureScope text targetFiles
  match extractMissingModuleName text with
  | some name =>
    some (some (hintOf .missingModule (quoted "compiler reports missing module " name "")
      (quoted "use semantic module creation to add " name " before cargo check") targetFiles scope))
  | none =>
  if Text.contains "allow(dead_code) incompatible with previous forbid" text then
    some (some (hintOf .deadCodeForbidConflict
      "compiler forbids dead_code while source adds allow(dead_code)"
      "remove allow(dead_code) or make the code used; do not suppress this lint" targetFiles
      .workspace))
  else if Text.contains "main function not found" text ||
      Text.contains "\x60main\x60 function not found" text then
    some (some (hintOf .missingEntrypoint "compiler reports missing main entrypoint"
      "create src/main.rs with a valid main function or convert the crate to a library"
      targetFiles scope))
  else
  match extractUnresolvedImportSymbol text with
  | some symbol =>
    some (some (hintOf .unresolvedImport (quoted "compiler reports unresolved import " symbol "")
      "use semantic import repair to add or correct the import before cargo check" targetFiles
      scope))
  | none =>
  match extractMissingSymbol text with
  | some symbol =>
    some (some (hintOf .missingSymbol (quoted "compiler cannot find " symbol " in scope")
      "use semantic symbol definition or import repair before cargo check" targetFiles scope))
  | none =>
  match extractDuplicateDefinitionSymbol text with
  | some symbol =>
    some (some (hintOf .duplicateDefinition
      (quoted "compiler reports duplicate definition for " symbol "")
      "use semantic rename to resolve the duplicate definition before cargo check" targetFiles
      scope))
  | none =>
  match extractTraitBoundSummary text with
  | some bound =>
    some (some
      (hintOf .traitBoundFailure (quoted "compiler reports unsatisfied trait bound " bound "")
      "edit the local type, impl, or call site to satisfy the required trait bound" targetFiles
      scope))
  | none =>
  if Text.contains "target path does not exist" text ||
      Text.contains "could not find \x60Cargo.toml\x60" text ||
      Text.contains "failed to load manifest" text || Text.contains "manifest path" text then
    (truncateText text 140).map fun summary =>
      some (hintOf .genericCompilerFailure summary
        "repair or refresh the workspace/bootstrap state before cargo check" targetFiles .workspace)
  else if Text.contains "error[E" text || Text.contains "could not compile" text then
    (truncateText text 140).map fun summary =>
      some (hintOf .genericCompilerFailure summary
        "address the cited compiler error directly before adding more edits" targetFiles scope)
  else some none

def extractErrorTexts (errors : List Json) : List Text :=
  errors.flatMap fun value =>
    match value.asText with
    | some text => if Text.trim text ≠ [] then [Text.trim text] else []
    | none =>
      let texts := [((value.get "message").bind (Json.get "message")).bind Json.asText,
        (value.get "message").bind Json.asText]
      texts.filterMap fun message =>
        message.bind fun text => if Text.trim text ≠ [] then some (Text.trim text) else none

/-- The first of every group of hints with the same kind, summary and files. -/
def dedupHints (hints : List CompilerHintRecord) : List CompilerHintRecord :=
  hints.foldl (fun out hint =>
    if out.any fun existing =>
        existing.kind = hint.kind && existing.summary = hint.summary &&
          existing.targetFiles = hint.targetFiles then out
    else out ++ [hint]) []

def extractCompilerHints (errors : List Json) : Option (List CompilerHintRecord) :=
  ((extractErrorTexts errors).mapM hintOfText).map fun hints => dedupHints (hints.filterMap id)

/-! ### Planning preconditions -/

inductive PlanningPrecondition where
  | mustBootstrapWorkspace
  | mustInitCargoProject
  | mustCreateEntrypoint
  | mustCreateMissingModules
  | mustFixDeadCodeForbidConflict
  | mustFixUnresolvedImport
  | mustDefineMissingSymbol
  | mustResolveDuplicateDefinition
  | mustFixTraitBoundFailure
deriving DecidableEq, Repr

namespace PlanningPrecondition

def all : List PlanningPrecondition :=
  [mustBootstrapWorkspace, mustInitCargoProject, mustCreateEntrypoint, mustCreateMissingModules,
    mustFixDeadCodeForbidConflict, mustFixUnresolvedImport, mustDefineMissingSymbol,
    mustResolveDuplicateDefinition, mustFixTraitBoundFailure]

/-- The mark by which a planner line is recognised. -/
def mark : PlanningPrecondition → Text
  | mustBootstrapWorkspace => "must_bootstrap_workspace=true"
  | mustInitCargoProject => "must_init_cargo_project=true"
  | mustCreateEntrypoint => "must_create_entrypoint=true"
  | mustCreateMissingModules => "must_create_missing_modules=true"
  | mustFixDeadCodeForbidConflict => "must_fix_dead_code_forbid_conflict=true"
  | mustFixUnresolvedImport => "must_fix_unresolved_import=true"
  | mustDefineMissingSymbol => "must_define_missing_symbol=true"
  | mustResolveDuplicateDefinition => "must_resolve_duplicate_definition=true"
  | mustFixTraitBoundFailure => "must_fix_trait_bound_failure=true"

def plannerLine : PlanningPrecondition → Text
  | mustBootstrapWorkspace => "must_bootstrap_workspace=true repair=cargo_init_or_create_workspace"
  | mustInitCargoProject => "must_init_cargo_project=true repair=prefer_cargo_init"
  | mustCreateEntrypoint =>
    "must_create_entrypoint=true repair=create_src_main_or_lib_before_cargo_check"
  | mustCreateMissingModules =>
    "must_create_missing_modules=true repair=create_declared_module_files_before_cargo_check"
  | mustFixDeadCodeForbidConflict =>
    "must_fix_dead_code_forbid_conflict=true repair=remove_allow_dead_code_or_make_code_used"
  | mustFixUnresolvedImport =>
    "must_fix_unresolved_import=true repair=edit_import_or_define_missing_import_target"
  | mustDefineMissingSymbol =>
    "must_define_missing_symbol=true repair=define_or_import_missing_symbol"
  | mustResolveDuplicateDefinition =>
    "must_resolve_duplicate_definition=true repair=semantic_rename_or_remove_duplicate_definition"
  | mustFixTraitBoundFailure =>
    "must_fix_trait_bound_failure=true repair=edit_local_type_impl_or_callsite_for_trait_bound"

end PlanningPrecondition

/-- The precondition a hint of this kind gives rise to. -/
def preconditionOfHint : CompilerHintKind → Option PlanningPrecondition
  | .deadCodeForbidConflict => some .mustFixDeadCodeForbidConflict
  | .unresolvedImport => some .mustFixUnresolvedImport
  | .missingSymbol => some .mustDefineMissingSymbol
  | .duplicateDefinition => some .mustResolveDuplicateDefinition
  | .traitBoundFailure => some .mustFixTraitBoundFailure
  | _ => none

def pushNew {α : Type} [DecidableEq α] (out : List α) (x : α) : List α :=
  if x ∈ out then out else out ++ [x]

/-- The preconditions, from the model and the hints of the compiler messages. -/
def derivePreconditions (model : WorkspaceModel) (hints : List CompilerHintRecord) :
    List PlanningPrecondition :=
  if !model.pathExists then [.mustBootstrapWorkspace]
  else
    let fromModel : List PlanningPrecondition :=
      (if !model.cargoTomlExists then [.mustInitCargoProject] else []) ++
        (if model.cargoTomlExists && model.entrypointKind = .none then [.mustCreateEntrypoint]
          else []) ++
        (if !model.moduleGaps.isEmpty then [.mustCreateMissingModules] else [])
    (hints.filterMap fun hint => hint.kindEnum.bind preconditionOfHint).foldl pushNew fromModel

def plannerLines (preconditions : List PlanningPrecondition) : List Text :=
  preconditions.map PlanningPrecondition.plannerLine

def derivePreconditionsFromLines (lines : List Text) : List PlanningPrecondition :=
  (lines.filterMap fun line =>
    PlanningPrecondition.all.find? fun p => Text.contains p.mark line).foldl pushNew []

/-- One repair intent for each precondition, in the same order of priority. -/
inductive RepairIntent where
  | bootstrapWorkspace
  | initCargoProject
  | createEntrypoint
  | createMissingModules
  | fixDeadCodeForbidConflict
  | fixUnresolvedImport
  | defineMissingSymbol
  | resolveDuplicateDefinition
  | fixTraitBoundFailure
deriving DecidableEq, Repr

namespace RepairIntent

def ofPrecondition : PlanningPrecondition → RepairIntent
  | .mustBootstrapWorkspace => bootstrapWorkspace
  | .mustInitCargoProject => initCargoProject
  | .mustCreateEntrypoint => createEntrypoint
  | .mustCreateMissingModules => createMissingModules
  | .mustFixDeadCodeForbidConflict => fixDeadCodeForbidConflict
  | .mustFixUnresolvedImport => fixUnresolvedImport
  | .mustDefineMissingSymbol => defineMissingSymbol
  | .mustResolveDuplicateDefinition => resolveDuplicateDefinition
  | .mustFixTraitBoundFailure => fixTraitBoundFailure

def isBootstrap : RepairIntent → Bool
  | bootstrapWorkspace | initCargoProject => true
  | _ => false

def priority : RepairIntent → Nat
  | bootstrapWorkspace => 0
  | initCargoProject => 1
  | createEntrypoint => 2
  | createMissingModules => 3
  | fixDeadCodeForbidConflict => 4
  | fixUnresolvedImport => 5
  | defineMissingSymbol => 6
  | resolveDuplicateDefinition => 7
  | fixTraitBoundFailure => 8

def line : RepairIntent → Text
  | bootstrapWorkspace =>
    "repair_intent=bootstrap_workspace priority=1 first_batch=create_or_init_workspace"
  | initCargoProject => "repair_intent=init_cargo_project priority=2 first_batch=run_cargo_init"
  | createEntrypoint =>
    "repair_intent=create_entrypoint priority=3 first_batch=create_src_main_or_lib"
  | createMissingModules =>
    "repair_intent=create_missing_modules priority=4 first_batch=create_declared_module_files"
  | fixDeadCodeForbidConflict =>
    "repair_intent=fix_dead_code_forbid_conflict priority=5 first_batch=edit_conflicting_allow_dead_code"
  | fixUnresolvedImport =>
    "repair_intent=fix_unresolved_import priority=6 first_batch=edit_import_or_define_target"
  | defineMissingSymbol =>
    "repair_intent=define_missing_symbol priority=7 first_batch=define_or_import_symbol"
  | resolveDuplicateDefinition =>
    "repair_intent=resolve_duplicate_definition priority=8 first_batch=semantic_rename_duplicate"
  | fixTraitBoundFailure =>
    "repair_intent=fix_trait_bound_failure priority=9 first_batch=edit_type_impl_or_callsite"

end RepairIntent

def repairIntentAllowedForScope (intent : RepairIntent) (failureScope : Option Text) : Bool :=
  if failureScope = some "workspace" || failureScope = some "tooling" then intent.isBootstrap
  else true

/-- The sort key of an intent under a failure scope. -/
def repairIntentScore (failureScope : Option Text) (intent : RepairIntent) : Nat :=
  if failureScope = some "localized" then (if intent.isBootstrap then 1 else 0)
  else if failureScope = some "workspace" || failureScope = some "tooling" then
    (if intent.isBootstrap then 0 else 1)
  else intent.priority

def deriveRepairIntents (preconditions : List PlanningPrecondition) (failureScope : Option Text) :
    List RepairIntent :=
  let intents := (preconditions.map RepairIntent.ofPrecondition).filter fun intent =>
    repairIntentAllowedForScope intent failureScope
  (intents.foldl pushNew []).insertionSort fun a b =>
    repairIntentScore failureScope a ≤ repairIntentScore failureScope b

def repairIntentLines (intents : List RepairIntent) : List Text := intents.map RepairIntent.line

/-! ### The observation payload -/

/-- What an inspection uses besides the file system: the JSON parser, and how often
    the keywords of a goal are found below a directory. -/
structure Tools where
  jsonFromStr : Text → Option Json
  searchHitCount : Text → FilePath → Nat

/-- The graph counters of the last capture, in an otherwise empty summary. -/
def readGraphSummary (T : Tools) (fs : Fs) (targetRoot : FilePath) : Option SemanticStateSummary :=
  (fs.readToString (FilePath.join targetRoot "state/graph/index/latest_workspace.json")).bind
    fun raw =>
    (T.jsonFromStr raw).bind fun wrapper =>
      let summary := (wrapper.get "latest_workspace").getD wrapper
      let count (key : String) : Option Nat := (summary.get key).bind Json.asU64
      ((summary.get "artifact_id").bind Json.asText).map fun artifactId =>
        { SemanticStateSummary.empty with
          graphArtifactId := some artifactId
          graphNodeCount := count "node_count"
          graphEdgeCount := count "edge_count"
          graphFileCount := count "file_count"
          graphCallEdgeCount := count "call_edge_count"
          graphModuleEdgeCount := count "module_edge_count"
          graphCfgEdgeCount := count "cfg_edge_count" }

def listDirEntries (fs : Fs) (dir : FilePath) (limit : Nat) : List Text :=
  let names := ((fs.readDir dir).getD []).map fun (name, node) =>
    if node.isDir then name ++ ['/'] else name
  (names.insertionSort fun a b => ¬ b < a).take limit

def buildObserveDiagnostics (model : WorkspaceModel) (listing : List Text) (searchHits : Nat) :
    List Text :=
  (if listing.isEmpty then [] else ["dir_entries=".toList ++ Text.join "," listing]) ++
    ["cargo_toml_exists=".toList ++ Text.ofBool model.cargoTomlExists,
      "repo_initialized=".toList ++ Text.ofBool model.repoInitialized,
      "entrypoint_kind=".toList ++ model.entrypointKind.asStr,
      "module_gap_count=".toList ++ Text.ofNat model.moduleGaps.length] ++
    (if searchHits = 0 then [] else ["search_hit_count=".toList ++ Text.ofNat searchHits])

def ModuleGap.line (gap : ModuleGap) : Text :=
  gap.moduleName ++ " -> ".toList ++ Text.join " or " gap.expectedPaths

/-- The summary of an observation, from the model and the hints. -/
def observationSummary (T : Tools) (fs : Fs) (model : WorkspaceModel)
    (hints : List CompilerHintRecord) : SemanticStateSummary :=
  let preconditions := derivePreconditions model hints
  let failureClass :=
    (hints.findSome? fun hint => hint.kindEnum.map CompilerHintKind.asStr).or
      (if preconditions.isEmpty then some noActionableFailure else none)
  let failureScope :=
    (((hints.filterMap fun hint => hint.failureScopeEnum).find? (· ≠ .none)).map
      FailureScopeKind.asStr).or
      (if preconditions.isEmpty then some FailureScopeKind.none.asStr else none)
  { (readGraphSummary T fs model.targetRoot).getD .empty with
    version := SemanticStateSummary.currentVersion
    complete := model.pathExists && model.cargoTomlExists && model.moduleGaps.isEmpty &&
      preconditions.isEmpty
    targetRoot := some model.targetRoot
    pathExists := model.pathExists
    repoInitialized := model.repoInitialized
    cargoProject := model.pathExists && model.cargoTomlExists
    crateName := model.crateName
    entrypointKind := some model.entrypointKind.asStr
    rustFileCount := some model.rustFileCount
    sourceFiles := model.sourceFiles
    moduleGaps := model.moduleGaps.map ModuleGap.line
    planningPreconditions := plannerLines preconditions
    repairIntents := repairIntentLines (deriveRepairIntents preconditions failureScope)
    compilerHints := hints
    validationBlockedByPreconditions := !preconditions.isEmpty
    compilerRepairRequired := preconditions.contains .mustFixDeadCodeForbidConflict
    failureClass := failureClass
    failureScope := failureScope }

/-- Whether a preview of the file can be cut to `maxLen` bytes. -/
def previewCuts (fs : Fs) (path : FilePath) (maxLen : Nat) : Bool :=
  match fs.readToString path with
  | some contents => Text.byteLen contents ≤ maxLen || (Text.takeBytes? maxLen contents).isSome
  | none => true

def preferredEntrypoint (fs : Fs) (targetRoot : FilePath) : Option FilePath :=
  [FilePath.join targetRoot "src/main.rs", FilePath.join targetRoot "src/lib.rs"].find?
    fs.pathExists

/-- The previews of the manifest and of the entrypoint are made and thrown away. -/
def previewsCut (fs : Fs) (model : WorkspaceModel) : Bool :=
  !model.pathExists ||
    (previewCuts fs (FilePath.join model.targetRoot "Cargo.toml") 4000 &&
      ((preferredEntrypoint fs model.targetRoot).map fun entry => previewCuts fs entry 4000).getD
        true)

/-- The summary and the diagnostics of an observation; nothing when it panics. -/
def buildObservationPayload (T : Tools) (fs : Fs) (goalText : Option Text) (workspace : FilePath)
    (compilerErrors : List Json) : Option (SemanticStateSummary × List Text) :=
  let goal := goalText.getD []
  let model := WorkspaceModel.inspect fs goal workspace
  (extractCompilerHints compilerErrors).bind fun hints =>
    let listing := listDirEntries fs model.targetRoot 32
    let diagnostics :=
      buildObserveDiagnostics model listing (T.searchHitCount goal model.targetRoot)
    if previewsCut fs model then some (observationSummary T fs model hints, diagnostics) else none

end Canon.Loop
