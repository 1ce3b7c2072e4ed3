import Canon.Runtime.Event

/-! # The event bus

    `EventBus` of `bus.rs` with the hook chain of `hooks.rs`.  A dispatch first asks the
    hooks in front of it and then hands the event to the consumers.

    What the hooks decide is reported, and enforced for protected control events only,
    by a panic.  Any other event goes to every consumer as it came.
-/

namespace Canon.Runtime

/-! ### Hooks and consumers -/

inductive HookDecision where
  | allow
  | deny (reason : String)
  | mutate (replacement : RuntimeEvent)

structure PreHookReport where
  hookName : Option String
  decision : HookDecision

inductive EventOutcome where
  | noOp (reason : String)
  | error (event : RuntimeEvent) (file : String) (line : Nat)

/-- What the bus does not decide itself.  Consumers have states `κ` and hooks states `η`;
    a consumer may take into account that a replay is on, and answers with its outcome
    and with the events it emitted meanwhile. -/
structure BusEnv (κ η : Type) where
  onEvent : Bool → κ → RuntimeEvent → String → κ × EventOutcome × List LocatedEvent
  onPre : η → RuntimeEvent → η × HookDecision
  hookName : η → String

structure Bus (κ η : Type) where
  syncConsumers : List κ
  hooks : List η

/-- The outcome of a dispatch.  `delivered` are the positions of the consumers that were
    called, each with the event it got. -/
structure Dispatched (κ η : Type) where
  bus : Bus κ η
  delivered : List (Nat × RuntimeEvent)
  emitted : List LocatedEvent
  panicked : Option String

section Dispatch

variable {κ η : Type} (env : BusEnv κ η)

/-- The first hook that does not allow the event decides. -/
def runPre : List η → RuntimeEvent → List η × PreHookReport
  | [], _ => ([], { hookName := none, decision := .allow })
  | hook :: rest, event =>
    let asked := env.onPre hook event
    match asked.2 with
    | .allow =>
      let later := runPre rest event
      (asked.1 :: later.1, later.2)
    | decision =>
      (asked.1 :: rest, { hookName := some (env.hookName hook), decision := decision })

/-- The emitter is the one of the first consumer. -/
def busEmits (bus : Bus κ η) (event : RuntimeEvent) (parentId : String) (line : Nat) :
    List LocatedEvent :=
  if bus.syncConsumers.isEmpty then []
  else
    [{ event := event, file := "canon-utils/canon-runtime/src/bus.rs", line := line
       parentIds := [parentId] }]

def emitBusDebug (bus : Bus κ η) (parentId kind : String) (payload : Json) : List LocatedEvent :=
  busEmits bus (.debug { source := "event_bus", kind := kind, payload := payload }) parentId 46

def emitBusError (bus : Bus κ η) (parentId kind message : String) (payload : Json) :
    List LocatedEvent :=
  busEmits bus (.errorOccurred (newErrorOccurred kind "event_bus" message "error" payload))
    parentId 69

def hookNameJson (report : PreHookReport) : Json := (report.hookName.map Json.str).getD .null

/-- What is emitted about a decision, and the panic it ends in. -/
def reportDecision (bus : Bus κ η) (report : PreHookReport) (event : RuntimeEvent)
    (eventId : String) : List LocatedEvent × Option String :=
  let kind := event.eventKindStr
  let hook := report.hookName.getD "unknown"
  match report.decision with
  | .allow => ([], none)
  | .deny reason =>
    let guarded := event.isProtectedControlEvent
    let debug := emitBusDebug bus eventId "hook_pre_decision"
      (.obj [("decision", .str "deny"), ("event_id", .str eventId), ("event_kind", .str kind),
        ("hook_name", hookNameJson report), ("protected_control", .bool guarded),
        ("reason", .str reason)])
    if guarded then
      (debug ++ emitBusError bus eventId "hook_control_violation"
          s!"hook {hook} requested deny for protected control event {kind}"
          (.obj [("event_id", .str eventId), ("event_kind", .str kind),
            ("hook_name", hookNameJson report), ("reason", .str reason),
            ("requested_decision", .str "deny")]),
        some s!"protected control hook violation: hook {hook} denied event {kind}")
    else (debug, none)
  | .mutate replacement =>
    let guarded := event.isProtectedControlEvent || replacement.isProtectedControlEvent
    let debug := emitBusDebug bus eventId "hook_pre_decision"
      (.obj [("decision", .str "mutate"), ("event_id", .str eventId), ("event_kind", .str kind),
        ("hook_name", hookNameJson report), ("protected_control", .bool guarded),
        ("replacement_kind", .str replacement.eventKindStr)])
    if guarded then
      (debug ++ emitBusError bus eventId "hook_control_violation"
          s!"hook {hook} requested mutation for protected control event {kind}"
          (.obj [("event_id", .str eventId), ("event_kind", .str kind),
            ("hook_name", hookNameJson report),
            ("replacement_kind", .str replacement.eventKindStr),
            ("requested_decision", .str "mutate")]),
        some s!"protected control hook violation: hook {hook} mutated event {kind}")
    else (debug, none)

/-- One consumer after the other; an outcome that is an error is emitted for it. -/
def deliver (replaying : Bool) (event : RuntimeEvent) (eventId : String) :
    List κ → List κ × List LocatedEvent
  | [] => ([], [])
  | consumer :: rest =>
    let answer := env.onEvent replaying consumer event eventId
    let errors := match answer.2.1 with
      | .noOp _ => []
      | .error err file line =>
        [{ event := err, file := file, line := line, parentIds := [eventId] }]
    let later := deliver replaying event eventId rest
    (answer.1 :: later.1, answer.2.2 ++ errors ++ later.2)

/-- `dispatch`.  The filters of the consumers are not asked.  That a consumer's lock is poisoned,
    which is reported and ends in a panic as well, is left out: consumers do not panic here. -/
def dispatch (replaying : Bool) (bus : Bus κ η) (event : RuntimeEvent) (eventId : String) :
    Dispatched κ η :=
  let asked := runPre env bus.hooks event
  let report := reportDecision bus asked.2 event eventId
  let bus := { bus with hooks := asked.1 }
  match report.2 with
  | some message =>
    { bus := bus, delivered := [], emitted := report.1, panicked := some message }
  | none =>
    -- The decision has no part in what follows.
    let handed := deliver env replaying event eventId bus.syncConsumers
    { bus := { bus with syncConsumers := handed.1 }
      delivered := (List.range bus.syncConsumers.length).map (·, event)
      emitted := report.1 ++ handed.2
      panicked := none }

end Dispatch

/-! ### What a dispatch keeps -/

section Facts

variable {κ η : Type} {env : BusEnv κ η}

@[simp] theorem deliver_length (replaying : Bool) (event : RuntimeEvent) (eventId : String)
    (consumers : List κ) :
    (deliver env replaying event eventId consumers).1.length = consumers.length := by
  induction consumers with
  | nil => rfl
  | cons consumer rest ih => simp [deliver, ih]

@[simp] theorem dispatch_consumers_length (replaying : Bool) (bus : Bus κ η)
    (event : RuntimeEvent) (eventId : String) :
    (dispatch env replaying bus event eventId).bus.syncConsumers.length =
      bus.syncConsumers.length := by
  unfold dispatch
  dsimp only
  split <;> simp

/-- An event that is not protected goes on, unless a protected one is to take its place. -/
theorem reportDecision_panicked (bus : Bus κ η) (report : PreHookReport) {event : RuntimeEvent}
    (h : event.isProtectedControlEvent = false) (eventId : String) :
    (reportDecision bus report event eventId).2 = none ↔
      ∀ replacement, report.decision = .mutate replacement →
        replacement.isProtectedControlEvent = false := by
  unfold reportDecision
  cases report.decision with
  | allow => simp
  | deny reason => simp [h]
  | mutate replacement =>
    simp only [h, Bool.false_or, HookDecision.mutate.injEq, forall_eq']
    cases replacement.isProtectedControlEvent <;> simp

theorem dispatch_delivered (replaying : Bool) (bus : Bus κ η) (event : RuntimeEvent)
    (eventId : String) :
    (dispatch env replaying bus event eventId).delivered =
      if (reportDecision bus (runPre env bus.hooks event).2 event eventId).2 = none then
        (List.range bus.syncConsumers.length).map (·, event)
      else [] := by
  unfold dispatch
  dsimp only
  split
  · rename_i message hpanic
    rw [hpanic, if_neg (by simp)]
  · rename_i hnone
    rw [if_pos hnone]

theorem mem_deliveries {n i : Nat} {event received : RuntimeEvent} :
    (i, received) ∈ (List.range n).map (·, event) ↔ i < n ∧ received = event := by
  simp only [List.mem_map, List.mem_range, Prod.mk.injEq]
  constructor
  · rintro ⟨j, hj, rfl, rfl⟩
    exact ⟨hj, rfl⟩
  · rintro ⟨hi, rfl⟩
    exact ⟨i, hi, rfl, rfl⟩

end Facts

/-! ### Enforcement -/

section Enforcement

variable {κ η : Type}

/-- The decision is carried out: a denied event reaches nobody, and in place of a mutated
    one every subscribed consumer gets the replacement. -/
def Enforced (decision : HookDecision) (event : RuntimeEvent) (subscribed : Nat → Prop)
    (consumers : Nat) (delivered : List (Nat × RuntimeEvent)) : Prop :=
  match decision with
  | .allow => True
  | .deny _ => delivered = []
  | .mutate replacement =>
    (∀ i < consumers, subscribed i → (i, replacement) ∈ delivered) ∧
      (replacement ≠ event → ∀ i, (i, event) ∉ delivered)

/-- Nobody is there to get a denied event; a replacement is the event itself, or nobody is
    there, or, for a protected one, nobody subscribed. -/
def Harmless (decision : HookDecision) (event : RuntimeEvent) (subscribed : Nat → Prop)
    (consumers : Nat) : Prop :=
  match decision with
  | .allow => True
  | .deny _ => consumers = 0
  | .mutate replacement =>
    if replacement.isProtectedControlEvent then ∀ i < consumers, ¬ subscribed i
    else replacement = event ∨ consumers = 0

/-- **Decisions of the hooks.**  For an event that is not protected, the decision is
    carried out exactly if there is nothing to carry out. -/
theorem hooks_enforced_iff (env : BusEnv κ η) (replaying : Bool) (bus : Bus κ η)
    (event : RuntimeEvent) (eventId : String) (subscribed : Nat → Prop)
    (h : event.isProtectedControlEvent = false) :
    Enforced (runPre env bus.hooks event).2.decision event subscribed bus.syncConsumers.length
        (dispatch env replaying bus event eventId).delivered ↔
      Harmless (runPre env bus.hooks event).2.decision event subscribed
        bus.syncConsumers.length := by
  have hpanicked := reportDecision_panicked bus (runPre env bus.hooks event).2 h eventId
  rw [dispatch_delivered]
  cases hdecision : (runPre env bus.hooks event).2.decision with
  | allow => exact Iff.rfl
  | deny reason =>
    rw [if_pos (hpanicked.mpr (by simp [hdecision]))]
    simp [Enforced, Harmless]
  | mutate replacement =>
    by_cases hguard : replacement.isProtectedControlEvent = true
    -- The bus stops in front of the consumers.
    · rw [if_neg (fun hnone => by simpa [hguard] using hpanicked.mp hnone replacement hdecision)]
      simp [Enforced, Harmless, hguard]
    · rw [if_pos (hpanicked.mpr (by rw [hdecision]; rintro _ ⟨⟩; simpa using hguard))]
      simp only [Enforced, Harmless, hguard, Bool.false_eq_true, if_false, mem_deliveries]
      constructor
      · rintro ⟨-, hnone⟩
        by_cases heq : replacement = event
        · exact .inl heq
        · refine .inr (Nat.eq_zero_of_not_pos fun hpos => ?_)
          exact hnone heq 0 ⟨hpos, trivial⟩
      · rintro (rfl | hzero)
        · exact ⟨fun i hi _ => ⟨hi, rfl⟩, fun hne => absurd rfl hne⟩
        · constructor
          · intro i hi
            omega
          · rintro - i ⟨hi, -⟩
            omega

/-- A hook that denies everything. -/
def denyAll : BusEnv Unit Unit where
  onEvent _ consumer _ _ := (consumer, .noOp "counting_consumer_observed", [])
  onPre hook _ := (hook, .deny "deny_for_test")
  hookName _ := "deny_hook"

def errorEvent : RuntimeEvent :=
  .errorOccurred (newErrorOccurred "test_error" "test" "message" "error" (.obj []))

/-- A hook that puts the event itself in place of it. -/
def mutateToSame : BusEnv Unit Unit :=
  { denyAll with onPre := fun hook event => (hook, .mutate event) }

/-- The one consumer gets the replacement. -/
theorem hooks_enforced_same_event :
    Enforced (runPre mutateToSame [()] errorEvent).2.decision errorEvent (fun _ => True) 1
      (dispatch mutateToSame false { syncConsumers := [()], hooks := [()] } errorEvent
        "e-1").delivered :=
  (hooks_enforced_iff mutateToSame false { syncConsumers := [()], hooks := [()] } errorEvent "e-1"
    (fun _ => True) rfl).mpr (.inl rfl)

/-- The one consumer gets the event that was denied. -/
theorem denied_event_delivered :
    errorEvent.isProtectedControlEvent = false ∧
      ¬ Enforced (runPre denyAll [()] errorEvent).2.decision errorEvent (fun _ => True) 1
        (dispatch denyAll false { syncConsumers := [()], hooks := [()] } errorEvent
          "e-1").delivered := by
  refine ⟨rfl, ?_⟩
  intro henforced
  cases henforced

end Enforcement

end Canon.Runtime
