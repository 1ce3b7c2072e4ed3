import Canon.Runtime.Live

/-! # The fatal halt

    A halted runtime lets few kinds of events through.  The guard stands in front of
    everything that is handled, be it called for, emitted or derived, and what the runtime
    dispatches on its own account is of kinds that pass it.

    One kind gets past the list: a debug event that announces the start of the runtime is
    a debug event to the guard and bears a kind of its own in the log.
-/

namespace Canon.Runtime

open Canon.Tlog

/-! ### Containment -/

/-- The log has its own kind for a debug event that announces a start. -/
def IsStart (event : RuntimeEvent) (written : CanonEvent) : Prop :=
  written.kind = .runtimeStarted ∧ ∃ d : DebugEvent, event = .debug d ∧ d.kind = "runtime_started"

/-- What was appended and dispatched while the runtime was halted. -/
structure Contained {κ η ι : Type} (rt : EventRuntime κ η ι) : Prop where
  appended : ∀ a, .appended a ∈ rt.trail → a.halted = true →
    a.event.kind ∈ haltKinds ∧ ∀ e ∈ a.wrote, e.kind ∈ haltKinds ∨ IsStart a.event e
  dispatched : ∀ d ∈ rt.dispatches, d.1 = true → d.2.kind ∈ haltKinds

section Containment

variable {κ η ι : Type} (env : RuntimeEnv κ η ι)
variable {rt : EventRuntime κ η ι} {event : RuntimeEvent}

/-- Behind the guard, a halted runtime has one of the listed kinds in hand. -/
theorem enter_halted (hopen : rt.blocks event = false) (parentIds : List String)
    (h : (enter env rt event parentIds).isFatalHaltActive = true) : event.kind ∈ haltKinds := by
  cases hfatal : fatalInvariantReason event with
  | some reason =>
    -- Only a compiler event begins a halt.
    have hcode : event.kind = .code := by
      unfold fatalInvariantReason at hfatal
      split at hfatal
      · rfl
      · cases hfatal
    rw [hcode]
    decide
  | none =>
    have hhalted : rt.isFatalHaltActive = true := by
      simp only [EventRuntime.isFatalHaltActive, enter, modeAfter, hfatal] at h
      by_cases hrecovery : (recoverySignalReason event).isSome = true
      · simp [hrecovery] at h
      · simpa [EventRuntime.isFatalHaltActive, hrecovery] using h
    apply kind_mem_haltKinds
    simp only [EventRuntime.blocks, hhalted, Bool.true_and] at hopen
    cases hallowed : event.isAllowedDuringFatalHalt <;> cases hcontrol : event.isControl <;>
      simp [hallowed, hcontrol] at hopen ⊢

/-- An event is written under its own kind, or as a start. -/
theorem wire_kind {shape : RuntimeEvent → PayloadShape} {parentIds : List String}
    {eventId file : String} {line now : Nat} {wire : CanonEvent}
    (h : runtimeEventToWire shape event parentIds eventId file line now = .ok (some wire)) :
    wire.kind = event.kind ∨ IsStart event wire := by
  have hkind := runtimeEventToWire_kind h
  cases event with
  | debug d =>
    simp only [wireKind, Option.some.injEq] at hkind
    by_cases hstart : d.kind = "runtime_started"
    · rw [if_pos hstart] at hkind
      exact .inr ⟨hkind.symm, d, rfl, hstart⟩
    · rw [if_neg hstart] at hkind
      exact .inl hkind.symm
  | nodeFailed error context => cases hkind
  | plain plain data =>
    simp only [wireKind] at hkind
    split at hkind
    · exact .inl (Option.some.inj hkind).symm
    · cases hkind
  | _ => exact .inl (Option.some.inj hkind).symm

/-- One write while the runtime is halted. -/
theorem Contained.writeWire {rt rt' : EventRuntime κ η ι} (h : Contained rt)
    (htrail : rt'.trail = rt.trail) {fresh : Fresh} {log : LogState} {writer : Writer}
    {wire : CanonEvent} (hkind : rt'.isFatalHaltActive = true → event.kind ∈ haltKinds)
    (hwire : wire.kind = event.kind ∨ IsStart event wire) {a : Append}
    (ha : .appended a ∈ (writeWire env fresh rt' log writer event wire).runtime.trail)
    (hhalted : a.halted = true) :
    a.event.kind ∈ haltKinds ∧ ∀ e ∈ a.wrote, e.kind ∈ haltKinds ∨ IsStart a.event e := by
  rw [writeWire_trail, List.mem_append, List.mem_singleton] at ha
  rcases ha with ha | ha
  · rw [htrail] at ha
    exact h.appended a ha hhalted
  · obtain rfl := Record.appended.inj ha
    have hevent : event.kind ∈ haltKinds := hkind hhalted
    refine ⟨hevent, ?_⟩
    intro e he
    rcases writeCanonEvent_wrote_kind he with hcode | hsame
    · exact .inl (by rw [hcode]; decide)
    · rcases hwire with hwire | ⟨hstart, hdebug⟩
      · exact .inl (by rw [hsame]; exact hwire ▸ hevent)
      · exact .inr ⟨hsame.trans hstart, hdebug⟩

/-- An append behind the guard. -/
theorem Contained.append (h : Contained rt)
    (hkind : rt.isFatalHaltActive = true → event.kind ∈ haltKinds) (fresh : Fresh) (file : String)
    (line : Nat) (parentIds : List String) :
    Contained (appendRuntimeEvent env fresh rt event file line parentIds).runtime := by
  have hend := appendRuntimeEvent_end env fresh rt event file line parentIds
  have hbus := appendRuntimeEvent_sameBus env fresh rt event file line parentIds
  constructor
  · intro a ha hhalted
    generalize appendRuntimeEvent env fresh rt event file line parentIds = s at hend ha
    cases hend with
    | unwritten s same =>
      rw [same.trail] at ha
      exact h.appended a ha hhalted
    | written rt' log writer wire same first tlog writer_eq wire_eq =>
      refine h.writeWire env ?_ ?_ (wire_kind wire_eq) ha hhalted
      · rw [same.trail, markObserved_trail]
      · rw [EventRuntime.isFatalHaltActive, same.mode, markObserved_mode]
        exact hkind
  · rw [hbus.dispatches]
    exact h.dispatched

theorem Contained.enter {rt : EventRuntime κ η ι} (h : Contained rt) (event : RuntimeEvent)
    (parentIds : List String) : Contained (enter env rt event parentIds) := by
  refine ⟨?_, h.dispatched⟩
  intro a ha
  have hold : .appended a ∈ rt.trail := by simpa [Canon.Runtime.enter] using ha
  exact h.appended a hold

theorem Contained.core (h : Contained rt) (event : RuntimeEvent) (file : String) (line : Nat)
    (parentIds : List String) :
    Contained (handleCore env rt event file line parentIds).step.runtime := by
  have hend := handleCore_end env rt event file line parentIds
  generalize (handleCore env rt event file line parentIds).step = out at hend ⊢
  cases hend with
  | skipped status why => exact h
  | rejected reason hopen hcontrol hinvalid =>
    exact ⟨(h.enter env event _).appended, h.dispatched⟩
  | appended out hopen hvalid hdispatched =>
    have hkind := enter_halted env hopen (rt.parentsFor parentIds)
    have happend := (h.enter env event (rt.parentsFor parentIds)).append env hkind
      (env.fresh rt.calls) file line (rt.parentsFor parentIds)
    have hbus := appendRuntimeEvent_sameBus env (env.fresh rt.calls)
      (Canon.Runtime.enter env rt event (rt.parentsFor parentIds)) event file line
      (rt.parentsFor parentIds)
    constructor
    · rw [hdispatched.same.trail]
      exact happend.appended
    · intro d hd hhalted
      rcases hdispatched.dispatches d hd with hold | ⟨hflag, hwhich⟩
      · exact happend.dispatched d hold hhalted
      · rcases hwhich with rfl | hupdate | herror
        · apply hkind
          rw [EventRuntime.isFatalHaltActive, ← hbus.mode]
          exact hflag.symm.trans hhalted
        · rw [hupdate]
          decide
        · rw [herror]
          decide

theorem contained_kept :
    Kept env (fun rt : EventRuntime κ η ι => Contained rt) (fun rt => Contained rt) where
  weaken _ h := h
  frame h same hdispatches := by
    constructor
    · rw [same.trail]
      exact h.appended
    · rw [hdispatches]
      exact h.dispatched
  core _ event file line parentIds h :=
    .of_forall (fun _ h => h) (h.core env event file line parentIds)

/-- **The fatal halt is contained.**  In every live run, what is appended or dispatched
    while the runtime is halted is of one of the listed kinds; a debug event that announces
    a start is written as one. -/
theorem fatal_halt_contained (bus : Bus κ η) (engine : ι) (log : LogState)
    (calls : List (Call × Nat)) :
    Contained ((liveMachine env).run (.ok (.new bus engine log)) calls).runtime := by
  refine ((contained_kept env).live ?_ ?_ ?_ calls).always
  · intro rt tick h
    exact ⟨h.appended, h.dispatched⟩
  · intro rt h
    exact ⟨h.appended, h.dispatched⟩
  · exact ⟨by simp [EventRuntime.new], by simp [EventRuntime.new]⟩

end Containment

/-! ### A start while halted -/

/-- The kinds that were put into the log while the runtime was halted. -/
def writtenWhileHalted {κ η ι : Type} (rt : EventRuntime κ η ι) : List EventKind :=
  rt.trail.flatMap fun
    | .appended a => if a.halted then a.wrote.map (·.kind) else []
    | .handled .. => []

/-- The first debug event has no parents, which halts the runtime; the second one is
    written under a kind that is not on the list. -/
theorem start_appended_while_halted :
    ¬ ∀ kind ∈ writtenWhileHalted ((liveMachine quietEnv).run (.ok quietRuntime)
        [(.emitDebugEvent "cli" "note" (.str "x"), 1),
         (.emitEventWithParents
            (.debug { source := "event-runtime", kind := "runtime_started", payload := .str "up" })
            ["cli-1"] "" 0, 2)]).runtime,
      kind ∈ haltKinds := by
  decide +kernel

end Canon.Runtime
