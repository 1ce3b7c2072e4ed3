import Canon.Runtime.Live

/-! # The chain of each kind

    Every event the runtime writes names the event of its kind that came before it.  The
    runtime moves its cursor on before the writer has answered, and the writer answers with
    success when it drops an effect event it remembers.  As long as it drops none, cursor
    and log stay together.
-/

namespace Canon.Runtime

open Canon.Tlog

/-! ### Chains -/

def lastOfKind (kind : EventKind) (log : List CanonEvent) : Option CanonEvent :=
  (log.filter (·.kind = kind)).getLast?

/-- If the event names another one, that is the last of its kind. -/
def Linked (before : List CanonEvent) (e : CanonEvent) : Prop :=
  ∀ prev, e.prevEventId = some prev → (lastOfKind e.kind before).map (·.id) = some prev

/-- Every event of the log that names another one names the last of its kind before it; the
    first of each kind names none. -/
def KindChained (log : List CanonEvent) : Prop := Machine.Historically Linked log

instance (before : List CanonEvent) (e : CanonEvent) : Decidable (Linked before e) :=
  inferInstanceAs (Decidable (∀ prev ∈ e.prevEventId,
    (lastOfKind e.kind before).map (·.id) = some prev))

instance (log : List CanonEvent) : Decidable (KindChained log) :=
  inferInstanceAs (Decidable (Machine.Historically Linked log))

theorem lastOfKind_snoc (kind : EventKind) (log : List CanonEvent) (e : CanonEvent) :
    lastOfKind kind (log ++ [e]) = if e.kind = kind then some e else lastOfKind kind log := by
  unfold lastOfKind
  by_cases h : e.kind = kind
  · simp [h]
  · simp [h]

theorem KindChained.snoc {log : List CanonEvent} (h : KindChained log) {e : CanonEvent}
    (he : Linked log e) : KindChained (log ++ [e]) :=
  Machine.historically_snoc.mpr ⟨h, he⟩

theorem KindChained.append_unlinked {log extra : List CanonEvent} (h : KindChained log)
    (hextra : ∀ e ∈ extra, e.prevEventId = none) : KindChained (log ++ extra) := by
  induction extra generalizing log with
  | nil => simpa using h
  | cons e rest ih =>
    have he : Linked log e := by
      intro prev hprev
      simp [hextra e (by simp)] at hprev
    rw [List.append_cons]
    exact ih (h.snoc he) fun e' he' => hextra e' (by simp [he'])

section Chain

variable {κ η ι : Type} (env : RuntimeEnv κ η ι)

/-- The writer does not remember the event it is handed. -/
def Record.Unsuppressed : Record → Prop
  | .appended a => ∀ w ∈ a.before.writer, ¬ Suppressed env.gate w a.wire
  | .handled .. => True

instance : (r : Record) → Decidable (r.Unsuppressed env)
  | .appended a =>
    inferInstanceAs (Decidable (∀ w ∈ a.before.writer, ¬ Suppressed env.gate w a.wire))
  | .handled .. => isTrue trivial

/-- The writer remembered none of the events it was handed. -/
def Unsuppressed (rt : EventRuntime κ η ι) : Prop :=
  ∀ r ∈ rt.trail, r.Unsuppressed env

instance (rt : EventRuntime κ η ι) : Decidable (Unsuppressed env rt) :=
  inferInstanceAs (Decidable (∀ r ∈ rt.trail, r.Unsuppressed env))

/-- The cursor of a kind stands at the last event of the kind. -/
def AtLast (rt : EventRuntime κ η ι) : Prop :=
  ∀ kind id, rt.lastEventIdPerKind kind = some id →
    (lastOfKind kind rt.log).map (·.id) = some id

/-- What holds as long as calls return. -/
def Chained (rt : EventRuntime κ η ι) : Prop :=
  Unsuppressed env rt → KindChained rt.log ∧ AtLast rt

variable {env}

theorem Unsuppressed.of_trail {rt rt' : EventRuntime κ η ι} (h : Unsuppressed env rt')
    (htrail : ∀ r ∈ rt.trail, r ∈ rt'.trail) : Unsuppressed env rt :=
  fun a ha => h a (htrail _ ha)

theorem Chained.frame {rt rt' : EventRuntime κ η ι} (h : Chained env rt)
    (htlog : rt'.tlog = rt.tlog) (hcursor : rt'.lastEventIdPerKind = rt.lastEventIdPerKind)
    (htrail : ∀ r ∈ rt.trail, r ∈ rt'.trail) : Chained env rt' := by
  intro hun
  have hlog : rt'.log = rt.log := by rw [EventRuntime.log, htlog, EventRuntime.log]
  obtain ⟨hchain, hlast⟩ := h (hun.of_trail htrail)
  rw [AtLast, hlog, hcursor]
  exact ⟨hchain, hlast⟩

/-- One write: a success puts the event behind the last of its kind and the cursor onto it. -/
theorem Chained.writeWire {rt : EventRuntime κ η ι} (h : Chained env rt) {fresh : Fresh}
    {log : LogState} {writer : Writer} {event : RuntimeEvent} {wire : CanonEvent}
    (htlog : rt.tlog = some log) (hwriter : log.writer = some writer) :
    (writeWire env fresh rt log writer event wire).Keeps (Chained env)
      (fun rt => Unsuppressed env rt → KindChained rt.log) := by
  have hlog : rt.log = log.log := by rw [EventRuntime.log, htlog]; rfl
  have hlog' : (Canon.Runtime.writeWire env fresh rt log writer event wire).runtime.log =
      log.log ++ (appendOf env fresh rt log writer event wire).wrote := by
    rw [EventRuntime.log, writeWire_log]
    rfl
  have hsplit : Unsuppressed env (Canon.Runtime.writeWire env fresh rt log writer event
        wire).runtime →
      (KindChained log.log ∧ AtLast rt) ∧ ¬ Suppressed env.gate writer (linkWire rt wire) := by
    intro hun
    rw [Unsuppressed, writeWire_trail] at hun
    rw [← hlog]
    exact ⟨h fun r hr => hun r (by simp [hr]),
      hun (.appended (appendOf env fresh rt log writer event wire)) (by simp) writer hwriter⟩
  have hlinked : AtLast rt → Linked log.log (normalizeDelta (linkWire rt wire)) := by
    intro hlast prev hprev
    rw [normalizeDelta_prevEventId] at hprev
    rw [normalizeDelta_kind, ← hlog]
    exact hlast wire.kind prev hprev
  by_cases hok : (appendOf env fresh rt log writer event wire).outcome = .ok
  · have hwrote := writeCanonEvent_wrote_of_ok hok
    have hboth : Chained env
        (Canon.Runtime.writeWire env fresh rt log writer event wire).runtime := by
      intro hun
      obtain ⟨⟨hchain, hlast⟩, hnew⟩ := hsplit hun
      have hlog'' : (Canon.Runtime.writeWire env fresh rt log writer event wire).runtime.log =
          log.log ++ [normalizeDelta (linkWire rt wire)] := by
        rw [hlog', show (appendOf env fresh rt log writer event wire).wrote = _ from hwrote,
          if_neg hnew]
      rw [AtLast, hlog'', writeWire_lastEventIdPerKind]
      refine ⟨hchain.snoc (hlinked hlast), ?_⟩
      intro kind id hid
      rw [lastOfKind_snoc, normalizeDelta_kind]
      by_cases hkind : kind = wire.kind
      · rw [hkind, FMap.insert_self] at hid
        rw [if_pos (show (linkWire rt wire).kind = kind from hkind.symm)]
        simpa [linkWire] using hid
      · rw [FMap.insert_of_ne _ _ hkind] at hid
        rw [if_neg (show ¬ (linkWire rt wire).kind = kind from fun h => hkind h.symm), ← hlog]
        exact hlast kind id hid
    exact ⟨fun hun => (hboth hun).1, fun _ => hboth⟩
  -- The runtime does not survive this; a report in the log names no other event.
  · constructor
    · intro hun
      obtain ⟨⟨hchain, -⟩, -⟩ := hsplit hun
      rw [hlog']
      exact hchain.append_unlinked fun e he => writeCanonEvent_unlinked hok he
    · intro hreturned
      exact absurd ((writeWire_returned env ..).mp hreturned) hok

theorem Chained.append {rt : EventRuntime κ η ι} (h : Chained env rt) (fresh : Fresh)
    (event : RuntimeEvent) (file : String) (line : Nat) (parentIds : List String) :
    (appendRuntimeEvent env fresh rt event file line parentIds).Keeps (Chained env)
      (fun rt => Unsuppressed env rt → KindChained rt.log) := by
  have hend := appendRuntimeEvent_end env fresh rt event file line parentIds
  generalize appendRuntimeEvent env fresh rt event file line parentIds = s at hend ⊢
  cases hend with
  | unwritten s same =>
    refine .of_forall (fun rt h hun => (h hun).1) ?_
    exact h.frame same.tlog same.lastEventIdPerKind (by simp [same.trail])
  | written rt' log writer wire same first tlog writer_eq wire_eq =>
    refine Chained.writeWire ?_ ?_ writer_eq
    · exact h.frame (by simp [same.tlog]) (by simp [same.lastEventIdPerKind])
        (by simp [same.trail])
    · rw [same.tlog, markObserved_tlog]
      exact tlog

theorem chained_kept :
    Kept env (Chained env) (fun rt => Unsuppressed env rt → KindChained rt.log) := by
  have henter : ∀ (rt : EventRuntime κ η ι) event parentIds, Chained env rt →
      Chained env (enter env rt event parentIds) := by
    intro rt event parentIds h
    exact h.frame rfl rfl fun r hr => by simp [enter, hr]
  refine .of_append ?_ ?_ ?_ ?_ ?_
  · exact fun rt h hun => (h hun).1
  · intro rt rt' h same
    exact h.frame same.tlog same.lastEventIdPerKind (by simp [same.trail])
  · intro rt rt' h same hun
    rw [EventRuntime.log, same.tlog]
    exact h (hun.of_trail (by simp [same.trail]))
  · exact fun rt event parentIds h _ => henter rt event parentIds h
  · exact fun rt event file line parentIds h =>
      (henter rt event parentIds h).append (env.fresh rt.calls) event file line parentIds

variable (env)

/-- **One chain for each kind.**  In every live run in which the writer remembers none of
    the effect events it is handed, every event of the log that names another one names the
    last of its kind before it. -/
theorem kind_chain (bus : Bus κ η) (engine : ι) (dir : Dir) (config : SegmentConfig)
    (calls : List (Call × Nat))
    (h : Unsuppressed env ((liveMachine env).run
      (.ok (.new bus engine (.opened env.gate dir config))) calls).runtime) :
    KindChained ((liveMachine env).run
      (.ok (.new bus engine (.opened env.gate dir config))) calls).runtime.log := by
  refine (chained_kept.live ?_ ?_ ?_ calls).always h
  · intro rt tick h
    exact h.frame rfl rfl fun r hr => hr
  -- A reset forgets the cursors; what is written next names no other event.
  · intro rt h hun
    exact ⟨(h (hun.of_trail fun r hr => hr)).1, by simp [AtLast, EventRuntime.reset]⟩
  · intro _
    exact ⟨Machine.historically_nil, by simp [AtLast, EventRuntime.new]⟩

end Chain

/-! ### Debug events -/

/-- Debug events with the given texts, all from the command line. -/
def debugCalls (texts : List String) : List (Call × Nat) :=
  texts.map fun text =>
    (.emitEventWithParents (.debug { source := "cli", kind := "note", payload := .str text })
      ["cli-1"] "" 0, 2)

theorem kind_chain_two_debug_events :
    KindChained ((liveMachine quietEnv).run (.ok quietRuntime)
      (debugCalls ["a", "bb"])).runtime.log :=
  kind_chain quietEnv _ _ _ _ _ (by decide +kernel)

/-- The second `a` is dropped by the writer, and `ccc` names it all the same. -/
theorem dropped_event_named :
    ¬ KindChained ((liveMachine quietEnv).run (.ok quietRuntime)
      (debugCalls ["a", "bb", "a", "ccc"])).runtime.log := by
  decide +kernel

end Canon.Runtime
