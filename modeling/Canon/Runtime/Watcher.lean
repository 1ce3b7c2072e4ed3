import Canon.Runtime.Replay

/-! # The log watcher

    The thread of `event_runtime.rs` that follows the log and hands what is new to the
    main loop.  Its position is the number of a segment and a count of events in the
    segments from there on.

    One poll reads the directory twice, file by file, and other processes go on meanwhile:
    each listing, each file and each delivery is a step of its own here.

    The main loop beats, takes messages, and gives up on a message that lets the runtime
    observe no more events than it did since the last one.
-/

namespace Canon.Runtime

open Canon.Tlog

/-! ### The log -/

/-- A segment file with the events that are read from it.  Index files bear the same
    numbers and hold no event. -/
structure Segment where
  seq : Nat
  events : List AnyEvent

/-- A directory of segments, the latest first. -/
structure SegmentLog where
  segments : List Segment
  descending : segments.Pairwise fun s older => older.seq < s.seq

/-- Where the reader begins: the numbers from `start` on, in ascending order. -/
def seqsFrom (start : Nat) : List Segment → List Nat
  | [] => []
  | s :: older => seqsFrom start older ++ if start ≤ s.seq then [s.seq] else []

/-- What `read_any_events_from_path_with_start_seq` returns if nobody interferes. -/
def eventsFrom (start : Nat) : List Segment → List AnyEvent
  | [] => []
  | s :: older => eventsFrom start older ++ if start ≤ s.seq then s.events else []

/-- `none` for a file that is gone. -/
def readFile (segments : List Segment) (seq : Nat) : Option (List AnyEvent) :=
  (segments.find? (·.seq = seq)).map (·.events)

namespace SegmentLog

def latestSegmentSeq (log : SegmentLog) : Option Nat := log.segments.head?.map (·.seq)

/-- The event comes to stand at the end of the latest segment. -/
def append (log : SegmentLog) (event : AnyEvent) : SegmentLog :=
  match log with
  | ⟨[], h⟩ => ⟨[], h⟩
  | ⟨s :: older, h⟩ =>
    ⟨{ s with events := s.events ++ [event] } :: older,
      List.pairwise_cons.mpr (List.pairwise_cons.mp h)⟩

/-- A new segment; its number is higher than those that are there. -/
def rotate (log : SegmentLog) (seq : Nat) : SegmentLog :=
  if h : ∀ s ∈ log.segments, s.seq < seq then
    ⟨{ seq := seq, events := [] } :: log.segments, List.pairwise_cons.mpr ⟨h, log.descending⟩⟩
  else log

end SegmentLog

/-! ### Watcher and main loop -/

inductive EventMsg where
  | event (event : AnyEvent)
  | reset (events : List AnyEvent)

def EventMsg.events : EventMsg → List AnyEvent
  | event e => [e]
  | reset events => events

def isKernelCanonEvent (parse : Json → Option KernelEvent) : AnyEvent → Bool
  | .canon canon => (extractRustcEvent parse canon).isSome
  | .code _ => false

/-- Where the watcher is in its loop.  `todo` are the files it listed and did not read
    yet. -/
inductive WatchPhase where
  | waiting
  | reading (todo : List Nat) (all : List AnyEvent)
  | delivered
  | counting (latestSeq : Nat) (todo : List Nat) (fromLatest : Nat)

/-- `handed` is what `process_events` was called with, and `appended` what was appended
    since the start.  `observed` counts the events that the runtime observed since they were
    last taken from it, and `stopped` says that the main loop has returned. -/
structure Watched where
  log : SegmentLog
  watcherStartSeq : Nat
  watcherSeen : Nat
  phase : WatchPhase
  queue : List EventMsg
  handed : List AnyEvent
  appended : List AnyEvent
  observed : Nat
  stopped : Bool

namespace Watched

variable (parse : Json → Option KernelEvent)

/-- The end of the first read.  Compiler events go into a queue that nobody takes them
    from. -/
def deliver (s : Watched) (all : List AnyEvent) : Watched :=
  if all.length < s.watcherSeen then
    -- The log was truncated or recreated.
    { s with
      watcherSeen := 0
      queue := s.queue ++ [.reset (all.filter (!isKernelCanonEvent parse ·))]
      phase := .waiting }
  else
    { s with
      watcherSeen := all.length
      queue := s.queue ++
        ((all.drop s.watcherSeen).filter (!isKernelCanonEvent parse ·)).map .event
      phase := .delivered }

/-- The position moves to the latest segment. -/
def moveTo (s : Watched) (latestSeq fromLatest : Nat) : Watched :=
  { s with watcherStartSeq := latestSeq, watcherSeen := fromLatest, phase := .waiting }

/-- The next step of the watcher. -/
def watch (s : Watched) : Watched :=
  match s.phase with
  | .waiting => { s with phase := .reading (seqsFrom s.watcherStartSeq s.log.segments) [] }
  | .reading [] all => s.deliver parse all
  | .reading (seq :: todo) all =>
    match readFile s.log.segments seq with
    | none => { s with phase := .waiting }
    | some events => { s with phase := .reading todo (all ++ events) }
  | .delivered =>
    match s.log.latestSegmentSeq with
    | none => { s with phase := .waiting }
    | some latestSeq =>
      if s.watcherStartSeq < latestSeq then
        { s with phase := .counting latestSeq (seqsFrom latestSeq s.log.segments) 0 }
      else { s with phase := .waiting }
  | .counting latestSeq [] fromLatest => s.moveTo latestSeq fromLatest
  | .counting latestSeq (seq :: todo) fromLatest =>
    match readFile s.log.segments seq with
    | none => s.moveTo latestSeq 0
    | some events => { s with phase := .counting latestSeq todo (fromLatest + events.length) }

/-- The top of the main loop: a beat, in which the runtime observes events.  `none` if it
    fails. -/
def tick (s : Watched) : Option Nat → Watched
  | none => { s with stopped := true }
  | some observed => { s with observed := s.observed + observed }

/-- The main loop takes one message, calls `process_events` and beats.  The runtime observes
    events meanwhile, or a call fails; unless they are more than were observed in front, the
    loop returns an error. -/
def take (s : Watched) (observed : Option Nat) : Watched :=
  match s.queue with
  | [] => s
  | msg :: rest =>
    { s with
      queue := rest
      handed := s.handed ++ msg.events
      observed := 0
      stopped := observed.getD 0 ≤ s.observed }

end Watched

/-- What the watcher, the main loop and other processes do. -/
inductive WatchAct where
  | append (event : AnyEvent)
  | rotate (seq : Nat)
  /-- The log is cut, or made anew. -/
  | truncate (log : SegmentLog)
  | watch
  | tick (observed : Option Nat)
  | take (observed : Option Nat)

/-- With the main loop the whole process ends; others go on. -/
def watchMachine (parse : Json → Option KernelEvent) : Machine Watched WatchAct where
  step s
    | .append event =>
      if s.log.segments.isEmpty then s
      else { s with log := s.log.append event, appended := s.appended ++ [event] }
    | .rotate seq => { s with log := s.log.rotate seq }
    | .truncate log => { s with log := log }
    | .watch => if s.stopped then s else s.watch parse
    | .tick observed => if s.stopped then s else s.tick observed
    | .take observed => if s.stopped then s else s.take observed

/-- The watcher starts behind the last event of the log. -/
def Watched.start (log : SegmentLog) (startSeq : Nat) : Watched where
  log := log
  watcherStartSeq := startSeq
  watcherSeen := (eventsFrom startSeq log.segments).length
  phase := .waiting
  queue := []
  handed := []
  appended := []
  observed := 0
  stopped := false

/-! ### Exactly once -/

namespace Watched

variable (parse : Json → Option KernelEvent)

/-- The events in the log behind the position of the watcher. -/
def unread (s : Watched) : List AnyEvent :=
  (eventsFrom s.watcherStartSeq s.log.segments).drop s.watcherSeen

/-- Handed over, or on the way. -/
def sent (s : Watched) : List AnyEvent := s.handed ++ s.queue.flatMap EventMsg.events

/-- The position moves on in the next step of the watcher. -/
def moves (s : Watched) : Bool :=
  match s.phase with
  | .counting _ [] _ => true
  | .counting _ (seq :: _) _ => (readFile s.log.segments seq).isNone
  | _ => false

end Watched

/-- The latest segment is not in front of `start`. -/
def SegmentLog.Reaches (log : SegmentLog) (start : Nat) : Prop :=
  ∃ s older, log.segments = s :: older ∧ start ≤ s.seq

/-- What a truncation may meet the watcher at: in a read, it has nothing yet or all there
    was; in a count, the segment it moves to is not ahead of the log. -/
def Watched.Survives (s : Watched) (log : SegmentLog) : Prop :=
  match s.phase with
  | .reading _ all => 0 < s.watcherSeen ∧ (all = [] ∨ all.length = s.watcherSeen)
  | .counting latestSeq _ _ => log.Reaches latestSeq
  | _ => True

/-- No compiler event is appended, and nothing while a truncation was not noticed; a
    truncation comes when all is delivered and leaves nothing to read; the position moves on
    only when nothing is unread; and no beat fails, and each message lets the runtime observe
    more events than were observed in front of it. -/
def Undisturbed (parse : Json → Option KernelEvent) (s : Watched) : WatchAct → Prop
  | .append event =>
    isKernelCanonEvent parse event = false ∧
      s.watcherSeen ≤ (eventsFrom s.watcherStartSeq s.log.segments).length
  | .truncate log =>
    s.unread = [] ∧ eventsFrom s.watcherStartSeq log.segments = [] ∧
      log.Reaches s.watcherStartSeq ∧ s.Survives log
  | .watch => s.moves = true → s.unread = []
  | .rotate _ => True
  | .tick observed => observed.isSome = true
  | .take observed => s.queue.isEmpty = false → s.observed < observed.getD 0

namespace Watched

variable (parse : Json → Option KernelEvent)

/-- One poll that nobody interrupts, up to the delivery. -/
def poll (s : Watched) : Watched :=
  (watchMachine parse).run s
    (List.replicate ((seqsFrom s.watcherStartSeq s.log.segments).length + 2) .watch)

/-- What was handed over is what was appended first, in this order; and between two polls
    the next one is enough for the rest, once the main loop has taken what is queued then. -/
structure ExactlyOnce (s : Watched) : Prop where
  ordered : s.handed <+: s.appended
  complete : s.phase = .waiting → ∀ counts : List (Option Nat),
    counts.length = (s.poll parse).queue.length →
    (watchMachine parse).Along (Undisturbed parse) (s.poll parse) (counts.map .take) →
    ((watchMachine parse).run (s.poll parse) (counts.map .take)).handed = s.appended

end Watched

/-! ### Reading the segments -/

/-- The events of the files `todo`, as they are now. -/
def readAll (segments : List Segment) (todo : List Nat) : List AnyEvent :=
  todo.flatMap fun seq => (readFile segments seq).getD []

@[simp] theorem readAll_nil (segments : List Segment) : readAll segments [] = [] := rfl

theorem readAll_cons (segments : List Segment) (seq : Nat) (todo : List Nat) :
    readAll segments (seq :: todo) =
      (readFile segments seq).getD [] ++ readAll segments todo := by
  simp [readAll]

theorem readAll_append (segments : List Segment) (todo todo' : List Nat) :
    readAll segments (todo ++ todo') = readAll segments todo ++ readAll segments todo' := by
  simp [readAll]

theorem readAll_congr {segments segments' : List Segment} {todo : List Nat}
    (h : ∀ seq ∈ todo, readFile segments' seq = readFile segments seq) :
    readAll segments' todo = readAll segments todo := by
  unfold readAll
  exact List.flatMap_congr fun seq hseq => by rw [h seq hseq]

theorem readFile_cons_self (s : Segment) (older : List Segment) :
    readFile (s :: older) s.seq = some s.events := by
  simp [readFile]

theorem readFile_cons_of_ne {s : Segment} {seq : Nat} (h : s.seq ≠ seq) (older : List Segment) :
    readFile (s :: older) seq = readFile older seq := by
  simp [readFile, h]

theorem mem_seqsFrom {start seq : Nat} {segments : List Segment}
    (h : seq ∈ seqsFrom start segments) : ∃ s ∈ segments, s.seq = seq := by
  induction segments with
  | nil => cases h
  | cons s older ih =>
    rcases List.mem_append.mp h with h | h
    · obtain ⟨s', hs', rfl⟩ := ih h
      exact ⟨s', List.mem_cons_of_mem s hs', rfl⟩
    · split at h
      · exact ⟨s, List.mem_cons_self, (List.mem_singleton.mp h).symm⟩
      · cases h

/-- The numbers of older segments are lower. -/
theorem seq_lt_of_mem_seqsFrom {start seq : Nat} {s : Segment} {older : List Segment}
    (hdesc : (s :: older).Pairwise fun s older => older.seq < s.seq)
    (h : seq ∈ seqsFrom start older) : seq < s.seq := by
  obtain ⟨s', hs', rfl⟩ := mem_seqsFrom h
  exact List.rel_of_pairwise_cons hdesc hs'

/-- A listing, read to its end. -/
theorem readAll_seqsFrom (start : Nat) {segments : List Segment}
    (hdesc : segments.Pairwise fun s older => older.seq < s.seq) :
    readAll segments (seqsFrom start segments) = eventsFrom start segments := by
  induction segments with
  | nil => rfl
  | cons s older ih =>
    have holder : readAll (s :: older) (seqsFrom start older) =
        readAll older (seqsFrom start older) := by
      apply readAll_congr
      intro seq hseq
      have hlt := seq_lt_of_mem_seqsFrom hdesc hseq
      exact readFile_cons_of_ne (by omega) older
    rw [seqsFrom, eventsFrom, readAll_append, holder, ih (List.Pairwise.of_cons hdesc)]
    split
    · rw [readAll_cons, readFile_cons_self, readAll_nil, Option.getD_some, List.append_nil]
    · rfl

theorem readFile_isSome_of_mem_seqsFrom {start seq : Nat} {segments : List Segment}
    (h : seq ∈ seqsFrom start segments) : (readFile segments seq).isSome = true := by
  obtain ⟨s, hs, rfl⟩ := mem_seqsFrom h
  simp only [readFile, Option.isSome_map, List.find?_isSome]
  exact ⟨s, hs, by simp⟩

theorem eventsFrom_eq_nil_of_le {start start' : Nat} (hle : start ≤ start')
    {segments : List Segment} (h : eventsFrom start segments = []) :
    eventsFrom start' segments = [] := by
  induction segments with
  | nil => rfl
  | cons s older ih =>
    rw [eventsFrom, List.append_eq_nil_iff] at h
    rw [eventsFrom, ih h.1, List.nil_append]
    split
    · rw [if_pos (by omega)] at h
      exact h.2
    · rfl

theorem events_eq_nil_of_eventsFrom {start : Nat} {segments : List Segment}
    (h : eventsFrom start segments = []) {s : Segment} (hs : s ∈ segments)
    (hstart : start ≤ s.seq) : s.events = [] := by
  induction segments with
  | nil => cases hs
  | cons t older ih =>
    rw [eventsFrom, List.append_eq_nil_iff] at h
    rcases List.mem_cons.mp hs with rfl | hs
    · rw [if_pos hstart] at h
      exact h.2
    · exact ih h.1 hs

theorem readAll_of_eventsFrom_nil {start : Nat} {segments : List Segment}
    (h : eventsFrom start segments = []) {todo : List Nat} (htodo : ∀ seq ∈ todo, start ≤ seq) :
    readAll segments todo = [] := by
  unfold readAll
  rw [List.flatMap_eq_nil_iff]
  intro seq hseq
  unfold readFile
  cases hfound : segments.find? (·.seq = seq) with
  | none => rfl
  | some s =>
    have hs := List.find?_some hfound
    simp only [decide_eq_true_eq] at hs
    refine events_eq_nil_of_eventsFrom h (List.mem_of_find?_eq_some hfound) ?_
    rw [hs]
    exact htodo seq hseq

theorem le_of_mem_seqsFrom {start seq : Nat} {segments : List Segment}
    (h : seq ∈ seqsFrom start segments) : start ≤ seq := by
  induction segments with
  | nil => cases h
  | cons s older ih =>
    rcases List.mem_append.mp h with h | h
    · exact ih h
    · split at h
      · rw [List.mem_singleton.mp h]
        assumption
      · cases h

/-! ### Appends and rotations -/

section Grow

variable {log : SegmentLog} {latest : Segment} {older : List Segment}

theorem append_segments (h : log.segments = latest :: older) (event : AnyEvent) :
    (log.append event).segments =
      { latest with events := latest.events ++ [event] } :: older := by
  obtain ⟨segments, hdesc⟩ := log
  cases h
  rfl

theorem eventsFrom_append (h : log.segments = latest :: older) {start : Nat}
    (hstart : start ≤ latest.seq) (event : AnyEvent) :
    eventsFrom start (log.append event).segments = eventsFrom start log.segments ++ [event] := by
  rw [append_segments h, h, eventsFrom, eventsFrom, if_pos hstart, if_pos hstart,
    List.append_assoc]

theorem readFile_append_of_ne (h : log.segments = latest :: older) {seq : Nat}
    (hne : latest.seq ≠ seq) (event : AnyEvent) :
    readFile (log.append event).segments seq = readFile log.segments seq := by
  rw [append_segments h, h, readFile_cons_of_ne hne]
  exact readFile_cons_of_ne (s := { latest with events := latest.events ++ [event] }) hne older

theorem readAll_append_of_notMem (h : log.segments = latest :: older) {todo : List Nat}
    (hnot : latest.seq ∉ todo) (event : AnyEvent) :
    readAll (log.append event).segments todo = readAll log.segments todo := by
  apply readAll_congr
  intro seq hseq
  refine readFile_append_of_ne h ?_ event
  rintro rfl
  exact hnot hseq

/-- The event is read with the latest segment, if that one is still to be read. -/
theorem readAll_append_last (h : log.segments = latest :: older) {todo : List Nat}
    (hnot : latest.seq ∉ todo) (event : AnyEvent) :
    readAll (log.append event).segments (todo ++ [latest.seq]) =
      readAll log.segments (todo ++ [latest.seq]) ++ [event] := by
  have hold : readFile log.segments latest.seq = some latest.events := by
    rw [h]
    exact readFile_cons_self latest older
  have hnew : readFile (log.append event).segments latest.seq =
      some (latest.events ++ [event]) := by
    rw [append_segments h]
    exact readFile_cons_self { latest with events := latest.events ++ [event] } older
  rw [readAll_append, readAll_append, readAll_append_of_notMem h hnot, readAll_cons, readAll_cons,
    hold, hnew]
  simp

/-- A rotation that takes place puts an empty segment in front. -/
theorem rotate_cases (log : SegmentLog) (seq : Nat) :
    log.rotate seq = log ∨
      (∀ s ∈ log.segments, s.seq < seq) ∧
        (log.rotate seq).segments = { seq := seq, events := [] } :: log.segments := by
  unfold SegmentLog.rotate
  split
  · rename_i hlower
    exact .inr ⟨hlower, rfl⟩
  · exact .inl rfl

theorem eventsFrom_rotate (log : SegmentLog) (seq start : Nat) :
    eventsFrom start (log.rotate seq).segments = eventsFrom start log.segments := by
  rcases rotate_cases log seq with h | ⟨-, h⟩
  · rw [h]
  · rw [h, eventsFrom]
    simp

theorem readFile_rotate_of_isSome {seq n : Nat} (h : (readFile log.segments n).isSome = true) :
    readFile (log.rotate seq).segments n = readFile log.segments n := by
  rcases rotate_cases log seq with hsame | ⟨hlower, hnew⟩
  · rw [hsame]
  · rw [hnew]
    refine readFile_cons_of_ne ?_ log.segments
    rintro rfl
    simp only [readFile, Option.isSome_map, List.find?_isSome] at h
    obtain ⟨s, hs, hseq⟩ := h
    have hlt := hlower s hs
    simp only [decide_eq_true_eq] at hseq
    omega

theorem readAll_rotate (log : SegmentLog) (seq : Nat) (todo : List Nat) :
    readAll (log.rotate seq).segments todo = readAll log.segments todo := by
  unfold readAll
  apply List.flatMap_congr
  intro n _
  cases hread : readFile log.segments n with
  | some events => rw [readFile_rotate_of_isSome (by rw [hread]; rfl), hread]
  | none =>
    rcases rotate_cases log seq with hsame | ⟨-, hnew⟩
    · rw [hsame, hread]
    · rw [hnew]
      by_cases hseq : seq = n
      · subst hseq
        rw [readFile_cons_self { seq := seq, events := [] }]
        rfl
      · rw [readFile_cons_of_ne hseq, hread]

end Grow

/-! ### The invariant -/

/-- A read in a log that only grows.  What is read and still to be read comes first in the
    log, and is all of it while the latest segment is not read. -/
structure ReadsOn (log : SegmentLog) (start seen : Nat) (todo : List Nat)
    (all : List AnyEvent) : Prop where
  first : all ++ readAll log.segments todo <+: eventsFrom start log.segments
  covered : seen ≤ (all ++ readAll log.segments todo).length
  present : ∀ seq ∈ todo, ∃ s ∈ log.segments, s.seq = seq
  whole : ∀ latest ∈ log.segments.head?, latest.seq ∉ todo ∨
    ∃ before, todo = before ++ [latest.seq] ∧ latest.seq ∉ before ∧
      all ++ readAll log.segments todo = eventsFrom start log.segments

/-- A read in a log that was emptied, which the watcher did not notice. -/
structure ReadsEmptied (log : SegmentLog) (start seen : Nat) (todo : List Nat)
    (all : List AnyEvent) : Prop where
  emptied : eventsFrom start log.segments = []
  rest : readAll log.segments todo = []
  pos : 0 < seen
  got : all = [] ∨ all.length = seen

/-- A count that comes out right if nothing is unread. -/
structure Counts (log : SegmentLog) (start seen latestSeq : Nat) (todo : List Nat)
    (fromLatest : Nat) : Prop where
  reaches : log.Reaches latestSeq
  ahead : start ≤ latestSeq
  count : (eventsFrom start log.segments).drop seen = [] →
    (∀ seq ∈ todo, (readFile log.segments seq).isSome = true) ∧
      fromLatest + (readAll log.segments todo).length =
        (eventsFrom latestSeq log.segments).length ∨
    eventsFrom latestSeq log.segments = []

def PhaseInv (log : SegmentLog) (start seen : Nat) : WatchPhase → Prop
  | .waiting => True
  | .reading todo all =>
    (∀ seq ∈ todo, start ≤ seq) ∧
      (ReadsOn log start seen todo all ∨ ReadsEmptied log start seen todo all)
  | .delivered => True
  | .counting latestSeq todo fromLatest => Counts log start seen latestSeq todo fromLatest

/-- Nothing is lost, nothing comes twice, and what is not on the way can still be read. -/
structure Watched.Accounted (parse : Json → Option KernelEvent) (s : Watched) : Prop where
  reaches : s.log.Reaches s.watcherStartSeq
  account : s.appended = s.sent ++ s.unread
  plain : ∀ e ∈ s.appended, isKernelCanonEvent parse e = false
  runs : s.stopped = false
  position : s.watcherSeen ≤ (eventsFrom s.watcherStartSeq s.log.segments).length ∨
    eventsFrom s.watcherStartSeq s.log.segments = []
  phase : PhaseInv s.log s.watcherStartSeq s.watcherSeen s.phase

theorem Watched.Accounted.start (parse : Json → Option KernelEvent) {log : SegmentLog}
    {startSeq : Nat} (h : log.Reaches startSeq) : (Watched.start log startSeq).Accounted parse where
  reaches := h
  account := by simp [Watched.start, Watched.sent, Watched.unread]
  plain := by simp [Watched.start]
  runs := rfl
  position := .inl le_rfl
  phase := trivial

/-! ### What others do -/

theorem ReadsOn.append {log : SegmentLog} {start seen : Nat} {todo : List Nat}
    {all : List AnyEvent} (h : ReadsOn log start seen todo all) (hreaches : log.Reaches start)
    (event : AnyEvent) : ReadsOn (log.append event) start seen todo all := by
  obtain ⟨latest, older, hlog, hstart⟩ := hreaches
  have hlatest : latest ∈ log.segments.head? := by rw [hlog]; rfl
  have hpresent : ∀ seq ∈ todo, ∃ s ∈ (log.append event).segments, s.seq = seq := by
    intro seq hseq
    obtain ⟨s, hs, rfl⟩ := h.present seq hseq
    rw [hlog] at hs
    rw [append_segments hlog]
    rcases List.mem_cons.mp hs with rfl | hs
    · exact ⟨_, List.mem_cons_self, rfl⟩
    · exact ⟨s, List.mem_cons_of_mem _ hs, rfl⟩
  have hhead : ∀ s ∈ (log.append event).segments.head?, s.seq = latest.seq := by
    intro s hs
    rw [append_segments hlog] at hs
    cases hs
    rfl
  rcases h.whole latest hlatest with hnot | ⟨before, rfl, hnot, hwhole⟩
  · have hsame := readAll_append_of_notMem hlog hnot event
    refine ⟨?_, ?_, hpresent, ?_⟩
    · rw [hsame, eventsFrom_append hlog hstart]
      exact h.first.trans (List.prefix_append _ _)
    · rw [hsame]
      exact h.covered
    · intro s hs
      rw [hhead s hs]
      exact .inl hnot
  · have hgrown : all ++ readAll (log.append event).segments (before ++ [latest.seq]) =
        eventsFrom start (log.append event).segments := by
      rw [readAll_append_last hlog hnot, eventsFrom_append hlog hstart, ← List.append_assoc, hwhole]
    refine ⟨?_, ?_, hpresent, ?_⟩
    · rw [hgrown]
    · rw [hgrown, eventsFrom_append hlog hstart, ← hwhole, List.length_append]
      exact Nat.le_add_right_of_le h.covered
    · intro s hs
      rw [hhead s hs]
      exact .inr ⟨before, rfl, hnot, hgrown⟩

theorem SegmentLog.Reaches.rotate {log : SegmentLog} {start : Nat} (h : log.Reaches start)
    (seq : Nat) : (log.rotate seq).Reaches start := by
  obtain ⟨latest, older, hlog, hstart⟩ := h
  rcases rotate_cases log seq with hsame | ⟨hlower, hnew⟩
  · exact ⟨latest, older, by rw [hsame, hlog], hstart⟩
  · have hlt : latest.seq < seq := hlower latest (by rw [hlog]; exact List.mem_cons_self)
    exact ⟨_, _, hnew, show start ≤ seq by omega⟩

theorem SegmentLog.Reaches.append {log : SegmentLog} {start : Nat} (h : log.Reaches start)
    (event : AnyEvent) : (log.append event).Reaches start := by
  obtain ⟨latest, older, hlog, hstart⟩ := h
  exact ⟨_, _, append_segments hlog event, hstart⟩

theorem ReadsOn.rotate {log : SegmentLog} {start seen : Nat} {todo : List Nat}
    {all : List AnyEvent} (h : ReadsOn log start seen todo all) (seq : Nat) :
    ReadsOn (log.rotate seq) start seen todo all := by
  rcases rotate_cases log seq with hsame | ⟨hlower, hnew⟩
  · rw [hsame]
    exact h
  · refine ⟨?_, ?_, ?_, ?_⟩
    · rw [readAll_rotate, eventsFrom_rotate]
      exact h.first
    · rw [readAll_rotate]
      exact h.covered
    · intro n hn
      obtain ⟨s, hs, rfl⟩ := h.present n hn
      rw [hnew]
      exact ⟨s, List.mem_cons_of_mem _ hs, rfl⟩
    · intro latest hlatest
      rw [hnew] at hlatest
      cases hlatest
      -- The new segment was not there when the files were listed.
      refine .inl fun hmem => ?_
      obtain ⟨s, hs, hseq⟩ := h.present seq hmem
      have hlt := hlower s hs
      omega

theorem PhaseInv.rotate {log : SegmentLog} {start seen : Nat} {phase : WatchPhase}
    (h : PhaseInv log start seen phase) (seq : Nat) :
    PhaseInv (log.rotate seq) start seen phase := by
  cases phase with
  | waiting => trivial
  | delivered => trivial
  | reading todo all =>
    obtain ⟨hfrom, h | h⟩ := h
    · exact ⟨hfrom, .inl (h.rotate seq)⟩
    · exact ⟨hfrom,
      .inr ⟨by rw [eventsFrom_rotate]; exact h.emptied, by rw [readAll_rotate]; exact h.rest,
        h.pos, h.got⟩⟩
  | counting latestSeq todo fromLatest =>
    refine ⟨h.reaches.rotate seq, h.ahead, ?_⟩
    rw [eventsFrom_rotate, eventsFrom_rotate, readAll_rotate]
    intro hunread
    rcases h.count hunread with ⟨hfiles, hcount⟩ | hempty
    · refine .inl ⟨?_, hcount⟩
      intro n hn
      rw [readFile_rotate_of_isSome (hfiles n hn)]
      exact hfiles n hn
    · exact .inr hempty

theorem PhaseInv.append {log : SegmentLog} {start seen : Nat} {phase : WatchPhase}
    (h : PhaseInv log start seen phase) (hreaches : log.Reaches start)
    (hseen : seen ≤ (eventsFrom start log.segments).length) (event : AnyEvent) :
    PhaseInv (log.append event) start seen phase := by
  cases phase with
  | waiting => trivial
  | delivered => trivial
  | reading todo all =>
    obtain ⟨hfrom, h | h⟩ := h
    · exact ⟨hfrom, .inl (h.append hreaches event)⟩
    · rw [h.emptied, List.length_nil] at hseen
      have hpos := h.pos
      omega
  | counting latestSeq todo fromLatest =>
    obtain ⟨latest, older, hlog, hstart⟩ := hreaches
    refine ⟨h.reaches.append event, h.ahead, ?_⟩
    intro hunread
    rw [eventsFrom_append hlog hstart, List.drop_append_of_le_length hseen] at hunread
    simp at hunread

/-- One more file of a read. -/
theorem PhaseInv.readFile {log : SegmentLog} {start seen seq : Nat} {todo : List Nat}
    {all events : List AnyEvent} (h : PhaseInv log start seen (.reading (seq :: todo) all))
    (hread : readFile log.segments seq = some events) :
    PhaseInv log start seen (.reading todo (all ++ events)) := by
  have hsplit : all ++ readAll log.segments (seq :: todo) =
      all ++ events ++ readAll log.segments todo := by
    rw [readAll_cons, hread, Option.getD_some, List.append_assoc]
  obtain ⟨hfrom, h | h⟩ := h
  · refine ⟨fun n hn => hfrom n (List.mem_cons_of_mem seq hn), .inl ⟨?_, ?_, ?_, ?_⟩⟩
    · rw [← hsplit]
      exact h.first
    · rw [← hsplit]
      exact h.covered
    · exact fun n hn => h.present n (List.mem_cons_of_mem seq hn)
    · intro latest hlatest
      rcases h.whole latest hlatest with hnot | ⟨before, heq, hnot, hwhole⟩
      · exact .inl fun hmem => hnot (List.mem_cons_of_mem seq hmem)
      · cases before with
        | nil =>
          cases heq
          exact .inl (List.not_mem_nil)
        | cons n before =>
          cases heq
          refine .inr ⟨before, rfl, fun hmem => hnot (List.mem_cons_of_mem _ hmem), ?_⟩
          rw [← hsplit]
          exact hwhole
  · have hempty := h.rest
    rw [readAll_cons, hread, Option.getD_some, List.append_eq_nil_iff] at hempty
    rw [hempty.1, List.append_nil]
    exact ⟨fun n hn => hfrom n (List.mem_cons_of_mem seq hn), .inr
      ⟨h.emptied, hempty.2, h.pos, h.got⟩⟩

namespace Watched

variable {parse : Json → Option KernelEvent} {s : Watched}

theorem Accounted.append (h : s.Accounted parse) {event : AnyEvent}
    (hplain : isKernelCanonEvent parse event = false)
    (hseen : s.watcherSeen ≤ (eventsFrom s.watcherStartSeq s.log.segments).length) :
    Accounted parse { s with log := s.log.append event, appended := s.appended ++ [event] } := by
  obtain ⟨latest, older, hlog, hstart⟩ := h.reaches
  have hgrown := eventsFrom_append hlog hstart event
  refine ⟨h.reaches.append event, ?_, ?_, h.runs, ?_, h.phase.append h.reaches hseen event⟩
  · show s.appended ++ [event] =
      s.sent ++ (eventsFrom s.watcherStartSeq (s.log.append event).segments).drop s.watcherSeen
    rw [hgrown, List.drop_append_of_le_length hseen, h.account, unread, List.append_assoc]
  · intro e he
    rcases List.mem_append.mp he with he | he
    · exact h.plain e he
    · rw [List.mem_singleton.mp he]
      exact hplain
  · left
    show s.watcherSeen ≤ (eventsFrom s.watcherStartSeq (s.log.append event).segments).length
    rw [hgrown, List.length_append]
    omega

theorem Accounted.rotate (h : s.Accounted parse) (seq : Nat) :
    Accounted parse { s with log := s.log.rotate seq } := by
  refine ⟨h.reaches.rotate seq, ?_, h.plain, h.runs, ?_, h.phase.rotate seq⟩
  · show s.appended =
      s.sent ++ (eventsFrom s.watcherStartSeq (s.log.rotate seq).segments).drop s.watcherSeen
    rw [eventsFrom_rotate]
    exact h.account
  · show s.watcherSeen ≤ (eventsFrom s.watcherStartSeq (s.log.rotate seq).segments).length ∨
      eventsFrom s.watcherStartSeq (s.log.rotate seq).segments = []
    rw [eventsFrom_rotate]
    exact h.position

theorem Accounted.truncate (h : s.Accounted parse) {log : SegmentLog} (hunread : s.unread = [])
    (hempty : eventsFrom s.watcherStartSeq log.segments = [])
    (hreaches : log.Reaches s.watcherStartSeq) (hsurvives : s.Survives log) :
    Accounted parse { s with log := log } := by
  refine ⟨hreaches, ?_, h.plain, h.runs, .inr hempty, ?_⟩
  · show s.appended = s.sent ++ (eventsFrom s.watcherStartSeq log.segments).drop s.watcherSeen
    rw [hempty, List.drop_nil, h.account, hunread]
  · show PhaseInv log s.watcherStartSeq s.watcherSeen s.phase
    have hphase := h.phase
    unfold Survives at hsurvives
    cases hcase : s.phase with
    | waiting => trivial
    | delivered => trivial
    | reading todo all =>
      rw [hcase] at hphase hsurvives
      exact ⟨hphase.1, .inr ⟨hempty, readAll_of_eventsFrom_nil hempty hphase.1, hsurvives.1,
        hsurvives.2⟩⟩
    | counting latestSeq todo fromLatest =>
      rw [hcase] at hphase hsurvives
      exact ⟨hsurvives, hphase.ahead, fun _ =>
        .inr (eventsFrom_eq_nil_of_le hphase.ahead hempty)⟩

theorem Accounted.tick (h : s.Accounted parse) {observed : Option Nat}
    (hsome : observed.isSome = true) : (s.tick observed).Accounted parse := by
  obtain ⟨n, rfl⟩ := Option.isSome_iff_exists.mp hsome
  exact ⟨h.reaches, h.account, h.plain, h.runs, h.position, h.phase⟩

theorem Accounted.take (h : s.Accounted parse) {observed : Option Nat}
    (hmore : s.queue.isEmpty = false → s.observed < observed.getD 0) :
    (s.take observed).Accounted parse := by
  unfold Watched.take
  split
  · exact h
  · rename_i msg rest hqueue
    have hlt := hmore (by rw [hqueue]; rfl)
    refine ⟨h.reaches, ?_, h.plain, decide_eq_false (Nat.not_le.mpr hlt), h.position, h.phase⟩
    have haccount := h.account
    simp only [sent, hqueue, List.flatMap_cons, ← List.append_assoc] at haccount
    exact haccount

/-! ### What the watcher does -/

/-- A listing finds all that is in the log, or a log that was emptied. -/
theorem Accounted.list (h : s.Accounted parse) :
    PhaseInv s.log s.watcherStartSeq s.watcherSeen
      (.reading (seqsFrom s.watcherStartSeq s.log.segments) []) := by
  have hall := readAll_seqsFrom s.watcherStartSeq s.log.descending
  refine ⟨fun seq hseq => le_of_mem_seqsFrom hseq, ?_⟩
  by_cases hseen : s.watcherSeen ≤ (eventsFrom s.watcherStartSeq s.log.segments).length
  · refine .inl ⟨?_, ?_, fun seq hseq => mem_seqsFrom hseq, ?_⟩
    · rw [List.nil_append, hall]
    · rw [List.nil_append, hall]
      exact hseen
    · intro latest hlatest
      obtain ⟨t, older, hlog, hstart⟩ := h.reaches
      rw [hlog] at hlatest
      cases hlatest
      have hdesc := s.log.descending
      refine .inr ⟨seqsFrom s.watcherStartSeq older, ?_, ?_, ?_⟩
      · rw [hlog, seqsFrom, if_pos hstart]
      · intro hmem
        rw [hlog] at hdesc
        exact absurd (seq_lt_of_mem_seqsFrom hdesc hmem) (by omega)
      · rw [List.nil_append, hall]
  · have hempty := h.position.resolve_left hseen
    exact .inr ⟨hempty, hall.trans hempty, by omega, .inl rfl⟩

theorem flatMap_events_map_event (events : List AnyEvent) :
    (events.map EventMsg.event).flatMap EventMsg.events = events := by
  induction events with
  | nil => rfl
  | cons e rest ih => rw [List.map_cons, List.flatMap_cons, ih]; rfl

/-- The watcher sends what it read and had not seen. -/
theorem Accounted.deliver (h : s.Accounted parse) {all : List AnyEvent}
    (hphase : s.phase = .reading [] all) : (s.deliver parse all).Accounted parse := by
  have hread := h.phase
  rw [hphase] at hread
  obtain ⟨-, hread | hread⟩ := hread
  · have hfirst := hread.first
    have hcovered := hread.covered
    rw [readAll_nil, List.append_nil] at hfirst hcovered
    obtain ⟨later, hlater⟩ := hfirst
    have hunread : s.unread = all.drop s.watcherSeen ++ later := by
      rw [unread, ← hlater, List.drop_append_of_le_length hcovered]
    have hplain : (all.drop s.watcherSeen).filter (!isKernelCanonEvent parse ·) =
        all.drop s.watcherSeen := by
      rw [List.filter_eq_self]
      intro e he
      have hmem : e ∈ s.appended := by
        rw [h.account, hunread]
        exact List.mem_append_right _ (List.mem_append_left _ he)
      rw [h.plain e hmem]
      rfl
    rw [Watched.deliver, if_neg (by omega), hplain]
    refine ⟨h.reaches, ?_, h.plain, h.runs, .inl ?_, trivial⟩
    · show s.appended = s.handed ++ (s.queue ++ (all.drop s.watcherSeen).map EventMsg.event).flatMap
          EventMsg.events ++ (eventsFrom s.watcherStartSeq s.log.segments).drop all.length
      rw [h.account, hunread, ← hlater, List.drop_left, List.flatMap_append,
        flatMap_events_map_event, sent, List.append_assoc, List.append_assoc, List.append_assoc]
    · show all.length ≤ (eventsFrom s.watcherStartSeq s.log.segments).length
      rw [← hlater, List.length_append]
      omega
  -- The log was emptied, and what was in it had been sent.
  · have haccount : s.appended = s.sent := by
      rw [h.account, unread, hread.emptied, List.drop_nil, List.append_nil]
    unfold Watched.deliver
    split
    · rename_i hlt
      have hnone : all = [] := hread.got.resolve_right (by omega)
      subst hnone
      refine ⟨h.reaches, ?_, h.plain, h.runs, .inr hread.emptied, trivial⟩
      show s.appended = s.handed ++ (s.queue ++ [EventMsg.reset []]).flatMap EventMsg.events ++
        (eventsFrom s.watcherStartSeq s.log.segments).drop 0
      rw [hread.emptied, haccount]
      simp [sent, EventMsg.events]
    · rename_i hge
      have hnothing : all.drop s.watcherSeen = [] := by
        rw [List.drop_eq_nil_iff]
        rcases hread.got with rfl | hgot
        · exact Nat.zero_le _
        · omega
      rw [hnothing]
      refine ⟨h.reaches, ?_, h.plain, h.runs, .inr hread.emptied, trivial⟩
      show s.appended = s.handed ++ (s.queue ++ []).flatMap EventMsg.events ++
        (eventsFrom s.watcherStartSeq s.log.segments).drop all.length
      rw [hread.emptied, haccount]
      simp [sent]

/-- The position moves on when nothing is unread. -/
theorem Accounted.moveTo (h : s.Accounted parse) (hunread : s.unread = []) {latestSeq n : Nat}
    (hreaches : s.log.Reaches latestSeq)
    (hn : n = (eventsFrom latestSeq s.log.segments).length ∨
      eventsFrom latestSeq s.log.segments = []) : (s.moveTo latestSeq n).Accounted parse := by
  have hdone : (eventsFrom latestSeq s.log.segments).drop n = [] := by
    rcases hn with rfl | hempty
    · exact List.drop_length
    · rw [hempty, List.drop_nil]
  refine ⟨hreaches, ?_, h.plain, h.runs, ?_, trivial⟩
  · show s.appended = s.sent ++ (eventsFrom latestSeq s.log.segments).drop n
    rw [hdone, h.account, hunread]
  · rcases hn with rfl | hempty
    · exact .inl le_rfl
    · exact .inr hempty

/-- A step that changes nothing but the phase. -/
theorem Accounted.enter (h : s.Accounted parse) {phase : WatchPhase}
    (hphase : PhaseInv s.log s.watcherStartSeq s.watcherSeen phase) :
    Accounted parse { s with phase := phase } :=
  ⟨h.reaches, h.account, h.plain, h.runs, h.position, hphase⟩

theorem Accounted.watch (h : s.Accounted parse) (hmoves : s.moves = true → s.unread = []) :
    (s.watch parse).Accounted parse := by
  have hphase := h.phase
  unfold Watched.watch
  split
  · exact h.enter h.list
  · rename_i all hreading
    exact h.deliver hreading
  · rename_i seq todo all hreading
    rw [hreading] at hphase
    split
    · exact h.enter trivial
    · rename_i events hread
      exact h.enter (hphase.readFile hread)
  · split
    · exact h.enter trivial
    · rename_i latestSeq hlatest
      split
      · rename_i hlater
        refine h.enter ⟨?_, ?_, fun _ => .inl ⟨?_, ?_⟩⟩
        · obtain ⟨t, older, hlog, -⟩ := h.reaches
          simp only [SegmentLog.latestSegmentSeq, hlog, List.head?_cons, Option.map_some,
            Option.some.injEq] at hlatest
          exact ⟨t, older, hlog, hlatest.ge⟩
        · exact hlater.le
        · exact fun seq hseq => readFile_isSome_of_mem_seqsFrom hseq
        · rw [Nat.zero_add, readAll_seqsFrom latestSeq s.log.descending]
      · exact h.enter trivial
  · rename_i latestSeq fromLatest hcounting
    have hunread := hmoves (by rw [moves, hcounting])
    rw [hcounting] at hphase
    apply h.moveTo hunread hphase.reaches
    rcases hphase.count hunread with ⟨-, hcount⟩ | hempty
    · exact .inl (by simpa using hcount)
    · exact .inr hempty
  · rename_i latestSeq seq todo fromLatest hcounting
    rw [hcounting] at hphase
    split
    · rename_i hgone
      have hunread := hmoves (by rw [moves, hcounting]; dsimp only; rw [hgone]; rfl)
      apply h.moveTo hunread hphase.reaches
      rcases hphase.count hunread with ⟨hfiles, -⟩ | hempty
      · have hsome := hfiles seq List.mem_cons_self
        rw [hgone] at hsome
        cases hsome
      · exact .inr hempty
    · rename_i events hread
      refine h.enter ⟨hphase.reaches, hphase.ahead, ?_⟩
      intro hunread
      rcases hphase.count hunread with ⟨hfiles, hcount⟩ | hempty
      · refine .inl ⟨fun n hn => hfiles n (List.mem_cons_of_mem seq hn), ?_⟩
        rw [readAll_cons, hread, Option.getD_some, List.length_append, ← Nat.add_assoc] at hcount
        exact hcount
      · exact .inr hempty

theorem Accounted.step_watch (h : s.Accounted parse) :
    (watchMachine parse).step s .watch = s.watch parse := by
  simp only [watchMachine, h.runs, Bool.false_eq_true, if_false]

theorem Accounted.step_take (h : s.Accounted parse) (observed : Option Nat) :
    (watchMachine parse).step s (.take observed) = s.take observed := by
  simp only [watchMachine, h.runs, Bool.false_eq_true, if_false]

theorem Accounted.step (h : s.Accounted parse) {act : WatchAct} (hguard : Undisturbed parse s act) :
    ((watchMachine parse).step s act).Accounted parse := by
  cases act with
  | append event =>
    obtain ⟨latest, older, hlog, -⟩ := h.reaches
    have hsome : s.log.segments.isEmpty = false := by
      rw [hlog]
      rfl
    have hstep : (watchMachine parse).step s (.append event) =
        { s with log := s.log.append event, appended := s.appended ++ [event] } := by
      simp only [watchMachine, hsome, Bool.false_eq_true, if_false]
    rw [hstep]
    exact h.append hguard.1 hguard.2
  | rotate seq => exact h.rotate seq
  | truncate log =>
    obtain ⟨hunread, hempty, hreaches, hsurvives⟩ := hguard
    exact h.truncate hunread hempty hreaches hsurvives
  | watch =>
    rw [h.step_watch]
    exact h.watch hguard
  | tick observed =>
    have hstep : (watchMachine parse).step s (.tick observed) = s.tick observed := by
      simp only [watchMachine, h.runs, Bool.false_eq_true, if_false]
    rw [hstep]
    exact h.tick hguard
  | take observed =>
    rw [h.step_take]
    exact h.take hguard

/-! ### A poll that nobody disturbs -/

theorem run_reading {s : Watched} (hruns : s.stopped = false) (todo : List Nat)
    (all : List AnyEvent)
    (hfiles : ∀ seq ∈ todo, (readFile s.log.segments seq).isSome = true) :
    (watchMachine parse).run { s with phase := .reading todo all }
        (List.replicate todo.length .watch) =
      { s with phase := .reading [] (all ++ readAll s.log.segments todo) } := by
  induction todo generalizing all with
  | nil =>
    rw [readAll_nil, List.append_nil]
    rfl
  | cons seq todo ih =>
    obtain ⟨events, hread⟩ := Option.isSome_iff_exists.mp (hfiles seq List.mem_cons_self)
    have hstep : (watchMachine parse).step { s with phase := .reading (seq :: todo) all } .watch =
        { s with phase := .reading todo (all ++ events) } := by
      simp only [watchMachine, hruns, Bool.false_eq_true, if_false, Watched.watch, hread]
    rw [List.length_cons, List.replicate_succ, Machine.run_cons, hstep,
      ih (all ++ events) fun n hn => hfiles n (List.mem_cons_of_mem seq hn), readAll_cons, hread,
      Option.getD_some, List.append_assoc]

theorem deliver_phase (s : Watched) (phase : WatchPhase) (all : List AnyEvent) :
    ({ s with phase := phase } : Watched).deliver parse all = s.deliver parse all := by
  unfold Watched.deliver
  split <;> rfl

/-- A poll between two polls delivers what is in the log. -/
theorem poll_eq (hruns : s.stopped = false) (hphase : s.phase = .waiting) :
    s.poll parse = s.deliver parse (eventsFrom s.watcherStartSeq s.log.segments) := by
  have hlist : (watchMachine parse).step s .watch =
      { s with phase := .reading (seqsFrom s.watcherStartSeq s.log.segments) [] } := by
    simp only [watchMachine, hruns, Bool.false_eq_true, if_false, Watched.watch, hphase]
  unfold poll
  rw [List.replicate_succ, Machine.run_cons, hlist, List.replicate_succ', Machine.run_snoc,
    run_reading hruns _ [] fun seq hseq => readFile_isSome_of_mem_seqsFrom hseq, List.nil_append,
    readAll_seqsFrom s.watcherStartSeq s.log.descending]
  show (if s.stopped = true then _ else
    ({ s with phase := .reading [] (eventsFrom s.watcherStartSeq s.log.segments) } :
      Watched).deliver parse (eventsFrom s.watcherStartSeq s.log.segments)) = _
  rw [if_neg (by simp [hruns]), deliver_phase]

/-- The main loop hands over all that is queued. -/
theorem Accounted.run_takes (h : s.Accounted parse) {counts : List (Option Nat)}
    (hlength : counts.length = s.queue.length)
    (halong : (watchMachine parse).Along (Undisturbed parse) s (counts.map .take)) :
    ((watchMachine parse).run s (counts.map .take)).handed = s.sent := by
  induction counts generalizing s with
  | nil =>
    rw [sent, List.length_eq_zero_iff.mp hlength.symm, List.flatMap_nil, List.append_nil]
    rfl
  | cons observed counts ih =>
    obtain ⟨msg, rest, hqueue⟩ := List.exists_cons_of_length_eq_add_one hlength.symm
    obtain ⟨hguard, halong⟩ := halong
    rw [h.step_take] at halong
    have hqueued : (s.take observed).queue = rest := by rw [Watched.take, hqueue]
    have hsent : (s.take observed).sent = s.sent := by
      simp only [sent, Watched.take, hqueue, List.flatMap_cons, List.append_assoc]
    rw [List.map_cons, Machine.run_cons, h.step_take, ih (h.take hguard) ?_ halong, hsent]
    rw [hqueued]
    simpa [hqueue] using hlength

theorem Accounted.complete (h : s.Accounted parse) (hphase : s.phase = .waiting)
    {counts : List (Option Nat)} (hlength : counts.length = (s.poll parse).queue.length)
    (halong : (watchMachine parse).Along (Undisturbed parse) (s.poll parse) (counts.map .take)) :
    ((watchMachine parse).run (s.poll parse) (counts.map .take)).handed = s.appended := by
  have hready : Accounted parse
      { s with phase := .reading [] (eventsFrom s.watcherStartSeq s.log.segments) } := by
    refine h.enter ⟨by simp, ?_⟩
    by_cases hseen : s.watcherSeen ≤ (eventsFrom s.watcherStartSeq s.log.segments).length
    · refine .inl ⟨?_, ?_, by simp, fun _ _ => .inl List.not_mem_nil⟩
      · rw [readAll_nil, List.append_nil]
      · rw [readAll_nil, List.append_nil]
        exact hseen
    · have hempty := h.position.resolve_left hseen
      exact .inr ⟨hempty, rfl, by omega, .inl hempty⟩
  have hpolled := hready.deliver rfl
  rw [deliver_phase] at hpolled
  have hall : (s.deliver parse (eventsFrom s.watcherStartSeq s.log.segments)).unread = [] := by
    unfold Watched.deliver unread
    split
    · rename_i hlt
      rw [h.position.resolve_left (by omega), List.drop_nil]
    · exact List.drop_length
  have hkept : (s.deliver parse (eventsFrom s.watcherStartSeq s.log.segments)).appended =
      s.appended := by
    unfold Watched.deliver
    split <;> rfl
  rw [poll_eq h.runs hphase] at hlength halong ⊢
  rw [hpolled.run_takes hlength halong, ← hkept, hpolled.account, hall, List.append_nil]

end Watched

/-- **Exactly once.**  In every run of the watcher, the main loop and other processes in
    which nothing disturbs the watcher, each event is handed over once and in the order of
    the log. -/
theorem watcher_exactly_once (parse : Json → Option KernelEvent) (log : SegmentLog)
    (startSeq : Nat) (hreaches : log.Reaches startSeq) (acts : List WatchAct)
    (hacts : (watchMachine parse).Along (Undisturbed parse) (.start log startSeq) acts) :
    ((watchMachine parse).run (.start log startSeq) acts).ExactlyOnce parse := by
  have haccounted := (watchMachine parse).run_invariant_of_along
    (I := Watched.Accounted parse) (fun _ _ h hguard => h.step hguard)
    (Watched.Accounted.start parse hreaches) hacts
  refine ⟨?_, fun hphase _ hlength halong => haccounted.complete hphase hlength halong⟩
  rw [haccounted.account, Watched.sent, List.append_assoc]
  exact List.prefix_append _ _

/-! ### An event between two reads -/

instance (log : SegmentLog) (start : Nat) : Decidable (log.Reaches start) :=
  decidable_of_iff ((log.segments.head?.any fun s => start ≤ s.seq) = true) (by
    unfold SegmentLog.Reaches
    cases log.segments <;> simp)

instance (s : Watched) (log : SegmentLog) : Decidable (s.Survives log) :=
  match hphase : s.phase with
  | .waiting => isTrue (by rw [Watched.Survives, hphase]; trivial)
  | .reading _ all =>
    decidable_of_iff (0 < s.watcherSeen ∧ (all = [] ∨ all.length = s.watcherSeen))
      (by rw [Watched.Survives, hphase])
  | .delivered => isTrue (by rw [Watched.Survives, hphase]; trivial)
  | .counting latestSeq _ _ =>
    decidable_of_iff (log.Reaches latestSeq) (by rw [Watched.Survives, hphase])

instance (parse : Json → Option KernelEvent) (s : Watched) :
    (act : WatchAct) → Decidable (Undisturbed parse s act)
  | .append _ => inferInstanceAs (Decidable (_ ∧ _))
  | .rotate _ => isTrue trivial
  | .truncate _ => inferInstanceAs (Decidable (_ ∧ _ ∧ _ ∧ _))
  | .watch => inferInstanceAs (Decidable (_ → _))
  | .tick _ => inferInstanceAs (Decidable (_ = _))
  | .take _ => inferInstanceAs (Decidable (_ → _))

def oneSegment : SegmentLog :=
  { segments := [{ seq := 0, events := [.canon Tlog.observation] }], descending := by simp }

def emptySegment : SegmentLog :=
  { segments := [{ seq := 2, events := [] }], descending := by simp }

def watches (n : Nat) : List WatchAct := List.replicate n .watch

/-- A route comes, and a segment after it; the watcher moves there and finds the end of
    planning; the main loop beats and takes the route; and the log is emptied before another
    route comes. -/
def movingRun : List WatchAct :=
  [.append (.canon planRoute), .rotate 2] ++ watches 7 ++ [.append (.canon planEnd)] ++
    watches 4 ++ [.tick (some 3), .take (some 4), .truncate emptySegment] ++ watches 3 ++
    [.append (.canon planRoute)]

theorem watcher_exactly_once_moving :
    ((watchMachine quietReplayEnv.parseRustcEventValue).run (.start oneSegment 0)
      movingRun).ExactlyOnce quietReplayEnv.parseRustcEventValue :=
  watcher_exactly_once quietReplayEnv.parseRustcEventValue oneSegment 0 (by decide +kernel)
    movingRun (by decide +kernel)

/-- A new segment is there, and a route comes between the two reads of a poll. -/
def betweenReads : List WatchAct :=
  [.rotate 2] ++ watches 4 ++ [.append (.canon planRoute)] ++ watches 3

/-- The route counts as seen and is not delivered. -/
theorem event_between_reads_lost :
    ¬ ∀ (log : SegmentLog) (startSeq : Nat), log.Reaches startSeq → ∀ acts : List WatchAct,
        ((watchMachine quietReplayEnv.parseRustcEventValue).run (.start log startSeq)
          acts).ExactlyOnce quietReplayEnv.parseRustcEventValue := by
  intro hall
  have hlost := (hall oneSegment 0 (by decide +kernel) betweenReads).complete rfl [] rfl trivial
  have hlength := congrArg List.length hlost
  revert hlength
  decide +kernel

end Canon.Runtime
