import Canon.Tlog.Layout

/-! # Round trip of one writer's lifetime

    A writer opened on an empty directory appends events with
    `write_canon_event_inner`.  Reading the segments in order gives back exactly
    the events that were accepted, and no append touches a byte already on disk.
-/

namespace Canon.Tlog

variable {config : SegmentConfig} (S : Serde)

/-! ### The machine -/

structure AppendState where
  dir : Dir
  writer : Writer
  accepted : List CanonEvent

/-- One call of the raw append.  An event that is refused is not recorded. -/
def appendMachine : Machine AppendState CanonEvent where
  step s event :=
    let r := writeCanonEventInner S false s.dir s.writer event
    { dir := r.dir
      writer := r.writer
      accepted := if r.outcome = .ok then s.accepted ++ [event] else s.accepted }

/-- A writer just opened on an empty directory. -/
def AppendState.fresh (config : SegmentConfig) : AppendState :=
  let opened := openWithConfig S Dir.empty config
  { dir := opened.1, writer := opened.2, accepted := [] }

/-! ### Append-only directories -/

/-- Every file is still there and has only grown at its end. -/
structure Dir.Extends (dir dir' : Dir) : Prop where
  log : dir.log.Extends dir'.log
  idx : dir.idx.Extends dir'.idx
  time : dir.time.Extends dir'.time

theorem Dir.Extends.refl (dir : Dir) : dir.Extends dir :=
  ⟨.refl _, .refl _, .refl _⟩

theorem Dir.Extends.trans {dir dir' dir'' : Dir} (h : dir.Extends dir')
    (h' : dir'.Extends dir'') : dir.Extends dir'' :=
  ⟨h.log.trans h'.log, h.idx.trans h'.idx, h.time.trans h'.time⟩

/-- No index file with number `seq` or above holds anything yet, so opening one
    from scratch loses nothing. -/
structure IndexFresh (dir : Dir) (seq : Nat) : Prop where
  idx : ∀ n bs, seq ≤ n → dir.idx.contents n = some bs → bs = []
  time : ∀ n bs, seq ≤ n → dir.time.contents n = some bs → bs = []

theorem contents_truncate (t : FileTable) (n m : Nat) :
    (t.truncate n).contents m = if m = n then some [] else t.contents m := by
  by_cases h : m = n <;>
    simp [FileTable.truncate, FileTable.setLen, FileTable.contents_modify,
      FileTable.contents_create, h]

theorem IndexFresh.openNewSegmentFiles {dir : Dir} {seq : Nat} (h : IndexFresh dir seq) :
    dir.Extends (openNewSegmentFiles dir seq).dir ∧
      IndexFresh (openNewSegmentFiles dir seq).dir seq := by
  refine ⟨⟨FileTable.extends_create _ _, FileTable.extends_truncate (h.idx seq · le_rfl),
    FileTable.extends_truncate (h.time seq · le_rfl)⟩, ⟨?_, ?_⟩⟩
  · intro n bs hn hbs
    simp only [Tlog.openNewSegmentFiles, contents_truncate] at hbs
    split at hbs
    · simpa using hbs.symm
    · exact h.idx n bs hn hbs
  · intro n bs hn hbs
    simp only [Tlog.openNewSegmentFiles, contents_truncate] at hbs
    split at hbs
    · simpa using hbs.symm
    · exact h.time n bs hn hbs

/-- Header and rotation only add to the files. -/
theorem IndexFresh.rotate (hret : config.retainSegments = none) {dir : Dir} {seq : Nat}
    (h : IndexFresh dir seq) (files : SegmentFiles) (lineLen : Nat) :
    dir.Extends (rotateIfFull config seq lineLen (writeMagic ⟨dir, files⟩)).dir ∧
      IndexFresh (rotateIfFull config seq lineLen (writeMagic ⟨dir, files⟩)).dir seq := by
  have hmagic : dir.Extends (writeMagic ⟨dir, files⟩).dir ∧
      IndexFresh (writeMagic ⟨dir, files⟩).dir seq := by
    unfold writeMagic
    split
    · exact ⟨⟨FileTable.extends_append _ _ _, .refl _, .refl _⟩, ⟨h.idx, h.time⟩⟩
    · exact ⟨.refl _, h⟩
  unfold rotateIfFull
  split
  · have hopen := hmagic.2.openNewSegmentFiles
    simp only [hret]
    exact ⟨hmagic.1.trans hopen.1, hopen.2⟩
  · exact hmagic

/-- The files a record is appended to have numbers below the next sequence
    number, so the index files from there on stay empty. -/
theorem IndexFresh.appendRecord {o : OpenSegment} {seq : Nat} (h : IndexFresh o.dir seq)
    (hbase : o.files.base ≤ seq) (config : SegmentConfig) (ts : Nat) (bytes : Bytes) :
    o.dir.Extends (appendRecord config seq ts bytes o).dir ∧
      IndexFresh (appendRecord config seq ts bytes o).dir (seq + 1) := by
  have hkeep : ∀ (t : FileTable) (more : Bytes) (n : Nat) (bs : Bytes), seq + 1 ≤ n →
      (t.append o.files.base more).contents n = some bs → t.contents n = some bs := by
    intro t more n bs hn hbs
    -- The record goes to a file below `seq + 1`.
    have hne : n ≠ o.files.base := by omega
    simpa [FileTable.append, FileTable.contents_modify, hne] using hbs
  refine ⟨⟨FileTable.extends_append _ _ _, ?_, ?_⟩, ⟨?_, ?_⟩⟩
  · simp only [Tlog.appendRecord]
    split
    · exact FileTable.extends_append _ _ _
    · exact .refl _
  · simp only [Tlog.appendRecord]
    split
    · exact FileTable.extends_append _ _ _
    · exact .refl _
  · intro n bs hn hbs
    simp only [Tlog.appendRecord] at hbs
    split at hbs
    · exact h.idx n bs (by omega) (hkeep _ _ n bs hn hbs)
    · exact h.idx n bs (by omega) hbs
  · intro n bs hn hbs
    simp only [Tlog.appendRecord] at hbs
    split at hbs
    · exact h.time n bs (by omega) (hkeep _ _ n bs hn hbs)
    · exact h.time n bs (by omega) hbs

/-! ### The invariant -/

/-- The directory holds the accepted events, in order, as its records. -/
structure AppendInv (S : Serde) (config : SegmentConfig) (s : AppendState) : Prop where
  config_eq : s.writer.config = config
  fresh : IndexFresh s.dir s.writer.seq
  layout : ∃ pre cur, Writable s.dir s.writer.files s.writer.seq pre cur ∧
    recordsOf (pre ++ [cur]) = s.accepted.map fun e => S.toVec (normalizeDelta e)

theorem openWithConfig_empty_of_none (hret : config.retainSegments = none) :
    openWithConfig S Dir.empty config =
      ({ log := [(0, [])], idx := [(0, [])], time := [(0, [])] },
        { config := config, seq := 0, lastTs := 0,
          files := { base := 0, size := 0, lastTimeBucket := none, records := 0 },
          dedup := DedupCache.new 1024, rejectedEdges := DedupCache.new 1024,
          lastEvent := none, pending := none }) := by
  rw [openWithConfig_empty, hret, Option.elim_none]

theorem AppendInv.initial (hret : config.retainSegments = none) :
    AppendInv S config (.fresh S config) := by
  simp only [AppendState.fresh, openWithConfig_empty_of_none S hret]
  refine ⟨rfl, ⟨?_, ?_⟩, [], ⟨0, false, []⟩, ⟨⟨rfl, by simp, by simp⟩, rfl, rfl, le_rfl⟩, rfl⟩
  · intro n bs _ hbs
    rw [FileTable.contents_cons] at hbs
    split at hbs
    · simpa using hbs.symm
    · simp [FileTable.contents] at hbs
  · intro n bs _ hbs
    rw [FileTable.contents_cons] at hbs
    split at hbs
    · simpa using hbs.symm
    · simp [FileTable.contents] at hbs

theorem appendMachine_step_of_accepts {s : AppendState} {event : CanonEvent}
    (hacc : Accepts s.writer event) :
    (appendMachine S).step s event =
      { dir := (appended S s.dir s.writer event).dir
        writer :=
          { s.writer with
            lastTs := max s.writer.lastTs event.ts
            seq := s.writer.seq + 1
            files := (appended S s.dir s.writer event).files
            lastEvent := some (normalizeDelta event) }
        accepted := s.accepted ++ [event] } := by
  simp [appendMachine, writeCanonEventInner_of_accepts hacc]

/-- A refused event only moves the clock. -/
theorem appendMachine_step_of_not_accepts {s : AppendState} {event : CanonEvent}
    (hacc : ¬ Accepts s.writer event) :
    (appendMachine S).step s event =
      { s with writer := { s.writer with lastTs := max s.writer.lastTs event.ts } } := by
  obtain ⟨message, hrefused⟩ := writeCanonEventInner_of_not_accepts hacc S false s.dir
  simp [appendMachine, hrefused, WriteResult.fail]

/-- One call keeps the invariant and only appends. -/
theorem AppendInv.step {S : Serde} {s : AppendState}
    (h : AppendInv S config s) (hret : config.retainSegments = none) {event : CanonEvent}
    (hfit : ∀ e ∈ ((appendMachine S).step s event).accepted,
      RecordFits (S.toVec (normalizeDelta e))) :
    AppendInv S config ((appendMachine S).step s event) ∧
      s.dir.Extends ((appendMachine S).step s event).dir := by
  obtain ⟨hcfg, hfresh, pre, cur, hw, hrec⟩ := h
  have hret' : s.writer.config.retainSegments = none := by rw [hcfg]; exact hret
  by_cases hacc : Accepts s.writer event
  · rw [appendMachine_step_of_accepts S hacc] at hfit ⊢
    -- The records, then the bytes that were there before.
    obtain ⟨pre', cur', hw', hrec'⟩ := hw.append hret' event.ts (hfit event (by simp))
    have hrot := hfresh.rotate hret' s.writer.files
      (frame (S.toVec (normalizeDelta event))).length
    -- The open segment after a rotation still has a number up to `seq`.
    have hbase : (rotateIfFull s.writer.config s.writer.seq
        (frame (S.toVec (normalizeDelta event))).length
        (writeMagic ⟨s.dir, s.writer.files⟩)).files.base ≤ s.writer.seq := by
      obtain ⟨cur₁, h₁, -⟩ := hw.stored.writeMagic
      obtain ⟨pre₂, cur₂, h₂, -⟩ := h₁.rotateIfFull hret'
        (frame (S.toVec (normalizeDelta event))).length
      rw [h₂.base]
      exact h₂.base_le
    have happ := hrot.2.appendRecord hbase s.writer.config event.ts
      (frame (S.toVec (normalizeDelta event)))
    refine ⟨⟨hcfg, happ.2, pre', cur', hw', ?_⟩, hrot.1.trans happ.1⟩
    rw [hrec', hrec]
    simp
  · rw [appendMachine_step_of_not_accepts S hacc]
    exact ⟨⟨hcfg, hfresh, pre, cur, hw, hrec⟩, .refl _⟩

theorem accepted_mono (s : AppendState) (events : List CanonEvent) :
    s.accepted ⊆ ((appendMachine S).run s events).accepted := by
  induction events generalizing s with
  | nil => exact List.Subset.refl _
  | cons event events ih =>
    refine List.Subset.trans ?_ (ih ((appendMachine S).step s event))
    simp only [appendMachine]
    split
    · exact List.subset_append_left _ _
    · exact List.Subset.refl _

/-- What one call appends to is never changed by the calls after it. -/
theorem AppendInv.run {S : Serde} {config : SegmentConfig} {s : AppendState}
    (h : AppendInv S config s) (hret : config.retainSegments = none) {events : List CanonEvent}
    (hfit : ∀ e ∈ ((appendMachine S).run s events).accepted,
      RecordFits (S.toVec (normalizeDelta e))) :
    AppendInv S config ((appendMachine S).run s events) ∧
      s.dir.Extends ((appendMachine S).run s events).dir := by
  induction events generalizing s with
  | nil => exact ⟨h, .refl _⟩
  | cons event events ih =>
    have hone := h.step hret fun e he => hfit e (accepted_mono S _ events he)
    have hrest := ih hone.1 hfit
    exact ⟨hrest.1, hone.2.trans hrest.2⟩

/-! ### Round trip -/

/-- **Round trip of a writer's lifetime.**  For every list of attempted events,
    reading the segments gives exactly the accepted ones, in order and with the
    writer's own delta normalisation; and from every point of the run on, the
    bytes on disk are only appended to. -/
theorem segment_log_round_trip (S : Serde) (config : SegmentConfig)
    (hret : config.retainSegments = none) (attempts : List CanonEvent)
    (hsize : ∀ e ∈ ((appendMachine S).run (.fresh S config) attempts).accepted,
      (S.toVec (normalizeDelta e)).length < 2 ^ 30)
    (hserde : ∀ e ∈ ((appendMachine S).run (.fresh S config) attempts).accepted,
      S.RoundTrips (normalizeDelta e)) :
    readSegments S ((appendMachine S).run (.fresh S config) attempts).dir
        = ((appendMachine S).run (.fresh S config) attempts).accepted.map normalizeDelta ∧
      ∀ before after, attempts = before ++ after →
        ((appendMachine S).run (.fresh S config) before).dir.Extends
          ((appendMachine S).run (.fresh S config) attempts).dir := by
  have hfit : ∀ e ∈ ((appendMachine S).run (.fresh S config) attempts).accepted,
      RecordFits (S.toVec (normalizeDelta e)) :=
    fun e he => recordFits_of_lt (hsize e he)
  have hinit := AppendInv.initial S hret
  constructor
  · obtain ⟨-, -, pre, cur, hw, hrec⟩ := (hinit.run hret hfit).1
    rw [readSegments_of_holds hw.holds, hrec]
    -- What is decoded is what was encoded, and that was normalised first.
    have hmap : (((appendMachine S).run (.fresh S config) attempts).accepted.map
        fun e => S.toVec (normalizeDelta e))
        = (((appendMachine S).run (.fresh S config) attempts).accepted.map
            normalizeDelta).map S.toVec := by
      simp
    rw [hmap]
    apply filterMap_decodeRecord
    intro e he
    obtain ⟨a, ha, rfl⟩ := List.mem_map.mp he
    exact hserde a ha
  · intro before after hsplit
    subst hsplit
    rw [Machine.run_append] at hfit ⊢
    -- The second half of the run starts from a state with the invariant.
    have hbefore := (hinit.run hret fun e he => hfit e (accepted_mono S _ after he)).1
    exact (hbefore.run hret hfit).2

/-! ### A run with a rotation -/

def sampleTable : List (CanonEvent × String) :=
  [(sampleEvent "e1" .debug 5 (.obj []), sampleText "e1" "debug" 5 "\x7b\x7d"),
   (sampleEvent "e2" .debug 7 (.obj []), sampleText "e2" "debug" 7 "\x7b\x7d")]

def sampleSerde : Serde := .ofTable sampleTable

/-- Room for one sample record, so the second one goes to a segment of its own. -/
def smallConfig : SegmentConfig := { SegmentConfig.default with maxBytes := 200 }

theorem sampleSerde_roundTrips {entry : CanonEvent × String} (h : entry ∈ sampleTable) :
    sampleSerde.toStr entry.1 = entry.2.toList ∧ sampleSerde.RoundTrips entry.1 :=
  Serde.ofTable_roundTrips (by decide +kernel) (by decide +kernel) h

theorem sampleTable_size {entry : CanonEvent × String} (h : entry ∈ sampleTable) :
    (sampleSerde.toVec entry.1).length < 2 ^ 30 := by
  have hsizes : ∀ text ∈ sampleTable.map (·.2), text.utf8ByteSize < 2 ^ 30 := by decide +kernel
  rw [Serde.toVec, (sampleSerde_roundTrips h).1]
  exact (utf8Len_toList _).trans_lt (hsizes _ (List.mem_map_of_mem h))

theorem segment_log_round_trip_two :
    readSegments sampleSerde ((appendMachine sampleSerde).run (.fresh sampleSerde smallConfig)
      [sampleEvent "e1" .debug 5 (.obj []), sampleEvent "e2" .debug 7 (.obj [])]).dir
        = [sampleEvent "e1" .debug 5 (.obj []), sampleEvent "e2" .debug 7 (.obj [])] := by
  have hmem : ∀ e ∈ ((appendMachine sampleSerde).run (.fresh sampleSerde smallConfig)
      [sampleEvent "e1" .debug 5 (.obj []), sampleEvent "e2" .debug 7 (.obj [])]).accepted,
      ∃ entry ∈ sampleTable, entry.1 = normalizeDelta e := by
    intro e he
    have he' : e ∈ [sampleEvent "e1" .debug 5 (.obj []), sampleEvent "e2" .debug 7 (.obj [])] := he
    rw [List.mem_cons, List.mem_singleton] at he'
    rcases he' with rfl | rfl
    · exact ⟨_, List.mem_cons_self .., rfl⟩
    · exact ⟨_, List.mem_cons_of_mem _ (List.mem_cons_self ..), rfl⟩
  refine (segment_log_round_trip sampleSerde smallConfig rfl
    [sampleEvent "e1" .debug 5 (.obj []), sampleEvent "e2" .debug 7 (.obj [])] ?_ ?_).1
  · intro e he
    obtain ⟨entry, hentry, hnorm⟩ := hmem e he
    rw [← hnorm]
    exact sampleTable_size hentry
  · intro e he
    obtain ⟨entry, hentry, hnorm⟩ := hmem e he
    rw [← hnorm]
    exact (sampleSerde_roundTrips hentry).2

end Canon.Tlog
