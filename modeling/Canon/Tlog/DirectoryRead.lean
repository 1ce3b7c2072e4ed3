import Canon.Tlog.IndexedRead

/-! # Reading a directory from a number on

    `read_any_events_from_path` and `read_any_events_from_path_with_start_seq` of `reader.rs`.
    Both take every file whose name is a number, sorted by the number; the second one leaves
    out the files whose number lies before the start.

    * `readPath`, `readPathWithStartSeq`: the functions, on a directory,
    * `numbered`: the records of a session with their numbers,
    * `readPath_eq`: the files beside the segments add nothing,
    * `directory_read_iff`: nothing is lost.
-/

namespace Canon.Tlog

/-! ### Model -/

/-- The events of a directory, given its files with a number for a name in the order in which
    they are listed. -/
def readPath (S : Serde) (entries : FileTable) : List CanonEvent :=
  entries.sorted.flatMap fun e => readBinaryEvents S e.2

def readPathWithStartSeq (S : Serde) (entries : FileTable) (startSeq : Nat) : List CanonEvent :=
  (entries.sorted.filter fun e => ¬ e.1 < startSeq).flatMap fun e => readBinaryEvents S e.2

/-! ### What is asked for -/

/-- The events of a segment from a number on. -/
def eventsFrom (S : Serde) (startSeq : Nat) (seg : Seg) : List CanonEvent :=
  (seg.records.zipIdx seg.base).filterMap fun r =>
    if startSeq ≤ r.2 then decodeRecord S r.1 else none

/-- The events of all segments from a number on. -/
def numbered (S : Serde) (segs : List Seg) (startSeq : Nat) : List CanonEvent :=
  segs.flatMap (eventsFrom S startSeq)

/-! ### The files beside the segments -/

section Files

variable {S : Serde} {config : SegmentConfig} {dir : Dir} {segs : List Seg} {entries : FileTable}
  {startSeq : Nat}

/-- Sorting puts the segments into their order, wherever the other files come to stand. -/
theorem sorted_flatMap {log others : FileTable} {g : Nat × Bytes → List CanonEvent}
    (hasc : log.Ascending) (hlisting : entries.Perm (log ++ others))
    (hquiet : ∀ e ∈ others, g e = []) : entries.sorted.flatMap g = log.flatMap g := by
  have hfilter : ∀ l : FileTable, l.flatMap g = (l.filter fun e => g e ≠ []).flatMap g := by
    intro l
    induction l with
    | nil => rfl
    | cons e l ih =>
      rw [List.flatMap_cons, ih]
      by_cases he : g e = []
      · rw [List.filter_cons_of_neg (by simpa using he), he, List.nil_append]
      · rw [List.filter_cons_of_pos (by simpa using he), List.flatMap_cons]
  have hothers : others.filter (fun e => g e ≠ []) = [] := by
    rw [List.filter_eq_nil_iff]
    intro e he
    simpa using hquiet e he
  have hperm : (entries.sorted.filter fun e => g e ≠ []).Perm (log.filter fun e => g e ≠ []) := by
    have hall := ((List.mergeSort_perm entries fun a b => decide (a.1 ≤ b.1)).trans
      hlisting).filter fun e => g e ≠ []
    rw [List.filter_append, hothers, List.append_nil] at hall
    exact hall
  have hsorted : (entries.sorted.filter fun e => g e ≠ []).Pairwise fun a b => a.1 ≤ b.1 := by
    apply List.Pairwise.filter
    have hle := @List.pairwise_mergeSort _ (fun a b => decide (a.1 ≤ b.1))
      (fun a b c hab hbc => by simp at *; omega) (fun a b => by simp; omega) entries
    exact hle.imp fun hab => by simpa using hab
  have hlog : (log.filter fun e => g e ≠ []).Pairwise fun a b => a.1 < b.1 :=
    (List.pairwise_map.mp hasc).filter _
  rw [hfilter, hfilter log]
  congr 1
  apply List.Perm.eq_of_pairwise _ hsorted (hlog.imp Nat.le_of_lt) hperm
  intro a b ha hb hab hba
  -- two files with one number are one: the numbers of the segments differ
  have hnames : (log.map (·.1)).Nodup := hasc.imp Nat.ne_of_lt
  exact List.inj_on_of_nodup_map hnames (List.mem_of_mem_filter (hperm.mem_iff.mp ha))
    (List.mem_of_mem_filter hb) (Nat.le_antisymm hab hba)

theorem flatMap_segs {g : Nat × Bytes → List CanonEvent} (hholds : HoldsIndexed config dir segs) :
    dir.log.flatMap g = segs.flatMap fun seg => g seg.entry := by
  rw [hholds.1, List.flatMap_map]

theorem log_ascending (hholds : HoldsIndexed config dir segs) : dir.log.Ascending := by
  simp only [FileTable.Ascending, hholds.1, List.map_map]
  exact List.pairwise_map.mpr hholds.2.2

/-- The files of the directory, with index files that hold no events. -/
structure Listing (S : Serde) (dir : Dir) (entries : FileTable) : Prop where
  perm : entries.Perm (dir.log ++ (dir.idx ++ dir.time))
  quiet : ∀ e ∈ dir.idx ++ dir.time, readBinaryEvents S e.2 = []

theorem eventsFrom_of_le (seg : Seg) (h : startSeq ≤ seg.base) :
    eventsFrom S startSeq seg = seg.records.filterMap (decodeRecord S) := by
  have hall : eventsFrom S startSeq seg =
      (seg.records.zipIdx seg.base).filterMap fun r => decodeRecord S r.1 := by
    apply List.filterMap_congr
    intro r hr
    have hle := List.le_snd_of_mem_zipIdx hr
    rw [if_pos (by omega)]
  rw [hall]
  conv_rhs => rw [← List.zipIdx_map_fst seg.base seg.records, List.filterMap_map]
  rfl

theorem eventsFrom_eq_nil_iff (seg : Seg) :
    eventsFrom S startSeq seg = [] ↔ NothingFrom S seg startSeq := by
  rw [eventsFrom, List.filterMap_eq_nil_iff]
  constructor
  · intro h k p hp hstart
    have hmem : (p, seg.base + k) ∈ seg.records.zipIdx seg.base := by
      rw [List.mk_mem_zipIdx_iff_le_and_getElem?_sub, Nat.add_sub_cancel_left]
      exact ⟨Nat.le_add_right _ _, hp⟩
    have hnone := h _ hmem
    rw [if_pos hstart] at hnone
    exact hnone
  · intro h r hr
    obtain ⟨hle, hget⟩ := List.mem_zipIdx_iff_le_and_getElem?_sub.mp hr
    split
    · exact h (r.2 - seg.base) r.1 hget (by omega)
    · rfl

theorem readPath_eq (hholds : HoldsIndexed config dir segs) (hlisting : Listing S dir entries)
    (hfit : ∀ seg ∈ segs, ∀ p ∈ seg.records, RecordFits p) :
    readPath S entries = numbered S segs 0 := by
  rw [readPath, sorted_flatMap (log_ascending hholds) hlisting.perm hlisting.quiet,
    flatMap_segs hholds, numbered]
  apply List.flatMap_congr
  intro seg hseg
  rw [eventsFrom_of_le seg (Nat.zero_le _)]
  show readBinaryEvents S seg.bytes = _
  rw [readBinaryEvents, scanRecords_contentBytes (hfit seg hseg)]

theorem readPathWithStartSeq_eq (hholds : HoldsIndexed config dir segs)
    (hlisting : Listing S dir entries)
    (hfit : ∀ seg ∈ segs, ∀ p ∈ seg.records, RecordFits p) :
    readPathWithStartSeq S entries startSeq =
      segs.flatMap fun seg => if startSeq ≤ seg.base then eventsFrom S startSeq seg else [] := by
  have hfilter : ∀ l : FileTable, (l.filter fun e => ¬ e.1 < startSeq).flatMap
      (fun e => readBinaryEvents S e.2) =
        l.flatMap fun e => if startSeq ≤ e.1 then readBinaryEvents S e.2 else [] := by
    intro l
    induction l with
    | nil => rfl
    | cons e l ih =>
      rw [List.flatMap_cons]
      by_cases he : startSeq ≤ e.1
      · rw [List.filter_cons_of_pos (by simpa using he), List.flatMap_cons, if_pos he, ih]
      · rw [List.filter_cons_of_neg (by simpa using he), if_neg he, List.nil_append, ih]
  rw [readPathWithStartSeq, hfilter, sorted_flatMap (log_ascending hholds) hlisting.perm,
    flatMap_segs hholds]
  · apply List.flatMap_congr
    intro seg hseg
    show (if startSeq ≤ seg.base then readBinaryEvents S seg.bytes else []) = _
    split
    · rename_i hle
      rw [eventsFrom_of_le seg hle, readBinaryEvents, scanRecords_contentBytes (hfit seg hseg)]
    · rfl
  · intro e he
    rw [hlisting.quiet e he, ite_self]

/-- What is left out is lost unless there is nothing in it. -/
theorem sublist_iff {f : Seg → List CanonEvent} {q : Seg → Prop} [DecidablePred q] :
    (segs.flatMap f).Sublist (segs.flatMap fun seg => if q seg then f seg else []) ↔
      ∀ seg ∈ segs, ¬ q seg → f seg = [] := by
  constructor
  · intro h
    have hlength := h.length_le
    clear h
    induction segs with
    | nil =>
      intro seg hseg
      cases hseg
    | cons first segs ih =>
      rw [List.flatMap_cons, List.flatMap_cons, List.length_append, List.length_append] at hlength
      have hrest : (segs.flatMap fun seg => if q seg then f seg else []).length ≤
          (segs.flatMap f).length := by
        clear ih hlength
        induction segs with
        | nil => exact le_rfl
        | cons seg segs ih =>
          rw [List.flatMap_cons, List.flatMap_cons, List.length_append, List.length_append]
          split
          · omega
          · rw [List.length_nil]
            omega
      intro seg hseg hq
      rcases List.mem_cons.mp hseg with rfl | hseg
      · rw [if_neg hq, List.length_nil] at hlength
        exact List.eq_nil_of_length_eq_zero (by omega)
      · apply ih _ seg hseg hq
        split at hlength
        · omega
        · rw [List.length_nil] at hlength
          omega
  · intro h
    have hsame : (segs.flatMap f) = segs.flatMap fun seg => if q seg then f seg else [] := by
      apply List.flatMap_congr
      intro seg hseg
      split
      · rfl
      · rename_i hq
        exact h seg hseg hq
    rw [hsame]

end Files

/-- The read from a number on loses nothing exactly when no segment that begins before the
    number goes on behind it. -/
theorem directory_read_iff (env : Env) (config : SegmentConfig)
    (calls : List (CanonEvent × Surroundings)) :
    ∃ segs, HoldsIndexed config
        ((gateMachine env).run (.opened env Dir.empty config) calls).dir segs ∧
      ∀ entries, Listing env.serde
          ((gateMachine env).run (.opened env Dir.empty config) calls).dir entries →
        (∀ seg ∈ segs, ∀ p ∈ seg.records, RecordFits p) → ∀ startSeq,
          readPath env.serde entries = numbered env.serde segs 0 ∧
          ((numbered env.serde segs startSeq).Sublist
              (readPathWithStartSeq env.serde entries startSeq) ↔
            ∀ seg ∈ segs, seg.base < startSeq → NothingFrom env.serde seg startSeq) := by
  obtain ⟨segs, hholds⟩ := indexed_run env config calls
  refine ⟨segs, hholds, ?_⟩
  intro entries hlisting hfit startSeq
  refine ⟨readPath_eq hholds hlisting hfit, ?_⟩
  rw [readPathWithStartSeq_eq hholds hlisting hfit, numbered, sublist_iff]
  constructor
  · intro h seg hseg hlt
    exact (eventsFrom_eq_nil_iff seg).mp (h seg hseg (by omega))
  · intro h seg hseg hnot
    exact (eventsFrom_eq_nil_iff seg).mpr (h seg hseg (by omega))

/-- The directory of a session of two events in one segment. -/
def sessionDir : Dir :=
  ((gateMachine sessionEnv).run (.opened sessionEnv Dir.empty everyRecord) sessionCalls).dir

theorem sessionDir_listing :
    Listing sessionEnv.serde sessionDir (sessionDir.log ++ (sessionDir.idx ++ sessionDir.time))
      where
  perm := List.Perm.refl _
  quiet := by
    unfold sessionDir sessionEnv tickText debugText textTail
    rw [String.toList_ofList, String.toList_ofList, String.toList_ofList, String.toList_ofList]
    decide +kernel

/-- The second event is asked for, and its segment is left out for its first one. -/
theorem segment_of_start_skipped : ¬ ∀ (env : Env) (config : SegmentConfig)
    (calls : List (CanonEvent × Surroundings)) (segs : List Seg),
    HoldsIndexed config ((gateMachine env).run (.opened env Dir.empty config) calls).dir segs →
      ∀ entries, Listing env.serde
          ((gateMachine env).run (.opened env Dir.empty config) calls).dir entries →
        (∀ seg ∈ segs, ∀ p ∈ seg.records, RecordFits p) → ∀ startSeq,
          (numbered env.serde segs startSeq).Sublist
            (readPathWithStartSeq env.serde entries startSeq) := by
  intro h
  have hfit : ∀ seg ∈ [sessionSeg], ∀ p ∈ seg.records, RecordFits p := by
    intro seg hseg
    rw [List.mem_singleton.mp hseg]
    exact sessionSeg_fits.records
  have hsub := h _ everyRecord _ _ sessionSeg_holds _ sessionDir_listing hfit 1
  rw [readPathWithStartSeq_eq sessionSeg_holds sessionDir_listing hfit, numbered, sublist_iff]
    at hsub
  have hnothing := (eventsFrom_eq_nil_iff sessionSeg).mp
    (hsub sessionSeg (List.mem_singleton_self _) (by decide))
  have hsecond : sessionSeg.records[1]? = some (utf8 debugText) := rfl
  have hnone : decodeRecord (sessionSerde tickText debugText) (utf8 debugText) = none :=
    hnothing 1 (utf8 debugText) hsecond (by decide)
  rw [(sessionSerde_reads session_texts.2.2.2).2] at hnone
  cases hnone

end Canon.Tlog
