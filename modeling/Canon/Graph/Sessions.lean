import Canon.Graph.Replay

/-! # The session a replay picks

    A replay applies the code events of some part of the log to a graph.  This
    module says which events these are: the loop takes those in front of its
    second session, the scan finds the last session that has a graph, and a full
    replay is about the last session of the log unless only earlier ones have one.
-/

namespace Canon.Graph

open Canon.Tlog

/-! ### Events of a log -/

section Events

variable (S : GraphSerde)

/-- The code events of a log, front to back. -/
def GraphSerde.events (lines : List LogLine) : List RustcEvent :=
  lines.filterMap fun l => S.eventOf l.text

@[simp] theorem GraphSerde.events_append (as bs : List LogLine) :
    S.events (as ++ bs) = S.events as ++ S.events bs := by
  simp [events]

theorem GraphSerde.events_cons {l : LogLine} {e : RustcEvent} (he : S.eventOf l.text = some e)
    (ls : List LogLine) : S.events (l :: ls) = e :: S.events ls := by
  simp [events, he]

end Events

def NoSession (es : List RustcEvent) : Prop := ∀ e ∈ es, e.isSessionStart = false

instance (es : List RustcEvent) : Decidable (NoSession es) :=
  inferInstanceAs (Decidable (∀ e ∈ es, e.isSessionStart = false))

theorem NoSession.append {es fs : List RustcEvent} (he : NoSession es) (hf : NoSession fs) :
    NoSession (es ++ fs) := by
  intro e hmem
  rcases List.mem_append.mp hmem with h | h
  · exact he e h
  · exact hf e h

/-- A log without sessions, or cut at its last one. -/
theorem exists_last_session (S : GraphSerde) (lines : List LogLine) :
    NoSession (S.events lines) ∨
      ∃ front l e back, lines = front ++ l :: back ∧ S.eventOf l.text = some e ∧
        e.isSessionStart = true ∧ NoSession (S.events back) := by
  induction lines with
  | nil => exact .inl (by simp [GraphSerde.events, NoSession])
  | cons l lines ih =>
    obtain hno | ⟨front, l', e, back, rfl, he, hs, hback⟩ := ih
    -- The first line decides.
    · cases he : S.eventOf l.text with
      | none => exact .inl (by simpa [GraphSerde.events, he] using hno)
      | some e =>
        by_cases hs : e.isSessionStart = true
        · exact .inr ⟨[], l, e, lines, rfl, he, hs, hno⟩
        · left
          rw [S.events_cons he]
          intro e' hmem
          obtain rfl | hmem := List.mem_cons.mp hmem
          · simpa using hs
          · exact hno e' hmem
    · exact .inr ⟨l :: front, l', e, back, rfl, he, hs, hback⟩

/-- Induction on the sessions of a log, from the last one to the front. -/
@[elab_as_elim] theorem session_induction (S : GraphSerde) {P : List LogLine → Prop}
    (none : ∀ lines, NoSession (S.events lines) → P lines)
    (last : ∀ front l e back, S.eventOf l.text = some e → e.isSessionStart = true →
      NoSession (S.events back) → P front → P (front ++ l :: back))
    (lines : List LogLine) : P lines := by
  induction hlen : lines.length using Nat.strong_induction_on generalizing lines with
  | _ n ih =>
    obtain hno | ⟨front, l, e, back, rfl, he, hs, hback⟩ := exists_last_session S lines
    · exact none lines hno
    · have hlt : front.length < n := by
        rw [← hlen, List.length_append, List.length_cons]
        omega
      exact last front l e back he hs hback (ih _ hlt front rfl)

/-! ### The events a replay takes -/

/-- The events in front of the session at which the loop stops. -/
def window (stopAfterSession : Bool) : Bool → List RustcEvent → List RustcEvent
  | _, [] => []
  | seen, e :: es =>
    if e.isSessionStart && seen && stopAfterSession then []
    else e :: window stopAfterSession (seen || e.isSessionStart) es

@[simp] theorem window_false (seen : Bool) (es : List RustcEvent) : window false seen es = es := by
  induction es generalizing seen with
  | nil => rfl
  | cons e es ih => simp [window, ih]

/-- A graph after a list of events, with every session clearing it. -/
def replayFrom (st : GraphState) (es : List RustcEvent) : GraphState :=
  graphMachine.run st (es.map (·, true))

theorem replayFrom_append (st : GraphState) (es fs : List RustcEvent) :
    replayFrom st (es ++ fs) = replayFrom (replayFrom st es) fs := by
  simp [replayFrom, Machine.run_append]

/-- Nothing in front of a session matters. -/
theorem replayFrom_session {e : RustcEvent} (he : e.isSessionStart = true) (st : GraphState)
    (es fs : List RustcEvent) : replayFrom st (es ++ e :: fs) = replayFrom .empty (e :: fs) := by
  rw [replayFrom_append]
  cases e with
  | sessionStart project => rfl
  | _ => cases he

theorem replayLines_spec (S : GraphSerde) (stop : Bool) (lines : List LogLine) (r : Replay) :
    (replayLines S stop (lines.map fun l => some l.text) r).map (·.state) =
      some (replayFrom r.state (window stop r.seenSession (S.events lines))) := by
  induction lines generalizing r with
  | nil => rfl
  | cons l lines ih =>
    rw [List.map_cons, replayLines]
    cases he : S.eventOf l.text with
    | none =>
      have hev : S.events (l :: lines) = S.events lines := by simp [GraphSerde.events, he]
      rw [hev]
      exact ih r
    | some e =>
      rw [S.events_cons he]
      -- Either the loop ends at this event, or both sides take it.
      by_cases hstop : (e.isSessionStart && r.seenSession && stop) = true
      · simp [replayEvent, window, hstop, replayFrom]
      · simp only [replayEvent, window, hstop, if_false, Bool.false_eq_true]
        exact ih _

/-! ### The session scan -/

section Scan

variable {S : GraphSerde}

def scanLines (S : GraphSerde) (st : ScanState) (lines : List LogLine) : ScanState :=
  lines.foldl (fun st l => scanLine S st l.text) st

/-- The scan on a log that is given by its lines. -/
def lastGraphSession (S : GraphSerde) (lines : List LogLine) : Option Nat :=
  (scanLines S .init lines).close

theorem findLastGraphSessionOffset_fileOf (lines : List LogLine) :
    findLastGraphSessionOffset S (fileOf lines) = lastGraphSession S lines := by
  have hread : (lines.map fun l => some l.text).mapM id = some (lines.map (·.text)) := by
    induction lines with
    | nil => rfl
    | cons l lines ih => simp [List.mapM_cons, ih]
  rw [findLastGraphSessionOffset, bufLines_fileOf, hread]
  simp [lastGraphSession, scanLines, List.foldl_map]

theorem scanLine_offset (st : ScanState) (line : Text) :
    (scanLine S st line).offset = st.offset + (utf8Len line + 1) := by
  unfold scanLine
  dsimp only
  split
  · rfl
  · split
    · rfl
    · split <;> rfl

theorem scanLines_offset (st : ScanState) (lines : List LogLine) :
    (scanLines S st lines).offset = st.offset + (fileOf lines).length := by
  induction lines generalizing st with
  | nil => rfl
  | cons l lines ih =>
    show (scanLines S (scanLine S st l.text) lines).offset = _
    rw [ih, scanLine_offset, fileOf_cons, List.length_append, List.length_cons, utf8Len]
    omega

/-- Inside a session the scan only notes whether it has a graph. -/
theorem scanLines_of_noSession {lines : List LogLine} (h : NoSession (S.events lines))
    (st : ScanState) :
    scanLines S st lines =
      { st with
        offset := st.offset + (fileOf lines).length
        currentHasGraph := st.currentHasGraph || (S.events lines).any (·.definesGraph) } := by
  induction lines generalizing st with
  | nil => simp [scanLines, GraphSerde.events]
  | cons l lines ih =>
    show scanLines S (scanLine S st l.text) lines = _
    have hoff : st.offset + (utf8Len l.text + 1) + (fileOf lines).length
        = st.offset + (fileOf (l :: lines)).length := by
      rw [fileOf_cons, List.length_append, List.length_cons, utf8Len]
      omega
    cases he : S.eventOf l.text with
    | none =>
      have hev : S.events (l :: lines) = S.events lines := by simp [GraphSerde.events, he]
      rw [hev] at h ⊢
      rw [ih h]
      simp [scanLine, he, hoff]
    | some e =>
      rw [S.events_cons he] at h ⊢
      have hs : e.isSessionStart = false := h e (by simp)
      rw [ih (fun e' he' => h e' (by simp [he']))]
      by_cases hd : e.definesGraph = true
      · simp [scanLine, he, hs, hd, hoff]
      · simp [scanLine, he, hs, hd, hoff]

theorem lastGraphSession_of_noSession {lines : List LogLine} (h : NoSession (S.events lines)) :
    lastGraphSession S lines = none := by
  rw [lastGraphSession, scanLines_of_noSession h]
  simp [ScanState.close, ScanState.init]

/-- The last session counts if it has a graph; otherwise the sessions before it
    decide. -/
theorem lastGraphSession_append (front : List LogLine) {back : List LogLine} {l : LogLine}
    {e : RustcEvent} (he : S.eventOf l.text = some e) (hs : e.isSessionStart = true)
    (hback : NoSession (S.events back)) :
    lastGraphSession S (front ++ l :: back) =
      if (S.events back).any (·.definesGraph) then some (fileOf front).length
      else lastGraphSession S front := by
  have hsplit : scanLines S .init (front ++ l :: back)
      = scanLines S (scanLine S (scanLines S .init front) l.text) back := by
    simp [scanLines]
  rw [lastGraphSession, hsplit, scanLines_of_noSession hback]
  -- The offset noted for the session is where its line starts.
  have hoff : (scanLines S .init front).offset = (fileOf front).length := by
    rw [scanLines_offset]
    simp [ScanState.init]
  by_cases hg : (S.events back).any (·.definesGraph) = true
  · simp only [ScanState.close, scanLine, he, hs, if_true, hg, Bool.or_true, hoff, Option.some_or]
  · simp only [ScanState.close, scanLine, he, hs, if_true, hg, Bool.or_false,
      Bool.false_eq_true, if_false, lastGraphSession]

/-- The offset found is the one of a session. -/
theorem lastGraphSession_eq_some {lines : List LogLine} {offset : Nat}
    (h : lastGraphSession S lines = some offset) :
    ∃ front l e back, lines = front ++ l :: back ∧ S.eventOf l.text = some e ∧
      e.isSessionStart = true ∧ offset = (fileOf front).length := by
  -- A session without a graph hands over to the lines in front of it.
  induction lines using session_induction S with
  | none lines hno =>
    rw [lastGraphSession_of_noSession hno] at h
    cases h
  | last front l e back he hs hback ih =>
    rw [lastGraphSession_append front he hs hback] at h
    split at h
    · exact ⟨front, l, e, back, rfl, he, hs, (Option.some.inj h).symm⟩
    · obtain ⟨front', l', e', back', rfl, he', hs', hoff⟩ := ih h
      exact ⟨front', l', e', back' ++ l :: back, by simp, he', hs', hoff⟩

end Scan

/-! ### What each replay returns -/

section Replays

variable {S : GraphSerde}

theorem map_graph {r : Option Replay} {st : GraphState} (h : r.map (·.state) = some st) :
    r.map (·.state.graph) = some st.graph := by
  obtain ⟨r', rfl, rfl⟩ := Option.map_eq_some_iff.mp h
  rfl

theorem replayEventsFromOffset_fileOf (front back : List LogLine) (st : GraphState)
    (stop : Bool) :
    (replayEventsFromOffset S (fileOf (front ++ back)) (fileOf front).length st stop).map
        (·.state) = some (replayFrom st (window stop false (S.events back))) := by
  have hmin : min (fileOf front).length (fileOf (front ++ back)).length
      = (fileOf front).length := by
    rw [fileOf_append, List.length_append]
    omega
  have hlines : (rawLines (fileOf back)).map (fun line => some (fromUtf8Lossy line))
      = back.map fun l => some l.text := by
    simp [fromUtf8Lossy]
  rw [replayEventsFromOffset, hmin, fileOf_append, List.drop_left, hlines]
  exact replayLines_spec S stop back (.start st)

/-- A full replay of JSON lines from the session it picked. -/
theorem replayGraphFromTlog_of_some {front back : List LogLine}
    (hbin : isBinaryMagic (fileOf (front ++ back)) = false)
    (h : lastGraphSession S (front ++ back) = some (fileOf front).length) :
    replayGraphFromTlog S none (fileOf (front ++ back)) =
      some (replayFrom .empty (window true false (S.events back))).graph := by
  have hspec := replayLines_spec S true back (.start .empty)
  simp only [replayGraphFromTlog, hbin, Bool.false_eq_true, if_false,
    findLastGraphSessionOffset_fileOf, h, Option.some_or, Option.getD_some, Option.isSome_some]
  rw [fileOf_append, List.drop_left, bufLines_fileOf]
  exact map_graph hspec

/-- Without a session that has a graph a full replay takes everything. -/
theorem replayGraphFromTlog_of_none {lines : List LogLine}
    (hbin : isBinaryMagic (fileOf lines) = false) (h : lastGraphSession S lines = none) :
    replayGraphFromTlog S none (fileOf lines) =
      some (replayFrom .empty (S.events lines)).graph := by
  have hspec := replayLines_spec S false lines (.start .empty)
  rw [window_false] at hspec
  simp only [replayGraphFromTlog, hbin, Bool.false_eq_true, if_false,
    findLastGraphSessionOffset_fileOf, h, Option.none_or, Option.getD_none, Option.isSome_none,
    List.drop_zero, bufLines_fileOf]
  exact map_graph hspec

end Replays

/-! ### Sessions of a list of events -/

/-- The events behind the last session start. -/
def lastSession (es : List RustcEvent) : List RustcEvent := es.rtakeWhile (!·.isSessionStart)

def beforeLastSession (es : List RustcEvent) : List RustcEvent :=
  (es.rdropWhile (!·.isSessionStart)).dropLast

/-- Some session defines a node or an edge. -/
def hasGraphSession (es : List RustcEvent) : Bool :=
  (es.dropWhile (!·.isSessionStart)).any (·.definesGraph)

/-- A full replay is about the last session: it has a graph, or no session before
    it has one. -/
def LastSessionPicked (es : List RustcEvent) : Prop :=
  (lastSession es).any (·.definesGraph) = true ∨ hasGraphSession (beforeLastSession es) = false

section Sessions

variable {es fs : List RustcEvent} {e : RustcEvent}

theorem lastSession_append (es : List RustcEvent) (he : e.isSessionStart = true)
    (hfs : NoSession fs) :
    lastSession (es ++ e :: fs) = fs ∧ beforeLastSession (es ++ e :: fs) = es := by
  unfold lastSession beforeLastSession
  induction fs using List.reverseRecOn with
  | nil => constructor <;> simp [he]
  | append_singleton fs f ih =>
    have hf : f.isSessionStart = false := hfs f (by simp)
    obtain ⟨htake, hdrop⟩ := ih (fun e' he' => hfs e' (by simp [he']))
    rw [← List.cons_append, ← List.append_assoc, List.rtakeWhile_concat, List.rdropWhile_concat]
    simp [hf, htake, hdrop]

theorem lastSessionPicked_iff (he : e.isSessionStart = true) (hfs : NoSession fs) :
    LastSessionPicked (es ++ e :: fs) ↔
      fs.any (·.definesGraph) = true ∨ hasGraphSession es = false := by
  obtain ⟨htake, hdrop⟩ := lastSession_append es he hfs
  rw [LastSessionPicked, htake, hdrop]

end Sessions

/-! ### The session that is picked -/

/-- A list of events around one of its sessions. -/
structure Around where
  before : List RustcEvent
  session : List RustcEvent
  after : List RustcEvent
deriving DecidableEq, Repr

def Around.outside (a : Around) : List RustcEvent := a.before ++ a.after

/-- The last session whose events pass the test. -/
def lastSessionWith (test : List RustcEvent → Bool) : List RustcEvent → Option Around
  | [] => none
  | e :: es =>
    match lastSessionWith test es with
    | some a => some { a with before := e :: a.before }
    | none =>
      let body := es.takeWhile (!·.isSessionStart)
      if e.isSessionStart && test body then
        some { before := [], session := e :: body, after := es.dropWhile (!·.isSessionStart) }
      else none

/-- The last session with a graph, else the last session, else everything. -/
def pickedSession (es : List RustcEvent) : Around :=
  ((lastSessionWith (·.any (·.definesGraph)) es).or (lastSessionWith (fun _ => true) es)).getD
    { before := [], session := es, after := [] }

section Picked

variable {es fs : List RustcEvent} {e : RustcEvent} {test : List RustcEvent → Bool}

theorem lastSessionWith_of_noSession (h : NoSession es) : lastSessionWith test es = none := by
  induction es with
  | nil => rfl
  | cons e es ih =>
    have he : e.isSessionStart = false := h e (by simp)
    simp [lastSessionWith, ih fun e' he' => h e' (by simp [he']), he]

theorem takeWhile_of_noSession (h : NoSession es) : es.takeWhile (!·.isSessionStart) = es := by
  rw [List.takeWhile_eq_self_iff]
  intro e he
  simp [h e he]

theorem span_append_session (es : List RustcEvent) (he : e.isSessionStart = true)
    (fs : List RustcEvent) :
    (es ++ e :: fs).takeWhile (!·.isSessionStart) = es.takeWhile (!·.isSessionStart) ∧
      (es ++ e :: fs).dropWhile (!·.isSessionStart) =
        es.dropWhile (!·.isSessionStart) ++ e :: fs := by
  induction es with
  | nil => simp [he]
  | cons e' es ih =>
    by_cases h : e'.isSessionStart = true
    · simp [h]
    · simp [h, ih]

/-- The last session decides, else the ones before it. -/
theorem lastSessionWith_append (es : List RustcEvent) (he : e.isSessionStart = true)
    (hfs : NoSession fs) :
    lastSessionWith test (es ++ e :: fs) =
      if test fs then some { before := es, session := e :: fs, after := [] }
      else (lastSessionWith test es).map fun a => { a with after := a.after ++ e :: fs } := by
  have hlast : lastSessionWith test (e :: fs) =
      if test fs then some { before := [], session := e :: fs, after := [] } else none := by
    have hdrop : fs.dropWhile (!·.isSessionStart) = [] := by
      rw [List.dropWhile_eq_nil_iff]
      intro e' he'
      simp [hfs e' he']
    simp [lastSessionWith, lastSessionWith_of_noSession hfs, takeWhile_of_noSession hfs, hdrop, he]
  induction es with
  | nil =>
    rw [List.nil_append, hlast]
    rfl
  | cons e' es ih =>
    obtain ⟨htake, hdrop⟩ := span_append_session es he fs
    rw [List.cons_append, lastSessionWith, ih, lastSessionWith]
    by_cases htest : test fs = true
    · simp [htest]
    · rw [if_neg htest, if_neg htest]
      cases lastSessionWith test es with
      | some a => rfl
      | none =>
        simp only [Option.map_none, htake, hdrop]
        split <;> rfl

/-- A list with a session has a last one. -/
theorem noSession_of_lastSessionWith (h : lastSessionWith (fun _ => true) es = none) :
    NoSession es := by
  induction es with
  | nil => exact fun e he => by cases he
  | cons e es ih =>
    rw [lastSessionWith] at h
    cases hrest : lastSessionWith (fun _ => true) es with
    | some a =>
      rw [hrest] at h
      cases h
    | none =>
      rw [hrest] at h
      have he : e.isSessionStart = false := by simpa using h
      intro e' he'
      rcases List.mem_cons.mp he' with rfl | he'
      · exact he
      · exact ih hrest e' he'

/-- A session starts, goes on to the next start, and passes the test. -/
structure Around.IsSession (a : Around) (test : List RustcEvent → Bool) : Prop where
  starts : ∃ e body, a.session = e :: body ∧ e.isSessionStart = true ∧ NoSession body ∧
    test body = true
  ends : a.after = [] ∨ ∃ e rest, a.after = e :: rest ∧ e.isSessionStart = true

theorem noSession_takeWhile (es : List RustcEvent) :
    NoSession (es.takeWhile (!·.isSessionStart)) := by
  intro e he
  simpa using List.mem_takeWhile_imp he

theorem dropWhile_starts (es : List RustcEvent) :
    es.dropWhile (!·.isSessionStart) = [] ∨
      ∃ e rest, es.dropWhile (!·.isSessionStart) = e :: rest ∧ e.isSessionStart = true := by
  induction es with
  | nil => exact .inl rfl
  | cons e es ih =>
    by_cases h : e.isSessionStart = true
    · exact .inr ⟨e, es, by simp [h], h⟩
    · simpa [h] using ih

theorem lastSessionWith_isSession {a : Around} (h : lastSessionWith test es = some a) :
    es = a.before ++ a.session ++ a.after ∧ a.IsSession test := by
  induction es generalizing a with
  | nil => cases h
  | cons e es ih =>
    rw [lastSessionWith] at h
    cases hrest : lastSessionWith test es with
    | some later =>
      rw [hrest] at h
      obtain rfl := Option.some.inj h
      obtain ⟨hsplit, hsession⟩ := ih hrest
      exact ⟨by simpa using hsplit, ⟨hsession.starts, hsession.ends⟩⟩
    | none =>
      rw [hrest] at h
      dsimp only at h
      split at h
      · rename_i hpass
        obtain rfl := Option.some.inj h
        rw [Bool.and_eq_true] at hpass
        refine ⟨by simp [List.takeWhile_append_dropWhile], ?_, dropWhile_starts es⟩
        exact ⟨e, _, rfl, hpass.1, noSession_takeWhile es, hpass.2⟩
      · cases h

theorem window_append_of_noSession {body : List RustcEvent} (h : NoSession body)
    (rest : List RustcEvent) :
    window true true (body ++ rest) = body ++ window true true rest := by
  induction body with
  | nil => rfl
  | cons b body ih =>
    have hb : b.isSessionStart = false := h b (by simp)
    simp [window, hb, ih fun b' hb' => h b' (by simp [hb'])]

/-- The loop that started at a session takes just this one. -/
theorem window_of_isSession {a : Around} (h : a.IsSession test) :
    window true false (a.session ++ a.after) = a.session := by
  obtain ⟨e, body, hsession, he, hbody, -⟩ := h.starts
  have hafter : window true true a.after = [] := by
    rcases h.ends with hnil | ⟨e', rest, hcons, he'⟩
    · rw [hnil]
      rfl
    · rw [hcons]
      simp [window, he']
  rw [hsession, List.cons_append]
  simp [window, he, window_append_of_noSession hbody, hafter]

theorem pickedSession_split (es : List RustcEvent) :
    es = (pickedSession es).before ++ (pickedSession es).session ++ (pickedSession es).after ∧
      NoSession (pickedSession es).session.tail := by
  have hsession : ∀ {test a}, lastSessionWith test es = some a →
      es = a.before ++ a.session ++ a.after ∧ NoSession a.session.tail := by
    intro test a h
    obtain ⟨hsplit, hstarts, -⟩ := lastSessionWith_isSession h
    obtain ⟨e, body, hbody, -, hno, -⟩ := hstarts
    exact ⟨hsplit, by rw [hbody]; exact hno⟩
  unfold pickedSession
  cases hgraph : lastSessionWith (·.any (·.definesGraph)) es with
  | some a => exact hsession hgraph
  | none =>
    rw [Option.none_or]
    cases hlast : lastSessionWith (fun _ => true) es with
    | some a => exact hsession hlast
    | none =>
      have hno := noSession_of_lastSessionWith hlast
      exact ⟨by simp, fun e he => hno e (List.mem_of_mem_tail he)⟩

/-! ### Whether the last session is picked -/

theorem isSome_lastSessionWith (es : List RustcEvent) :
    (lastSessionWith (·.any (·.definesGraph)) es).isSome = hasGraphSession es := by
  induction es with
  | nil => rfl
  | cons e es ih =>
    rw [lastSessionWith]
    cases hrest : lastSessionWith (·.any (·.definesGraph)) es with
    | some a =>
      rw [hrest] at ih
      have hany : es.any (·.definesGraph) = true := by
        obtain ⟨e', he', hdefines⟩ := List.any_eq_true.mp ih.symm
        exact List.any_eq_true.mpr ⟨e', (List.dropWhile_sublist _).subset he', hdefines⟩
      by_cases he : e.isSessionStart = true
      · simp [hasGraphSession, he, hany]
      · simpa [hasGraphSession, he] using ih
    | none =>
      rw [hrest] at ih
      by_cases he : e.isSessionStart = true
      · have hdef : e.definesGraph = false := by
          cases e <;> first | rfl | cases he
        -- What defines something is in front of the next session.
        have hany : es.any (·.definesGraph) =
            (es.takeWhile (!·.isSessionStart)).any (·.definesGraph) := by
          conv_lhs => rw [← List.takeWhile_append_dropWhile (p := (!·.isSessionStart)) (l := es)]
          rw [List.any_append, ← hasGraphSession, ← ih]
          simp
        simp only [hasGraphSession, List.dropWhile_cons, he, Bool.not_true, Bool.false_eq_true,
          if_false, List.any_cons, hdef, Bool.false_or, hany, Bool.true_and]
        split <;> simp_all
      · simpa [hasGraphSession, he] using ih

theorem exists_last_start (es : List RustcEvent) :
    NoSession es ∨ ∃ front e back, es = front ++ e :: back ∧ e.isSessionStart = true ∧
      NoSession back := by
  induction es with
  | nil => exact .inl fun e he => by cases he
  | cons e es ih =>
    rcases ih with hno | ⟨front, e', back, rfl, he', hback⟩
    · by_cases he : e.isSessionStart = true
      · exact .inr ⟨[], e, es, rfl, he, hno⟩
      · left
        intro e' he'
        rcases List.mem_cons.mp he' with rfl | he'
        · simpa using he
        · exact hno e' he'
    · exact .inr ⟨e :: front, e', back, rfl, he', hback⟩

theorem pickedSession_of_noSession (h : NoSession es) :
    pickedSession es = { before := [], session := es, after := [] } := by
  rw [pickedSession, lastSessionWith_of_noSession h, lastSessionWith_of_noSession h]
  rfl

theorem pickedSession_of_picked (he : e.isSessionStart = true) (hfs : NoSession fs)
    (hpick : LastSessionPicked (es ++ e :: fs)) :
    (pickedSession (es ++ e :: fs)).session = e :: fs := by
  rw [lastSessionPicked_iff he hfs] at hpick
  rw [pickedSession, lastSessionWith_append es he hfs, lastSessionWith_append es he hfs]
  by_cases hg : fs.any (·.definesGraph) = true
  · rw [if_pos hg]
    rfl
  · have hnone : lastSessionWith (·.any (·.definesGraph)) es = none := by
      have hsome := isSome_lastSessionWith es
      rw [hpick.resolve_left hg] at hsome
      simpa using hsome
    rw [if_neg hg, hnone, if_pos rfl]
    rfl

theorem pickedSession_of_not_picked (he : e.isSessionStart = true) (hfs : NoSession fs)
    (hpick : ¬ LastSessionPicked (es ++ e :: fs)) :
    (pickedSession (es ++ e :: fs)).session = (pickedSession es).session := by
  rw [lastSessionPicked_iff he hfs, not_or, Bool.not_eq_false] at hpick
  obtain ⟨a, ha⟩ : ∃ a, lastSessionWith (·.any (·.definesGraph)) es = some a :=
    Option.isSome_iff_exists.mp (by rw [isSome_lastSessionWith, hpick.2])
  rw [pickedSession, pickedSession, lastSessionWith_append es he hfs, if_neg hpick.1, ha]
  rfl

/-- The rest of a log goes on with its last session. -/
theorem pickedSession_continues (hfs : NoSession fs) (hpick : LastSessionPicked es) :
    (pickedSession (es ++ fs)).session = (pickedSession es).session ++ fs := by
  obtain hno | ⟨front, e, back, rfl, he, hback⟩ := exists_last_start es
  · rw [pickedSession_of_noSession hno, pickedSession_of_noSession (hno.append hfs)]
  · have hboth : NoSession (back ++ fs) := hback.append hfs
    have hpick' : LastSessionPicked (front ++ e :: (back ++ fs)) := by
      rw [lastSessionPicked_iff he hback] at hpick
      rw [lastSessionPicked_iff he hboth, List.any_append, Bool.or_eq_true]
      exact hpick.imp .inl id
    rw [pickedSession_of_picked he hback hpick, List.append_assoc, List.cons_append,
      pickedSession_of_picked he hboth hpick']

/-- The rest of a log does not change that an earlier session is picked. -/
theorem pickedSession_unmoved (hfs : NoSession fs) (hg : fs.any (·.definesGraph) = false)
    (hpick : ¬ LastSessionPicked es) :
    (pickedSession (es ++ fs)).session = (pickedSession es).session := by
  obtain hno | ⟨front, e, back, rfl, he, hback⟩ := exists_last_start es
  -- Without a session the last one counts as picked.
  · have hdrop : es.rdropWhile (!·.isSessionStart) = [] :=
      List.rdropWhile_eq_nil_iff.mpr fun e he => by simp [hno e he]
    exact absurd (.inr (by simp [beforeLastSession, hdrop, hasGraphSession])) hpick
  · have hboth : NoSession (back ++ fs) := hback.append hfs
    have hpick' : ¬ LastSessionPicked (front ++ e :: (back ++ fs)) := by
      rw [lastSessionPicked_iff he hback] at hpick
      rw [lastSessionPicked_iff he hboth, List.any_append, hg, Bool.or_false]
      exact hpick
    rw [pickedSession_of_not_picked he hback hpick, List.append_assoc, List.cons_append,
      pickedSession_of_not_picked he hboth hpick']

/-- The last session of the rest of a log, when it is picked, clears what is in front. -/
theorem replayFrom_pickedSession (hfs : ¬ NoSession fs) (hpick : LastSessionPicked (es ++ fs))
    (st : GraphState) :
    replayFrom .empty (pickedSession (es ++ fs)).session = replayFrom st fs := by
  obtain hno | ⟨front, e, back, rfl, he, hback⟩ := exists_last_start fs
  · exact absurd hno hfs
  · rw [← List.append_assoc] at hpick ⊢
    rw [pickedSession_of_picked he hback hpick, replayFrom_session he]

end Picked

/-! ### The replay of JSON lines -/

section Lines

variable {S : GraphSerde}

/-- The scan of the file finds the last session with a graph. -/
theorem lastGraphSession_spec (lines : List LogLine) :
    match lastSessionWith (·.any (·.definesGraph)) (S.events lines) with
    | none => lastGraphSession S lines = none
    | some a => ∃ front back, lines = front ++ back ∧ S.events back = a.session ++ a.after ∧
        lastGraphSession S lines = some (fileOf front).length := by
  induction lines using session_induction S with
  | none lines hno =>
    rw [lastSessionWith_of_noSession hno]
    exact lastGraphSession_of_noSession hno
  | last front l e back he hs hback ih =>
    have hscan := lastGraphSession_append front he hs hback
    rw [S.events_append, S.events_cons he, lastSessionWith_append _ hs hback]
    by_cases hg : (S.events back).any (·.definesGraph) = true
    · rw [if_pos hg] at hscan ⊢
      exact ⟨front, l :: back, rfl, by rw [S.events_cons he, List.append_nil], hscan⟩
    · rw [if_neg hg] at hscan ⊢
      cases hfront : lastSessionWith (·.any (·.definesGraph)) (S.events front) with
      | none =>
        rw [hfront] at ih
        exact hscan.trans ih
      | some a =>
        rw [hfront] at ih
        obtain ⟨first, rest, rfl, hrest, hoff⟩ := ih
        refine ⟨first, rest ++ l :: back, by simp, ?_, hscan.trans hoff⟩
        rw [S.events_append, S.events_cons he, hrest, List.append_assoc]

/-- From JSON lines a replay takes the session that is picked. -/
theorem replayGraphFromTlog_eq_picked {lines : List LogLine}
    (hbin : isBinaryMagic (fileOf lines) = false) :
    replayGraphFromTlog S none (fileOf lines) =
      some (replayFrom .empty (pickedSession (S.events lines)).session).graph := by
  have hscan := @lastGraphSession_spec S lines
  cases hgraph : lastSessionWith (·.any (·.definesGraph)) (S.events lines) with
  | some a =>
    rw [hgraph] at hscan
    obtain ⟨front, back, rfl, hback, hoff⟩ := hscan
    have hpicked : pickedSession (S.events (front ++ back)) = a := by
      rw [pickedSession, hgraph, Option.some_or, Option.getD_some]
    rw [replayGraphFromTlog_of_some hbin hoff, hback, hpicked,
      window_of_isSession (lastSessionWith_isSession hgraph).2]
  | none =>
    rw [hgraph] at hscan
    rw [replayGraphFromTlog_of_none hbin hscan, pickedSession, hgraph, Option.none_or]
    obtain hno | ⟨front, l, e, back, rfl, he, hs, hback⟩ := exists_last_session S lines
    · rw [lastSessionWith_of_noSession hno, Option.getD_none]
    -- The last session clears what the ones before it left.
    · rw [S.events_append, S.events_cons he, replayFrom_session hs,
        lastSessionWith_append _ hs hback, if_pos rfl, Option.getD_some]

end Lines

end Canon.Graph
