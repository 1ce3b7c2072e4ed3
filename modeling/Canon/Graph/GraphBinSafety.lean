import Canon.Graph.ArtifactsLoader

/-! # Corrupt graph files

    Both decoders of the binary file with every slice and every index checked.  The
    numbers in the header, the scan for the file names and the places of the symbols all
    come from the file.

    * `checkedLoad`: the decoder, for any kind of node it builds,
    * `writerLoad_eq`, `checkedLoad_eq`: only the scan for the file names can leave the
      data,
    * `decode_safe_iff`: and it does so when the header announces more names than the
      table can hold.
-/

namespace Canon.Graph.Bin

/-! ### Checked access -/

variable (data : Bytes)

/-- `data[a..b]` -/
def sliceOf (a b : Nat) : Except LoadError Bytes :=
  if a ≤ b ∧ b ≤ data.length then .ok ((data.take b).drop a) else .error .panicked

/-- `data[i]` -/
def byteAt (i : Nat) : Except LoadError UInt8 :=
  match data[i]? with
  | some b => .ok b
  | none => .error .panicked

def u32At (pos : Nat) : Except LoadError Nat :=
  (sliceOf data pos (pos + 4)).map ofLe

/-- A name goes from the cursor to the next zero byte, or to the end. -/
def scanFiles (table : Bytes) : (count start : Nat) → Except LoadError (List String)
  | 0, _ => .ok []
  | count + 1, start => do
    let cursor := start + ((table.drop start).takeWhile (· != 0)).length
    let text ← sliceOf table start cursor
    let files ← scanFiles table count (cursor + 1)
    pure (textOf text :: files)

def symbolAt (table : Bytes) (symOff symLen : Nat) : Except LoadError String :=
  if symLen = 0 then .ok ""
  else if symOff + symLen ≤ table.length then
    (sliceOf table symOff (symOff + symLen)).map textOf
  else .ok ""

/-- What a record of a node says. -/
structure NodeRecord where
  id : Nat
  kindCode : UInt8
  fileId : Nat
  line : Nat
  symbol : String

def nodeAt (table data : Bytes) (pos : Nat) : Except LoadError NodeRecord := do
  let id ← u32At data pos
  let kindCode ← byteAt data (pos + 4)
  let fileId ← u32At data (pos + 5)
  let line ← u32At data (pos + 9)
  let symOff ← u32At data (pos + 13)
  let symLen ← u32At data (pos + 17)
  let symbol ← symbolAt table symOff symLen
  pure { id, kindCode, fileId, line, symbol }

def edgeAt (pos : Nat) : Except LoadError Bin.CodeGraphEdge := do
  let src ← u32At data pos
  let dst ← u32At data (pos + 4)
  let kindCode ← byteAt data (pos + 8)
  pure { src := UInt32.ofNat src, dst := UInt32.ofNat dst, kind := edgeKindStr kindCode }

def each {α : Type} (read : Nat → Except LoadError α) (width : Nat) :
    (count pos : Nat) → Except LoadError (List α)
  | 0, _ => .ok []
  | count + 1, pos => do
    let x ← read pos
    let xs ← each read width count (pos + width)
    pure (x :: xs)

/-- The decoder; `node` makes a node out of a record and the names of the files. -/
def checkedLoad {ν : Type} (node : List String → NodeRecord → ν) (data : Bytes) :
    Except LoadError (List ν × List Bin.CodeGraphEdge × List String) :=
  if data.length < headerSize then .error (.error "graph.bin too small")
  else do
    let magic ← sliceOf data 0 4
    if magic ≠ binMagic then .error (.error "graph.bin magic mismatch")
    else do
      let version ← u32At data 4
      if version ≠ 1 then .error (.error "graph.bin version mismatch")
      else do
        let nNodes ← u32At data 8
        let nEdges ← u32At data 12
        let nFiles ← u32At data 16
        let strTableOffset ← u32At data 20
        let edgesOffset := headerSize + nNodes * nodeRecordSize
        if strTableOffset ≠ edgesOffset + nEdges * edgeRecordSize then
          .error (.error "graph.bin string table offset mismatch")
        else if data.length < strTableOffset then .error (.error "graph.bin truncated")
        else do
          let table ← sliceOf data strTableOffset data.length
          let files ← scanFiles table nFiles 0
          let records ← each (nodeAt table data) nodeRecordSize nNodes headerSize
          let edges ← each (edgeAt data) edgeRecordSize nEdges edgesOffset
          pure (records.map (node files), edges, files)

/-- The decoder of `artifact_writer.rs`. -/
def writerLoad :
    Except LoadError (List Bin.CodeGraphNode × List Bin.CodeGraphEdge × List String) :=
  checkedLoad (fun _ r =>
    { id := UInt32.ofNat r.id
      kind := nodeKindStr r.kindCode
      symbol := r.symbol
      fileId := some32 r.fileId
      line := some32 r.line }) data

/-- The decoder of `artifacts_loader.rs`. -/
def loaderLoad :
    Except LoadError (List ArtifactsLoader.Node × List Bin.CodeGraphEdge × List String) :=
  checkedLoad (fun files r =>
    { id := UInt32.ofNat r.id
      kind := nodeKindStr r.kindCode
      symbol := r.symbol
      file := ArtifactsLoader.fileName files r.fileId
      line := some32 r.line }) data

/-! ### Records are inside the data -/

section Access

variable {data : Bytes} {pos : Nat}

theorem sliceOf_eq {a b : Nat} (hab : a ≤ b) (hb : b ≤ data.length) :
    sliceOf data a b = .ok ((data.drop a).take (b - a)) := by
  rw [sliceOf, if_pos ⟨hab, hb⟩, List.drop_take]

theorem u32At_eq (h : pos + 4 ≤ data.length) : u32At data pos = .ok (readLe data pos 4) := by
  rw [u32At, sliceOf_eq (by omega) h, Nat.add_sub_cancel_left]
  rfl

theorem byteAt_eq (h : pos < data.length) : byteAt data pos = .ok (readByte data pos) := by
  rw [byteAt, readByte, List.getElem?_eq_getElem h]
  rfl

theorem symbolAt_eq (table : Bytes) (symOff symLen : Nat) :
    symbolAt table symOff symLen = .ok (readSymbol table symOff symLen) := by
  rw [symbolAt, readSymbol]
  split
  · rfl
  · split
    · rename_i hfits
      rw [sliceOf_eq (by omega) hfits, Nat.add_sub_cancel_left]
      rfl
    · rfl

/-- The record at a place. -/
def recordAt (table data : Bytes) (pos : Nat) : NodeRecord where
  id := readLe data pos 4
  kindCode := readByte data (pos + 4)
  fileId := readLe data (pos + 5) 4
  line := readLe data (pos + 9) 4
  symbol := readSymbol table (readLe data (pos + 13) 4) (readLe data (pos + 17) 4)

theorem nodeAt_eq (table : Bytes) (h : pos + nodeRecordSize ≤ data.length) :
    nodeAt table data pos = .ok (recordAt table data pos) := by
  have hsize : nodeRecordSize = 21 := rfl
  rw [nodeAt, u32At_eq (by omega), byteAt_eq (by omega), u32At_eq (by omega), u32At_eq (by omega),
    u32At_eq (by omega), u32At_eq (by omega)]
  simp only [bind, Except.bind, symbolAt_eq]
  rfl

theorem edgeAt_eq (h : pos + edgeRecordSize ≤ data.length) :
    edgeAt data pos = .ok (readEdge data pos) := by
  have hsize : edgeRecordSize = 9 := rfl
  rw [edgeAt, u32At_eq (by omega), u32At_eq (by omega), byteAt_eq (by omega)]
  rfl

/-- Records that end inside the data are all read. -/
theorem each_eq {α : Type} {read : Nat → Except LoadError α} {value : Nat → α} {width : Nat}
    (hread : ∀ pos, pos + width ≤ data.length → read pos = .ok (value pos)) {count : Nat}
    (hfits : pos + count * width ≤ data.length) :
    each read width count pos = .ok (readEach value width count pos) := by
  induction count generalizing pos with
  | zero => rfl
  | succ count ih =>
    rw [Nat.succ_mul] at hfits
    rw [each, hread pos (by omega), ih (by omega)]
    rfl

/-- The scan leaves the table where the model says so. -/
theorem scanFiles_eq (table : Bytes) (count start : Nat) :
    scanFiles table count start = readFiles table count start := by
  induction count generalizing start with
  | zero => rfl
  | succ count ih =>
    have hlen : ((table.drop start).takeWhile (· != 0)).length ≤ (table.drop start).length :=
      (List.takeWhile_prefix _).length_le
    rw [List.length_drop] at hlen
    rw [scanFiles, readFiles]
    by_cases hstart : start > table.length
    · have hout : sliceOf table start
          (start + ((table.drop start).takeWhile (· != 0)).length) = .error .panicked := by
        rw [sliceOf, if_neg (by omega)]
      simp only [hout, if_pos hstart]
      rfl
    · have htext : sliceOf table start
          (start + ((table.drop start).takeWhile (· != 0)).length) =
            .ok ((table.drop start).takeWhile (· != 0)) := by
        rw [sliceOf_eq (by omega) (by omega), Nat.add_sub_cancel_left]
        exact congrArg Except.ok (List.prefix_iff_eq_take.mp (List.takeWhile_prefix _)).symm
      simp only [htext, ih, if_neg hstart]
      match readFiles table count (start + ((table.drop start).takeWhile (· != 0)).length + 1) with
      | .error e => rfl
      | .ok files => rfl

end Access

/-- The checks of the header. -/
def HeaderAccepted (data : Bytes) : Prop :=
  headerSize ≤ data.length ∧ data.take 4 = binMagic ∧ readLe data 4 4 = 1 ∧
    readLe data 20 4 = headerSize + readLe data 8 4 * nodeRecordSize +
      readLe data 12 4 * edgeRecordSize ∧
    readLe data 20 4 ≤ data.length

/-- What the decoder does with an accepted header. -/
theorem checkedLoad_eq {ν : Type} (node : List String → NodeRecord → ν) (data : Bytes) :
    checkedLoad node data =
      loadGraphBinWith (fun files table pos => node files (recordAt table data pos)) data := by
  rw [checkedLoad, loadGraphBinWith]
  by_cases hsmall : data.length < headerSize
  · rw [if_pos hsmall, if_pos hsmall]
  · have hsize : headerSize = 32 := rfl
    have hmagic : sliceOf data 0 4 = .ok (data.take 4) := by
      rw [sliceOf_eq (by omega) (by omega)]
      rfl
    rw [if_neg hsmall, if_neg hsmall]
    simp only [hmagic, u32At_eq (show 4 + 4 ≤ data.length by omega),
      u32At_eq (show 8 + 4 ≤ data.length by omega), u32At_eq (show 12 + 4 ≤ data.length by omega),
      u32At_eq (show 16 + 4 ≤ data.length by omega),
      u32At_eq (show 20 + 4 ≤ data.length by omega), bind, Except.bind, scanFiles_eq]
    split
    · rfl
    · split
      · rfl
      · split
        · rfl
        · split
          · rfl
          · rename_i hoffset hend
            have htable : sliceOf data (readLe data 20 4) data.length =
                .ok (data.drop (readLe data 20 4)) := by
              rw [sliceOf, if_pos ⟨by omega, Nat.le_refl _⟩, List.take_length]
            have hsections : readLe data 20 4 = headerSize + readLe data 8 4 * nodeRecordSize +
                readLe data 12 4 * edgeRecordSize := not_not.mp hoffset
            have hnodes := @each_eq data headerSize _ _ _ nodeRecordSize
              (fun pos h => nodeAt_eq (data.drop (readLe data 20 4)) h) (readLe data 8 4)
              (by omega)
            have hedges := @each_eq data (headerSize + readLe data 8 4 * nodeRecordSize) _ _ _
              edgeRecordSize (fun pos h => edgeAt_eq h) (readLe data 12 4) (by omega)
            simp only [htable, hnodes, hedges]
            cases readFiles (data.drop (readLe data 20 4)) (readLe data 16 4) 0 with
            | error e => rfl
            | ok files =>
              dsimp only
              rw [ArtifactsLoader.readEach_map (node files)]
              rfl

/-- The checked decoder is the one of the writer. -/
theorem writerLoad_eq (data : Bytes) : writerLoad data = loadGraphBin data := by
  rw [writerLoad, checkedLoad_eq]
  rfl

/-! ### The scan for the file names -/

/-- The cursor is one behind the table after the last name that is there. -/
theorem readFiles_panics_iff (table : Bytes) (count cursor : Nat) :
    readFiles table count cursor = .error .panicked ↔
      (if cursor ≤ table.length then (table.drop cursor).count 0 + 1 else 0) < count := by
  induction count generalizing cursor with
  | zero =>
    constructor
    · intro h
      cases h
    · intro h
      exact absurd h (Nat.not_lt_zero _)
  | succ count ih =>
    rw [readFiles]
    by_cases hout : cursor > table.length
    · rw [if_pos hout, if_neg (by omega)]
      exact ⟨fun _ => Nat.succ_pos count, fun _ => rfl⟩
    · rw [if_neg hout, if_pos (by omega)]
      have hstep := ih (cursor + ((table.drop cursor).takeWhile (· != 0)).length + 1)
      dsimp only
      refine Iff.trans ?_ (hstep.trans ?_)
      · match readFiles table count
            (cursor + ((table.drop cursor).takeWhile (· != 0)).length + 1) with
        | .error e => exact Iff.rfl
        | .ok files => exact ⟨fun h => (by cases h), fun h => (by cases h)⟩
      -- The name ends at a zero byte, or at the end of the table.
      have hlen : (table.drop cursor).length = table.length - cursor := List.length_drop
      have hbehind : (table.drop cursor).drop ((table.drop cursor).takeWhile (· != 0)).length =
          (table.drop cursor).dropWhile (· != 0) := by
        conv =>
          lhs
          arg 2
          rw [← List.takeWhile_append_dropWhile (p := (· != 0)) (l := table.drop cursor)]
        rw [List.drop_left]
      have hrest : table.drop (cursor + ((table.drop cursor).takeWhile (· != 0)).length + 1) =
          ((table.drop cursor).dropWhile (· != 0)).drop 1 := by
        rw [Nat.add_assoc, ← List.drop_drop, ← List.drop_drop]
        rw [hbehind]
      have hcount : (table.drop cursor).count 0 =
          ((table.drop cursor).dropWhile (· != 0)).count 0 := by
        conv => lhs; rw [← List.takeWhile_append_dropWhile (p := (· != 0)) (l := table.drop cursor)]
        rw [List.count_append, List.count_eq_zero_of_not_mem, Nat.zero_add]
        intro hmem
        have hall :=
          List.all_eq_true.mp (List.all_takeWhile (p := (· != 0)) (l := table.drop cursor))
        exact absurd (hall 0 hmem) (by decide)
      rw [hrest, hcount]
      match hdrop : (table.drop cursor).dropWhile (· != 0) with
      | [] =>
        have hall : (table.drop cursor).takeWhile (· != 0) = table.drop cursor := by
          have := List.takeWhile_append_dropWhile (p := (· != 0)) (l := table.drop cursor)
          rw [hdrop, List.append_nil] at this
          exact this
        rw [hall, if_neg (by omega)]
        simp
      | b :: rest =>
        have hzero : b = 0 := by
          have hhead := List.head_dropWhile_not (· != 0) (l := table.drop cursor) (by simp [hdrop])
          simp only [hdrop, List.head_cons] at hhead
          simpa using hhead
        have htake := congrArg List.length
          (List.takeWhile_append_dropWhile (p := (· != 0)) (l := table.drop cursor))
        rw [hdrop, List.length_append, List.length_cons] at htake
        rw [if_pos (by omega), hzero, List.count_cons_self, List.drop_succ_cons, List.drop_zero]
        omega

/-! ### Safety -/

/-- No slice and no index is out of bounds, in either decoder. -/
structure DecodesSafely (data : Bytes) : Prop where
  writer : writerLoad data ≠ .error .panicked
  loader : loaderLoad data ≠ .error .panicked

/-- The header announces more names than there are zero bytes and one more. -/
def TooManyFiles (data : Bytes) : Prop :=
  (data.drop (readLe data 20 4)).count 0 + 1 < readLe data 16 4

theorem checkedLoad_panics_iff {ν : Type} (node : List String → NodeRecord → ν) (data : Bytes) :
    checkedLoad node data = .error .panicked ↔ HeaderAccepted data ∧ TooManyFiles data := by
  have hscan := readFiles_panics_iff (data.drop (readLe data 20 4)) (readLe data 16 4) 0
  rw [if_pos (Nat.zero_le _), List.drop_zero] at hscan
  rw [checkedLoad_eq, loadGraphBinWith, HeaderAccepted, TooManyFiles, ← hscan]
  by_cases hsmall : data.length < headerSize
  · rw [if_pos hsmall]
    exact ⟨fun h => (by cases h), fun h => absurd h.1.1 (by omega)⟩
  · rw [if_neg hsmall]
    by_cases hmagic : data.take 4 ≠ binMagic
    · rw [if_pos hmagic]
      exact ⟨fun h => (by cases h), fun h => absurd h.1.2.1 hmagic⟩
    · rw [if_neg hmagic]
      by_cases hversion : readLe data 4 4 ≠ 1
      · rw [if_pos hversion]
        exact ⟨fun h => (by cases h), fun h => absurd h.1.2.2.1 hversion⟩
      · rw [if_neg hversion]
        dsimp only
        split
        · rename_i hoffset
          exact ⟨fun h => (by cases h), fun h => absurd h.1.2.2.2.1 hoffset⟩
        · rename_i hoffset
          split
          · rename_i hend
            exact ⟨fun h => (by cases h), fun h => absurd h.1.2.2.2.2 (by omega)⟩
          · rename_i hend
            have haccepted : headerSize ≤ data.length ∧ data.take 4 = binMagic ∧
                readLe data 4 4 = 1 ∧
                readLe data 20 4 = headerSize + readLe data 8 4 * nodeRecordSize +
                  readLe data 12 4 * edgeRecordSize ∧
                readLe data 20 4 ≤ data.length :=
              ⟨by omega, not_not.mp hmagic, not_not.mp hversion, not_not.mp hoffset, by omega⟩
            cases readFiles (data.drop (readLe data 20 4)) (readLe data 16 4) 0 with
            | ok files => exact ⟨fun h => (by cases h), fun h => (by cases h.2)⟩
            | error e =>
              cases e with
              | panicked => exact ⟨fun _ => ⟨haccepted, rfl⟩, fun _ => rfl⟩
              | error message => exact ⟨fun h => (by cases h), fun h => (by cases h.2)⟩

/-- The decoders stay inside the data exactly when the header is refused or the names
    it announces are in the table. -/
theorem decode_safe_iff (data : Bytes) :
    DecodesSafely data ↔ ¬ (HeaderAccepted data ∧ TooManyFiles data) := by
  constructor
  · intro h hpanics
    exact h.writer ((checkedLoad_panics_iff _ data).mpr hpanics)
  · intro h
    exact ⟨fun hp => h ((checkedLoad_panics_iff _ data).mp hp),
      fun hp => h ((checkedLoad_panics_iff _ data).mp hp)⟩

/-- A header for two file names, and no table. -/
def emptyTable : Bytes := header 0 0 2 32

theorem empty_table_panics :
    loadGraphBin emptyTable = .error .panicked ∧ ¬ DecodesSafely emptyTable := by
  have hpanics : loadGraphBin emptyTable = .error .panicked := by decide +kernel
  refine ⟨hpanics, ?_⟩
  intro h
  exact h.writer (by rw [writerLoad_eq, hpanics])

end Canon.Graph.Bin
