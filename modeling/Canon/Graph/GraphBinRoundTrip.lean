import Mathlib.Data.List.Nodup
import Canon.Graph.GraphBin

/-! # The binary file read back

    Every part of the file is read from where it was written, so the graph comes back
    whenever the place of the table of texts does.  That place is a `u32`; if header and
    records together are longer, it is cut off and the file is refused.
-/

namespace Canon.Graph.Bin

/-! ### Kinds -/

theorem nodeKindStr_nodeKindCode {kind : String} (h : nodeKindCode kind ≠ 0) :
    nodeKindStr (nodeKindCode kind) = kind := by
  unfold nodeKindCode at h ⊢
  split at h <;> first | rfl | exact absurd rfl h

theorem edgeKindStr_edgeKindCode {kind : String} (h : edgeKindCode kind ≠ 0) :
    edgeKindStr (edgeKindCode kind) = kind := by
  unfold edgeKindCode at h ⊢
  split at h <;> first | rfl | exact absurd rfl h

/-! ### Texts -/

namespace StringTable

variable {t : StringTable}

/-- Every text is in the table where the table says. -/
def Inv (t : StringTable) : Prop :=
  ∀ s off len, t.offsets s = some (off, len) →
    len = (utf8 s.toList).length ∧
      ∃ before after, t.bytes = before ++ (utf8 s.toList ++ after) ∧ off = before.length

theorem inv_empty : empty.Inv := by
  intro s off len h
  cases h

theorem prefix_push (t : StringTable) (s : String) : t.bytes <+: (t.push s).bytes :=
  List.prefix_append _ _

theorem prefix_pushNew (t : StringTable) (s : String) : t.bytes <+: (t.pushNew s).bytes := by
  unfold pushNew
  split
  · exact List.prefix_rfl
  · exact prefix_push t s

theorem Inv.push (h : t.Inv) (s : String) (hfits : (t.push s).bytes.length < 2 ^ 32) :
    (t.push s).Inv := by
  intro x off len hx
  have hlen : (t.push s).bytes.length = t.bytes.length + ((utf8 s.toList).length + 1) := by
    simp [StringTable.push]
  by_cases hs : x = s
  · subst hs
    have hplace : (asU32 t.bytes.length, asU32 (utf8 x.toList).length) = (off, len) := by
      simpa [StringTable.push] using hx
    obtain ⟨rfl, rfl⟩ := Prod.mk.inj hplace
    rw [asU32, asU32, Nat.mod_eq_of_lt (by omega), Nat.mod_eq_of_lt (by omega)]
    exact ⟨rfl, t.bytes, [0], rfl, rfl⟩
  · have hold : t.offsets x = some (off, len) := by simpa [StringTable.push, hs] using hx
    obtain ⟨hlen, before, after, hbytes, hoff⟩ := h x off len hold
    refine ⟨hlen, before, after ++ (utf8 s.toList ++ [0]), ?_, hoff⟩
    simp [StringTable.push, hbytes]

theorem Inv.pushNew (h : t.Inv) (s : String) (hfits : (t.pushNew s).bytes.length < 2 ^ 32) :
    (t.pushNew s).Inv := by
  unfold StringTable.pushNew at hfits ⊢
  split
  · exact h
  · rename_i hnew
    rw [if_neg hnew] at hfits
    exact h.push s hfits

/-- Texts that are added one after the other keep the table right, as long as all of it
    has `u32` places. -/
theorem foldl_spec {add : StringTable → String → StringTable}
    (hgrow : ∀ t s, t.bytes <+: (add t s).bytes)
    (hadd : ∀ t s, Inv t → (add t s).bytes.length < 2 ^ 32 → (add t s).Inv) (ss : List String)
    (t : StringTable) :
    t.bytes <+: (ss.foldl add t).bytes ∧
      (t.Inv → (ss.foldl add t).bytes.length < 2 ^ 32 → (ss.foldl add t).Inv) := by
  induction ss generalizing t with
  | nil => exact ⟨List.prefix_rfl, fun h _ => h⟩
  | cons s ss ih =>
    obtain ⟨hmore, hinv⟩ := ih (add t s)
    refine ⟨(hgrow t s).trans hmore, ?_⟩
    intro h hfits
    exact hinv (hadd t s h (Nat.lt_of_le_of_lt hmore.length_le hfits)) hfits

theorem isSome_pushNew (s x : String) (h : x = s ∨ (t.offsets x).isSome) :
    ((t.pushNew s).offsets x).isSome := by
  unfold pushNew
  split
  · rename_i hs
    rcases h with rfl | h
    · exact hs
    · exact h
  · by_cases hx : x = s
    · simp [StringTable.push, hx]
    · rcases h with h | h
      · exact absurd h hx
      · simpa [StringTable.push, hx] using h

theorem isSome_foldl_pushNew (ss : List String) {x : String} (t : StringTable)
    (h : x ∈ ss ∨ (t.offsets x).isSome) : ((ss.foldl pushNew t).offsets x).isSome := by
  induction ss generalizing t with
  | nil => simpa using h
  | cons s ss ih =>
    apply ih
    rcases h with h | h
    · rcases List.mem_cons.mp h with rfl | h
      · exact .inr (isSome_pushNew x x (.inl rfl))
      · exact .inl h
    · exact .inr (isSome_pushNew s x (.inr h))

theorem bytes_foldl_push (ss : List String) (t : StringTable) :
    (ss.foldl push t).bytes = t.bytes ++ ss.flatMap fun s => utf8 s.toList ++ [0] := by
  induction ss generalizing t with
  | nil => simp
  | cons s ss ih => simp [ih, push]

end StringTable

section Table

variable (nodes : List CodeGraphNode) (files : List String)

/-- The table has the files in order, then the symbols. -/
theorem stringTable_bytes :
    ∃ rest, (stringTable nodes files).bytes =
      files.flatMap (fun s => utf8 s.toList ++ [0]) ++ rest := by
  obtain ⟨rest, hrest⟩ := (StringTable.foldl_spec StringTable.prefix_pushNew
    (fun t s h => StringTable.Inv.pushNew h s) (nodes.map (·.symbol))
    (files.foldl StringTable.push .empty)).1
  refine ⟨rest, ?_⟩
  rw [stringTable, ← hrest, StringTable.bytes_foldl_push]
  rfl

theorem stringTable_inv (h : (stringTable nodes files).bytes.length < 2 ^ 32) :
    (stringTable nodes files).Inv := by
  have hsymbols := StringTable.foldl_spec StringTable.prefix_pushNew
    (fun t s h => StringTable.Inv.pushNew h s) (nodes.map (·.symbol))
    (files.foldl StringTable.push .empty)
  have hfiles := StringTable.foldl_spec StringTable.prefix_push
    (fun t s h => StringTable.Inv.push h s) files .empty
  exact hsymbols.2 (hfiles.2 StringTable.inv_empty
    (Nat.lt_of_le_of_lt hsymbols.1.length_le h)) h

theorem stringTable_isSome {node : CodeGraphNode} (h : node ∈ nodes) :
    ((stringTable nodes files).offsets node.symbol).isSome :=
  StringTable.isSome_foldl_pushNew _ _ (.inl (List.mem_map_of_mem h))

theorem length_le_stringTable : files.length ≤ (stringTable nodes files).bytes.length := by
  obtain ⟨rest, hbytes⟩ := stringTable_bytes nodes files
  have hfiles : files.length ≤ (files.flatMap fun s => utf8 s.toList ++ [0]).length := by
    clear hbytes
    induction files with
    | nil => exact Nat.le_refl _
    | cons f files ih =>
      simp only [List.flatMap_cons, List.length_append, List.length_cons, List.length_nil]
      omega
  rw [hbytes, List.length_append]
  omega

end Table

theorem textOf_utf8 (s : String) : textOf (utf8 s.toList) = s := by
  rw [textOf, fromUtf8_utf8, Option.getD_some, String.ofList_toList]

theorem readFiles_eq {files : List String} (hnul : ∀ f ∈ files, '\x00' ∉ f.toList)
    (before after : Bytes) :
    readFiles (before ++ (files.flatMap (fun s => utf8 s.toList ++ [0]) ++ after)) files.length
      before.length = .ok files := by
  induction files generalizing before with
  | nil => rfl
  | cons f files ih =>
    have htext : (0 : UInt8) ∉ utf8 f.toList := by
      intro hzero
      exact hnul f (by simp) (zero_mem_utf8 hzero)
    have hrest := ih (fun g hg => hnul g (by simp [hg])) (before ++ (utf8 f.toList ++ [0]))
    rw [List.length_cons, readFiles, if_neg (by simp)]
    have htake : ((before ++ ((f :: files).flatMap (fun s : String => utf8 s.toList ++ [0]) ++
        after)).drop before.length).takeWhile (· != 0) = utf8 f.toList := by
      rw [List.drop_left, List.flatMap_cons, List.append_assoc, List.append_assoc,
        List.singleton_append, takeWhile_terminated htext]
    dsimp only
    rw [htake]
    simp only [List.flatMap_cons, List.append_assoc, List.length_append, List.length_cons,
      List.length_nil, Nat.zero_add] at hrest ⊢
    rw [Nat.add_assoc, hrest, textOf_utf8]

theorem readSymbol_eq {t : StringTable} (h : t.Inv) {s : String} {off len : Nat}
    (hs : t.offsets s = some (off, len)) : readSymbol t.bytes off len = s := by
  obtain ⟨rfl, before, after, hbytes, rfl⟩ := h s off len hs
  unfold readSymbol
  split
  · rename_i hempty
    have hnil : s.toList = [] := utf8Len_eq_zero.mp hempty
    rw [← String.ofList_toList (s := s), hnil]
  · rw [if_pos (by rw [hbytes]; simp), hbytes, List.drop_left, List.take_left, textOf_utf8]

/-! ### Numbers -/

theorem readU32 {data : Bytes} {pos n : Nat} (before after : Bytes) (hn : n < 2 ^ 32)
    (hdata : data = before ++ (leBytes 4 n ++ after)) (hpos : pos = before.length) :
    readLe data pos 4 = n := by
  rw [readLe_leBytes hdata hpos]
  exact Nat.mod_eq_of_lt hn

theorem some32_getD {o : Option UInt32} (h : ∀ v, o = some v → v.toNat < none32) :
    some32 ((o.map UInt32.toNat).getD none32) = o := by
  cases o with
  | none => rfl
  | some v =>
    have hne : v.toNat ≠ none32 := Nat.ne_of_lt (h v rfl)
    show some32 v.toNat = some v
    rw [some32, if_neg hne, UInt32.ofNat_toNat]

theorem getD_toNat_lt (o : Option UInt32) : (o.map UInt32.toNat).getD none32 < 2 ^ 32 := by
  cases o with
  | none => decide
  | some v => exact v.toNat_lt

/-! ### Records -/

/-- What the format holds: known kinds, file names that are told apart and end at their
    zero byte, numbers that are not the one for none, and sections that fit. -/
structure WellFormed (nodes : List CodeGraphNode) (edges : List CodeGraphEdge)
    (files : List String) : Prop where
  nodeKinds : ∀ n ∈ nodes, nodeKindCode n.kind ≠ 0
  edgeKinds : ∀ e ∈ edges, edgeKindCode e.kind ≠ 0
  distinct : files.Nodup
  noNul : ∀ f ∈ files, '\x00' ∉ f.toList
  fileIds : ∀ n ∈ nodes, ∀ id, n.fileId = some id → id.toNat < files.length
  lines : ∀ n ∈ nodes, ∀ line, n.line = some line → line.toNat < none32
  nodeSection : nodes.length * nodeRecordSize < 2 ^ 32
  edgeSection : edges.length * edgeRecordSize < 2 ^ 32
  table : (stringTable nodes files).bytes.length < 2 ^ 32

variable {nodes : List CodeGraphNode} {edges : List CodeGraphEdge} {files : List String}

/-- Names that are told apart are found under their own number. -/
theorem fileIndex_getElem (hdistinct : files.Nodup) {i : Nat} (hi : i < files.length) :
    fileIndex files files[i] = some (asU32 i) := by
  apply FMap.insertAll_of_forall
  · apply List.mem_map.mpr
    exact ⟨(files[i], i), List.mem_zipIdx_iff_getElem?.mpr (List.getElem?_eq_getElem hi), rfl⟩
  · intro e he hname
    obtain ⟨⟨name, j⟩, hmem, rfl⟩ := List.mem_map.mp he
    obtain ⟨hj, hget⟩ := List.getElem?_eq_some_iff.mp (List.mem_zipIdx_iff_getElem?.mp hmem)
    have hsame : j = i := (List.Nodup.getElem_inj_iff hdistinct).mp (hget.trans hname)
    rw [hsame]

theorem WellFormed.fileId_lt (h : WellFormed nodes edges files) {node : CodeGraphNode}
    (hnode : node ∈ nodes) (id : UInt32) (hid : node.fileId = some id) : id.toNat < none32 := by
  have hin := h.fileIds node hnode id hid
  have hfiles := length_le_stringTable nodes files
  have htable := h.table
  rw [none32]
  omega

theorem WellFormed.fileIdOut_eq (h : WellFormed nodes edges files) {node : CodeGraphNode}
    (hnode : node ∈ nodes) : fileIdOut files node = (node.fileId.map UInt32.toNat).getD none32 := by
  unfold fileIdOut
  cases hid : node.fileId with
  | none => rfl
  | some id =>
    have hin := h.fileIds node hnode id hid
    have hlt : id.toNat < 2 ^ 32 := id.toNat_lt
    rw [Option.bind_some, List.getElem?_eq_getElem hin, Option.bind_some,
      fileIndex_getElem h.distinct hin, asU32, Nat.mod_eq_of_lt hlt]
    rfl

theorem nodeRecord_length (t : StringTable) (files : List String) (node : CodeGraphNode) :
    (nodeRecord t files node).length = nodeRecordSize := by
  simp [nodeRecord, nodeRecordSize]

theorem edgeRecord_length (edge : CodeGraphEdge) :
    (edgeRecord edge).length = edgeRecordSize := by
  simp [edgeRecord, edgeRecordSize]

theorem readEdge_edgeRecord {edge : CodeGraphEdge} (hkind : edgeKindCode edge.kind ≠ 0)
    (before after : Bytes) :
    readEdge (before ++ (edgeRecord edge ++ after)) before.length = edge := by
  have hsrc : readLe (before ++ (edgeRecord edge ++ after)) before.length 4 = edge.src.toNat :=
    readU32 before (leBytes 4 edge.dst.toNat ++ edgeKindCode edge.kind :: after) edge.src.toNat_lt
      (by simp [edgeRecord]) rfl
  have hdst : readLe (before ++ (edgeRecord edge ++ after)) (before.length + 4) 4 =
      edge.dst.toNat :=
    readU32 (before ++ leBytes 4 edge.src.toNat) (edgeKindCode edge.kind :: after)
      edge.dst.toNat_lt (by simp [edgeRecord]) (by simp)
  have hcode : readByte (before ++ (edgeRecord edge ++ after)) (before.length + 8) =
      edgeKindCode edge.kind :=
    readByte_cons (before ++ leBytes 4 edge.src.toNat ++ leBytes 4 edge.dst.toNat) after
      (by simp [edgeRecord]) (by simp)
  rw [readEdge, hsrc, hdst, hcode, edgeKindStr_edgeKindCode hkind, UInt32.ofNat_toNat,
    UInt32.ofNat_toNat]

/-- The five parts of a node record. -/
theorem read_nodeParts {data before after : Bytes} {id file line off len : Nat} {code : UInt8}
    (hid : id < 2 ^ 32) (hfile : file < 2 ^ 32) (hline : line < 2 ^ 32) (hoff : off < 2 ^ 32)
    (hlen : len < 2 ^ 32)
    (hdata : data = before ++ (leBytes 4 id ++ (code :: leBytes 4 file ++ (leBytes 4 line ++
      (leBytes 4 off ++ leBytes 4 len))) ++ after)) :
    readLe data before.length 4 = id ∧ readByte data (before.length + 4) = code ∧
      readLe data (before.length + 5) 4 = file ∧ readLe data (before.length + 9) 4 = line ∧
      readLe data (before.length + 13) 4 = off ∧ readLe data (before.length + 17) 4 = len := by
  refine ⟨?_, ?_, ?_, ?_, ?_, ?_⟩
  · exact readU32 before _ hid (by simpa using hdata) rfl
  · exact readByte_cons (before ++ leBytes 4 id) _ (by simpa using hdata) (by simp)
  · exact readU32 (before ++ leBytes 4 id ++ [code]) _ hfile (by simpa using hdata) (by simp)
  · exact readU32 (before ++ leBytes 4 id ++ [code] ++ leBytes 4 file) _ hline
      (by simpa using hdata) (by simp)
  · exact readU32 (before ++ leBytes 4 id ++ [code] ++ leBytes 4 file ++ leBytes 4 line) _ hoff
      (by simpa using hdata) (by simp)
  · exact readU32 (before ++ leBytes 4 id ++ [code] ++ leBytes 4 file ++ leBytes 4 line ++
      leBytes 4 off) _ hlen (by simpa using hdata) (by simp)

/-- A node comes back from its record, with the table that was written along. -/
theorem WellFormed.readNode_nodeRecord (h : WellFormed nodes edges files) {node : CodeGraphNode}
    (hnode : node ∈ nodes) (before after : Bytes) :
    readNode (stringTable nodes files).bytes
      (before ++ (nodeRecord (stringTable nodes files) files node ++ after)) before.length =
        node := by
  obtain ⟨⟨off, len⟩, hplace⟩ := Option.isSome_iff_exists.mp (stringTable_isSome nodes files hnode)
  have hinv := stringTable_inv nodes files h.table
  have hsymbol := readSymbol_eq hinv hplace
  obtain ⟨hlen, front, back, hbytes, hoff⟩ := hinv _ _ _ hplace
  have htable := h.table
  rw [hbytes, List.length_append, List.length_append] at htable
  have hrecord : before ++ (nodeRecord (stringTable nodes files) files node ++ after) =
      before ++ (leBytes 4 node.id.toNat ++ (nodeKindCode node.kind ::
        leBytes 4 ((node.fileId.map UInt32.toNat).getD none32) ++
          (leBytes 4 ((node.line.map UInt32.toNat).getD none32) ++
            (leBytes 4 off ++ leBytes 4 len))) ++ after) := by
    rw [nodeRecord, hplace, h.fileIdOut_eq hnode]
    rfl
  obtain ⟨hid, hcode, hfile, hline, hoff', hlen'⟩ := read_nodeParts node.id.toNat_lt
    (getD_toNat_lt node.fileId) (getD_toNat_lt node.line) (by omega) (by omega) hrecord
  rw [readNode, hid, hcode, hfile, hline, hoff', hlen', hsymbol,
    nodeKindStr_nodeKindCode (h.nodeKinds node hnode), UInt32.ofNat_toNat,
    some32_getD (h.fileId_lt hnode), some32_getD (h.lines node hnode)]

/-! ### The file -/

theorem header_length (nNodes nEdges nFiles strTableOffset : Nat) :
    (header nNodes nEdges nFiles strTableOffset).length = headerSize := by
  simp [header, binMagic, headerSize]

theorem read_header {nNodes nEdges nFiles strTableOffset : Nat} (hnodes : nNodes < 2 ^ 32)
    (hedges : nEdges < 2 ^ 32) (hfiles : nFiles < 2 ^ 32) (hoffset : strTableOffset < 2 ^ 32)
    {data rest : Bytes} (hdata : data = header nNodes nEdges nFiles strTableOffset ++ rest) :
    data.take 4 = binMagic ∧ readLe data 4 4 = 1 ∧ readLe data 8 4 = nNodes ∧
      readLe data 12 4 = nEdges ∧ readLe data 16 4 = nFiles ∧
      readLe data 20 4 = strTableOffset := by
  rw [header] at hdata
  refine ⟨?_, ?_, ?_, ?_, ?_, ?_⟩
  · rw [hdata, List.append_assoc]
    rfl
  · exact readU32 binMagic _ (by decide) (by simpa using hdata) rfl
  · exact readU32 (binMagic ++ leBytes 4 1) _ hnodes (by simpa using hdata) rfl
  · exact readU32 (binMagic ++ leBytes 4 1 ++ leBytes 4 nNodes) _ hedges (by simpa using hdata)
      (by simp [binMagic])
  · exact readU32 (binMagic ++ leBytes 4 1 ++ leBytes 4 nNodes ++ leBytes 4 nEdges) _ hfiles
      (by simpa using hdata) (by simp [binMagic])
  · exact readU32 (binMagic ++ leBytes 4 1 ++ leBytes 4 nNodes ++ leBytes 4 nEdges ++
      leBytes 4 nFiles) _ hoffset (by simpa using hdata) (by simp [binMagic])

/-- The place of the table when it is not cut off. -/
def tableOffset (nodes : List CodeGraphNode) (edges : List CodeGraphEdge) : Nat :=
  headerSize + nodes.length * nodeRecordSize + edges.length * edgeRecordSize

/-- The sections in the order of the file. -/
theorem WellFormed.emitGraphBin_eq (h : WellFormed nodes edges files) :
    emitGraphBin nodes edges files =
      .ok (header nodes.length edges.length files.length (asU32 (tableOffset nodes edges)) ++
        (nodes.flatMap (nodeRecord (stringTable nodes files) files) ++
          (edges.flatMap edgeRecord ++ (stringTable nodes files).bytes))) := by
  have hnodes := h.nodeSection
  have hedges := h.edgeSection
  have hfiles := Nat.lt_of_le_of_lt (length_le_stringTable nodes files) h.table
  unfold nodeRecordSize at hnodes
  unfold edgeRecordSize at hedges
  have hn : asU32 nodes.length = nodes.length := Nat.mod_eq_of_lt (by omega)
  have he : asU32 edges.length = edges.length := Nat.mod_eq_of_lt (by omega)
  have hf : asU32 files.length = files.length := Nat.mod_eq_of_lt hfiles
  unfold emitGraphBin
  dsimp only
  rw [hn, he, hf, if_neg (Nat.not_le.mpr h.nodeSection), if_neg (Nat.not_le.mpr h.edgeSection)]
  rfl

section Sections

variable (head : Bytes) (hhead : head.length = headerSize)

include hhead

/-- The nodes behind a header. -/
theorem WellFormed.readEach_nodes (h : WellFormed nodes edges files) (after : Bytes) :
    readEach (readNode (stringTable nodes files).bytes
      (head ++ (nodes.flatMap (nodeRecord (stringTable nodes files) files) ++ after)))
        nodeRecordSize nodes.length headerSize = nodes := by
  have hread := readEach_flatMap (nodeRecord_length (stringTable nodes files) files)
    (fun _ hnode => h.readNode_nodeRecord hnode) head after
  rw [hhead] at hread
  exact hread

/-- The edges behind the nodes. -/
theorem WellFormed.readEach_edges (h : WellFormed nodes edges files) (after : Bytes) :
    readEach (readEdge (head ++ (nodes.flatMap (nodeRecord (stringTable nodes files) files) ++
      (edges.flatMap edgeRecord ++ after)))) edgeRecordSize edges.length
        (headerSize + nodes.length * nodeRecordSize) = edges := by
  have hread := readEach_flatMap edgeRecord_length
    (fun edge hedge => readEdge_edgeRecord (h.edgeKinds edge hedge))
    (head ++ nodes.flatMap (nodeRecord (stringTable nodes files) files)) after
  rw [List.length_append, hhead, length_flatMap_of_width (nodeRecord_length _ _),
    List.append_assoc, Nat.mul_comm] at hread
  exact hread

theorem length_sections (nodes : List CodeGraphNode) (edges : List CodeGraphEdge)
    (files : List String) :
    (head ++ nodes.flatMap (nodeRecord (stringTable nodes files) files) ++
      edges.flatMap edgeRecord).length = tableOffset nodes edges := by
  rw [List.length_append, List.length_append, hhead,
    length_flatMap_of_width (nodeRecord_length _ _), length_flatMap_of_width edgeRecord_length,
    tableOffset, Nat.mul_comm, Nat.mul_comm edgeRecordSize]

end Sections

/-- The checks on the header pass, and what follows is read back if the place of the
    table is. -/
theorem WellFormed.load_emitted (h : WellFormed nodes edges files) {data : Bytes}
    (hdata : emitGraphBin nodes edges files = .ok data) :
    loadGraphBin data =
      if asU32 (tableOffset nodes edges) ≠ tableOffset nodes edges then
        .error (.error "graph.bin string table offset mismatch")
      else .ok (nodes, edges, files) := by
  have hnodes := h.nodeSection
  have hedges := h.edgeSection
  have hfiles := Nat.lt_of_le_of_lt (length_le_stringTable nodes files) h.table
  unfold nodeRecordSize at hnodes
  unfold edgeRecordSize at hedges
  rw [h.emitGraphBin_eq] at hdata
  have hdata := (Except.ok.inj hdata).symm
  have hcut : asU32 (tableOffset nodes edges) < 2 ^ 32 := Nat.mod_lt _ (by decide)
  obtain ⟨hmagic, hversion, hn, he, hf, hoffset⟩ := read_header (by omega) (by omega) hfiles hcut
    hdata
  have hhead := header_length nodes.length edges.length files.length
    (asU32 (tableOffset nodes edges))
  have hsize : ¬data.length < headerSize := by
    rw [hdata, List.length_append, hhead]
    omega
  unfold loadGraphBin loadGraphBinWith
  rw [if_neg hsize, if_neg (not_not_intro hmagic), if_neg (not_not_intro hversion)]
  dsimp only
  rw [hn, he, hf, hoffset, ← tableOffset]
  by_cases hplace : asU32 (tableOffset nodes edges) = tableOffset nodes edges
  · have hlength := length_sections _ hhead nodes edges files
    have hsections := hdata
    rw [← List.append_assoc, ← List.append_assoc] at hsections
    have htable : data.drop (tableOffset nodes edges) = (stringTable nodes files).bytes := by
      rw [hsections, List.drop_left' hlength]
    have hlong : ¬data.length < tableOffset nodes edges := by
      rw [hsections, List.length_append, hlength]
      omega
    have hread : readFiles (stringTable nodes files).bytes files.length 0 = .ok files := by
      obtain ⟨rest, hrest⟩ := stringTable_bytes nodes files
      rw [hrest]
      exact readFiles_eq h.noNul [] rest
    rw [if_neg (not_not_intro hplace), if_neg (not_not_intro hplace), hplace, if_neg hlong, htable,
      hread, hdata]
    dsimp only
    rw [h.readEach_nodes _ hhead, h.readEach_edges _ hhead]
  · rw [if_pos hplace, if_pos hplace]

/-- The graph comes back exactly if the table of texts starts at a place that is a
    `u32`. -/
theorem graph_bin_round_trip_iff {nodes : List CodeGraphNode} {edges : List CodeGraphEdge}
    {files : List String} (h : WellFormed nodes edges files) :
    (∃ data, emitGraphBin nodes edges files = .ok data ∧
      loadGraphBin data = .ok (nodes, edges, files)) ↔
      headerSize + nodes.length * nodeRecordSize + edges.length * edgeRecordSize < 2 ^ 32 := by
  show _ ↔ tableOffset nodes edges < 2 ^ 32
  constructor
  · rintro ⟨data, hdata, hload⟩
    rw [h.load_emitted hdata] at hload
    by_contra hlarge
    have hcut : asU32 (tableOffset nodes edges) ≠ tableOffset nodes edges := by
      have hlt : asU32 (tableOffset nodes edges) < 2 ^ 32 := Nat.mod_lt _ (by decide)
      omega
    rw [if_pos hcut] at hload
    cases hload
  · intro hfits
    refine ⟨_, h.emitGraphBin_eq, ?_⟩
    rw [h.load_emitted h.emitGraphBin_eq, if_neg]
    exact not_not_intro (Nat.mod_eq_of_lt hfits)

/-- A method without a symbol, a function that is named like its file and an edge. -/
theorem graph_bin_round_trip_sample :
    ∃ data, emitGraphBin [⟨7, "METHOD", "", none, some 3⟩, ⟨1, "FUNCTION", "a.rs", some 1, none⟩]
        [⟨7, 1, "CALL"⟩] ["b.rs", "a.rs"] = .ok data ∧
      loadGraphBin data =
        .ok ([⟨7, "METHOD", "", none, some 3⟩, ⟨1, "FUNCTION", "a.rs", some 1, none⟩],
          [⟨7, 1, "CALL"⟩], ["b.rs", "a.rs"]) := by
  apply (graph_bin_round_trip_iff ?_).mpr
  · decide
  · have hnode : ∀ n ∈ [(⟨7, "METHOD", "", none, some 3⟩ : CodeGraphNode),
        ⟨1, "FUNCTION", "a.rs", some 1, none⟩],
        n = ⟨7, "METHOD", "", none, some 3⟩ ∨ n = ⟨1, "FUNCTION", "a.rs", some 1, none⟩ := by
      simp
    constructor
    case fileIds =>
      intro n hn id hid
      rcases hnode n hn with rfl | rfl
      · cases hid
      · cases hid
        decide
    case lines =>
      intro n hn line hline
      rcases hnode n hn with rfl | rfl
      · cases hline
        decide
      · cases hline
    all_goals decide +kernel

/-! ### A place that is cut off -/

theorem foldl_pushNew_known {t : StringTable} {s : String} (h : (t.offsets s).isSome) (n : Nat) :
    (List.replicate n s).foldl StringTable.pushNew t = t := by
  induction n with
  | zero => rfl
  | succ n ih => rw [List.replicate_succ, List.foldl_cons, StringTable.pushNew, if_pos h, ih]

/-- The same node over and over. -/
def sameNodes (n : Nat) : List CodeGraphNode :=
  List.replicate n ⟨0, "FUNCTION", "", none, none⟩

theorem stringTable_sameNodes (n : Nat) : (stringTable (sameNodes n) []).bytes.length ≤ 1 := by
  rw [stringTable, sameNodes, List.map_replicate]
  cases n with
  | zero => decide
  | succ n =>
    -- The first node brings the empty text, the others find it.
    have hfirst : ((StringTable.empty.pushNew "").offsets "").isSome := by decide
    rw [List.replicate_succ, List.foldl_cons]
    show ((List.replicate n "").foldl StringTable.pushNew
      (StringTable.empty.pushNew "")).bytes.length ≤ 1
    rw [foldl_pushNew_known hfirst]
    decide

theorem wellFormed_sameNodes {n : Nat} (h : n * nodeRecordSize < 2 ^ 32) :
    WellFormed (sameNodes n) [] [] where
  nodeKinds := by
    intro node hnode
    rw [List.eq_of_mem_replicate hnode]
    decide
  edgeKinds := by simp
  distinct := List.nodup_nil
  noNul := by simp
  fileIds := by
    intro node hnode id hid
    rw [List.eq_of_mem_replicate hnode] at hid
    cases hid
  lines := by
    intro node hnode line hline
    rw [List.eq_of_mem_replicate hnode] at hline
    cases hline
  nodeSection := by
    rw [sameNodes, List.length_replicate]
    exact h
  edgeSection := by decide
  table := Nat.lt_of_le_of_lt (stringTable_sameNodes n) (by decide)

/-- As many nodes as the section can hold: with the header they are too many, and the
    file that is written is refused. -/
theorem full_node_section_is_refused :
    WellFormed (sameNodes 204522252) [] [] ∧
      ¬∃ data, emitGraphBin (sameNodes 204522252) [] [] = .ok data ∧
        loadGraphBin data = .ok (sameNodes 204522252, [], []) := by
  have h : WellFormed (sameNodes 204522252) [] [] := wellFormed_sameNodes (by decide)
  have hcut : asU32 (tableOffset (sameNodes 204522252) []) ≠
      tableOffset (sameNodes 204522252) [] := by
    rw [tableOffset, sameNodes, List.length_replicate]
    decide
  refine ⟨h, ?_⟩
  rintro ⟨data, hdata, hload⟩
  rw [h.load_emitted hdata, if_pos hcut] at hload
  cases hload

end Canon.Graph.Bin
