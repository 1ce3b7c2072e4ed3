import Canon.Lib.Bytes
import Canon.Lib.Text
import Canon.Lib.Splice
import Mathlib.Data.List.Sort

/-! # Splicing replacements into a source

    `patch_file` of the editor's `syn_patcher.rs` and `remove_nested_spans` of `ops.rs`.
    A span counts the bytes of the source.  The replacements are taken from the last to the
    first, with a cursor where the part that is done begins, and the chunks are put together
    in the other direction at the end.
-/

namespace Canon.Editor

open Splice

structure SpanRange where
  lo : UInt32
  hi : UInt32
deriving DecidableEq, Repr

structure SpanReplacement where
  span : SpanRange
  replacement : Text
deriving DecidableEq, Repr

/-! ### Patching -/

inductive PatchError where
  | invalidSpan (lo hi : Nat)
  | overlapping (lo hi cursor : Nat)
  | utf8 (bytes : Bytes)
deriving DecidableEq, Repr

/-- `describe` is the standard library's account of where bytes stop being UTF-8. -/
def PatchError.message (describe : Bytes → String) : PatchError → String
  | .invalidSpan lo hi => s!"invalid span {lo}..{hi}"
  | .overlapping lo hi cursor =>
    s!"overlapping spans: span {lo}..{hi} conflicts with already-applied region ending at {cursor}"
  | .utf8 bytes => s!"utf8 error after patch: {describe bytes}"

/-- The loop over the sorted spans, with the chunks and the cursor. -/
def takeSpans (srcBytes : Bytes) : List SpanReplacement → List Bytes → Nat →
    Except PatchError (List Bytes × Nat)
  | [], chunks, cursor => .ok (chunks, cursor)
  | span :: rest, chunks, cursor =>
    let lo := span.span.lo.toNat
    let hi := span.span.hi.toNat
    if lo > hi ∨ hi > srcBytes.length then .error (.invalidSpan lo hi)
    else if hi > cursor then .error (.overlapping lo hi cursor)
    else takeSpans srcBytes rest
      (chunks ++ [(srcBytes.take cursor).drop hi, utf8 span.replacement]) lo

variable (spans : List SpanReplacement) (replacements : List SpanReplacement)

/-- Later spans first. -/
def sortSpans : List SpanReplacement :=
  spans.mergeSort fun a b => decide (b.span.lo ≤ a.span.lo)

def patchFile (src : Text) (spans : List SpanReplacement) : Except PatchError Text :=
  if spans = [] then .ok src
  else do
    let srcBytes := utf8 src
    let (chunks, cursor) ← takeSpans srcBytes (sortSpans spans) [] srcBytes.length
    let out := (chunks ++ [srcBytes.take cursor]).reverse.flatten
    match fromUtf8 out with
    | some text => .ok text
    | none => .error (.utf8 out)

/-! ### Nested spans -/

/-- The test of the inner loop: the first span contains the second and is not the same. -/
def SpanRange.strictlyContains (a b : SpanRange) : Bool :=
  decide (a.lo ≤ b.lo ∧ b.hi ≤ a.hi ∧ (a.lo < b.lo ∨ b.hi < a.hi))

/-- One test of the two loops. -/
def markNested (i : Nat) (keep : List Bool) (j : Nat) :
    List Bool :=
  if i = j then keep
  else
    match replacements[i]?, replacements[j]? with
    | some a, some b => if a.span.strictlyContains b.span then keep.set i false else keep
    | _, _ => keep

def keepFlags : List Bool :=
  let n := replacements.length
  (List.range n).foldl (fun keep i => (List.range n).foldl (markNested replacements i) keep)
    (List.replicate n true)

def removeNestedSpans : List SpanReplacement :=
  if replacements.length < 2 then replacements
  else ((replacements.zip (keepFlags replacements)).filter Prod.snd).map Prod.fst

/-! ### The walk -/

/-- The replacement as an edit of the bytes. -/
def SpanReplacement.edit (s : SpanReplacement) : Edit UInt8 :=
  ⟨s.span.lo.toNat, s.span.hi.toNat, utf8 s.replacement⟩

/-- The bytes with every span replaced. -/
def splicedBytes (src : Text) (spans : List SpanReplacement) : Bytes :=
  splice (spans.map SpanReplacement.edit) (utf8 src)

/-- The spans end within the source and do not overlap. -/
def SpansFit (src : Text) (spans : List SpanReplacement) : Prop :=
  Fits (spans.map SpanReplacement.edit) (utf8 src).length

section Walk

variable {srcBytes : Bytes} {spans : List SpanReplacement}

/-- Each span ends before the cursor, and before the next one begins. -/
structure Descends (spans : List SpanReplacement) (cursor : Nat) : Prop where
  below : ∀ s ∈ spans, s.edit.hi ≤ cursor
  chain : spans.Pairwise fun a b => b.edit.hi ≤ a.edit.lo

theorem takeSpans_ok {cursor : Nat} {chunks : List Bytes} (hlt : ∀ s ∈ spans, s.edit.lo < s.edit.hi)
    (hcursor : cursor ≤ srcBytes.length) (h : Descends spans cursor) :
    ∃ chunks' cursor', takeSpans srcBytes spans chunks cursor = .ok (chunks', cursor') ∧
      (chunks' ++ [srcBytes.take cursor']).reverse.flatten =
        splice (spans.map SpanReplacement.edit) (srcBytes.take cursor) ++
          chunks.reverse.flatten := by
  induction spans generalizing cursor chunks with
  | nil =>
    refine ⟨chunks, cursor, rfl, ?_⟩
    simp
  | cons s spans ih =>
    have hs := h.below s List.mem_cons_self
    obtain ⟨hbefore, hchain⟩ := List.pairwise_cons.mp h.chain
    have hslt := hlt s List.mem_cons_self
    have hrest : ∀ t ∈ spans, t.edit.lo < t.edit.hi :=
      fun t ht => hlt t (List.mem_cons_of_mem s ht)
    obtain ⟨chunks', cursor', hloop, hout⟩ :=
      @ih s.edit.lo (chunks ++ [(srcBytes.take cursor).drop s.edit.hi, s.edit.text]) hrest
        (by omega) ⟨hbefore, hchain⟩
    refine ⟨chunks', cursor', ?_, ?_⟩
    · rw [takeSpans]
      have hvalid : ¬ (s.edit.lo > s.edit.hi ∨ s.edit.hi > srcBytes.length) := by omega
      have hapart : ¬ s.edit.hi > cursor := by omega
      exact (if_neg hvalid).trans ((if_neg hapart).trans hloop)
    · rw [hout, List.map_cons, splice_cons_last _ hslt (by rw [List.length_take]; omega),
        List.take_take, Nat.min_eq_left (by omega)]
      · simp
      · intro d hd
        obtain ⟨t, ht, rfl⟩ := List.mem_map.mp hd
        exact ⟨hrest t ht, hbefore t ht⟩

theorem descends_of_takeSpans {cursor : Nat} {chunks : List Bytes} {r : List Bytes × Nat}
    (hlt : ∀ s ∈ spans, s.edit.lo < s.edit.hi)
    (h : takeSpans srcBytes spans chunks cursor = .ok r) : Descends spans cursor := by
  induction spans generalizing cursor chunks with
  | nil => exact ⟨fun _ hs => absurd hs List.not_mem_nil, List.Pairwise.nil⟩
  | cons s spans ih =>
    have hslt := hlt s List.mem_cons_self
    rw [takeSpans] at h
    by_cases hvalid : s.edit.lo > s.edit.hi ∨ s.edit.hi > srcBytes.length
    · cases (if_pos hvalid).symm.trans h
    · by_cases hapart : s.edit.hi > cursor
      · cases ((if_neg hvalid).trans (if_pos hapart)).symm.trans h
      · have hrest := ih (fun t ht => hlt t (List.mem_cons_of_mem s ht))
          (((if_neg hvalid).trans (if_neg hapart)).symm.trans h)
        refine ⟨?_, List.pairwise_cons.mpr ⟨hrest.below, hrest.chain⟩⟩
        intro t ht
        rcases List.mem_cons.mp ht with rfl | ht
        · omega
        · have hbelow : t.edit.hi ≤ s.edit.lo := hrest.below t ht
          show t.edit.hi ≤ cursor
          omega

/-- Sorted spans that do not overlap come one before the other. -/
theorem descends_sortSpans {n : Nat} (hlt : ∀ s ∈ spans, s.edit.lo < s.edit.hi)
    (h : Fits (spans.map SpanReplacement.edit) n) : Descends (sortSpans spans) n := by
  have hperm : (sortSpans spans).Perm spans := List.mergeSort_perm _ _
  have hsorted := @List.pairwise_mergeSort _
    (fun a b : SpanReplacement => decide (b.span.lo ≤ a.span.lo))
    (fun a b c => by
      simp only [decide_eq_true_eq]
      intro hab hbc
      exact UInt32.le_trans hbc hab)
    (fun a b => by
      simp only [Bool.or_eq_true, decide_eq_true_eq]
      exact UInt32.le_total _ _) spans
  have hfits := h.perm (hperm.map SpanReplacement.edit)
  constructor
  · intro s hs
    exact hfits.within _ (List.mem_map_of_mem hs)
  · have happart := List.pairwise_map.mp hfits.apart
    apply (List.Pairwise.and hsorted happart).imp_of_mem
    intro a b ha hb ⟨hle, hab⟩
    have hlo : b.edit.lo ≤ a.edit.lo := UInt32.le_iff_toNat_le.mp (of_decide_eq_true hle)
    have hlta := hlt a (hperm.mem_iff.mp ha)
    rcases hab with h | h
    · have := hlt b (hperm.mem_iff.mp hb)
      omega
    · exact h

theorem fits_of_descends {n : Nat} (h : Descends (sortSpans spans) n) :
    Fits (spans.map SpanReplacement.edit) n := by
  have hperm : (sortSpans spans).Perm spans := List.mergeSort_perm _ _
  have hsorted : Fits ((sortSpans spans).map SpanReplacement.edit) n := by
    constructor
    · intro e he
      obtain ⟨s, hs, rfl⟩ := List.mem_map.mp he
      exact h.below s hs
    · exact List.pairwise_map.mpr (h.chain.imp fun hab => .inr hab)
  exact hsorted.perm (hperm.map _).symm

end Walk

/-! ### What a patch is -/

section Patch

variable {src : Text} {spans : List SpanReplacement}

/-- Where the spans fit, the bytes are spliced and read as UTF-8. -/
theorem patchFile_of_fits (hlt : ∀ s ∈ spans, s.span.lo < s.span.hi) (h : SpansFit src spans) :
    patchFile src spans = match fromUtf8 (splicedBytes src spans) with
      | some text => .ok text
      | none => .error (.utf8 (splicedBytes src spans)) := by
  have hedit : ∀ s ∈ spans, s.edit.lo < s.edit.hi :=
    fun s hs => UInt32.lt_iff_toNat_lt.mp (hlt s hs)
  by_cases hnil : spans = []
  · subst hnil
    rw [patchFile, if_pos rfl, splicedBytes, List.map_nil, splice_nil, fromUtf8_utf8]
  · have hperm : (sortSpans spans).Perm spans := List.mergeSort_perm _ _
    obtain ⟨chunks, cursor, hloop, hout⟩ := @takeSpans_ok (utf8 src) _ _ []
      (fun s hs => hedit s (hperm.mem_iff.mp hs)) (Nat.le_refl _) (descends_sortSpans hedit h)
    have hsplice : splice ((sortSpans spans).map SpanReplacement.edit) (utf8 src) =
        splicedBytes src spans := by
      apply splice_perm _ h.apart (hperm.map _)
      intro e he
      obtain ⟨s, hs, rfl⟩ := List.mem_map.mp he
      exact hedit s hs
    rw [List.take_length, hsplice, List.reverse_nil, List.flatten_nil, List.append_nil] at hout
    rw [patchFile, if_neg hnil]
    simp only [hloop]
    show (match fromUtf8 (chunks ++ [(utf8 src).take cursor]).reverse.flatten with
      | some text => Except.ok text
      | none => .error (PatchError.utf8 (chunks ++ [(utf8 src).take cursor]).reverse.flatten)) = _
    rw [hout]

theorem fits_of_patchFile {text : Text} (hlt : ∀ s ∈ spans, s.span.lo < s.span.hi)
    (h : patchFile src spans = .ok text) : SpansFit src spans := by
  have hedit : ∀ s ∈ spans, s.edit.lo < s.edit.hi :=
    fun s hs => UInt32.lt_iff_toNat_lt.mp (hlt s hs)
  by_cases hnil : spans = []
  · subst hnil
    exact ⟨fun _ he => absurd he List.not_mem_nil, List.Pairwise.nil⟩
  · have hperm : (sortSpans spans).Perm spans := List.mergeSort_perm _ _
    rw [patchFile, if_neg hnil] at h
    match hloop : takeSpans (utf8 src) (sortSpans spans) [] (utf8 src).length with
    | .error e =>
      simp only [hloop] at h
      cases h
    | .ok r =>
      exact fits_of_descends (descends_of_takeSpans
        (fun s hs => hedit s (hperm.mem_iff.mp hs)) hloop)

/-- A patch succeeds exactly when the spans fit and the spliced bytes are UTF-8, and then
    it is the text of these bytes. -/
theorem patchFile_eq_ok_iff {text : Text} (hlt : ∀ s ∈ spans, s.span.lo < s.span.hi) :
    patchFile src spans = .ok text ↔
      SpansFit src spans ∧ fromUtf8 (splicedBytes src spans) = some text := by
  constructor
  · intro h
    have hfits := fits_of_patchFile hlt h
    refine ⟨hfits, ?_⟩
    rw [patchFile_of_fits hlt hfits] at h
    match hbytes : fromUtf8 (splicedBytes src spans) with
    | some t =>
      simp only [hbytes, Except.ok.injEq] at h
      rw [h]
    | none =>
      simp only [hbytes] at h
      cases h
  · intro ⟨hfits, hbytes⟩
    rw [patchFile_of_fits hlt hfits, hbytes]

end Patch

/-! ### Nested spans -/

section Nested

variable {replacements : List SpanReplacement}

/-- Some span of the list lies strictly within this one. -/
def nests (replacements : List SpanReplacement) (a : SpanReplacement) : Bool :=
  replacements.any fun b => a.span.strictlyContains b.span

/-- The test at two places. -/
def nestedAt (replacements : List SpanReplacement) (i j : Nat) : Bool :=
  match replacements[i]?, replacements[j]? with
  | some a, some b => a.span.strictlyContains b.span
  | _, _ => false

theorem strictlyContains_irrefl (a : SpanRange) : a.strictlyContains a = false := by
  simp [SpanRange.strictlyContains]

theorem strictlyContains_iff (a b : SpanRange) :
    a.strictlyContains b = true ↔ a.lo ≤ b.lo ∧ b.hi ≤ a.hi ∧ a ≠ b := by
  rw [SpanRange.strictlyContains, decide_eq_true_eq]
  apply and_congr_right
  intro hlo
  apply and_congr_right
  intro hhi
  rw [UInt32.le_iff_toNat_le] at hlo hhi
  have hne : a ≠ b ↔ ¬ (a.lo.toNat = b.lo.toNat ∧ a.hi.toNat = b.hi.toNat) := by
    rw [UInt32.toNat_inj, UInt32.toNat_inj]
    obtain ⟨alo, ahi⟩ := a
    obtain ⟨blo, bhi⟩ := b
    rw [ne_eq, SpanRange.mk.injEq]
  rw [hne, UInt32.lt_iff_toNat_lt, UInt32.lt_iff_toNat_lt]
  omega

/-- Leaving out a place's test against itself makes no difference. -/
theorem markNested_eq (i : Nat) (keep : List Bool) (j : Nat) :
    markNested replacements i keep j =
      if nestedAt replacements i j then keep.set i false else keep := by
  rw [markNested]
  by_cases hij : i = j
  · subst hij
    have hself : nestedAt replacements i i = false := by
      rw [nestedAt]
      cases replacements[i]? with
      | none => rfl
      | some a => exact strictlyContains_irrefl a.span
    rw [if_pos rfl, hself, if_neg Bool.false_ne_true]
  · rw [if_neg hij, nestedAt]
    cases replacements[i]? with
    | none => rfl
    | some a =>
      cases replacements[j]? with
      | none => rfl
      | some b => rfl

theorem foldl_markNested (i : Nat) (js : List Nat) (keep : List Bool) :
    js.foldl (markNested replacements i) keep =
      if js.any (nestedAt replacements i) then keep.set i false else keep := by
  induction js generalizing keep with
  | nil => rfl
  | cons j js ih =>
    rw [List.foldl_cons, ih, markNested_eq, List.any_cons]
    by_cases hj : nestedAt replacements i j
    · rw [if_pos hj, hj, Bool.true_or, if_pos rfl, List.set_set, ite_self]
    · have hfalse : nestedAt replacements i j = false := Bool.eq_false_iff.mpr hj
      rw [if_neg hj, hfalse, Bool.false_or]

theorem getElem?_foldl_set (p : Nat → Bool) (is : List Nat) (keep : List Bool) (k : Nat) :
    (is.foldl (fun keep i => if p i then keep.set i false else keep) keep)[k]? =
      (keep[k]?).map fun b => b && !(decide (k ∈ is) && p k) := by
  induction is generalizing keep with
  | nil => simp
  | cons i is ih =>
    rw [List.foldl_cons, ih]
    by_cases hp : p i
    · by_cases hki : i = k
      · subst hki
        rw [if_pos hp, hp, List.getElem?_set, if_pos rfl]
        by_cases hlt : i < keep.length
        · rw [if_pos hlt, List.getElem?_eq_getElem hlt]
          simp
        · rw [if_neg hlt, List.getElem?_eq_none (Nat.not_lt.mp hlt)]
          rfl
      · have hmem : (k ∈ i :: is) ↔ k ∈ is := by
          simp [Ne.symm hki]
        rw [if_pos hp, List.getElem?_set_ne hki]
        simp only [hmem]
    · by_cases hki : i = k
      · subst hki
        simp [hp]
      · have hmem : (k ∈ i :: is) ↔ k ∈ is := by
          simp [Ne.symm hki]
        rw [if_neg hp]
        simp only [hmem]

theorem any_nestedAt {k : Nat} {a : SpanReplacement} (hk : replacements[k]? = some a) :
    (List.range replacements.length).any (nestedAt replacements k) = nests replacements a := by
  rw [Bool.eq_iff_iff, List.any_eq_true, nests, List.any_eq_true]
  constructor
  · intro ⟨j, hj, hnested⟩
    have hget := List.getElem?_eq_getElem (List.mem_range.mp hj)
    rw [nestedAt, hk, hget] at hnested
    exact ⟨_, List.mem_of_getElem? hget, hnested⟩
  · intro ⟨b, hb, hnested⟩
    obtain ⟨j, hj⟩ := List.getElem?_of_mem hb
    refine ⟨j, List.mem_range.mpr (List.getElem?_eq_some_iff.mp hj).1, ?_⟩
    rw [nestedAt, hk, hj]
    exact hnested

theorem keepFlags_eq (replacements : List SpanReplacement) :
    keepFlags replacements = replacements.map fun a => !nests replacements a := by
  apply List.ext_getElem?
  intro k
  have hrows : keepFlags replacements = (List.range replacements.length).foldl
      (fun keep i => if (List.range replacements.length).any (nestedAt replacements i)
        then keep.set i false else keep) (List.replicate replacements.length true) := by
    rw [keepFlags]
    simp only [foldl_markNested]
  rw [hrows, getElem?_foldl_set, List.getElem?_map]
  by_cases hk : k < replacements.length
  · have hget := List.getElem?_eq_getElem hk
    rw [any_nestedAt hget, hget, List.getElem?_replicate, if_pos hk]
    simp [hk]
  · rw [List.getElem?_eq_none (Nat.not_lt.mp hk), List.getElem?_replicate, if_neg hk]
    rfl

theorem filter_zip_map (keep : SpanReplacement → Bool) (spans : List SpanReplacement) :
    ((spans.zip (spans.map keep)).filter Prod.snd).map Prod.fst = spans.filter keep := by
  induction spans with
  | nil => rfl
  | cons s spans ih =>
    rw [List.map_cons, List.zip_cons_cons]
    by_cases hs : keep s
    · have hpair : Prod.snd (s, keep s) = true := hs
      rw [List.filter_cons_of_pos hpair, List.filter_cons_of_pos hs, List.map_cons, ih]
    · have hpair : ¬ Prod.snd (s, keep s) = true := hs
      rw [List.filter_cons_of_neg hpair, List.filter_cons_of_neg hs, ih]

/-- What is kept are the spans that contain no other span of the list strictly. -/
theorem removeNestedSpans_eq (replacements : List SpanReplacement) :
    removeNestedSpans replacements = replacements.filter fun a => !nests replacements a := by
  rw [removeNestedSpans]
  by_cases hsmall : replacements.length < 2
  · rw [if_pos hsmall]
    symm
    apply List.filter_eq_self.mpr
    intro a ha
    have hall : ∀ b ∈ replacements, a.span.strictlyContains b.span = false := by
      intro b hb
      match replacements, hsmall with
      | [c], _ =>
        rw [List.mem_singleton.mp ha, List.mem_singleton.mp hb]
        exact strictlyContains_irrefl c.span
    rw [Bool.not_eq_true', nests, List.any_eq_false]
    intro b hb
    rw [hall b hb]
    exact Bool.false_ne_true
  · rw [if_neg hsmall, keepFlags_eq, filter_zip_map]

end Nested

/-! ### The patched file -/

/-- A patch replaces the spans and nothing else, whatever their order, or fails because
    they do not fit or the bytes are not UTF-8; and of nested spans the inner ones stay. -/
theorem patch_file_splices (src : Text) (spans : List SpanReplacement)
    (hspans : ∀ s ∈ spans, s.span.lo < s.span.hi) :
    ((∃ text, patchFile src spans = .ok text) ↔
      (∀ s ∈ spans, s.span.hi.toNat ≤ (utf8 src).length) ∧
      spans.Pairwise (fun a b => a.span.hi ≤ b.span.lo ∨ b.span.hi ≤ a.span.lo) ∧
      ∃ text, fromUtf8 (splicedBytes src spans) = some text) ∧
    (∀ text, patchFile src spans = .ok text → utf8 text = splicedBytes src spans) ∧
    (∀ spans', spans'.Perm spans →
      (patchFile src spans').toOption = (patchFile src spans).toOption) ∧
    removeNestedSpans spans = spans.filter fun a => decide (¬ ∃ b ∈ spans,
      a.span.lo ≤ b.span.lo ∧ b.span.hi ≤ a.span.hi ∧ a.span ≠ b.span) := by
  refine ⟨?_, ?_, ?_, ?_⟩
  · have hfits : SpansFit src spans ↔ (∀ s ∈ spans, s.span.hi.toNat ≤ (utf8 src).length) ∧
        spans.Pairwise (fun a b => a.span.hi ≤ b.span.lo ∨ b.span.hi ≤ a.span.lo) := by
      constructor
      · intro h
        refine ⟨fun s hs => h.within _ (List.mem_map_of_mem hs), ?_⟩
        apply (List.pairwise_map.mp h.apart).imp
        intro a b hab
        exact hab.imp UInt32.le_iff_toNat_le.mpr UInt32.le_iff_toNat_le.mpr
      · intro ⟨hwithin, hapart⟩
        refine ⟨?_, List.pairwise_map.mpr (hapart.imp ?_)⟩
        · intro e he
          obtain ⟨s, hs, rfl⟩ := List.mem_map.mp he
          exact hwithin s hs
        · intro a b hab
          exact hab.imp UInt32.le_iff_toNat_le.mp UInt32.le_iff_toNat_le.mp
    simp only [patchFile_eq_ok_iff hspans, hfits, exists_and_left, and_assoc]
  · intro text h
    exact utf8_of_fromUtf8 ((patchFile_eq_ok_iff hspans).mp h).2
  · intro spans' hperm
    have hspans' : ∀ s ∈ spans', s.span.lo < s.span.hi :=
      fun s hs => hspans s (hperm.mem_iff.mp hs)
    have hiff : ∀ text, patchFile src spans' = .ok text ↔ patchFile src spans = .ok text := by
      intro text
      rw [patchFile_eq_ok_iff hspans', patchFile_eq_ok_iff hspans]
      have hfits : SpansFit src spans' ↔ SpansFit src spans :=
        ⟨fun h => h.perm (hperm.symm.map _), fun h => h.perm (hperm.map _)⟩
      rw [hfits]
      apply and_congr_right
      intro h
      have hsplice : splicedBytes src spans' = splicedBytes src spans := by
        apply splice_perm _ h.apart (hperm.map _)
        intro e he
        obtain ⟨s, hs, rfl⟩ := List.mem_map.mp he
        exact UInt32.lt_iff_toNat_lt.mp (hspans s hs)
      rw [hsplice]
    cases h : patchFile src spans with
    | ok text => rw [(hiff text).mpr h]
    | error e =>
      cases h' : patchFile src spans' with
      | ok text => rw [(hiff text).mp h'] at h; cases h
      | error e' => rfl
  · rw [removeNestedSpans_eq]
    apply List.filter_congr
    intro a _
    rw [Bool.eq_iff_iff, Bool.not_eq_true', nests, List.any_eq_false, decide_eq_true_eq,
      not_exists]
    apply forall_congr'
    intro b
    rw [not_and]
    apply imp_congr_right
    intro _
    rw [strictlyContains_iff]

/-- Two adjacent spans out of order, and one that contains the first. -/
theorem patch_file_splices_adjacent :
    let src : Text := "abcdef".toList
    let spans : List SpanReplacement :=
      [⟨⟨3, 5⟩, "Y".toList⟩, ⟨⟨1, 3⟩, "XX".toList⟩]
    (∃ text, patchFile src spans = .ok text) ∧ splicedBytes src spans = utf8 "aXXYf".toList ∧
      removeNestedSpans (⟨⟨2, 5⟩, []⟩ :: spans) = spans := by
  intro src spans
  have hsplice : splicedBytes src spans = utf8 "aXXYf".toList := by decide
  have h := patch_file_splices src spans (by decide)
  refine ⟨h.1.mpr ⟨by decide, by decide, "aXXYf".toList, ?_⟩, hsplice, ?_⟩
  · rw [hsplice, fromUtf8_utf8]
  · have hnested := (patch_file_splices src (⟨⟨2, 5⟩, []⟩ :: spans) (by decide)).2.2.2
    rw [hnested]
    decide

end Canon.Editor
