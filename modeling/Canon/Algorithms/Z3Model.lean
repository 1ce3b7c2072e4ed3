import Mathlib.Data.List.Nodup
import Canon.Algorithms.Sat
import Canon.Lib.Decimal

/-! # The solver on the command line

    `solve`, `build_smt2` and `parse_z3_model` of `constraints/sat.rs`.  The formula is sent as
    text, and the model is found in the printed answer by the definition of each variable.

    * `buildSmt2`, `parseZ3Model`, `solve`: the functions of the source; the command is a
      parameter,
    * `Entry`, `Answer`: the standard printed form of an answer,
    * `readSlot_found`, `readSlot_entries`: what is found of one definition, and of all of them,
    * `solve_eq`: the values that are read.
-/

namespace Canon.Algorithms.Z3Model

open Canon.Algorithms.Sat

/-! ### Model -/

def literal (lit : Lit) : Text :=
  if lit.negated then " (not x" ++ (Text.ofNat lit.var ++ ")") else " x" ++ Text.ofNat lit.var

def assertion : List Lit → Text
  | [] => "(assert false)\n"
  | clause => "(assert (or" ++ (clause.flatMap literal ++ "))\n")

def declaration (i : Nat) : Text := "(declare-fun x" ++ (Text.ofNat i ++ " () Bool)\n")

def buildSmt2 (cnf : Cnf) : Text :=
  "(set-logic QF_BOOL)\n" ++ ((List.range cnf.numVars).flatMap declaration ++
    (cnf.clauses.flatMap assertion ++ "(check-sat)\n(get-model)\n"))

/-- The line breaks of a text as blanks. -/
def blanks (s : Text) : Text := s.map fun c => if c = '\n' then ' ' else c

def needle (i : Nat) : Text := "(define-fun x" ++ (Text.ofNat i ++ " () Bool ")

/-- The value of one variable; false where its definition is not found. -/
def readSlot (all : Text) (i : Nat) : Bool :=
  match Text.find? (needle i) all with
  | some pos => Text.startsWith "true" (all.drop (pos + (needle i).length))
  | none => false

def parseZ3Model (out : Text) (numVars : Nat) : Option (List Bool) := do
  let line ← (Text.lines out).head?
  let status := Text.trim line
  if status = ("unsat" : Text) then none
  else if status ≠ ("sat" : Text) then none
  else pure ((List.range numVars).map (readSlot (blanks out)))

/-- The command answers a text with a text, or with nothing when it cannot be run or fails. -/
def solveWithZ3Cli (z3 : Text → Option Text) (cnf : Cnf) : Option (List Bool) := do
  let text ← z3 (buildSmt2 cnf)
  parseZ3Model text cnf.numVars

def solve (z3 : Text → Option Text) (cnf : Cnf) : Option (Option (List Bool)) :=
  match solveWithZ3Cli z3 cnf with
  | some model => some (some model)
  | none => solveWithDpll cnf

/-! ### The printed form -/

/-- The definition of a variable, with the white space in front of it and in front of its
    value. -/
structure Entry where
  before : Text
  var : Nat
  space : Text
  value : Bool
deriving DecidableEq, Repr

def stem (i : Nat) : Text := "(define-fun x" ++ (Text.ofNat i ++ " () Bool")

def Entry.print (e : Entry) : Text :=
  e.before ++ (stem e.var ++ (e.space ++ (Text.ofBool e.value ++ ")")))

structure Entry.Spaced (e : Entry) : Prop where
  before : ∀ c ∈ e.before, Text.isWhitespace c = true
  space : ∀ c ∈ e.space, Text.isWhitespace c = true
  nonempty : e.space ≠ []

/-- One blank or one line break, the white space after which a value is read. -/
def Entry.Legible (e : Entry) : Prop := e.space = [' '] ∨ e.space = ['\n']

instance (e : Entry) : Decidable e.Legible := inferInstanceAs (Decidable (_ ∨ _))

/-- An answer that gives every variable one value. -/
structure Answer (numVars : Nat) where
  entries : List Entry
  vars : (entries.map Entry.var).Perm (List.range numVars)
  spaced : ∀ e ∈ entries, e.Spaced

def printAll (entries : List Entry) : Text := entries.flatMap Entry.print ++ "\n)\n"

def Answer.text {numVars : Nat} (answer : Answer numVars) : Text :=
  "sat\n(" ++ printAll answer.entries

def Answer.value {numVars : Nat} (answer : Answer numVars) (var : Nat) : Bool :=
  answer.entries.any fun e => e.var == var && e.value

/-- The values with every value behind other white space taken as false. -/
def Answer.legible {numVars : Nat} (answer : Answer numVars) (var : Nat) : Bool :=
  answer.entries.any fun e => e.var == var && (e.value && decide e.Legible)

/-! ### Looking for one definition -/

section Search

variable {i j : Nat} {s t : Text}

theorem head_eq : ("(define-fun x" : Text) = '(' :: "define-fun x".toList := by simp

theorem type_eq : (" () Bool" : Text) = ' ' :: '(' :: ')' :: " Bool".toList := by simp

theorem needle_eq : needle i =
    '(' :: 'd' :: ("efine-fun x".toList ++ (Text.ofNat i ++ " () Bool ")) := by
  have hname : ("define-fun x" : Text) = 'd' :: "efine-fun x".toList := by simp
  unfold needle
  rw [head_eq, hname, List.cons_append, List.cons_append]

theorem readSlot_cons {c : Char} (h : ¬ needle i <+: c :: s) :
    readSlot (c :: s) i = readSlot s i := by
  have hnot : ¬ (needle i).isPrefixOf (c :: s) = true := by
    rw [List.isPrefixOf_iff_prefix]
    exact h
  rw [readSlot, readSlot, Text.find?, if_neg hnot]
  cases Text.find? (needle i) s with
  | none => rfl
  | some pos =>
    show Text.startsWith _ ((c :: s).drop (pos + 1 + (needle i).length)) = _
    rw [Nat.add_right_comm, List.drop_succ_cons]

theorem readSlot_needle : readSlot (needle i ++ s) i = Text.startsWith "true" s := by
  have hfind : Text.find? (needle i) (needle i ++ s) = some 0 := by
    have hprefix : (needle i).isPrefixOf (needle i ++ s) = true :=
      List.isPrefixOf_iff_prefix.mpr (List.prefix_append _ _)
    rw [needle_eq, List.cons_append] at hprefix ⊢
    rw [Text.find?, if_pos hprefix]
  rw [readSlot, hfind]
  show Text.startsWith _ ((needle i ++ s).drop (0 + (needle i).length)) = _
  rw [Nat.zero_add, List.drop_left]

/-- A definition is found at a parenthesis only. -/
theorem readSlot_append (h : '(' ∉ t) : readSlot (t ++ s) i = readSlot s i := by
  induction t with
  | nil => rfl
  | cons c t ih =>
    have hfirst : ¬ needle i <+: c :: (t ++ s) := by
      intro hprefix
      rw [needle_eq, List.cons_prefix_cons] at hprefix
      exact h (List.mem_cons.mpr (.inl hprefix.1))
    rw [List.cons_append, readSlot_cons hfirst]
    exact ih fun hmem => h (List.mem_cons_of_mem c hmem)

theorem readSlot_of_not_mem (h : '(' ∉ s) : readSlot s i = false := by
  have happend := readSlot_append (s := []) (i := i) h
  rw [List.append_nil] at happend
  rw [happend]
  rfl

theorem readSlot_paren {c : Char} (h : 'd' ≠ c) :
    readSlot ('(' :: c :: s) i = readSlot (c :: s) i := by
  apply readSlot_cons
  intro hprefix
  rw [needle_eq, List.cons_prefix_cons, List.cons_prefix_cons] at hprefix
  exact h hprefix.2.1

theorem stem_append_blank : stem i ++ ' ' :: s = needle i ++ s := by
  have hblank : (" () Bool " : Text) = (" () Bool" : Text) ++ [' '] := by simp
  unfold stem needle
  rw [hblank]
  simp only [List.append_assoc, List.singleton_append]

/-- `x1` and `x10` differ at the blank behind the number. -/
theorem needle_prefix_stem (h : needle i <+: stem j ++ s) : i = j ∧ ∃ t, s = ' ' :: t := by
  obtain ⟨t, ht⟩ := h
  rw [← stem_append_blank] at ht
  unfold stem at ht
  simp only [List.append_assoc] at ht
  have hnumber := List.append_cancel_left ht
  rw [type_eq, List.cons_append, List.cons_append] at hnumber
  obtain ⟨hij, hrest⟩ :=
    Text.ofNat_append_inj (show (' ' : Char).isDigit = false by decide) hnumber
  have hspace : '(' :: ')' :: " Bool".toList ++ ' ' :: t = '(' :: ')' :: " Bool".toList ++ s :=
    hrest
  exact ⟨hij, t, (List.append_cancel_left hspace).symm⟩

theorem stem_eq : stem j = '(' :: (("define-fun x".toList ++ (Text.ofNat j ++ [' '])) ++
    '(' :: ')' :: " Bool".toList) := by
  unfold stem
  rw [head_eq, type_eq, List.append_assoc, List.append_assoc]
  rfl

theorem paren_not_mem_ofNat : '(' ∉ Text.ofNat j := by
  intro hmem
  have hdigit := Text.isDigit_of_mem_ofNat hmem
  revert hdigit
  decide

/-- The definition of another variable, and one whose value stands behind other white space. -/
theorem readSlot_stem (h : ¬ (i = j ∧ ∃ t, s = ' ' :: t)) :
    readSlot (stem j ++ s) i = readSlot s i := by
  have hfirst : ¬ needle i <+: stem j ++ s := fun hprefix => h (needle_prefix_stem hprefix)
  rw [stem_eq, List.cons_append] at hfirst ⊢
  have hname : '(' ∉ "define-fun x".toList ++ (Text.ofNat j ++ [' ']) := by
    rw [List.mem_append, List.mem_append]
    intro hmem
    rcases hmem with hmem | hmem | hmem
    · revert hmem
      decide
    · exact paren_not_mem_ofNat hmem
    · revert hmem
      decide
  rw [readSlot_cons hfirst, List.append_assoc, readSlot_append hname, List.cons_append,
    List.cons_append, readSlot_paren (by decide)]
  exact readSlot_append (t := ')' :: " Bool".toList) (by decide)

end Search

/-! ### Looking through the definitions -/

section Entries

variable {i : Nat} {e : Entry} {entries : List Entry} {s t : Text}

theorem blanks_append : blanks (s ++ t) = blanks s ++ blanks t := List.map_append

theorem blanks_eq_self (h : '\n' ∉ s) : blanks s = s := by
  unfold blanks
  conv_rhs => rw [← List.map_id s]
  apply List.map_congr_left
  intro c hc
  have hne : c ≠ '\n' := fun heq => h (heq ▸ hc)
  rw [if_neg hne]
  rfl

theorem blank_space {c : Char} (h : Text.isWhitespace c = true) :
    Text.isWhitespace (if c = '\n' then ' ' else c) = true := by
  split
  · decide
  · exact h

theorem blanks_space (h : ∀ c ∈ s, Text.isWhitespace c = true) :
    ∀ c ∈ blanks s, Text.isWhitespace c = true := by
  intro c hc
  obtain ⟨d, hd, rfl⟩ := List.mem_map.mp hc
  exact blank_space (h d hd)

theorem not_mem_of_space {c : Char} (hc : Text.isWhitespace c = false)
    (h : ∀ d ∈ s, Text.isWhitespace d = true) : c ∉ s := by
  intro hmem
  rw [h c hmem] at hc
  exact Bool.noConfusion hc

theorem blanks_stem : blanks (stem i) = stem i := by
  apply blanks_eq_self
  rw [stem_eq]
  intro hmem
  rw [List.mem_cons, List.mem_append, List.mem_append, List.mem_append] at hmem
  rcases hmem with hmem | (hmem | hmem | hmem) | hmem
  · revert hmem
    decide
  · revert hmem
    decide
  · have hdigit := Text.isDigit_of_mem_ofNat hmem
    revert hdigit
    decide
  · revert hmem
    decide
  · revert hmem
    decide

/-- The value and what closes the definition. -/
def tail (value : Bool) : Text := Text.ofBool value ++ ")"

theorem tail_eq (value : Bool) :
    tail value = if value then "true)".toList else "false)".toList := by
  cases value with
  | false => simp [tail, Text.ofBool]
  | true => simp [tail, Text.ofBool]

theorem blanks_tail (value : Bool) : blanks (tail value) = tail value := by
  apply blanks_eq_self
  rw [tail_eq]
  cases value with
  | false => decide
  | true => decide

theorem paren_not_mem_tail (value : Bool) : '(' ∉ tail value := by
  rw [tail_eq]
  cases value with
  | false => decide
  | true => decide

theorem startsWith_tail (value : Bool) : Text.startsWith "true" (tail value ++ s) = value := by
  rw [tail_eq]
  cases value with
  | false => simp [Text.startsWith, List.isPrefixOf]
  | true => simp [Text.startsWith]

theorem blanks_print :
    blanks e.print = blanks e.before ++ (stem e.var ++ (blanks e.space ++ tail e.value)) := by
  show blanks (e.before ++ (stem e.var ++ (e.space ++ tail e.value))) = _
  rw [blanks_append, blanks_append, blanks_append, blanks_stem, blanks_tail]

theorem legible_of_blanks (h : blanks e.space = [' ']) : e.Legible := by
  obtain ⟨c, hc, hblank⟩ := List.map_eq_singleton_iff.mp h
  by_cases hfeed : c = '\n'
  · rw [hfeed] at hc
    exact .inr hc
  · rw [if_neg hfeed] at hblank
    rw [hblank] at hc
    exact .inl hc

theorem blanks_of_legible (h : e.Legible) : blanks e.space = [' '] := by
  rcases h with h | h
  · rw [h]
    rfl
  · rw [h]
    rfl

/-- The value behind the blank that the needle ends with. -/
theorem startsWith_value (hspaced : e.Spaced) (hspace : blanks e.space = ' ' :: t) :
    Text.startsWith "true" (t ++ (tail e.value ++ s)) = (e.value && decide e.Legible) := by
  cases t with
  | nil =>
    rw [List.nil_append, startsWith_tail, decide_eq_true (legible_of_blanks hspace),
      Bool.and_true]
  | cons c t =>
    have hnot : ¬ e.Legible := by
      intro hlegible
      rw [blanks_of_legible hlegible] at hspace
      exact List.cons_ne_nil c t (List.cons.inj hspace).2.symm
    have hc : Text.isWhitespace c = true := by
      apply blanks_space hspaced.space
      rw [hspace]
      exact List.mem_cons_of_mem _ List.mem_cons_self
    have hne : 't' ≠ c := by
      intro heq
      rw [← heq] at hc
      revert hc
      decide
    rw [decide_eq_false hnot, Bool.and_false]
    simp [Text.startsWith, List.isPrefixOf, hne]

theorem readSlot_found (hspaced : e.Spaced) (hspace : blanks e.space = ' ' :: t) :
    readSlot (blanks e.print ++ s) e.var = (e.value && decide e.Legible) := by
  have hbefore : '(' ∉ blanks e.before :=
    not_mem_of_space (by decide) (blanks_space hspaced.before)
  rw [blanks_print, List.append_assoc, readSlot_append hbefore, hspace, List.append_assoc,
    List.cons_append, List.cons_append, stem_append_blank, readSlot_needle, List.append_assoc]
  exact startsWith_value hspaced hspace

theorem readSlot_other (hspaced : e.Spaced)
    (h : ¬ (i = e.var ∧ ∃ t, blanks e.space = ' ' :: t)) :
    readSlot (blanks e.print ++ s) i = readSlot s i := by
  have hbefore : '(' ∉ blanks e.before :=
    not_mem_of_space (by decide) (blanks_space hspaced.before)
  have hspace : '(' ∉ blanks e.space := not_mem_of_space (by decide) (blanks_space hspaced.space)
  have hstem : ¬ (i = e.var ∧ ∃ t, blanks e.space ++ (tail e.value ++ s) = ' ' :: t) := by
    intro ⟨hi, t, ht⟩
    apply h
    refine ⟨hi, ?_⟩
    cases hcases : blanks e.space with
    | nil => exact absurd (List.map_eq_nil_iff.mp hcases) hspaced.nonempty
    | cons c u =>
      rw [hcases, List.cons_append] at ht
      rw [(List.cons.inj ht).1]
      exact ⟨u, rfl⟩
  rw [blanks_print, List.append_assoc, readSlot_append hbefore, List.append_assoc,
    List.append_assoc, readSlot_stem hstem, readSlot_append hspace,
    readSlot_append (paren_not_mem_tail _)]

theorem readSlot_entries (hspaced : ∀ e ∈ entries, e.Spaced)
    (hnodup : (entries.map Entry.var).Nodup) :
    readSlot (blanks (printAll entries)) i =
      entries.any fun e => e.var == i && (e.value && decide e.Legible) := by
  induction entries with
  | nil => exact readSlot_of_not_mem (by decide)
  | cons e entries ih =>
    have he := hspaced e List.mem_cons_self
    rw [List.map_cons, List.nodup_cons] at hnodup
    have hrest := ih (fun e h => hspaced e (List.mem_cons_of_mem _ h)) hnodup.2
    have hsplit : blanks (printAll (e :: entries)) =
        blanks e.print ++ blanks (printAll entries) := by
      rw [printAll, List.flatMap_cons, List.append_assoc, blanks_append]
      rfl
    rw [hsplit, List.any_cons]
    by_cases hfound : i = e.var ∧ ∃ t, blanks e.space = ' ' :: t
    -- the first definition is the one, and no other defines the variable again
    · obtain ⟨rfl, t, ht⟩ := hfound
      have hothers : (entries.any fun e' => e'.var == e.var && (e'.value && decide e'.Legible)) =
          false := by
        rw [List.any_eq_false]
        intro e' he' htrue
        rw [Bool.and_eq_true, beq_iff_eq] at htrue
        exact hnodup.1 (List.mem_map.mpr ⟨e', he', htrue.1⟩)
      rw [readSlot_found he ht, hothers, Bool.or_false, beq_self_eq_true, Bool.true_and]
    · have hfirst : (e.var == i && (e.value && decide e.Legible)) = false := by
        by_cases hvar : e.var = i
        · have hnot : ¬ e.Legible := fun hlegible =>
            hfound ⟨hvar.symm, [], blanks_of_legible hlegible⟩
          rw [decide_eq_false hnot, Bool.and_false, Bool.and_false]
        · rw [beq_false_of_ne hvar, Bool.false_and]
      rw [readSlot_other he hfound, hfirst, Bool.false_or, hrest]

theorem printAll_head (hspaced : ∀ e ∈ entries, e.Spaced) :
    ∃ c s, blanks (printAll entries) = c :: s ∧ 'd' ≠ c := by
  cases entries with
  | nil => exact ⟨' ', [')', ' '], by decide, by decide⟩
  | cons e entries =>
    rw [printAll, List.flatMap_cons, List.append_assoc, blanks_append, blanks_print]
    cases hbefore : blanks e.before with
    | nil =>
      rw [List.nil_append, stem_eq]
      exact ⟨'(', _, rfl, by decide⟩
    | cons c u =>
      refine ⟨c, _, rfl, ?_⟩
      intro heq
      have hc := blanks_space (hspaced e List.mem_cons_self).before c
        (by rw [hbefore]; exact List.mem_cons_self)
      rw [← heq] at hc
      revert hc
      decide

end Entries

/-! ### The model that is read -/

section Solve

variable {n : Nat} {answer : Answer n}

theorem readSlot_text (i : Nat) : readSlot (blanks answer.text) i = answer.legible i := by
  have hnodup : (answer.entries.map Entry.var).Nodup := answer.vars.nodup_iff.mpr List.nodup_range
  obtain ⟨c, s, hhead, hne⟩ := printAll_head answer.spaced
  have hblanks : blanks ("sat\n(" : Text) = "sat ".toList ++ ['('] := by
    simp [blanks]
  rw [Answer.text, blanks_append, hblanks, List.append_assoc, readSlot_append (by decide), hhead,
    List.singleton_append, readSlot_paren hne, ← hhead, readSlot_entries answer.spaced hnodup]
  rfl

theorem status_text : (Text.lines answer.text).head? = some ("sat" : Text) := by
  have hsplit : answer.text.splitOn '\n' =
      "sat".toList :: ('(' :: printAll answer.entries).splitOn '\n' := by
    have hstart : ("sat\n(" : Text) = "sat".toList ++ ['\n', '('] := by simp
    rw [Answer.text, hstart, List.append_assoc]
    exact List.splitOnP_append_cons_of_forall_mem (by simp) _ (by decide) _
  obtain ⟨part, parts, hparts⟩ :=
    List.exists_cons_of_ne_nil (List.splitOn_ne_nil '\n' ('(' :: printAll answer.entries))
  rw [Text.lines, hsplit, hparts, List.dropLast_cons_cons, List.map_cons, List.cons_append,
    List.head?_cons]
  decide

theorem parse_text (numVars : Nat) : parseZ3Model answer.text numVars =
    some ((List.range numVars).map answer.legible) := by
  rw [parseZ3Model, status_text, Option.bind_eq_bind, Option.bind_some]
  have htrim : Text.trim "sat" = "sat" := by decide
  simp only [htrim]
  rw [if_neg (by decide), if_neg (by decide)]
  exact congrArg some (List.map_congr_left fun i _ => readSlot_text i)

end Solve

/-! ### What is solved -/

section Reading

variable {n : Nat}

theorem Answer.legible_eq_value {answer : Answer n}
    (h : ∀ e ∈ answer.entries, e.value = true → e.Legible) : answer.legible = answer.value := by
  funext i
  have hentry : ∀ e ∈ answer.entries,
      (e.var == i && (e.value && decide e.Legible)) = (e.var == i && e.value) := by
    intro e he
    cases hvalue : e.value with
    | false => rfl
    | true => rw [decide_eq_true (h e he hvalue), Bool.and_true]
  rw [Bool.eq_iff_iff]
  simp only [Answer.legible, Answer.value, List.any_eq_true]
  constructor
  · intro ⟨e, he, htrue⟩
    exact ⟨e, he, by rw [← hentry e he]; exact htrue⟩
  · intro ⟨e, he, htrue⟩
    exact ⟨e, he, by rw [hentry e he]; exact htrue⟩

theorem Answer.var_lt {answer : Answer n} {e : Entry} (he : e ∈ answer.entries) : e.var < n :=
  List.mem_range.mp (answer.vars.mem_iff.mp (List.mem_map_of_mem he))

theorem Answer.legible_of_le {answer : Answer n} {i : Nat} (h : n ≤ i) :
    answer.legible i = false := by
  rw [Bool.eq_false_iff]
  intro htrue
  obtain ⟨e, he, hvar⟩ := List.any_eq_true.mp htrue
  rw [Bool.and_eq_true, beq_iff_eq] at hvar
  have hlt := answer.var_lt he
  omega

theorem valuesOf_read (answer : Answer n) :
    valuesOf ((List.range n).map answer.legible) = answer.legible := by
  funext i
  rw [valuesOf, List.getD_eq_getElem?_getD, List.getElem?_map]
  by_cases hi : i < n
  · rw [List.getElem?_range hi]
    rfl
  · rw [List.getElem?_eq_none (by rw [List.length_range]; omega),
      answer.legible_of_le (by omega)]
    rfl

theorem solve_eq {z3 : Text → Option Text} {cnf : Cnf} {answer : Answer n}
    (hvars : cnf.numVars = n) (hanswer : z3 (buildSmt2 cnf) = some answer.text) :
    solve z3 cnf = some (some ((List.range n).map answer.legible)) := by
  rw [solve, solveWithZ3Cli, hanswer, Option.bind_eq_bind, Option.bind_some, parse_text, hvars]

/-- What `solve` returns satisfies the formula. -/
def Solved (z3 : Text → Option Text) (cnf : Cnf) : Prop :=
  ∃ model, solve z3 cnf = some (some model) ∧ model.length = cnf.numVars ∧
    Satisfies cnf (valuesOf model)

theorem solved_iff {z3 : Text → Option Text} {cnf : Cnf} {answer : Answer n}
    (hvars : cnf.numVars = n) (hanswer : z3 (buildSmt2 cnf) = some answer.text) :
    Solved z3 cnf ↔ Satisfies cnf answer.legible := by
  unfold Solved
  rw [solve_eq hvars hanswer]
  constructor
  · intro ⟨model, hmodel, _, hsat⟩
    rw [← Option.some.inj (Option.some.inj hmodel), valuesOf_read] at hsat
    exact hsat
  · intro hsat
    refine ⟨_, rfl, ?_, ?_⟩
    · rw [List.length_map, List.length_range, hvars]
    · rw [valuesOf_read]
      exact hsat

/-- The formula that asks for one variable. -/
def unitCnf (n i : Nat) : Cnf := ⟨n, [[⟨i, false⟩]]⟩

theorem satisfies_unit {i : Nat} {value : Nat → Bool} :
    Satisfies (unitCnf n i) value ↔ value i = true := by
  simp [Satisfies, unitCnf, Lit.Holds]

/-- An answer with a correct model is read right for a formula exactly when the values that
    stand behind one blank or one line break are enough for every clause, and for every formula
    exactly when every true value stands so. -/
theorem solve_reads_model (answer : Answer n) :
    (∀ z3 cnf, cnf.numVars = n → Sat.InRange cnf → z3 (buildSmt2 cnf) = some answer.text →
      Satisfies cnf answer.value → (Solved z3 cnf ↔ Satisfies cnf answer.legible)) ∧
    ((∀ z3 cnf, cnf.numVars = n → Sat.InRange cnf → z3 (buildSmt2 cnf) = some answer.text →
      Satisfies cnf answer.value → Solved z3 cnf) ↔
        ∀ e ∈ answer.entries, e.value = true → e.Legible) := by
  refine ⟨fun z3 cnf hvars _ hanswer _ => solved_iff hvars hanswer, ?_, ?_⟩
  · intro hall e he hvalue
    have hrange : Sat.InRange (unitCnf n e.var) := by
      intro clause hclause lit hlit
      rw [List.mem_singleton.mp hclause] at hlit
      rw [List.mem_singleton.mp hlit]
      exact answer.var_lt he
    have htrue : answer.value e.var = true :=
      List.any_eq_true.mpr ⟨e, he, by rw [hvalue, beq_self_eq_true]; rfl⟩
    have hsolved := hall (fun _ => some answer.text) (unitCnf n e.var) rfl hrange rfl
      (satisfies_unit.mpr htrue)
    have hlegible := satisfies_unit.mp ((solved_iff rfl rfl).mp hsolved)
    -- the entry behind the legible value is this one: no variable is defined twice
    obtain ⟨e', he', hvar⟩ := List.any_eq_true.mp hlegible
    rw [Bool.and_eq_true, Bool.and_eq_true, beq_iff_eq, decide_eq_true_eq] at hvar
    have hnodup : (answer.entries.map Entry.var).Nodup :=
      answer.vars.nodup_iff.mpr List.nodup_range
    rw [← List.inj_on_of_nodup_map hnodup he' he hvar.1]
    exact hvar.2.2
  · intro hlegible z3 cnf hvars _ hanswer hsat
    rw [solved_iff hvars hanswer, Answer.legible_eq_value hlegible]
    exact hsat

/-- The answer as the command prints it, with the value on the next line. -/
def nextLine : Answer 1 where
  entries := [⟨['\n', ' ', ' '], 0, ['\n', ' ', ' ', ' ', ' '], true⟩]
  vars := by decide
  spaced := by
    intro e he
    rw [List.mem_singleton.mp he]
    exact ⟨List.all_eq_true.mp (by decide), List.all_eq_true.mp (by decide), by decide⟩

theorem value_on_next_line_lost : ¬ ∀ (n : Nat) (answer : Answer n) (z3 : Text → Option Text)
    (cnf : Cnf), cnf.numVars = n → Sat.InRange cnf → z3 (buildSmt2 cnf) = some answer.text →
      Satisfies cnf answer.value → Solved z3 cnf := by
  intro h
  have hsolved := h 1 nextLine (fun _ => some nextLine.text) (unitCnf 1 0) rfl
    (by unfold Sat.InRange unitCnf; decide) rfl (satisfies_unit.mpr (by decide))
  have hlegible := satisfies_unit.mp ((solved_iff rfl rfl).mp hsolved)
  revert hlegible
  decide

end Reading

end Canon.Algorithms.Z3Model
