import Canon.Lib.Machine
import Canon.Lib.Text

/-! # Numbers in texts

    A number in decimal digits is read back from its text, also when it stands behind a
    separator that is no digit.
-/

namespace Text

theorem isDigit_of_mem_ofNat {n : Nat} {c : Char} (h : c ∈ ofNat n) : c.isDigit = true :=
  Nat.isDigit_of_mem_toDigits (by decide) (by decide) h

theorem ofNat_injective {i j : Nat} (h : ofNat i = ofNat j) : i = j := by
  unfold ofNat at h
  calc
    i = Nat.ofDigitChars 10 (Nat.toDigits 10 i) 0 := Nat.ofDigitChars_ten_toDigits.symm
    _ = Nat.ofDigitChars 10 (Nat.toDigits 10 j) 0 := by rw [h]
    _ = j := Nat.ofDigitChars_ten_toDigits

/-- The separator that the last number stands behind. -/
theorem append_ofNat_inj {sep : Char} (hsep : sep.isDigit = false) {a b : Text} {i j : Nat}
    (h : a ++ sep :: ofNat i = b ++ sep :: ofNat j) : a = b ∧ i = j := by
  have hnot : ∀ n, ∀ c ∈ ofNat n, ¬c = sep := by
    intro n c hc hcs
    have hdigit := isDigit_of_mem_ofNat hc
    rw [hcs, hsep] at hdigit
    cases hdigit
  have hnum : ofNat i = ofNat j :=
    Machine.after_last_unique (p := (· = sep)) h rfl rfl (hnot i) (hnot j)
  rw [hnum] at h
  exact ⟨List.append_cancel_right h, ofNat_injective hnum⟩

/-- The separator that the first number stands in front of. -/
theorem ofNat_append_inj {sep : Char} (hsep : sep.isDigit = false) {a b : Text} {i j : Nat}
    (h : ofNat i ++ sep :: a = ofNat j ++ sep :: b) : i = j ∧ a = b := by
  have hdigits : ∀ n, ∀ c ∈ ofNat n, c.isDigit = true := fun n c hc => isDigit_of_mem_ofNat hc
  have hnum := congrArg (List.takeWhile Char.isDigit) h
  rw [List.takeWhile_append_of_pos (hdigits i), List.takeWhile_append_of_pos (hdigits j),
    List.takeWhile_cons_of_neg (by simp [hsep]), List.takeWhile_cons_of_neg (by simp [hsep]),
    List.append_nil, List.append_nil] at hnum
  rw [hnum] at h
  exact ⟨ofNat_injective hnum, (List.cons.inj (List.append_cancel_left h)).2⟩

end Text
