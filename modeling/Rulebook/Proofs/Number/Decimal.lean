import Rulebook.Number.Decimal
import Rulebook.Proofs.Number.Range
import Rulebook.Proofs.Text.Cutting

/-!
Decimal digits. The text of an integer reads as the double nearest to that integer, and no digit of
it is a blank, a sign or a letter.
-/

namespace Rulebook

namespace Text

section
variable {c d : Char} {n : Nat}

/-- A digit is no other mark and no space. -/
theorem ne_of_isDigit (hc : c.isDigit = true) (hd : d.isDigit = false) :
    CodePoint.char c ≠ .char d := by
  intro he
  cases he
  exact Bool.false_ne_true (hd.symm.trans hc)

theorem between_of_isDigit (hc : c.isDigit = true) :
    48 ≤ (CodePoint.char c).toNat ∧ (CodePoint.char c).toNat ≤ 57 :=
  Char.isDigit_iff_toNat.mp hc

theorem isBlank_of_isDigit (hc : c.isDigit = true) : isBlank (.char c) = false := by
  have hbetween := between_of_isDigit hc
  rw [Bool.eq_false_iff]
  intro hblank
  unfold isBlank at hblank
  simp only [Bool.or_eq_true, Bool.and_eq_true, decide_eq_true_eq, beq_iff_eq] at hblank
  omega

theorem isDigit_of_isBlank {p : CodePoint} (h : isBlank p = true) : p.isDigit = false := by
  cases p with
  | char c =>
      rw [Bool.eq_false_iff]
      intro hc
      exact Bool.false_ne_true ((isBlank_of_isDigit hc).symm.trans h)
  | half index => rfl

theorem isWhiteSpace_of_isDigit (hc : c.isDigit = true) : isWhiteSpace (.char c) = false := by
  rw [isWhiteSpace, isBlank_of_isDigit hc]
  rfl

theorem asciiDigit_of_isDigit (hc : c.isDigit = true) : asciiDigit (.char c) = .char c := by
  obtain ⟨hlow, hhigh⟩ := between_of_isDigit hc
  have hrow : (48 ≤ (CodePoint.char c).toNat && (CodePoint.char c).toNat < 48 + 10) = true := by
    simp only [Bool.and_eq_true, decide_eq_true_eq]
    omega
  have hzero : decimalZeros.find? (fun start => start ≤ (CodePoint.char c).toNat &&
      (CodePoint.char c).toNat < start + 10) = some 48 := List.find?_cons_of_pos hrow
  rw [asciiDigit, digitValue?, hzero]
  simp only [Option.map_some, Nat.add_sub_cancel' hlow]
  exact congrArg CodePoint.char (Char.ofNat_toNat c)

theorem toLower_of_isDigit (hc : c.isDigit = true) : c.toLower = c := by
  obtain ⟨-, hhigh⟩ := between_of_isDigit hc
  refine dif_neg ?_
  rintro ⟨hlow, -⟩
  have hletter : 65 ≤ c.toNat := UInt32.le_iff_toNat_le.mp hlow
  exact absurd (Nat.le_trans hletter hhigh) (by decide)

theorem exists_digit_of_mem_ofNat {p : CodePoint} (h : p ∈ ofNat n) :
    ∃ c : Char, p = .char c ∧ c.isDigit = true := by
  obtain ⟨c, hc, rfl⟩ := List.mem_map.mp h
  exact ⟨c, rfl, Nat.isDigit_of_mem_toDigits (by decide) (by decide) hc⟩

theorem ofNat_ne_nil (n : Nat) : ofNat n ≠ [] := by
  intro h
  exact Nat.toDigits_ne_nil (List.map_eq_nil_iff.mp h)

theorem notMem_ofNat (hd : d.isDigit = false) : CodePoint.char d ∉ ofNat n := by
  intro h
  obtain ⟨c, hc, hdigit⟩ := exists_digit_of_mem_ofNat h
  exact ne_of_isDigit hdigit hd hc.symm

theorem isDigit_of_mem_ofNat {p : CodePoint} (h : p ∈ ofNat n) : p.isDigit = true := by
  obtain ⟨c, rfl, hc⟩ := exists_digit_of_mem_ofNat h
  exact hc

/-- Only the digits of zero begin with a zero. -/
theorem eq_zero_of_head?_toDigits (h : (Nat.toDigits 10 n).head? = some '0') : n = 0 := by
  induction n using Nat.strongRecOn with
  | _ n ih =>
      rw [Nat.toDigits_eq_if (by decide)] at h
      split at h
      · exact Nat.digitChar_eq_zero.mp (Option.some.inj h)
      · rename_i hlarge
        have hhead : (Nat.toDigits 10 (n / 10)).head? = some '0' := by
          rw [List.head?_append] at h
          cases hfirst : (Nat.toDigits 10 (n / 10)).head? with
          | none => exact absurd (List.head?_eq_none_iff.mp hfirst) Nat.toDigits_ne_nil
          | some c =>
              rw [hfirst] at h
              exact h
        have := ih (n / 10) (by omega) hhead
        omega

theorem exists_cons_ofNat (n : Nat) : ∃ (c : Char) (rest : Text), ofNat n = .char c :: rest ∧
    c.isDigit = true ∧ (c = '0' → n = 0) := by
  cases hn : Nat.toDigits 10 n with
  | nil => exact absurd hn Nat.toDigits_ne_nil
  | cons c cs =>
      refine ⟨c, ofChars cs, by rw [ofNat, hn]; rfl, ?_, ?_⟩
      · exact Nat.isDigit_of_mem_toDigits (by decide) (by decide) (hn ▸ List.mem_cons_self ..)
      · rintro rfl
        exact eq_zero_of_head?_toDigits (by rw [hn]; rfl)

theorem map_asciiDigit_ofNat (n : Nat) : (ofNat n).map asciiDigit = ofNat n := by
  refine (List.map_congr_left fun p hp => ?_).trans (List.map_id _)
  obtain ⟨c, rfl, hc⟩ := exists_digit_of_mem_ofNat hp
  exact asciiDigit_of_isDigit hc

theorem toLower_ofNat (n : Nat) : toLower (ofNat n) = ofNat n := by
  refine (List.map_congr_left fun p hp => ?_).trans (List.map_id _)
  obtain ⟨c, rfl, hc⟩ := exists_digit_of_mem_ofNat hp
  exact congrArg CodePoint.char (toLower_of_isDigit hc)

end

/-- What an integer is written as has no blanks to trim. -/
theorem strip_ofInt (n : Int) : strip (ofInt n) = ofInt n := by
  have hdigits : ∀ p ∈ ofNat n.natAbs, isBlank p = false := by
    intro p hp
    obtain ⟨c, rfl, hc⟩ := exists_digit_of_mem_ofNat hp
    exact isBlank_of_isDigit hc
  refine trimBoth_of_forall ?_
  rw [ofInt]
  split
  · exact List.forall_mem_cons.mpr ⟨by decide, hdigits⟩
  · exact hdigits

end Text

namespace Double
open Text

theorem digitsToNat_ofNat (n : Nat) : digitsToNat (Text.ofNat n) = n := by
  rw [digitsToNat, Text.ofNat, Text.ofChars, List.foldl_map]
  exact Nat.ofDigitChars_toDigits (by decide) (by decide)

theorem splitSign_ofNat (n : Nat) : splitSign (Text.ofNat n) = (false, Text.ofNat n) := by
  obtain ⟨c, rest, hn, hc, -⟩ := exists_cons_ofNat n
  have hminus := ne_of_isDigit (d := '-') hc rfl
  have hplus := ne_of_isDigit (d := '+') hc rfl
  rw [hn, splitSign]
  · rintro more he
    cases he
    exact hminus rfl
  · rintro more he
    cases he
    exact hplus rfl

/-- A text without underscores is not changed by joining digits. -/
theorem joinDigits_of_notMem {t : Text} (h : CodePoint.char '_' ∉ t) (afterDigit : Bool) :
    joinDigits afterDigit t = some t := by
  induction t generalizing afterDigit with
  | nil => rfl
  | cons c t ih =>
      obtain ⟨hc, ht⟩ := List.ne_and_not_mem_of_not_mem_cons h
      have hmark : ¬ (c == .char '_') = true := fun he => hc (eq_of_beq he).symm
      rw [joinDigits, if_neg hmark, ih ht]
      rfl

/-- Digits without a point and an exponent are rounded as the integer that they denote. -/
theorem ofDecimal_zero (negative : Bool) (n width : Nat) :
    ofDecimal negative n width 0 = ofRatio negative n 1 := by
  by_cases hn : n = 0
  · subst hn
    have hnothing : roundUnits (0 * unitsPerOne) 1 = 0 := by
      rw [Nat.zero_mul]
      rfl
    have hlimit : ¬ limit ≤ 0 := by decide +kernel
    rw [ofRatio_one, hnothing, if_neg hlimit]
    rfl
  · have hscale : n * Nat.pow 10 (0 : Int).toNat = n := Nat.mul_one n
    rw [ofDecimal, if_neg (by simpa using hn), if_pos (Int.le_refl 0), if_neg (by decide), hscale]

theorem readMagnitude_ofNat (negative : Bool) (n : Nat) :
    readMagnitude negative (Text.ofNat n) = some (ofRatio negative n 1) := by
  have hall : ∀ p ∈ Text.ofNat n, CodePoint.isDigit p = true := fun _ => isDigit_of_mem_ofNat
  have hnone : (Text.ofNat n).isEmpty = false := List.isEmpty_eq_false_iff.mpr (ofNat_ne_nil n)
  simp only [readMagnitude, List.takeWhile_eq_self_iff.mpr hall, List.dropWhile_eq_nil_iff.mpr hall,
    fractionPart, List.append_nil, hnone]
  simp [exponentPart, digitsToNat_ofNat, ofDecimal_zero]

/-- The text of an integer reads as the double nearest to the integer, an infinity included. -/
theorem read?_ofInt (n : Int) : read? (Text.ofInt n) = some (ofRatio (n < 0) n.natAbs 1) := by
  have hname (word : Text) (hword : CodePoint.char 'n' ∈ word) :
      toLower (Text.ofNat n.natAbs) ≠ word := by
    rintro rfl
    rw [toLower_ofNat] at hword
    exact notMem_ofNat rfl hword
  have hinf := hname "inf" (by decide)
  have hinfinity := hname "infinity" (by decide)
  have hnan := hname "nan" (by decide)
  have hdigits : (Text.ofInt n).map asciiDigit = Text.ofInt n := by
    rw [Text.ofInt]
    split
    · rw [List.map_cons, map_asciiDigit_ofNat]
      rfl
    · exact map_asciiDigit_ofNat _
  have hmark : CodePoint.char '_' ∉ Text.ofInt n := by
    rw [Text.ofInt]
    split
    · exact List.not_mem_cons_of_ne_of_not_mem (by decide) (notMem_ofNat rfl)
    · exact notMem_ofNat rfl
  have hsign : splitSign (Text.ofInt n) = (decide (n < 0), Text.ofNat n.natAbs) := by
    rw [Text.ofInt]
    split
    · rename_i hn
      rw [decide_eq_true hn]
      rfl
    · rename_i hn
      rw [decide_eq_false hn]
      exact splitSign_ofNat _
  rw [read?, hdigits, joinDigits_of_notMem hmark, Option.bind_some, hsign]
  simp [hinf, hinfinity, hnan, readMagnitude_ofNat]

end Double

end Rulebook
