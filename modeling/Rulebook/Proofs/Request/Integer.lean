import Rulebook.Check.Field
import Rulebook.Proofs.Number.Decimal

/-!
Integers in decimal digits. The text that a number is written as is read as that number, unless it
has more digits than an integer may have.
-/

namespace Rulebook

theorem Text.ofString_repr (n : Nat) : ofString n.repr = ofNat n := by
  rw [ofString, Nat.toList_repr, ofNat]

namespace Check
open Text

theorem withoutPlus_ofNat (n : Nat) : withoutPlus (ofNat n) = some (ofNat n) := by
  obtain ⟨c, rest, hn, hc, -⟩ := exists_cons_ofNat n
  have hne := ne_of_isDigit (d := '+') hc rfl
  rw [hn, withoutPlus]
  · rintro more he
    cases he
    exact hne rfl
  · rintro more he
    cases he
    exact hne rfl

theorem withoutLeadingZeros_ofNat (n : Nat) : withoutLeadingZeros (ofNat n) = some (ofNat n) := by
  by_cases hn : n = 0
  · subst hn
    decide
  · obtain ⟨c, rest, hcons, hc, hzero⟩ := exists_cons_ofNat n
    have hne : ¬ (CodePoint.char c == .char '0') = true := by
      intro he
      cases eq_of_beq he
      exact hn (hzero rfl)
    have hbegins : beginsNumber (.char c) = true := by
      simp only [beginsNumber, CodePoint.isDigit, CodePoint.satisfies, hc, Bool.true_and,
        Bool.or_eq_true, bne]
      exact .inl (by simpa using hne)
    rw [hcons, withoutLeadingZeros, if_neg hne, if_pos hbegins]

theorem withoutFraction_ofNat (n : Nat) : withoutFraction (ofNat n) = some (ofNat n) := by
  have hdrop : (ofNat n).dropWhile (· != .char '.') = [] := by
    refine List.dropWhile_eq_nil_iff.mpr fun p hp => ?_
    rw [bne_iff_ne]
    rintro rfl
    exact notMem_ofNat rfl hp
  rw [withoutFraction, hdrop]

theorem withoutUnderscores_ofNat (n : Nat) : withoutUnderscores (ofNat n) = some (ofNat n) := by
  have hmark : CodePoint.char '_' ∉ ofNat n := notMem_ofNat rfl
  have hfilter : (ofNat n).filter (· != .char '_') = ofNat n := by
    refine List.filter_eq_self.mpr fun p hp => ?_
    rw [bne_iff_ne]
    rintro rfl
    exact hmark hp
  rw [withoutUnderscores, pieces_of_notMem hmark, hfilter]
  simp [ofNat_ne_nil]

theorem integerText?_ofNat (n : Nat) : integerText? (ofNat n) = some (false, ofNat n) := by
  have htrim : trimBoth isWhiteSpace (ofNat n) = ofNat n := by
    refine trimBoth_of_forall fun p hp => ?_
    obtain ⟨c, rfl, hc⟩ := exists_digit_of_mem_ofNat hp
    exact isWhiteSpace_of_isDigit hc
  have hdigits : (ofNat n).all CodePoint.isDigit = true :=
    List.all_eq_true.mpr fun _ => isDigit_of_mem_ofNat
  have hzero : ¬ ((ofNat n).head? == some (.char '0') && decide (1 < (ofNat n).length)) = true := by
    rw [Bool.and_eq_true, decide_eq_true_eq]
    rintro ⟨hhead, hlength⟩
    obtain ⟨c, rest, hcons, -, hfirst⟩ := exists_cons_ofNat n
    rw [hcons] at hhead
    cases eq_of_beq hhead
    rw [hfirst rfl] at hlength
    exact absurd hlength (by decide)
  simp only [integerText?, htrim, withoutPlus_ofNat, withoutLeadingZeros_ofNat,
    withoutFraction_ofNat, withoutUnderscores_ofNat, Double.splitSign_ofNat, hdigits, hzero,
    Option.bind_eq_bind, Option.bind_some, List.isEmpty_eq_false_iff.mpr (ofNat_ne_nil n)]
  rfl

/-- A number has more decimal digits than an integer may have. -/
def hasTooManyDigits (n : Nat) : Bool := mostIntegerDigits < n.repr.length

/-- A number is read from its decimal digits, if there are not too many of them. -/
theorem integer_repr (n : Nat) : integer (.ofString n.repr) =
    if hasTooManyDigits n then .fail .integerTooLarge (.ofString n.repr) else .good n := by
  have hlength : (ofNat n).length = n.repr.length := by
    rw [ofNat, ofChars, List.length_map, ← Nat.toList_repr, String.length_toList]
  have hvalue : signedInteger false (ofNat n) = n := by
    rw [signedInteger, Double.digitsToNat_ofNat]
    rfl
  rw [Value.ofString, integer, ofString_repr, integerOfText, integerText?_ofNat]
  simp only [hlength, hvalue, hasTooManyDigits, decide_eq_true_eq]

end Check

end Rulebook
