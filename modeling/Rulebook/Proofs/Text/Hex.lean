import Mathlib.Algebra.Group.Nat.Defs
import Mathlib.Logic.Function.Basic
import Rulebook.Proofs.Text.Plain

/-!
Numbers in hexadecimal digits. A numeral has as many digits as its number needs, so that different
numbers have different numerals.
-/

namespace Rulebook.Text

@[simp] theorem length_hexDigits (width n : Nat) : (hexDigits width n).length = width := by
  induction width generalizing n with
  | zero => rfl
  | succ width ih => simp [hexDigits, ih]

/-- The last digits of a number tell the number up to the power that they count to. -/
theorem mod_eq_of_hexDigits {width n m : Nat} (h : hexDigits width n = hexDigits width m) :
    n % 16 ^ width = m % 16 ^ width := by
  induction width generalizing n m with
  | zero => simp [Nat.mod_one]
  | succ width ih =>
      obtain ⟨hhigh, hlow⟩ := List.append_inj' h rfl
      have hdigit : n % 16 = m % 16 := by
        have hn := Nat.mod_lt n (by decide : 0 < 16)
        have hm := Nat.mod_lt m (by decide : 0 < 16)
        have hchar : ∀ a < 16, ∀ b < 16, Nat.digitChar a = Nat.digitChar b → a = b := by decide
        exact hchar _ hn _ hm (by simpa using hlow)
      have hrest := ih hhigh
      rw [Nat.pow_succ', Nat.mod_mul, Nat.mod_mul, hdigit, hrest]

theorem lt_pow_extraDigits (width n : Nat) : n < 16 ^ (extraDigits width n + width) := by
  have hn : n < 16 ^ width * (extraDigits width n + 1) :=
    Nat.lt_mul_div_succ n (Nat.pow_pos (by decide))
  have hextra : extraDigits width n + 1 ≤ 16 ^ extraDigits width n := Nat.lt_pow_self (by decide)
  calc n < 16 ^ width * (extraDigits width n + 1) := hn
    _ ≤ 16 ^ width * 16 ^ extraDigits width n := Nat.mul_le_mul_left _ hextra
    _ = 16 ^ (extraDigits width n + width) := by rw [Nat.mul_comm, ← Nat.pow_add]

@[simp] theorem length_numeral (width n : Nat) :
    (numeral width n).length = extraDigits width n + width := length_hexDigits _ _

/-- A number shows all its digits. -/
theorem numeral_injective (width : Nat) : Function.Injective (numeral width) := by
  intro n m h
  have hextra : extraDigits width n = extraDigits width m := by
    simpa using congrArg List.length h
  have hn := lt_pow_extraDigits width n
  have hm := lt_pow_extraDigits width m
  unfold numeral at h
  rw [← hextra] at h hm
  have hmod := mod_eq_of_hexDigits h
  rwa [Nat.mod_eq_of_lt hn, Nat.mod_eq_of_lt hm] at hmod

end Rulebook.Text
