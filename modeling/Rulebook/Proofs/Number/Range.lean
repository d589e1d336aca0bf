import Mathlib.Algebra.Order.Ring.Nat
import Rulebook.Number.Double

/-!
The range of the doubles. An integer rounds beyond them from the middle between the largest finite
double and the next power of two on.
-/

namespace Rulebook.Double

section
variable {num den q : Nat}

/-- An even integer is reached from half a unit below it on: at the half itself the even one of
the two nearest is taken. -/
theorem even_le_roundHalfEven_iff (hden : 0 < den) (heven : q % 2 = 0) :
    q ≤ roundHalfEven num den ↔ 2 * (q * den) ≤ 2 * num + den := by
  have hdivide : num / den * den + num % den = num := Nat.div_add_mod' num den
  have hrest : num % den < den := Nat.mod_lt num hden
  unfold roundHalfEven
  dsimp only
  generalize num / den = a at *
  generalize num % den = b at *
  rcases Nat.lt_trichotomy q (a + 1) with hbelow | rfl | habove
  · have hgap : q * den ≤ a * den := Nat.mul_le_mul_right den (by omega)
    constructor
    · intro
      omega
    · intro
      split_ifs <;> omega
  · have hodd : (a % 2 == 0) = false := by
      rw [beq_eq_false_iff_ne]
      omega
    simp only [hodd, Nat.add_one_mul a den, Bool.false_eq_true, if_false]
    split_ifs <;> constructor <;> intro <;> omega
  · have hgap : (a + 2) * den ≤ q * den := Nat.mul_le_mul_right den habove
    rw [Nat.add_mul] at hgap
    split_ifs <;> constructor <;> intro <;> omega

end

section
variable {n e : Nat}

theorem roundUnits_one (n : Nat) : roundUnits n 1 =
    roundHalfEven n (2 ^ (n.log2 + 1 - 53)) * 2 ^ (n.log2 + 1 - 53) := by
  simp only [roundUnits, Nat.div_one, Nat.one_mul, Nat.pow_eq]

/-- A power of two above the spacing is reached from half a spacing below it on. -/
theorem pow_le_roundUnits_iff (h : n.log2 + 1 - 53 < e) :
    2 ^ e ≤ roundUnits n 1 ↔ 2 * 2 ^ e ≤ 2 * n + 2 ^ (n.log2 + 1 - 53) := by
  rw [roundUnits_one]
  generalize n.log2 + 1 - 53 = s at h ⊢
  obtain ⟨d, rfl⟩ : ∃ d, e = d + 1 + s := ⟨e - s - 1, by omega⟩
  have hspacing : 0 < 2 ^ s := Nat.two_pow_pos s
  rw [Nat.pow_add 2 (d + 1) s, Nat.mul_le_mul_right_iff hspacing]
  refine even_le_roundHalfEven_iff hspacing ?_
  rw [Nat.pow_succ]
  exact Nat.mul_mod_left _ 2

/-- Rounding to 53 bits does not go below the leading bit. -/
theorem pow_log2_le_roundUnits (h : n.log2 ≠ 0) : 2 ^ n.log2 ≤ roundUnits n 1 := by
  rw [pow_le_roundUnits_iff (by omega)]
  have hlead : 2 ^ n.log2 ≤ n := Nat.log2_self_le (by rintro rfl; exact h rfl)
  exact Nat.le_add_right_of_le (Nat.mul_le_mul_left 2 hlead)

end

section
variable {m b e : Nat}

theorem log2_scaled_lt {k : Nat} (hk : 0 < k + e) (h : m < 2 ^ k) :
    (m * 2 ^ e).log2 < k + e := by
  rcases Nat.eq_zero_or_pos m with rfl | hm
  · rw [Nat.zero_mul]
    exact hk
  · have hone : 0 < 2 ^ e := Nat.two_pow_pos e
    rw [Nat.log2_lt (Nat.mul_pos hm hone).ne', Nat.pow_add]
    exact Nat.mul_lt_mul_of_pos_right h hone

theorem le_log2_scaled {k : Nat} (h : 2 ^ k ≤ m) : k + e ≤ (m * 2 ^ e).log2 := by
  have hm : 0 < m := Nat.lt_of_lt_of_le (Nat.two_pow_pos k) h
  have hone : 0 < 2 ^ e := Nat.two_pow_pos e
  rw [Nat.le_log2 (Nat.mul_pos hm hone).ne', Nat.pow_add]
  exact Nat.mul_le_mul_right _ h

/-- A multiple of a unit rounds up to a power of two from half a spacing below it on. -/
theorem pow_le_roundUnits_scaled_iff :
    2 ^ (b + 54 + e) ≤ roundUnits (m * 2 ^ e) 1 ↔ 2 ^ (b + 54) ≤ m + 2 ^ b := by
  have hone : 0 < 2 ^ e := Nat.two_pow_pos e
  have htop : 2 ^ (b + 54) = 2 * 2 ^ (b + 53) := Nat.pow_succ'
  have hspacing : 2 ^ b ≤ 2 ^ (b + 53) := Nat.pow_le_pow_right (by decide) (Nat.le_add_right b 53)
  rcases Nat.lt_or_ge m (2 ^ (b + 54)) with hsmall | hlarge
  · have hlog := log2_scaled_lt (e := e) (by omega) hsmall
    rw [pow_le_roundUnits_iff (by omega), Nat.pow_add 2 (b + 54) e]
    rcases Nat.lt_or_ge m (2 ^ (b + 53)) with hfar | hnear
    -- below half of the power a whole spacing is missing; above, the spacing is known
    · have hlogFar := log2_scaled_lt (e := e) (by omega) hfar
      have hstep : 2 ^ ((m * 2 ^ e).log2 + 1 - 53) ≤ 2 ^ b * 2 ^ e := by
        rw [← Nat.pow_add]
        exact Nat.pow_le_pow_right (by decide) (by omega)
      have hlow : (m + 2 ^ b) * 2 ^ e < 2 ^ (b + 54) * 2 ^ e :=
        Nat.mul_lt_mul_of_pos_right (by omega) hone
      rw [Nat.add_mul] at hlow
      constructor <;> intro <;> omega
    · have hlogNear := le_log2_scaled (e := e) hnear
      have hlogEq : (m * 2 ^ e).log2 + 1 - 53 = b + e + 1 := by omega
      rw [hlogEq, Nat.pow_succ' (n := b + e), Nat.pow_add 2 b e, ← Nat.mul_add,
        Nat.mul_le_mul_left_iff (by decide), ← Nat.add_mul, Nat.mul_le_mul_right_iff hone]
  · have hlog := le_log2_scaled (e := e) hlarge
    have hround : 2 ^ (b + 54 + e) ≤ roundUnits (m * 2 ^ e) 1 :=
      Nat.le_trans (Nat.pow_le_pow_right (by decide) hlog) (pow_log2_le_roundUnits (by omega))
    exact ⟨fun _ => Nat.le_add_right_of_le hlarge, fun _ => hround⟩

end

theorem two_pow_eq (e : Nat) : Nat.pow 2 e = 2 ^ e := rfl

theorem limit_le_roundUnits_iff (m : Nat) :
    limit ≤ roundUnits (m * unitsPerOne) 1 ↔ 2 ^ 1024 - 2 ^ 970 ≤ m := by
  have hbound := pow_le_roundUnits_scaled_iff (m := m) (b := 970) (e := 1074)
  rw [← Nat.sub_le_iff_le_add] at hbound
  simp only [Nat.reduceAdd] at hbound
  simp only [limit, unitsPerOne, two_pow_eq]
  exact hbound

theorem ofRatio_one (negative : Bool) (m : Nat) : ofRatio negative m 1 =
    if limit ≤ roundUnits (m * unitsPerOne) 1 then .infinite negative
    else .finite negative (roundUnits (m * unitsPerOne) 1) := rfl

/-- An integer rounds to no finite double if it is at least the middle between the largest finite
double and the next power of two. -/
theorem ofInt?_eq_none_iff (n : Int) : ofInt? n = none ↔ 2 ^ 1024 - 2 ^ 970 ≤ n.natAbs := by
  unfold ofInt?
  rw [ofRatio_one, ← limit_le_roundUnits_iff]
  by_cases h : limit ≤ roundUnits (n.natAbs * unitsPerOne) 1
  · rw [if_pos h]
    exact ⟨fun _ => h, fun _ => rfl⟩
  · rw [if_neg h]
    exact ⟨fun hfinite => absurd hfinite (Option.some_ne_none _), fun hlimit => absurd hlimit h⟩

theorem bounded?_eq_some {x : Double} (h : x.bounded? ≠ none) : x.bounded? = some x := by
  cases x with
  | infinite negative => exact absurd rfl h
  | _ => rfl

end Rulebook.Double
