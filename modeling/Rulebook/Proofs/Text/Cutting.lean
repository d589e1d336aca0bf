import Mathlib.Algebra.GroupWithZero.Nat
import Mathlib.Data.List.TakeWhile
import Rulebook.Text.Blank

/-!
Cutting texts. Trimming takes off what stands around a text and nothing of the text, and texts that
were joined are the pieces of the whole.
-/

namespace Rulebook.Text

section
variable {q : CodePoint → Bool} {t before after : Text}

theorem dropWhile_eq_self_of_head? (h : ∀ p ∈ t.head?, q p = false) : t.dropWhile q = t := by
  cases t with
  | nil => rfl
  | cons p t =>
      refine List.dropWhile_cons_of_neg ?_
      rw [h p rfl]
      exact Bool.false_ne_true

/-- What stands around a text is trimmed off, up to where the text begins and ends. -/
theorem trimBoth_padded (hbefore : ∀ p ∈ before, q p = true) (hafter : ∀ p ∈ after, q p = true)
    (hfirst : ∀ p ∈ t.head?, q p = false) (hlast : ∀ p ∈ t.getLast?, q p = false) :
    trimBoth q (before ++ t ++ after) = t := by
  have hreversed : ∀ p ∈ after.reverse, q p = true :=
    fun p hp => hafter p (List.mem_reverse.mp hp)
  rw [trimBoth, List.append_assoc, List.dropWhile_append_of_pos hbefore]
  cases t with
  | nil =>
      rw [List.nil_append, List.dropWhile_eq_nil_iff.mpr hafter]
      rfl
  | cons p t =>
      have hwhole : ((p :: t) ++ after).dropWhile q = (p :: t) ++ after :=
        dropWhile_eq_self_of_head? hfirst
      rw [hwhole, List.reverse_append, List.dropWhile_append_of_pos hreversed,
        dropWhile_eq_self_of_head? (List.head?_reverse ▸ hlast), List.reverse_reverse]

theorem trimBoth_of_ends (hfirst : ∀ p ∈ t.head?, q p = false)
    (hlast : ∀ p ∈ t.getLast?, q p = false) : trimBoth q t = t := by
  have hbare : trimBoth q ([] ++ t ++ []) = t := trimBoth_padded nofun nofun hfirst hlast
  rwa [List.nil_append, List.append_nil] at hbare

theorem trimBoth_of_forall (h : ∀ p ∈ t, q p = false) : trimBoth q t = t :=
  trimBoth_of_ends (fun p hp => h p (List.mem_of_head? hp)) fun p hp =>
    h p (List.mem_of_getLast? hp)

end

section
variable {α : Type} [BEq α] {separator : α}

theorem pieces_eq_splitOn (cs : List α) : pieces separator cs = cs.splitOn separator := by
  induction cs with
  | nil => rfl
  | cons c cs ih =>
      rw [pieces, ih, List.splitOn, List.splitOn, List.splitOnP_cons_eq_if_modifyHead]
      split
      · rfl
      · cases h : List.splitOnP (· == separator) cs with
        | nil => exact absurd h (List.splitOnP_ne_nil _ _)
        | cons piece more => rfl

theorem mem_of_mem_pieces {cs piece : List α} (h : piece ∈ pieces separator cs) {c : α}
    (hc : c ∈ piece) : c ∈ cs := by
  induction cs generalizing piece with
  | nil =>
      obtain rfl := List.mem_singleton.mp h
      cases hc
  | cons first cs ih =>
      rw [pieces] at h
      split at h
      · rcases List.mem_cons.mp h with rfl | h
        · cases hc
        · exact .tail _ (ih h hc)
      · split at h
        · obtain rfl := List.mem_singleton.mp h
          exact List.mem_singleton.mp hc ▸ .head _
        · rename_i head more hpieces
          rcases List.mem_cons.mp h with rfl | h
          · rcases List.mem_cons.mp hc with rfl | hc
            · exact .head _
            · exact .tail _ (ih (hpieces ▸ .head _) hc)
          · exact .tail _ (ih (hpieces ▸ .tail _ h) hc)

variable [LawfulBEq α]

theorem pieces_of_notMem {a : α} {l : List α} (h : a ∉ l) :
    pieces a l = [l] := by
  induction l with
  | nil => rfl
  | cons b l ih =>
      obtain ⟨hne, hl⟩ := List.ne_and_not_mem_of_not_mem_cons h
      rw [pieces, if_neg fun he => hne (eq_of_beq he).symm, ih hl]

end

theorem joined_eq_intercalate (separator : Text) (ts : List Text) :
    joined separator ts = separator.intercalate ts := by
  fun_induction joined separator ts with
  | case1 => rfl
  | case2 t => rw [List.intercalate_singleton]
  | case3 t rest hrest ih =>
      obtain ⟨u, rest, rfl⟩ := List.exists_cons_of_ne_nil hrest
      rw [List.intercalate_cons_cons, ih]

/-- Texts without the separator are the pieces of what they are joined to. -/
theorem pieces_joined {separator : CodePoint} {ts : List Text} (hne : ts ≠ [])
    (h : ∀ t ∈ ts, separator ∉ t) : pieces separator (joined [separator] ts) = ts := by
  rw [pieces_eq_splitOn, joined_eq_intercalate]
  exact List.splitOn_intercalate separator h hne

/-- How many code points of a text are not blank. -/
def ink (t : Text) : Nat := t.countP fun p => !isBlank p

section
variable {p separator : CodePoint} {t u : Text}

@[simp] theorem ink_nil : ink [] = 0 := rfl

theorem ink_cons (p : CodePoint) (t : Text) : ink (p :: t) = ink t + ink [p] := by
  simp only [ink, List.countP_cons, List.countP_nil, Nat.zero_add]

theorem ink_cons_of_blank (h : isBlank p = true) (t : Text) : ink (p :: t) = ink t :=
  List.countP_cons_of_neg (by simp [h])

theorem ink_cons_of_not_blank (h : isBlank p = false) (t : Text) : ink (p :: t) = ink t + 1 :=
  List.countP_cons_of_pos (by simp [h])

theorem ink_singleton_le (p : CodePoint) : ink [p] ≤ 1 := List.countP_le_length

theorem ink_le_of_sublist (h : t.Sublist u) : ink t ≤ ink u := h.countP_le

theorem ink_dropWhile_isBlank (t : Text) : ink (t.dropWhile isBlank) = ink t := by
  induction t with
  | nil => rfl
  | cons p t ih =>
      cases hp : isBlank p with
      | true => rw [List.dropWhile_cons_of_pos hp, ih, ink_cons_of_blank hp]
      | false => rw [List.dropWhile_cons_of_neg (by simp [hp])]

/-- Trimming takes off blanks only. -/
theorem ink_strip (t : Text) : ink (strip t) = ink t := by
  have hreverse : ∀ u : Text, ink u.reverse = ink u := fun u => List.countP_reverse
  rw [strip, trimBoth, hreverse, ink_dropWhile_isBlank, hreverse, ink_dropWhile_isBlank]

/-- The pieces have all the ink of a text but that of the separators. -/
theorem sum_ink_pieces (h : isBlank separator = false) (t : Text) :
    ((pieces separator t).map (ink · + 1)).sum = ink t + 1 := by
  fun_induction pieces separator t with
  | case1 => rfl
  | case2 c t hc ih =>
      obtain rfl := eq_of_beq hc
      rw [List.map_cons, List.sum_cons, ih, ink_nil, ink_cons_of_not_blank h]
      omega
  | case3 c t hc hnil ih =>
      rw [hnil] at ih
      exact absurd ih (Nat.succ_ne_zero _).symm
  | case4 c t hc piece more hpieces ih =>
      rw [hpieces, List.map_cons, List.sum_cons] at ih
      rw [List.map_cons, List.sum_cons, ink_cons c piece, ink_cons c t]
      omega

end

end Rulebook.Text
