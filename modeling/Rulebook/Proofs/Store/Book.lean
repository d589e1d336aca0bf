import Rulebook.Proofs.Text.Hex
import Rulebook.Store.Book

/-!
The rows of a book and what it finds by their ids. A rule with an id of its own is found by it, and
stays so until it is removed. Ids that count the rules are never repeated.
-/

namespace Rulebook

namespace Text

theorem filter_hexDigits (width n : Nat) :
    (hexDigits width n).filter (· != .char '-') = hexDigits width n := by
  refine List.filter_eq_self.mpr fun p hp => ?_
  obtain ⟨d, hd, rfl⟩ := exists_digit_of_mem hp
  have hdash : ∀ d < 16, CodePoint.char (Nat.digitChar d) != .char '-' := by decide
  exact hdash d hd

section
variable {extra : Nat} {digits : Text}

theorem IsPlain.grouped (h : IsPlain digits) : IsPlain (grouped extra digits) := by
  refine (isPlain_ofString "-").joined ?_
  simp only [List.forall_mem_cons]
  have hgroup (start count : Nat) : IsPlain ((digits.drop start).take count) :=
    (h.drop start).take count
  exact ⟨h.take _, hgroup _ _, hgroup _ _, hgroup _ _, hgroup _ _, nofun⟩

/-- Without the dashes between the groups the digits are left. -/
theorem filter_grouped (h : digits.length = extra + 32) :
    (grouped extra digits).filter (· != .char '-') = digits.filter (· != .char '-') := by
  have hsplit (start count : Nat) : digits.drop (extra + start) =
      (digits.drop (extra + start)).take count ++ digits.drop (extra + (start + count)) := by
    have hcut := List.take_append_drop count (digits.drop (extra + start))
    rw [List.drop_drop, Nat.add_assoc] at hcut
    exact hcut.symm
  have hlast : (digits.drop (extra + 20)).take 12 = digits.drop (extra + 20) :=
    List.take_of_length_le (by simp [h])
  have hdash : (ofString "-").filter (· != .char '-') = [] := by decide
  have hdigits : digits = digits.take (extra + 8) ++ ((digits.drop (extra + 8)).take 4 ++
      ((digits.drop (extra + 12)).take 4 ++ ((digits.drop (extra + 16)).take 4 ++
        digits.drop (extra + 20)))) := by
    rw [← hsplit 16 4, ← hsplit 12 4, ← hsplit 8 4, List.take_append_drop]
  have hfilter := congrArg (List.filter (· != .char '-')) hdigits
  rw [hfilter]
  simp only [grouped, joined, hlast, List.filter_append, hdash, List.append_assoc, List.nil_append]

end

end Text

namespace StoredRule

/-- An id shows all digits of its number. -/
theorem filter_idOfNumber (n : Nat) : (Text.ofString (idOfNumber n)).filter (· != .char '-') =
    Text.numeral 32 n := by
  have hplain : Text.IsPlain (Text.numeral 32 n) := Text.isPlain_hexDigits _ n
  rw [idOfNumber, hplain.grouped.ofString_toString, Text.filter_grouped (Text.length_numeral _ _)]
  exact Text.filter_hexDigits _ n

theorem idOfNumber_injective : Function.Injective idOfNumber := by
  intro n m h
  apply Text.numeral_injective 32
  rw [← filter_idOfNumber, h, filter_idOfNumber]

theorem idOfNumber_ne_empty (n : Nat) : idOfNumber n ≠ "" := by
  intro h
  have hdigits := congrArg List.length (filter_idOfNumber n)
  rw [h, Text.length_numeral] at hdigits
  cases hdigits

/-- There are only dashes and digits in an id. -/
theorem mem_idOfNumber {n : Nat} {c : Char} (h : c ∈ (idOfNumber n).toList) :
    c = '-' ∨ ∃ d < 16, c = Nat.digitChar d := by
  by_cases hc : c = '-'
  · exact .inl hc
  · have hfilter : CodePoint.char c ∈ (Text.ofString (idOfNumber n)).filter (· != .char '-') :=
      List.mem_filter.mpr ⟨List.mem_map_of_mem h, by simpa using hc⟩
    rw [filter_idOfNumber] at hfilter
    obtain ⟨d, hd, he⟩ := Text.exists_digit_of_mem hfilter
    exact .inr ⟨d, hd, CodePoint.char.inj he⟩

end StoredRule

namespace Book
variable {book : Book} {rule : StoredRule} {id : String}

theorem insertRow_perm (row : StoredRule) (rows : List StoredRule) :
    (insertRow row rows).Perm (row :: rows) := by
  induction rows with
  | nil => exact .refl _
  | cons other rows ih =>
      unfold insertRow
      split
      · exact .refl _
      · exact (ih.cons other).trans (.swap row other rows)

theorem rows_perm (book : Book) : book.rows.Perm book.rules := by
  obtain ⟨rules⟩ := book
  induction rules with
  | nil => exact .refl _
  | cons row rules ih => exact (insertRow_perm row _).trans (ih.cons row)

theorem insertRow_eq {row : StoredRule} {rows : List StoredRule}
    (h : ∀ other ∈ rows, row.rowLe other) : insertRow row rows = row :: rows := by
  cases rows with
  | nil => rfl
  | cons other rows => exact if_pos (h other List.mem_cons_self)

/-- If neither times nor ids decrease, rows are listed in the order in which they were stored. -/
theorem rows_eq (h : book.rules.Pairwise fun a b => a.created ≤ b.created ∧ a.id ≤ b.id) :
    book.rows = book.rules := by
  obtain ⟨rules⟩ := book
  change rules.Pairwise _ at h
  induction h with
  | nil => rfl
  | @cons row rules hrow h ih =>
      refine (congrArg (insertRow row) ih).trans (insertRow_eq fun other hother => ?_)
      obtain ⟨htime, hid⟩ := hrow other hother
      rcases Nat.lt_or_eq_of_le htime with hlt | heq
      · simp [StoredRule.rowLe, hlt]
      · simp [StoredRule.rowLe, heq, hid]

theorem mem_of_mem_window {skip limit : Int} (h : rule ∈ book.window skip limit) :
    rule ∈ book.rules := by
  apply book.rows_perm.subset
  unfold window at h
  dsimp only at h
  split at h
  · exact List.mem_of_mem_drop h
  · exact List.mem_of_mem_drop (List.mem_of_mem_take h)

theorem find?_add_of_some (h : book.find? id = some rule) (other : StoredRule) :
    (book.add other).find? id = some rule := by
  rw [find?] at h
  simp [find?, add, h]

theorem find?_eq_none (h : ∀ other ∈ book.rules, other.id ≠ id) : book.find? id = none := by
  simpa [find?] using h

/-- A rule with an id of its own is found by it. -/
theorem find?_add_self (h : ∀ other ∈ book.rules, other.id ≠ rule.id) :
    (book.add rule).find? rule.id = some rule := by
  have hnone := find?_eq_none h
  rw [find?] at hnone
  simp [find?, add, hnone]

theorem find?_add_of_ne (h : rule.id ≠ id) : (book.add rule).find? id = book.find? id := by
  simp [find?, add, h]

theorem find?_remove_self (book : Book) (id : String) : (book.remove id).find? id = none := by
  apply find?_eq_none
  intro other hother
  simpa using (List.mem_filter.mp hother).2

theorem find?_remove_of_ne {removed : String} (hne : removed ≠ id) :
    (book.remove removed).find? id = book.find? id := by
  have hboth : (fun r : StoredRule => decide ((r.id != removed) = true ∧ (r.id == id) = true)) =
      fun r => r.id == id := by
    funext r
    by_cases h : r.id = id
    · simp [h, hne.symm]
    · simp [h]
  simp only [find?, remove, List.find?_filter, hboth]

end Book

end Rulebook
