import Rulebook.Rule.Cursor

/-!
Onward moves. What a cursor reads lies ahead of it, and so it moves on by as many characters as it
takes from there. It never moves back, and past the end it moves only step by step.
-/

namespace Rulebook

theorem readWord_taken_rest (quote : Option Nat) (pos : Nat) (t : Text) :
    (readWord quote pos t).taken ++ (readWord quote pos t).rest = t := by
  induction t generalizing quote pos with
  | nil => rfl
  | cons c rest ih =>
      cases quote with
      | none =>
          simp only [readWord]
          split
          · rfl
          · simp [ih]
      | some opened => simp [readWord, ih]

namespace Cursor

/-- The cursor a number of characters further on. -/
def forward (c : Cursor) (n : Nat) : Cursor :=
  { c with pos := c.pos + n, rest := c.rest.drop n }

/-- A cursor comes to stand elsewhere by reading characters that lie ahead of it. -/
def Reads (c s : Cursor) : Prop := ∃ n ≤ c.rest.length, s = c.forward n

section
variable {c s s' : Cursor} {t : Token} {answer : Except Fault Token}

theorem forward_forward (c : Cursor) (m n : Nat) :
    (c.forward m).forward n = c.forward (m + n) := by
  simp [forward, Nat.add_assoc]

theorem length_rest_forward (c : Cursor) (n : Nat) :
    (c.forward n).rest.length = c.rest.length - n := List.length_drop

theorem Reads.trans (h : c.Reads s) (h' : s.Reads s') : c.Reads s' := by
  obtain ⟨m, hm, rfl⟩ := h
  obtain ⟨n, hn, rfl⟩ := h'
  rw [length_rest_forward] at hn
  exact ⟨m + n, by omega, forward_forward c m n⟩

theorem Reads.size (h : c.Reads s) : s.size = c.size := by
  obtain ⟨n, -, rfl⟩ := h
  rfl

/-- Reading does not move a cursor past the end of its text. -/
theorem Reads.inside (h : c.Reads s) (hc : c.pos + c.rest.length = c.size) :
    s.pos + s.rest.length = s.size := by
  obtain ⟨n, hn, rfl⟩ := h
  have hlength := length_rest_forward c n
  simp only [forward] at hlength ⊢
  omega

theorem reads_append (size pos : Nat) (taken rest : Text) :
    Reads ⟨size, pos, taken ++ rest⟩ ⟨size, pos + taken.length, rest⟩ :=
  ⟨taken.length, by simp, by simp [forward]⟩

theorem reads_advance (h : c.rest ≠ []) : c.Reads c.advance :=
  ⟨1, List.length_pos_iff.mpr h, rfl⟩

theorem reads_skipBlanks (c : Cursor) : c.Reads c.skipBlanks := by
  have h := reads_append c.size c.pos (c.rest.takeWhile Text.isBlank)
    (c.rest.dropWhile Text.isBlank)
  rwa [List.takeWhile_append_dropWhile] at h

/-- Reading a word takes its characters away, also those of a quotation that stays open. -/
theorem reads_word (c : Cursor) : c.Reads c.word.2 := by
  have h := reads_append c.size c.pos (readWord none c.pos c.rest).taken
    (readWord none c.pos c.rest).rest
  rw [readWord_taken_rest] at h
  unfold word
  dsimp only
  split <;> exact h

theorem reads_next (c : Cursor) : c.Reads c.next.2 := by
  have hskip := reads_skipBlanks c
  unfold next
  dsimp only
  split
  · exact hskip
  · rename_i d ds hs
    have hadvance : c.Reads c.skipBlanks.advance :=
      hskip.trans (reads_advance (by rw [hs]; exact List.cons_ne_nil d ds))
    split
    · exact hadvance
    · split
      · exact hadvance
      · exact hskip.trans (reads_word c.skipBlanks)

theorem reads_of_next (h : c.next = (answer, s)) : c.Reads s := by
  have hread := reads_next c
  rwa [h] at hread

theorem reads_remaining (c : Cursor) : c.Reads c.remaining.2 := by
  fun_induction Cursor.remaining c with
  | case1 c e s hnext | case2 c t s hnext ht => exact reads_of_next hnext
  | case3 c t s hnext ht hlt e s' hrest ih | case4 c t s hnext ht hlt ts s' hrest ih =>
      rw [hrest] at ih
      exact (reads_of_next hnext).trans ih

theorem reads_tokens (c : Cursor) : c.Reads c.tokens.2 := by
  have hread := reads_remaining c
  unfold tokens
  split
  · rename_i hrest
    rwa [hrest] at hread
  · rename_i hrest
    rwa [hrest] at hread

/-- A token that is not the finishing one moves the cursor on. -/
theorem pos_lt_of_next (h : c.next = (.ok t, s)) (ht : t.kind ≠ .finish) : c.pos < s.pos := by
  have hlt := next_rest_length_lt h ht
  obtain ⟨n, hn, rfl⟩ := reads_of_next h
  rw [length_rest_forward] at hlt
  simp only [forward]
  omega

end

end Cursor

end Rulebook
