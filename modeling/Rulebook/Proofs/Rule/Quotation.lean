import Rulebook.Proofs.Rule.Tiling

/-!
Open quotations. Words are read one by one, each with quoted runs of its own, but over a whole text
this pairs the quotation marks off from left to right: tokens cannot be read exactly if one mark is
left over, and that is the last one.
-/

namespace Rulebook
open Comparison (mark)

/-- The quotation mark that is left open when those of a text are paired off from left to right.
The text begins at `pos`, in the run opened at `quote` if there is one. -/
def openMark? (quote : Option Nat) (pos : Nat) : Text → Option Nat
  | [] => quote
  | c :: rest =>
    openMark? (if c = mark then (if quote.isSome then none else some pos) else quote) (pos + 1) rest

section
variable {quote : Option Nat} {pos p : Nat} {t before after : Text} {c : CodePoint}

theorem openMark?_append (quote : Option Nat) (pos : Nat) (u v : Text) :
    openMark? quote pos (u ++ v) = openMark? (openMark? quote pos u) (pos + u.length) v := by
  induction u generalizing quote pos with
  | nil => rfl
  | cons c u ih =>
      simp only [List.cons_append, openMark?, ih, List.length_cons]
      congr 1
      omega

theorem openMark?_of_ne (hc : c ≠ mark) (quote : Option Nat) (pos : Nat) (t : Text) :
    openMark? quote pos (c :: t) = openMark? quote (pos + 1) t := by
  rw [openMark?, if_neg hc]

theorem openMark?_of_not_mem (h : mark ∉ t) (quote : Option Nat) (pos : Nat) :
    openMark? quote pos t = quote := by
  induction t generalizing pos with
  | nil => rfl
  | cons c t ih =>
      rw [List.mem_cons, not_or] at h
      rw [openMark?_of_ne (Ne.symm h.1), ih h.2]

/-- A mark is left open if their number is odd, one that was open before among them. -/
theorem isSome_openMark? (quote : Option Nat) (pos : Nat) (t : Text) :
    (openMark? quote pos t).isSome = true ↔ (quote.isSome.toNat + t.count mark) % 2 = 1 := by
  induction t generalizing quote pos with
  | nil => cases quote <;> simp [openMark?]
  | cons c t ih =>
      rw [openMark?, ih, List.count_cons]
      by_cases hc : c = mark
      · subst hc
        cases quote <;> simp <;> omega
      · simp [hc]

/-- Of marks whose number is odd the last one is left open. -/
theorem openMark?_last (heven : Even (before.count mark)) (hafter : mark ∉ after) (pos : Nat) :
    openMark? none pos (before ++ mark :: after) = some (pos + before.length) := by
  have hbefore : openMark? none pos before = none := by
    rw [← Option.not_isSome_iff_eq_none, isSome_openMark?]
    have := Nat.even_iff.mp heven
    simp only [Option.isSome_none, Bool.toNat_false]
    omega
  rw [openMark?_append, hbefore, openMark?, openMark?_of_not_mem hafter]
  simp

theorem exists_last_mark (h : Odd (t.count mark)) :
    ∃ before after, t = before ++ mark :: after ∧ mark ∉ after := by
  have hmem : mark ∈ t := by
    obtain ⟨n, hn⟩ := h
    exact List.count_pos_iff.mp (by omega)
  obtain ⟨us, vs, hus, hmem⟩ := List.eq_append_cons_of_mem (List.mem_reverse.mpr hmem)
  refine ⟨vs.reverse, us.reverse, ?_, by simpa using hmem⟩
  rw [← List.reverse_reverse t, hus]
  simp

/-- A mark is left open exactly if the number of marks is odd, and it is the last one. -/
theorem openMark?_eq_some_iff : openMark? none pos t = some p ↔ Odd (t.count mark) ∧
    ∃ before after, t = before ++ mark :: after ∧ mark ∉ after ∧ p = pos + before.length := by
  have hlast (before after : Text) (hodd : Odd ((before ++ mark :: after).count mark))
      (hafter : mark ∉ after) :
      openMark? none pos (before ++ mark :: after) = some (pos + before.length) := by
    apply openMark?_last _ hafter
    rw [List.count_append, List.count_cons_self, List.count_eq_zero.mpr hafter] at hodd
    exact Nat.not_odd_iff_even.mp fun h => Nat.not_odd_iff_even.mpr h.add_one hodd
  constructor
  · intro h
    have hodd : Odd (t.count mark) := by
      have := (isSome_openMark? none pos t).mp (by rw [h]; rfl)
      simpa [Nat.odd_iff] using this
    obtain ⟨before, after, rfl, hafter⟩ := exists_last_mark hodd
    rw [hlast before after hodd hafter] at h
    exact ⟨hodd, before, after, rfl, hafter, (Option.some.inj h).symm⟩
  · rintro ⟨hodd, before, after, rfl, hafter, rfl⟩
    exact hlast before after hodd hafter

/-- What is read as a word is read with the marks in it paired off. -/
theorem openMark?_readWord (quote : Option Nat) (pos : Nat) (t : Text) :
    openMark? (readWord quote pos t).openQuote (pos + (readWord quote pos t).taken.length)
      (readWord quote pos t).rest = openMark? quote pos t := by
  induction t generalizing quote pos with
  | nil => rfl
  | cons c t ih =>
      cases quote with
      | none =>
          simp only [readWord]
          split
          · rfl
          · have hrest := ih (if c == '\x27' then some pos else none) (pos + 1)
            rw [Nat.add_right_comm] at hrest
            apply hrest.trans
            simp [openMark?, mark]
      | some opened =>
          have hrest := ih (if c == '\x27' then none else some opened) (pos + 1)
          rw [Nat.add_right_comm] at hrest
          apply hrest.trans
          simp [openMark?, mark]

/-- A run that is never closed takes the whole rest of the text. -/
theorem readWord_rest_of_open (h : (readWord quote pos t).openQuote = some p) :
    (readWord quote pos t).rest = [] := by
  induction t generalizing quote pos with
  | nil => rfl
  | cons c t ih =>
      cases quote with
      | none =>
          simp only [readWord] at h ⊢
          split at h
          · cases h
          · rename_i hc
            rw [if_neg hc]
            exact ih h
      | some opened => exact ih h

end

namespace Cursor

/-- The quotation mark ahead of a cursor, outside of quotes, that is left open. -/
def openMark? (c : Cursor) : Option Nat := Rulebook.openMark? none c.pos c.rest

/-- A word cannot be read if a mark is left open in it, and then that is the one left open ahead. -/
theorem word_cases (c : Cursor) :
    (∃ p s, c.openMark? = some p ∧ c.word = (.error ⟨.unterminatedQuote, p⟩, s)) ∨
      ∃ x s, c.word = (.ok x, s) ∧ x.kind ≠ .finish ∧ s.openMark? = c.openMark? := by
  have hread := openMark?_readWord none c.pos c.rest
  rcases hr : readWord none c.pos c.rest with ⟨taken, quote, rest⟩
  rw [hr] at hread
  cases quote with
  | some p =>
      obtain rfl : rest = [] := by
        have := readWord_rest_of_open (congrArg WordRead.openQuote hr)
        rwa [hr] at this
      exact .inl ⟨p, ⟨c.size, c.pos + taken.length, []⟩, hread.symm, by simp only [word, hr]⟩
  | none =>
      exact .inr ⟨⟨.ofWord taken, some taken, c.pos⟩, ⟨c.size, c.pos + taken.length, rest⟩,
        by simp only [word, hr], TokenKind.ofWord_ne_finish taken, hread⟩

/-- Reading a token fails only at a mark that is left open ahead; otherwise the same mark is left
open behind the token. Nothing is ahead once the finishing token was read. -/
theorem next_cases (c : Cursor) :
    (∃ p s, c.openMark? = some p ∧ c.next = (.error ⟨.unterminatedQuote, p⟩, s)) ∨
      ∃ x s, c.next = (.ok x, s) ∧ s.openMark? = c.openMark? ∧
        (x.kind = .finish → s.openMark? = none) := by
  obtain ⟨size, pos, rest⟩ := c
  induction rest generalizing pos with
  | nil => exact .inr ⟨_, _, next_nil size pos, rfl, fun _ => rfl⟩
  | cons d rest ih =>
      by_cases hd : endsWord d = true
      · have hopen : openMark? ⟨size, pos, d :: rest⟩ = openMark? ⟨size, pos + 1, rest⟩ :=
          openMark?_of_ne (ne_mark_of_endsWord hd) none pos rest
        simp only [endsWord, Bool.or_eq_true, beq_iff_eq] at hd
        rcases hd with (hb | rfl) | rfl
        · rw [hopen, next_blank hb]
          exact ih (pos + 1)
        · exact .inr ⟨_, _, next_opening size pos rest, hopen.symm, fun hk => by cases hk⟩
        · exact .inr ⟨_, _, next_closing size pos rest, hopen.symm, fun hk => by cases hk⟩
      · rw [next_cons (by simpa using hd)]
        rcases word_cases ⟨size, pos, d :: rest⟩ with hfail | ⟨x, s, hword, hx, hs⟩
        · exact .inl hfail
        · exact .inr ⟨x, s, hword, hs, fun hk => absurd hk hx⟩

/-- The tokens ahead cannot be read exactly if a mark is left open, and the fault lies there. -/
theorem remaining_eq_error_iff {c : Cursor} {f : Fault} : c.remaining.1 = .error f ↔
    ∃ p, c.openMark? = some p ∧ f = ⟨.unterminatedQuote, p⟩ := by
  fun_induction Cursor.remaining c with
  | case1 c e s hnext =>
      rcases next_cases c with ⟨p, s', hp, hfail⟩ | ⟨x, s', hx, -⟩
      · cases hnext.symm.trans hfail
        simp [hp, eq_comm]
      · cases hnext.symm.trans hx
  | case2 c x s hnext hfinish =>
      rcases next_cases c with ⟨p, s', hp, hfail⟩ | ⟨x', s', hx, hs, hend⟩
      · cases hnext.symm.trans hfail
      · cases hnext.symm.trans hx
        simp [← hs, hend hfinish]
  | case3 c x s hnext hfinish hlt e s' hrest ih =>
      rcases next_cases c with ⟨p, s'', hp, hfail⟩ | ⟨x', s'', hx, hs, -⟩
      · cases hnext.symm.trans hfail
      · cases hnext.symm.trans hx
        rw [hrest, hs] at ih
        exact ih
  | case4 c x s hnext hfinish hlt ts s' hrest ih =>
      rcases next_cases c with ⟨p, s'', hp, hfail⟩ | ⟨x', s'', hx, hs, -⟩
      · cases hnext.symm.trans hfail
      · cases hnext.symm.trans hx
        rw [hrest, hs] at ih
        simpa using ih

end Cursor

theorem tokenize_eq_error_iff {text : Text} {f : Fault} : tokenize text = .error f ↔
    ∃ p, openMark? none 0 text = some p ∧ f = ⟨.unterminatedQuote, p⟩ := by
  have hread := Cursor.remaining_eq_error_iff (c := .ofText text) (f := f)
  rw [Cursor.openMark?, Cursor.ofText] at hread
  rw [← hread, tokenize, Cursor.tokens, Cursor.ofText]
  split
  · rename_i hr
    rw [hr]
  · rename_i hr
    rw [hr]
    simp

/-- A text cannot be read as tokens exactly if it has an odd number of quotation marks. The fault is
then lexical and lies at the last of them. -/
theorem tokenize_fails_iff_odd (text : Text) :
    ((∃ f, tokenize text = .error f) ↔ Odd (text.count mark)) ∧
      ∀ f, tokenize text = .error f → f.cause.family = .lexical ∧ f.cause = .unterminatedQuote ∧
        ∃ before after, text = before ++ mark :: after ∧ mark ∉ after ∧
          f.position = before.length := by
  constructor
  · constructor
    · rintro ⟨f, hf⟩
      obtain ⟨p, hp, -⟩ := tokenize_eq_error_iff.mp hf
      exact (openMark?_eq_some_iff.mp hp).1
    · intro hodd
      obtain ⟨before, after, rfl, hafter⟩ := exists_last_mark hodd
      have hp : openMark? none 0 _ = some (0 + before.length) :=
        openMark?_eq_some_iff.mpr ⟨hodd, before, after, rfl, hafter, rfl⟩
      exact ⟨_, tokenize_eq_error_iff.mpr ⟨_, hp, rfl⟩⟩
  · intro f hf
    obtain ⟨p, hp, rfl⟩ := tokenize_eq_error_iff.mp hf
    obtain ⟨-, before, after, rfl, hafter, hpos⟩ := openMark?_eq_some_iff.mp hp
    exact ⟨rfl, rfl, before, after, rfl, hafter, by simp [hpos]⟩

end Rulebook
