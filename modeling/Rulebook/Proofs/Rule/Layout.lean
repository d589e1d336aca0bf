import Rulebook.Proofs.Rule.Onward

/-!
Layouts. Words, parentheses and blanks follow each other without gaps; a text is read as the
tokens that lie in it and in no other way.
-/

namespace Rulebook

/-- A word may end before `rest`: nothing follows, or a character that ends words. -/
def AtBoundary (rest : Text) : Prop := ∀ c ∈ rest.head?, endsWord c = true

/-- Quotation marks come in pairs, and only within a pair stands what would end a word. -/
def pairsQuotes (quoted : Bool) : Text → Bool
  | [] => !quoted
  | c :: rest => (quoted || !endsWord c) && pairsQuotes (quoted != (c == '\x27')) rest

/-- A word of rule text, read whole. -/
structure IsWord (w : Text) : Prop where
  nonempty : w ≠ []
  pairs : pairsQuotes false w = true

theorem AtBoundary.nil : AtBoundary [] := fun _ h => by cases h

theorem AtBoundary.cons {c : CodePoint} (rest : Text) (h : endsWord c = true) :
    AtBoundary (c :: rest) := by
  intro d hd
  obtain rfl := Option.some.inj hd
  exact h

/-- Outside quotes a run is open once its quotation mark was read. -/
theorem isSome_opened (c : CodePoint) (pos : Nat) :
    (if c == '\x27' then some pos else none).isSome = (c == '\x27') := by
  split <;> simp_all

/-- Within quotes a run stays open until its quotation mark is read. -/
theorem isSome_closed (c : CodePoint) (opened : Nat) :
    (if c == '\x27' then none else some opened).isSome = !(c == '\x27') := by
  split <;> simp_all

theorem readWord_append {quote : Option Nat} {w rest : Text} (pos : Nat)
    (hw : pairsQuotes quote.isSome w = true) (hr : AtBoundary rest) :
    readWord quote pos (w ++ rest) = ⟨w, none, rest⟩ := by
  induction w generalizing quote pos with
  | nil =>
      cases quote with
      | some opened => cases hw
      | none =>
          cases rest with
          | nil => rfl
          | cons c rest => simp [readWord, hr c rfl]
  | cons c w ih =>
      simp only [pairsQuotes, Bool.and_eq_true] at hw
      cases quote with
      | none =>
          have hc : endsWord c = false := by simpa using hw.1
          have hrest : pairsQuotes (if c == '\x27' then some pos else none).isSome w = true := by
            rw [isSome_opened]
            simpa using hw.2
          have hread := ih (pos + 1) hrest
          simp only [List.cons_append, readWord, hc, hread, Bool.false_eq_true, if_false]
      | some opened =>
          have hrest : pairsQuotes (if c == '\x27' then none else some opened).isSome w = true := by
            rw [isSome_closed]
            simpa using hw.2
          have hread := ih (pos + 1) hrest
          simp only [List.cons_append, readWord, hread]

/-- A word that leaves no quotation mark open is a word up to where it may end. -/
theorem readWord_closed {quote : Option Nat} {pos : Nat} {t : Text}
    (h : (readWord quote pos t).openQuote = none) :
    pairsQuotes quote.isSome (readWord quote pos t).taken = true ∧
      AtBoundary (readWord quote pos t).rest := by
  induction t generalizing quote pos with
  | nil =>
      obtain rfl : quote = none := h
      exact ⟨rfl, .nil⟩
  | cons c rest ih =>
      cases quote with
      | none =>
          simp only [readWord] at h ⊢
          split
          · rename_i hc
            exact ⟨rfl, .cons rest hc⟩
          · rename_i hc
            rw [if_neg hc] at h
            obtain ⟨hp, hr⟩ := ih h
            refine ⟨?_, hr⟩
            rw [isSome_opened] at hp
            simpa [pairsQuotes, hc] using hp
      | some opened =>
          simp only [readWord] at h ⊢
          obtain ⟨hp, hr⟩ := ih h
          refine ⟨?_, hr⟩
          rw [isSome_closed] at hp
          simpa [pairsQuotes] using hp

namespace Cursor

theorem next_nil (size pos : Nat) :
    next ⟨size, pos, []⟩ = (.ok (.finishAt pos), ⟨size, pos, []⟩) := rfl

theorem next_blank {c : CodePoint} (hc : Text.isBlank c = true) (size pos : Nat) (rest : Text) :
    next ⟨size, pos, c :: rest⟩ = next ⟨size, pos + 1, rest⟩ := by
  have hs : skipBlanks ⟨size, pos, c :: rest⟩ = skipBlanks ⟨size, pos + 1, rest⟩ := by
    simp only [skipBlanks, List.takeWhile_cons, List.dropWhile_cons, hc, if_true,
      List.length_cons, Cursor.mk.injEq, true_and, and_true]
    omega
  unfold next
  rw [hs]

theorem skipBlanks_cons {c : CodePoint} (hc : Text.isBlank c = false) (size pos : Nat)
    (rest : Text) : skipBlanks ⟨size, pos, c :: rest⟩ = ⟨size, pos, c :: rest⟩ := by
  simp [skipBlanks, hc]

theorem next_opening (size pos : Nat) (rest : Text) :
    next ⟨size, pos, .char '(' :: rest⟩ =
      (.ok ⟨.opening, some "(", pos⟩, ⟨size, pos + 1, rest⟩) := by
  unfold next
  rw [skipBlanks_cons (by decide)]
  rfl

theorem next_closing (size pos : Nat) (rest : Text) :
    next ⟨size, pos, .char ')' :: rest⟩ =
      (.ok ⟨.closing, some ")", pos⟩, ⟨size, pos + 1, rest⟩) := by
  unfold next
  rw [skipBlanks_cons (by decide)]
  rfl

/-- What is neither blank nor a parenthesis begins a word. -/
theorem next_cons {c : CodePoint} (hc : endsWord c = false) (size pos : Nat) (rest : Text) :
    next ⟨size, pos, c :: rest⟩ = word ⟨size, pos, c :: rest⟩ := by
  simp only [endsWord, Bool.or_eq_false_iff] at hc
  unfold next
  rw [skipBlanks_cons hc.1.1]
  simp [hc.1.2, hc.2]

theorem next_word {w rest : Text} (hw : IsWord w) (hr : AtBoundary rest) (size pos : Nat) :
    next ⟨size, pos, w ++ rest⟩ =
      (.ok ⟨.ofWord w, some w, pos⟩, ⟨size, pos + w.length, rest⟩) := by
  have hread : readWord none pos (w ++ rest) = ⟨w, none, rest⟩ :=
    readWord_append pos hw.pairs hr
  cases w with
  | nil => exact absurd rfl hw.nonempty
  | cons c w =>
      have hc : endsWord c = false := by
        have := hw.pairs
        simp only [pairsQuotes, Bool.and_eq_true] at this
        simpa using this.1
      rw [List.cons_append] at hread ⊢
      rw [next_cons hc, word]
      simp only [hread]

/-- The tokens ahead are the next one and those after it. -/
theorem remaining_eq (c : Cursor) : c.remaining =
    match c.next with
    | (.error e, s) => (.error e, s)
    | (.ok t, s) =>
      if t.kind = .finish then (.ok [], s)
      else match s.remaining with
        | (.error e, s') => (.error e, s')
        | (.ok ts, s') => (.ok (t :: ts), s') := by
  rw [remaining]
  split
  · rename_i e s h
    rw [h]
  · rename_i t s h
    rcases hs : s.remaining with ⟨_ | _, s'⟩ <;> simp only [h, hs, dite_eq_ite]

theorem remaining_nil (size pos : Nat) :
    remaining ⟨size, pos, []⟩ = (.ok [], ⟨size, pos, []⟩) := by
  rw [remaining_eq, next_nil]
  rfl

theorem remaining_blank {c : CodePoint} (hc : Text.isBlank c = true) (size pos : Nat)
    (rest : Text) : remaining ⟨size, pos, c :: rest⟩ = remaining ⟨size, pos + 1, rest⟩ := by
  rw [remaining_eq, next_blank hc, ← remaining_eq]

theorem remaining_token {c s : Cursor} {t : Token} {us : List Token}
    (h : c.next = (.ok t, s)) (ht : t.kind ≠ .finish) :
    c.remaining.1 = .ok us ↔ ∃ ts, us = t :: ts ∧ s.remaining.1 = .ok ts := by
  rw [remaining_eq c, h]
  simp only [if_neg ht]
  constructor
  · intro hc
    split at hc
    · cases hc
    · rename_i ts s' hs
      exact ⟨ts, (Except.ok.inj hc).symm, by rw [hs]⟩
  · rintro ⟨ts, rfl, hs⟩
    split <;> simp_all

end Cursor

/-- The tokens that lie in a text whose first character stands at a position. -/
inductive Layout : Nat → Text → List Token → Prop
  | nil (pos : Nat) : Layout pos [] []
  | blank {pos c rest ts} : Text.isBlank c = true → Layout (pos + 1) rest ts →
      Layout pos (c :: rest) ts
  | opening {pos rest ts} : Layout (pos + 1) rest ts →
      Layout pos (.char '(' :: rest) (⟨.opening, some "(", pos⟩ :: ts)
  | closing {pos rest ts} : Layout (pos + 1) rest ts →
      Layout pos (.char ')' :: rest) (⟨.closing, some ")", pos⟩ :: ts)
  | word {pos w rest ts} : IsWord w → AtBoundary rest → Layout (pos + w.length) rest ts →
      Layout pos (w ++ rest) (⟨.ofWord w, some w, pos⟩ :: ts)

theorem TokenKind.ofWord_ne_finish (w : Text) : TokenKind.ofWord w ≠ .finish := by
  unfold TokenKind.ofWord
  split
  · decide
  · split <;> decide

theorem Layout.remaining {pos : Nat} {t : Text} {ts : List Token} (h : Layout pos t ts)
    (size : Nat) : (Cursor.remaining ⟨size, pos, t⟩).1 = .ok ts := by
  induction h with
  | nil pos => rw [Cursor.remaining_nil]
  | blank hc h ih => rw [Cursor.remaining_blank hc, ih]
  | opening h ih =>
      exact (Cursor.remaining_token (Cursor.next_opening ..) nofun).mpr ⟨_, rfl, ih⟩
  | closing h ih =>
      exact (Cursor.remaining_token (Cursor.next_closing ..) nofun).mpr ⟨_, rfl, ih⟩
  | word hw hr h ih =>
      exact (Cursor.remaining_token (Cursor.next_word hw hr ..)
        (TokenKind.ofWord_ne_finish _)).mpr ⟨_, rfl, ih⟩

/-- The text from a character on that may stand in a word: the word, if no quotation mark stays
open. -/
theorem Cursor.remaining_cons {c : CodePoint} (hc : endsWord c = false) {size pos : Nat}
    {rest : Text} {ts : List Token} (h : (remaining ⟨size, pos, c :: rest⟩).1 = .ok ts) :
    ∃ w after, c :: rest = w ++ after ∧ IsWord w ∧ AtBoundary after := by
  cases hq : (readWord none pos (c :: rest)).openQuote with
  | some opened =>
      rw [remaining_eq, next_cons hc, word, hq] at h
      cases h
  | none =>
      obtain ⟨hp, hr⟩ := readWord_closed hq
      refine ⟨_, _, (readWord_taken_rest none pos (c :: rest)).symm, ⟨?_, hp⟩, hr⟩
      simp [readWord, hc]

theorem Layout.of_remaining {size pos : Nat} {t : Text} {ts : List Token}
    (h : (Cursor.remaining ⟨size, pos, t⟩).1 = .ok ts) : Layout pos t ts := by
  -- a turn of the cursor drops several characters, so the induction is on the length
  induction hn : t.length using Nat.strongRecOn generalizing pos t ts with
  | _ n ih =>
      cases t with
      | nil =>
          rw [Cursor.remaining_nil] at h
          obtain rfl := Except.ok.inj h
          exact .nil pos
      | cons c rest =>
          have hlt : rest.length < n := by rw [← hn]; exact Nat.lt_succ_self _
          by_cases hb : Text.isBlank c = true
          · rw [Cursor.remaining_blank hb] at h
            exact .blank hb (ih _ hlt h rfl)
          by_cases ho : c = '('
          · subst ho
            obtain ⟨us, rfl, hs⟩ := (Cursor.remaining_token (Cursor.next_opening ..) nofun).mp h
            exact .opening (ih _ hlt hs rfl)
          by_cases hk : c = ')'
          · subst hk
            obtain ⟨us, rfl, hs⟩ := (Cursor.remaining_token (Cursor.next_closing ..) nofun).mp h
            exact .closing (ih _ hlt hs rfl)
          have hc : endsWord c = false := by simp [endsWord, hb, ho, hk]
          obtain ⟨w, after, ht, hw, hr⟩ := Cursor.remaining_cons hc h
          rw [ht] at h ⊢
          obtain ⟨us, rfl, hs⟩ := (Cursor.remaining_token (Cursor.next_word hw hr ..)
            (TokenKind.ofWord_ne_finish _)).mp h
          have hlen : after.length < n := by
            have := List.length_pos_iff.mpr hw.nonempty
            rw [← hn, ht, List.length_append]
            omega
          exact .word hw hr (ih _ hlen hs rfl)

/-- A text is read as the tokens that lie in it, closed at its end. -/
theorem tokenize_eq_ok_iff {text : Text} {tokens : List Token} : tokenize text = .ok tokens ↔
    ∃ ts, Layout 0 text ts ∧ tokens = ts ++ [.finishAt text.length] := by
  have hsize := (Cursor.reads_remaining (.ofText text)).size
  unfold tokenize Cursor.tokens
  constructor
  · intro h
    split at h
    · cases h
    · rename_i ts s hs
      rw [hs] at hsize
      have hread : (Cursor.remaining ⟨text.length, 0, text⟩).1 = .ok ts := by
        rw [← Cursor.ofText, hs]
      have hl : Layout 0 text ts := .of_remaining hread
      exact ⟨ts, hl, by rw [← Except.ok.inj h, hsize]; rfl⟩
  · rintro ⟨ts, hl, rfl⟩
    have hr := hl.remaining text.length
    rw [← Cursor.ofText] at hr
    split
    · simp_all
    · rename_i us s hs
      rw [hs] at hr hsize
      rw [Except.ok.inj hr, hsize]
      rfl

/-- A token as it is read from a text. -/
inductive Token.IsRead : Token → Prop
  | opening (pos : Int) : IsRead ⟨.opening, some "(", pos⟩
  | closing (pos : Int) : IsRead ⟨.closing, some ")", pos⟩
  | and (pos : Int) : IsRead ⟨.and, some "AND", pos⟩
  | or (pos : Int) : IsRead ⟨.or, some "OR", pos⟩
  | word {w : Text} (hw : IsWord w) (hk : TokenKind.ofWord w = .word) (pos : Int) :
      IsRead ⟨.word, some w, pos⟩

theorem IsWord.isRead {w : Text} (hw : IsWord w) (pos : Int) :
    Token.IsRead ⟨.ofWord w, some w, pos⟩ := by
  by_cases ha : w = "AND"
  · subst ha
    exact .and pos
  by_cases ho : w = "OR"
  · subst ho
    exact .or pos
  have hk : TokenKind.ofWord w = .word := by simp [TokenKind.ofWord, ha, ho]
  rw [hk]
  exact .word hw hk pos

theorem Layout.isRead {pos : Nat} {t : Text} {ts : List Token} (h : Layout pos t ts) :
    ∀ x ∈ ts, x.IsRead := by
  induction h with
  | nil pos => exact fun _ hx => by cases hx
  | blank hc h ih => exact ih
  | opening h ih => exact List.forall_mem_cons.mpr ⟨.opening _, ih⟩
  | closing h ih => exact List.forall_mem_cons.mpr ⟨.closing _, ih⟩
  | word hw hr h ih => exact List.forall_mem_cons.mpr ⟨hw.isRead _, ih⟩

theorem Token.IsRead.kind_ne_finish {x : Token} (h : x.IsRead) : x.kind ≠ .finish := by
  cases h <;> exact nofun

end Rulebook
