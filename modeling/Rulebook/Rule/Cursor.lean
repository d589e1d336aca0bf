import Rulebook.Rule.Fault
import Rulebook.Rule.Token
import Rulebook.Text.Blank

/-!
Cursors over rule text. Text falls into words, parentheses and blanks; a quotation mark begins a
quoted run, in which blanks and parentheses belong to the word. A cursor that fails stays where
the failure was noticed.
-/

namespace Rulebook

/-- A place in a text: how long the text is, how far the cursor has moved and what lies ahead. -/
structure Cursor where
  size : Nat
  pos : Nat
  rest : Text
  deriving DecidableEq, Repr

/-- What is left after a word was read: its characters, the open quotation mark at the end of the
text if there is one, and the rest of the text. -/
structure WordRead where
  taken : Text
  openQuote : Option Nat
  rest : Text
  deriving DecidableEq, Repr

def endsWord (c : CodePoint) : Bool := Text.isBlank c || c == '(' || c == ')'

/-- Reads a word from position `pos` on, outside quotes or within the run opened at `quote`. -/
def readWord (quote : Option Nat) (pos : Nat) : Text → WordRead
  | [] => ⟨[], quote, []⟩
  | c :: rest =>
    match quote with
    | none =>
      if endsWord c then ⟨[], none, c :: rest⟩
      else
        let r := readWord (if c == '\x27' then some pos else none) (pos + 1) rest
        ⟨c :: r.taken, r.openQuote, r.rest⟩
    | some opened =>
      let r := readWord (if c == '\x27' then none else some opened) (pos + 1) rest
      ⟨c :: r.taken, r.openQuote, r.rest⟩

/-- Reading a word leaves no more of the text than there was. -/
theorem readWord_rest_length_le (quote : Option Nat) (pos : Nat) (t : Text) :
    (readWord quote pos t).rest.length ≤ t.length := by
  induction t generalizing quote pos with
  | nil => simp [readWord]
  | cons c rest ih =>
    cases quote with
    | none =>
      simp only [readWord]
      split
      · simp
      · exact Nat.le_succ_of_le (ih _ _)
    | some opened => exact Nat.le_succ_of_le (ih _ _)

namespace Cursor

/-- The cursor before the first character of a text. -/
def ofText (text : Text) : Cursor := ⟨text.length, 0, text⟩

def char? (c : Cursor) : Option CodePoint := c.rest.head?

/-- Moves on by one character; past the end only the position grows. -/
def advance (c : Cursor) : Cursor := { c with pos := c.pos + 1, rest := c.rest.drop 1 }

def skipBlanks (c : Cursor) : Cursor :=
  { c with
    pos := c.pos + (c.rest.takeWhile Text.isBlank).length
    rest := c.rest.dropWhile Text.isBlank }

/-- Reads a word from where the cursor stands; the word may be empty. -/
def word (c : Cursor) : Except Fault Token × Cursor :=
  let r := readWord none c.pos c.rest
  let after : Cursor := { c with pos := c.pos + r.taken.length, rest := r.rest }
  match r.openQuote with
  | some opened => (.error ⟨.unterminatedQuote, opened⟩, after)
  | none => (.ok ⟨.ofWord r.taken, some r.taken, c.pos⟩, after)

/-- Reads the next token. At the end of the text that is the finishing token, again and again. -/
def next (c : Cursor) : Except Fault Token × Cursor :=
  let s := c.skipBlanks
  match s.rest with
  | [] => (.ok (.finishAt s.pos), s)
  | d :: _ =>
    if d == '(' then (.ok ⟨.opening, some "(", s.pos⟩, s.advance)
    else if d == ')' then (.ok ⟨.closing, some ")", s.pos⟩, s.advance)
    else s.word

/-- The first item of a new pass over the tokens that are left. A pass has no item any more at the
end of the text. -/
def item (c : Cursor) : Except Fault (Option Token) × Cursor :=
  (c.next.1.map fun t => if t.kind = .finish then none else some t, c.next.2)

/-- A token that is not the finishing one takes characters away. -/
theorem next_rest_length_lt {c s : Cursor} {t : Token} (h : c.next = (.ok t, s))
    (ht : t.kind ≠ .finish) : s.rest.length < c.rest.length := by
  have hd : (c.rest.dropWhile Text.isBlank).length ≤ c.rest.length :=
    (List.dropWhile_sublist Text.isBlank).length_le
  unfold next at h
  simp only [skipBlanks] at h
  split at h
  · simp only [Prod.mk.injEq, Except.ok.injEq] at h
    exact absurd (by rw [← h.1]; rfl) ht
  · rename_i d ds hrest
    simp only [hrest, List.length_cons] at hd
    split at h
    · simp only [advance, hrest, Prod.mk.injEq, Except.ok.injEq] at h
      rw [← h.2]; simp; omega
    · split at h
      · simp only [advance, hrest, Prod.mk.injEq, Except.ok.injEq] at h
        rw [← h.2]; simp; omega
      · rename_i h1 h2
        have hblank : Text.isBlank d = false := by
          have := List.head?_dropWhile_not Text.isBlank c.rest
          rw [hrest] at this
          simpa using this
        have hends : endsWord d = false := by
          simp [endsWord, hblank, h1, h2]
        unfold word at h
        simp only [hrest] at h
        split at h
        · simp at h
        · simp only [Prod.mk.injEq, Except.ok.injEq] at h
          rw [← h.2]
          simp only [readWord, hends]
          have := readWord_rest_length_le
            (if d == '\x27' then some (c.pos + (c.rest.takeWhile Text.isBlank).length) else none)
            (c.pos + (c.rest.takeWhile Text.isBlank).length + 1) ds
          simp only [Bool.false_eq_true, ↓reduceIte]
          omega

/-- The tokens that are left, without the finishing one. -/
def remaining (c : Cursor) : Except Fault (List Token) × Cursor :=
  match h : c.next with
  | (.error e, s) => (.error e, s)
  | (.ok t, s) =>
    if ht : t.kind = .finish then (.ok [], s)
    else
      have : s.rest.length < c.rest.length := next_rest_length_lt h ht
      match s.remaining with
      | (.error e, s') => (.error e, s')
      | (.ok ts, s') => (.ok (t :: ts), s')
termination_by c.rest.length

/-- The tokens that are left, closed by a finishing token at the end of the text. -/
def tokens (c : Cursor) : Except Fault (List Token) × Cursor :=
  match c.remaining with
  | (.error e, s) => (.error e, s)
  | (.ok ts, s) => (.ok (ts ++ [.finishAt s.size]), s)

/-- Refuses the text for a reason, at a given position or else where the cursor stands. -/
def refuse (c : Cursor) (reason : Text) (position : Option Int) : Fault :=
  ⟨.refused reason, position.getD c.pos⟩

end Cursor

def tokenize (text : Text) : Except Fault (List Token) := (Cursor.ofText text).tokens.1

end Rulebook
