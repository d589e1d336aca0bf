import Mathlib.Data.List.Basic
import Rulebook.Proofs.Rule.Layout

/-!
Calls on a cursor. Its tokens are drawn one by one, as the first items of passes begun anew, or all
at once, and in between it may be moved by hand. In whatever order this happens the cursor only
moves on, and as long as tokens are drawn each draw begins where the last one ended.
-/

namespace Rulebook

namespace Cursor

/-- The calls that a cursor takes. -/
inductive Call where
  | next
  | item
  | tokens
  | word
  | advance
  | skipBlanks
  | refuse (reason : Text) (position : Option Int)
  deriving DecidableEq, Repr

/-- What a call answers if it does not fail. -/
inductive Answer where
  | done
  | token (t : Token)
  | item (t : Option Token)
  | tokens (ts : List Token)
  deriving DecidableEq, Repr

/-- One call: the answer to it, and the cursor it leaves behind, also when it fails. -/
def take (c : Cursor) : Call → Except Fault Answer × Cursor
  | .next => (c.next.1.map .token, c.next.2)
  | .item => (c.item.1.map .item, c.item.2)
  | .tokens => (c.tokens.1.map .tokens, c.tokens.2)
  | .word => (c.word.1.map .token, c.word.2)
  | .advance => (.ok .done, c.advance)
  | .skipBlanks => (.ok .done, c.skipBlanks)
  | .refuse reason position => (.error (c.refuse reason position), c)

/-- Calls one after the other; those that fail do not end the run. -/
def run (c : Cursor) : List Call → List (Except Fault Answer) × Cursor
  | [] => ([], c)
  | call :: calls =>
    let later := (c.take call).2.run calls
    ((c.take call).1 :: later.1, later.2)

/-- The calls that draw tokens. -/
def Call.draws : Call → Bool
  | next | item | tokens => true
  | word | advance | skipBlanks | refuse _ _ => false

/-- The tokens in an answer. -/
def Answer.handedOut : Answer → List Token
  | done => []
  | token t => [t]
  | item t => t.toList
  | tokens ts => ts

/-- The tokens that answers deliver. The finishing token is not among them: it tells that all were
delivered, and whoever asks is told so again. -/
def delivered (answers : List Answer) : List Token :=
  (answers.flatMap Answer.handedOut).filter (·.kind ≠ .finish)

/-- What holds of a cursor on a text, whatever was called on it: the character at its position is
that of the text, or none past the end; no calls move it back; and every token but the finishing one
moves it on. -/
structure IsOn (text : Text) (c : Cursor) : Prop where
  char : c.char? = text[c.pos]?
  onward : ∀ calls, c.pos ≤ (c.run calls).2.pos
  progress : ∀ t s, c.next = (.ok t, s) → t.kind ≠ .finish → c.pos < s.pos

/-- A cursor inside its text owes the tokens that are left, without the finishing one. Past the end
it would owe none either, but the finishing token would not stand where the text ends. -/
structure Owes (c : Cursor) (ts : List Token) : Prop where
  inside : c.pos + c.rest.length = c.size
  ahead : c.remaining.1 = .ok ts

section
variable {c s : Cursor} {t : Token} {ts : List Token} {call : Call} {calls : List Call}

theorem Reads.exists_forward (h : c.Reads s) : ∃ n, s = c.forward n := by
  obtain ⟨n, -, hs⟩ := h
  exact ⟨n, hs⟩

/-- A call moves a cursor by a number of characters, or not at all. -/
theorem exists_forward_take (c : Cursor) (call : Call) : ∃ n, (c.take call).2 = c.forward n := by
  cases call with
  | next => exact (reads_next c).exists_forward
  | item => exact (reads_next c).exists_forward
  | tokens => exact (reads_tokens c).exists_forward
  | word => exact (reads_word c).exists_forward
  | advance => exact ⟨1, rfl⟩
  | skipBlanks => exact (reads_skipBlanks c).exists_forward
  | refuse reason position => exact ⟨0, rfl⟩

theorem exists_forward_run (c : Cursor) (calls : List Call) :
    ∃ n, (c.run calls).2 = c.forward n := by
  induction calls generalizing c with
  | nil => exact ⟨0, rfl⟩
  | cons call calls ih =>
      obtain ⟨m, hm⟩ := exists_forward_take c call
      obtain ⟨n, hn⟩ := ih (c.take call).2
      refine ⟨m + n, ?_⟩
      rw [← forward_forward, ← hm]
      exact hn

theorem char?_forward_ofText (text : Text) (n : Nat) :
    ((ofText text).forward n).char? = text[((ofText text).forward n).pos]? := by
  simp [ofText, forward, char?]

theorem isOn_run (text : Text) (calls : List Call) : ((ofText text).run calls).2.IsOn text := by
  refine ⟨?_, fun more => ?_, fun t s => pos_lt_of_next⟩
  · -- all that calls can do is to move the cursor forward, with the rest of the text ahead
    obtain ⟨n, hn⟩ := exists_forward_run (ofText text) calls
    rw [hn]
    exact char?_forward_ofText text n
  · obtain ⟨n, hn⟩ := exists_forward_run ((ofText text).run calls).2 more
    rw [hn]
    exact Nat.le_add_right _ n

/-- The finishing token is read where nothing is left of the text. -/
theorem next_finish (h : c.next = (.ok t, s)) (ht : t.kind = .finish) :
    s.rest = [] ∧ t = .finishAt s.pos := by
  unfold next at h
  dsimp only at h
  split at h
  · rename_i hs
    cases h
    exact ⟨hs, rfl⟩
  · split at h
    · cases h
      cases ht
    · split at h
      · cases h
        cases ht
      · unfold word at h
        dsimp only at h
        split at h
        · cases h
        · cases h
          exact absurd ht (TokenKind.ofWord_ne_finish _)

theorem Owes.kind_ne_finish (h : c.Owes ts) : ∀ x ∈ ts, x.kind ≠ .finish := by
  have hl : Layout c.pos c.rest ts := .of_remaining h.ahead
  exact fun x hx => (hl.isRead x hx).kind_ne_finish

/-- Nothing is owed where the finishing token is read. -/
theorem Owes.of_finish (h : c.Owes ts) (hnext : c.next = (.ok t, s)) (ht : t.kind = .finish) :
    t = .finishAt c.size ∧ ts = [] ∧ s.Owes [] := by
  have hread := reads_of_next hnext
  have hinside := hread.inside h.inside
  obtain ⟨hrest, rfl⟩ := next_finish hnext ht
  have hahead := h.ahead
  rw [remaining_eq, hnext] at hahead
  obtain rfl : [] = ts := by simpa [ht] using hahead
  refine ⟨?_, rfl, hinside, ?_⟩
  · rw [hrest, List.length_nil, Nat.add_zero, hread.size] at hinside
    rw [hinside]
  · obtain ⟨size, pos, rest⟩ := s
    obtain rfl : rest = [] := hrest
    rw [remaining_nil]

/-- The next token is the first one owed. When none is owed any more it is the finishing one. -/
theorem Owes.next (h : c.Owes ts) :
    ∃ s, c.next = (.ok (ts.headD (.finishAt c.size)), s) ∧ s.Owes ts.tail := by
  rcases hnext : c.next with ⟨e | t, s⟩
  · have hahead := h.ahead
    rw [remaining_eq, hnext] at hahead
    cases hahead
  by_cases ht : t.kind = .finish
  · obtain ⟨rfl, rfl, hs⟩ := h.of_finish hnext ht
    exact ⟨s, rfl, hs⟩
  · obtain ⟨us, rfl, hus⟩ := (remaining_token hnext ht).mp h.ahead
    exact ⟨s, rfl, (reads_of_next hnext).inside h.inside, hus⟩

theorem Owes.item (h : c.Owes ts) : ∃ s, c.item = (.ok ts.head?, s) ∧ s.Owes ts.tail := by
  obtain ⟨s, hnext, hs⟩ := h.next
  refine ⟨s, ?_, hs⟩
  unfold Cursor.item
  rw [hnext]
  cases ts with
  | nil => rfl
  | cons t ts => simp [Except.map, h.kind_ne_finish t (.head _)]

/-- A pass over the tokens that are left is its first item and the pass from there on. -/
theorem remaining_eq_item (c : Cursor) : c.remaining =
    match c.item with
    | (.error e, s) => (.error e, s)
    | (.ok none, s) => (.ok [], s)
    | (.ok (some t), s) =>
      match s.remaining with
      | (.error e, s') => (.error e, s')
      | (.ok ts, s') => (.ok (t :: ts), s') := by
  rw [remaining_eq, Cursor.item]
  rcases c.next with ⟨e | t, s⟩
  · rfl
  · by_cases ht : t.kind = .finish
    · simp only [Except.map, if_pos ht]
    · rcases hrest : s.remaining with ⟨e | ts, s'⟩
      · simp only [Except.map, if_neg ht, hrest]
      · simp only [Except.map, if_neg ht, hrest]

theorem Owes.remaining (h : c.Owes ts) : ∃ s, c.remaining = (.ok ts, s) ∧ s.Owes [] := by
  induction ts generalizing c with
  | nil =>
      obtain ⟨s, hitem, hs⟩ := h.item
      refine ⟨s, ?_, hs⟩
      rw [remaining_eq_item, hitem]
      rfl
  | cons t ts ih =>
      obtain ⟨s, hitem, hs⟩ := h.item
      obtain ⟨s', hrest, hs'⟩ := ih hs
      refine ⟨s', ?_, hs'⟩
      rw [remaining_eq_item, hitem]
      simp only [List.head?_cons, hrest]

theorem Owes.tokens (h : c.Owes ts) :
    ∃ s, c.tokens = (.ok (ts ++ [.finishAt c.size]), s) ∧ s.Owes [] := by
  obtain ⟨s, hrest, hs⟩ := h.remaining
  have hsize : s.size = c.size := by simpa [hrest] using (reads_remaining c).size
  refine ⟨s, ?_, hs⟩
  rw [Cursor.tokens, hrest]
  simp only [hsize]

theorem delivered_cons (answer : Answer) (answers : List Answer) :
    delivered (answer :: answers) = delivered [answer] ++ delivered answers := by
  simp only [delivered, List.flatMap_cons, List.flatMap_nil, List.append_nil, List.filter_append]

/-- The next token is delivered unless it is the finishing one. -/
theorem delivered_token (h : ∀ x ∈ ts, x.kind ≠ .finish) (position : Int) :
    delivered [.token (ts.headD (.finishAt position))] = ts.take 1 := by
  cases ts with
  | nil => rfl
  | cons t ts => simpa [delivered, Answer.handedOut] using h t (.head _)

theorem delivered_item (h : ∀ x ∈ ts, x.kind ≠ .finish) :
    delivered [.item ts.head?] = ts.take 1 := by
  cases ts with
  | nil => rfl
  | cons t ts => simpa [delivered, Answer.handedOut] using h t (.head _)

theorem delivered_tokens (h : ∀ x ∈ ts, x.kind ≠ .finish) (position : Int) :
    delivered [.tokens (ts ++ [.finishAt position])] = ts := by
  have hfinish : [Token.finishAt position].filter (·.kind ≠ .finish) = [] := rfl
  simp only [delivered, List.flatMap_cons, List.flatMap_nil, List.append_nil, Answer.handedOut,
    List.filter_append, hfinish]
  exact List.filter_eq_self.mpr fun x hx => by simpa using h x hx

/-- A draw does not fail, and it delivers what is owed from the front on. -/
theorem Owes.take (h : c.Owes ts) (hdraws : call.draws = true) :
    ∃ answer us s, c.take call = (.ok answer, s) ∧ ts = delivered [answer] ++ us ∧ s.Owes us := by
  have hkind := h.kind_ne_finish
  cases call with
  | next =>
      obtain ⟨s, hnext, hs⟩ := h.next
      refine ⟨.token (ts.headD (.finishAt c.size)), ts.drop 1, s, ?_, ?_, ?_⟩
      · rw [Cursor.take, hnext]
        rfl
      · rw [delivered_token hkind, List.take_append_drop]
      · rw [List.drop_one]
        exact hs
  | item =>
      obtain ⟨s, hitem, hs⟩ := h.item
      refine ⟨.item ts.head?, ts.drop 1, s, ?_, ?_, ?_⟩
      · rw [Cursor.take, hitem]
        rfl
      · rw [delivered_item hkind, List.take_append_drop]
      · rw [List.drop_one]
        exact hs
  | tokens =>
      obtain ⟨s, htokens, hs⟩ := h.tokens
      refine ⟨.tokens (ts ++ [.finishAt c.size]), [], s, ?_, ?_, hs⟩
      · rw [Cursor.take, htokens]
        rfl
      · rw [delivered_tokens hkind, List.append_nil]
  | word | advance | skipBlanks | refuse reason position => cases hdraws

/-- No draw of a run fails, and together they deliver what is owed from the front on. -/
theorem Owes.run (h : c.Owes ts) (hdraws : ∀ call ∈ calls, call.draws = true) :
    ∃ answers us s, c.run calls = (answers.map .ok, s) ∧ ts = delivered answers ++ us ∧
      s.Owes us := by
  induction calls generalizing c ts with
  | nil => exact ⟨[], ts, c, rfl, rfl, h⟩
  | cons call calls ih =>
      obtain ⟨hcall, hcalls⟩ := List.forall_mem_cons.mp hdraws
      obtain ⟨answer, us, s, htake, hts, hus⟩ := h.take hcall
      obtain ⟨answers, vs, s', hrun, hrest, hvs⟩ := ih hus hcalls
      refine ⟨answer :: answers, vs, s', ?_, ?_, hvs⟩
      · simp only [Cursor.run, htake, hrun, List.map_cons]
      · rw [delivered_cons, List.append_assoc, ← hrest, hts]

end

/-- A text that can be read as tokens owes them all, but for the finishing one. -/
theorem owes_ofText {text : Text} {tokens : List Token} (h : tokenize text = .ok tokens) :
    ∃ ts, tokens = ts ++ [.finishAt text.length] ∧ (ofText text).Owes ts := by
  obtain ⟨ts, hl, rfl⟩ := tokenize_eq_ok_iff.mp h
  exact ⟨ts, rfl, Nat.zero_add _, hl.remaining text.length⟩

/-- A cursor stays on its text whatever is called on it, in whatever order and also after failures:
the character it is at is that of the text at its position, calls never move it back, and each token
but the finishing one moves it on. If the text can be read as tokens, no draw fails, whether tokens
are drawn one by one, as first items of new passes or all at once: what was delivered and what is
left are together the tokens of the text, and every further draw begins with the first one that is
left. -/
theorem calls_keep_cursor (text : Text) :
    (∀ calls, ((ofText text).run calls).2.IsOn text) ∧
      ∀ tokens, tokenize text = .ok tokens →
        ∀ calls, (∀ call ∈ calls, call.draws = true) →
          let drawn := (ofText text).run calls
          ∃ answers left, drawn.1 = answers.map .ok ∧
            tokens = delivered answers ++ (left ++ [.finishAt text.length]) ∧
            drawn.2.next.1 = .ok (left.headD (.finishAt text.length)) ∧
            drawn.2.item.1 = .ok left.head? ∧
            drawn.2.tokens.1 = .ok (left ++ [.finishAt text.length]) := by
  refine ⟨isOn_run text, fun tokens htokens calls hdraws => ?_⟩
  obtain ⟨ts, rfl, howes⟩ := owes_ofText htokens
  obtain ⟨answers, left, s, hrun, rfl, hleft⟩ := howes.run hdraws
  have hsize : s.size = text.length := by
    obtain ⟨n, hn⟩ := exists_forward_run (ofText text) calls
    rw [hrun] at hn
    obtain rfl : s = (ofText text).forward n := hn
    rfl
  rw [hrun]
  obtain ⟨s₁, hnext, -⟩ := hleft.next
  obtain ⟨s₂, hitem, -⟩ := hleft.item
  obtain ⟨s₃, hlast, -⟩ := hleft.tokens
  rw [hsize] at hnext hlast
  refine ⟨answers, left, rfl, List.append_assoc .., ?_, ?_, ?_⟩
  · rw [hnext]
  · rw [hitem]
  · rw [hlast]

/-- Moved into the quotation by hand, the cursor reads a word there and moves on. After a token and
the first item of a pass were drawn, all the others are left to be drawn at once. -/
theorem calls_keep_cursor_in_group :
    let text : Text := "(a = 'b c')"
    let quoted := ((ofText text).run (List.replicate 6 .advance)).2
    let calls : List Call := [.next, .item]
    (quoted.next = (.ok ⟨.word, some "b", 6⟩, ⟨11, 7, " c')"⟩) ∧ TokenKind.word ≠ .finish ∧
        quoted.pos < 7) ∧
      tokenize text = .ok [⟨.opening, some "(", 0⟩, ⟨.word, some "a", 1⟩, ⟨.word, some "=", 3⟩,
        ⟨.word, some "'b c'", 5⟩, ⟨.closing, some ")", 10⟩, .finishAt 11] ∧
      (∀ call ∈ calls, call.draws = true) ∧
      ((ofText text).run calls).2.tokens.1 = .ok [⟨.word, some "=", 3⟩,
        ⟨.word, some "'b c'", 5⟩, ⟨.closing, some ")", 10⟩, .finishAt 11] := by
  intro text quoted calls
  have hnext : quoted.next = (.ok ⟨.word, some "b", 6⟩, ⟨11, 7, " c')"⟩) := by decide +kernel
  have htokens : tokenize text = .ok [⟨.opening, some "(", 0⟩, ⟨.word, some "a", 1⟩,
      ⟨.word, some "=", 3⟩, ⟨.word, some "'b c'", 5⟩, ⟨.closing, some ")", 10⟩, .finishAt 11] := by
    decide +kernel
  have hdraws : ∀ call ∈ calls, call.draws = true := by decide
  obtain ⟨hon, hleft⟩ := calls_keep_cursor text
  refine ⟨⟨hnext, nofun, (hon _).progress _ _ hnext nofun⟩, htokens, hdraws, ?_⟩
  obtain ⟨answers, left, hanswers, heq, -, -, hlast⟩ := hleft _ htokens calls hdraws
  have hrun : ((ofText text).run calls).1 = [Answer.token ⟨.opening, some "(", 0⟩,
      .item (some ⟨.word, some "a", 1⟩)].map .ok := by decide +kernel
  have hinjective : Function.Injective (Except.ok : Answer → Except Fault Answer) :=
    fun _ _ => Except.ok.inj
  obtain rfl := hinjective.list_map (hanswers.symm.trans hrun)
  have hdelivered : delivered [.token ⟨.opening, some "(", 0⟩, .item (some ⟨.word, some "a", 1⟩)] =
      [⟨.opening, some "(", 0⟩, ⟨.word, some "a", 1⟩] := by decide
  simp only [hdelivered, List.cons_append, List.nil_append, List.cons.injEq, true_and] at heq
  rw [hlast, ← heq]

end Cursor

end Rulebook
