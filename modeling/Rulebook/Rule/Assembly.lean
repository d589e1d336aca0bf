import Rulebook.Rule.Fault
import Rulebook.Rule.Token
import Rulebook.Rule.Tree

/-!
Assembling a tree from tokens. Open groups and connectives that wait for their right side stand
on one stack, finished operands on another, so that nesting costs no more than memory. Each step
returns the state it leaves behind, also when it fails.
-/

namespace Rulebook

/-- Why a step gave up: a fault of the rule, or nothing was there where an operand, a token or a
precedence was needed. -/
inductive AssemblyFailure where
  | fault (f : Fault)
  | noOperand
  deriving DecidableEq, Repr

/-- The state of an assembly: how many tokens are consumed, those ahead, and the two stacks with
their tops first. -/
structure Assembly where
  index : Nat
  ahead : List Token
  pending : List Token
  operands : List Tree
  deriving DecidableEq, Repr

abbrev AssemblyStep (α : Type) := Except AssemblyFailure α × Assembly

/-- The position just after the last token of a list. -/
def endOfTokens (tokens : List Token) : Int :=
  match tokens.getLast? with
  | none => 0
  | some t => t.position + (t.value.getD []).length

/-- A token list with a finishing token at its end; one that has it is left as it is. -/
def closeTokens (tokens : List Token) : List Token :=
  match tokens.getLast? with
  | some ⟨.finish, _, _⟩ => tokens
  | _ => tokens ++ [.finishAt (endOfTokens tokens)]

namespace Assembly

/-- The assembly of a token list before its first token. -/
def ofTokens (tokens : List Token) : Assembly := ⟨0, closeTokens tokens, [], []⟩

def current (s : Assembly) : Token := s.ahead.headD (.finishAt 0)

/-- The kind of the current token. Past the end of the tokens there is none. -/
def kind? (s : Assembly) : Option TokenKind := s.ahead.head?.map (·.kind)

/-- Does a step on the current token, which has to be there. -/
def onCurrent {α : Type} (s : Assembly) (step : Token → AssemblyStep α) : AssemblyStep α :=
  match s.ahead with
  | [] => (.error .noOperand, s)
  | t :: _ => step t

/-- The state past the current token. The finishing token is never passed. -/
def passed (s : Assembly) : Assembly :=
  if s.current.kind = .finish then s
  else { s with index := s.index + 1, ahead := s.ahead.drop 1 }

def advance (s : Assembly) : Token × Assembly := (s.current, s.passed)

def isGrouped (s : Assembly) : Bool := s.pending.any (fun t => t.kind = .opening)

def faultAt {α : Type} (s : Assembly) (cause : FaultCause) (position : Int) : AssemblyStep α :=
  (.error (.fault ⟨cause, position⟩), s)

/-- The words for what was found in place of something else. -/
def found (t : Token) : Option Text := if t.kind = .finish then none else some t.shown

def isComparator (t : Token) : Bool := Comparator.isSymbol (t.value.getD [])

def comparison (s : Assembly) : AssemblyStep Comparison :=
  s.onCurrent fun field =>
    let s₁ := s.passed
    if isComparator field then s₁.faultAt (.missingField field.shown) field.position
    else
      s₁.onCurrent fun comparator =>
        if comparator.kind = .word ∧ isComparator comparator then
          let s₂ := s₁.passed
          s₂.onCurrent fun literal =>
            if literal.kind = .word ∧ isComparator literal = false then
              (.ok ⟨field.shown, comparator.shown, literal.shown⟩, s₂.passed)
            else
              s₂.faultAt (.missingLiteral field.shown comparator.shown (found literal))
                literal.position
        else
          s₁.faultAt (.missingComparator field.shown (found comparator)) comparator.position

/-- Consumes an opening parenthesis; an empty or unfinished group is refused at once. -/
def openGroup (s : Assembly) : AssemblyStep Unit :=
  let opening := s.current
  let s₁ := s.passed
  s₁.onCurrent fun next =>
    match next.kind with
    | .closing => s₁.faultAt .emptyGroup opening.position
    | .finish => s₁.faultAt .missingClosing opening.position
    | _ => (.ok (), { s₁ with pending := opening :: s₁.pending })

theorem current_kind {s : Assembly} {k : TokenKind} (h : s.kind? = some k) :
    s.current.kind = k := by
  unfold kind? at h
  cases hs : s.ahead with
  | nil => simp [hs] at h
  | cons t ts => simpa [current, hs] using h

theorem onCurrent_of_ne {α : Type} {s : Assembly} (h : s.current.kind ≠ .finish)
    (step : Token → AssemblyStep α) : s.onCurrent step = step s.current := by
  unfold onCurrent
  cases hs : s.ahead with
  | nil => simp [current, hs, Token.finishAt] at h
  | cons t ts => simp [current, hs]

/-- A step on the current token leaves no more tokens ahead than it does if the token is there. -/
theorem onCurrent_ahead_length_le {α : Type} {s : Assembly} {step : Token → AssemblyStep α}
    {n : Nat} (hs : s.ahead.length ≤ n) (h : ∀ t, (step t).2.ahead.length ≤ n) :
    (s.onCurrent step).2.ahead.length ≤ n := by
  unfold onCurrent
  split
  · exact hs
  · exact h _

/-- Passing a token that does not finish the list takes it from the tokens ahead. -/
theorem passed_ahead_length_lt {s : Assembly} (h : s.current.kind ≠ .finish) :
    s.passed.ahead.length < s.ahead.length := by
  unfold passed
  rw [if_neg h]
  match hs : s.ahead with
  | [] => simp [current, hs, Token.finishAt] at h
  | t :: ts => simp

theorem passed_ahead_length_le (s : Assembly) : s.passed.ahead.length ≤ s.ahead.length := by
  unfold passed
  split
  · exact Nat.le_refl _
  · simp

/-- The tokens ahead after a group was opened are those after the parenthesis. -/
theorem openGroup_ahead (s : Assembly) : s.openGroup.2.ahead = s.passed.ahead := by
  unfold openGroup onCurrent faultAt
  dsimp only
  split
  · rfl
  · split <;> rfl

/-- Opens all groups that begin here, then consumes one comparison as an operand. -/
def primary (s : Assembly) : AssemblyStep Unit :=
  match hk : s.kind? with
  | none => (.error .noOperand, s)
  | some .opening =>
    match h : s.openGroup with
    | (.error e, s₁) => (.error e, s₁)
    | (.ok _, s₁) =>
      have : s₁.ahead.length < s.ahead.length := by
        have hs₁ : s₁.ahead = s.passed.ahead := by rw [← openGroup_ahead, h]
        rw [hs₁]
        exact passed_ahead_length_lt (by rw [current_kind hk]; decide)
      s₁.primary
  | some .and | some .or => s.faultAt (.missingLeft s.current.shown) s.current.position
  | some .closing => s.faultAt .unmatchedClosing s.current.position
  | some .finish => s.faultAt .noCondition s.current.position
  | some .word =>
    match s.comparison with
    | (.error e, s₁) => (.error e, s₁)
    | (.ok c, s₁) => (.ok (), { s₁ with operands := .leaf c :: s₁.operands })
termination_by s.ahead.length

/-- Joins operands by the connectives on top of the stack that bind at least as tight as
`least`; an open group ends the run. The third component tells whether all that was looked at is an
open group or a connective, and every connective found its two operands. -/
def foldStacks (least : Int) : List Token → List Tree → List Token × List Tree × Bool
  | [], operands => ([], operands, true)
  | t :: pending, operands =>
    match t.kind.precedence? with
    | none => (t :: pending, operands, t.kind = .opening)
    | some p =>
      if p < least then (t :: pending, operands, true)
      else match operands with
        | right :: left :: rest => foldStacks least pending (.join t.shown left right :: rest)
        | _ => (pending, [], false)

def fold (s : Assembly) (least : Int) : AssemblyStep Unit :=
  let (pending, operands, complete) := foldStacks least s.pending s.operands
  let s₁ := { s with pending := pending, operands := operands }
  if complete then (.ok (), s₁) else (.error .noOperand, s₁)

/-- Consumes a closing parenthesis and with it the innermost open group. -/
def closeGroup (s : Assembly) : AssemblyStep Unit :=
  let closing := s.current
  match s.fold 0 with
  | (.error e, s₁) => (.error e, s₁)
  | (.ok _, s₁) =>
    match s₁.pending with
    | [] => s₁.faultAt .unmatchedClosing closing.position
    | _ :: pending => (.ok (), { s₁ with pending := pending }.passed)

theorem fold_ahead (s : Assembly) (least : Int) : (s.fold least).2.ahead = s.ahead := by
  unfold fold
  dsimp only
  split <;> rfl

theorem closeGroup_ahead_length_lt {s s₁ : Assembly} {u : Unit}
    (hk : s.current.kind ≠ .finish) (h : s.closeGroup = (.ok u, s₁)) :
    s₁.ahead.length < s.ahead.length := by
  unfold closeGroup at h
  dsimp only at h
  split at h
  · simp at h
  · rename_i s₂ hfold
    have hahead : s₂.ahead = s.ahead := by rw [← fold_ahead s 0, hfold]
    split at h
    · simp [faultAt] at h
    · rename_i t pending hp
      simp only [Prod.mk.injEq] at h
      rw [← h.2, ← hahead]
      refine passed_ahead_length_lt (s := { s₂ with pending := pending }) ?_
      simpa [current, hahead] using hk

/-- The connective after a primary: folds what binds as tight, and waits for the right side. -/
def connect (s : Assembly) (least : Nat) : AssemblyStep Bool :=
  let connective := s.current
  match s.fold least with
  | (.error e, s₁) => (.error e, s₁)
  | (.ok _, s₁) =>
    let s₂ := s₁.passed
    s₂.onCurrent fun next =>
      match next.kind with
      | .finish | .closing | .and | .or =>
        s₂.faultAt (.missingRight connective.shown) connective.position
      | _ => (.ok false, { s₂ with pending := connective :: s₂.pending })

/-- The end of the tokens: folds everything, and no group may be left open. -/
def complete (s : Assembly) : AssemblyStep Bool :=
  match s.fold 0 with
  | (.error e, s₁) => (.error e, s₁)
  | (.ok _, s₁) =>
    match s₁.pending with
    | t :: _ => s₁.faultAt .missingClosing t.position
    | [] => (.ok true, s₁)

/-- What follows a primary: closing parentheses, then a connective or the end. The answer is true
at the end, when the tree is complete. -/
def afterPrimary (s : Assembly) : AssemblyStep Bool :=
  match hk : s.kind? with
  | none => (.error .noOperand, s)
  | some .closing =>
    match h : s.closeGroup with
    | (.error e, s₁) => (.error e, s₁)
    | (.ok _, s₁) =>
      have : s₁.ahead.length < s.ahead.length :=
        closeGroup_ahead_length_lt (by rw [current_kind hk]; decide) h
      s₁.afterPrimary
  | some .finish => s.complete
  | some .or => s.connect 1
  | some .and => s.connect 2
  | some .word | some .opening =>
    s.faultAt (.unexpected s.current.shown s.isGrouped) s.current.position
termination_by s.ahead.length

/-- A comparison passes at least its field, if that does not finish the list. -/
theorem comparison_ahead_length_lt {s : Assembly} (hk : s.current.kind ≠ .finish) :
    s.comparison.2.ahead.length < s.ahead.length := by
  have h₁ := passed_ahead_length_lt hk
  have h₂ := passed_ahead_length_le s.passed
  have h₃ := passed_ahead_length_le s.passed.passed
  unfold comparison faultAt
  rw [onCurrent_of_ne hk]
  dsimp only
  split
  · exact h₁
  · refine Nat.lt_of_le_of_lt (onCurrent_ahead_length_le (Nat.le_refl _) fun comparator => ?_) h₁
    split
    · refine onCurrent_ahead_length_le h₂ fun literal => ?_
      split
      · exact Nat.le_trans h₃ h₂
      · exact h₂
    · exact Nat.le_refl _

theorem primary_ahead_length_lt {s s₁ : Assembly} {u : Unit} (h : s.primary = (.ok u, s₁)) :
    s₁.ahead.length < s.ahead.length := by
  induction hn : s.ahead.length using Nat.strongRecOn generalizing s with
  | _ n ih =>
    unfold primary at h
    split at h
    · cases h
    · rename_i hk
      split at h
      · cases h
      · rename_i s₂ hopen
        have hlt : s₂.ahead.length < s.ahead.length := by
          have hs₂ : s₂.ahead = s.passed.ahead := by rw [← openGroup_ahead, hopen]
          rw [hs₂]
          exact passed_ahead_length_lt (by rw [current_kind hk]; decide)
        have := ih s₂.ahead.length (by omega) h rfl
        omega
    · cases h
    · cases h
    · cases h
    · cases h
    · rename_i hk
      have hlt := comparison_ahead_length_lt (s := s) (by rw [current_kind hk]; decide)
      split at h
      · cases h
      · rename_i c s₂ hc
        simp only [Prod.mk.injEq] at h
        rw [hc] at hlt
        rw [← h.2]
        simp only at hlt ⊢
        omega

theorem connect_ahead_length_le (s : Assembly) (least : Nat) :
    (s.connect least).2.ahead.length ≤ s.ahead.length := by
  have hfold := fold_ahead s least
  unfold connect
  dsimp only
  split
  · rename_i e s₁ h
    rw [h] at hfold
    exact Nat.le_of_eq (congrArg List.length hfold)
  · rename_i s₁ h
    rw [h] at hfold
    rw [← hfold]
    have := passed_ahead_length_le s₁
    refine onCurrent_ahead_length_le this fun next => ?_
    split <;> exact this

theorem complete_ahead (s : Assembly) : s.complete.2.ahead = s.ahead := by
  unfold complete
  split
  · rename_i e s₁ h
    rw [← fold_ahead s 0, h]
  · rename_i s₁ h
    have : s₁.ahead = s.ahead := by rw [← fold_ahead s 0, h]
    split <;> simp [faultAt, this]

theorem afterPrimary_ahead_length_le {s s₁ : Assembly} {b : Bool}
    (h : s.afterPrimary = (.ok b, s₁)) : s₁.ahead.length ≤ s.ahead.length := by
  induction hn : s.ahead.length using Nat.strongRecOn generalizing s with
  | _ n ih =>
    unfold afterPrimary at h
    split at h
    · cases h
    · rename_i hk
      split at h
      · cases h
      · rename_i s₂ hclose
        have hlt := closeGroup_ahead_length_lt (by rw [current_kind hk]; decide) hclose
        have := ih s₂.ahead.length (by omega) h rfl
        omega
    · have := complete_ahead s
      rw [h] at this
      exact hn ▸ Nat.le_of_eq (congrArg List.length this)
    · have := connect_ahead_length_le s 1
      rw [h] at this
      simp only at this
      omega
    · have := connect_ahead_length_le s 2
      rw [h] at this
      simp only at this
      omega
    · cases h
    · cases h

/-- Consumes primaries and what follows them until the tree is complete. -/
def run (s : Assembly) : AssemblyStep Unit :=
  match h : s.primary with
  | (.error e, s₁) => (.error e, s₁)
  | (.ok _, s₁) =>
    match h' : s₁.afterPrimary with
    | (.error e, s₂) => (.error e, s₂)
    | (.ok true, s₂) => (.ok (), s₂)
    | (.ok false, s₂) =>
      have : s₂.ahead.length < s.ahead.length :=
        Nat.lt_of_le_of_lt (afterPrimary_ahead_length_le h') (primary_ahead_length_lt h)
      s₂.run
termination_by s.ahead.length

def takeOperand (s : Assembly) : AssemblyStep Tree :=
  match s.operands with
  | [] => (.error .noOperand, s)
  | t :: rest => (.ok t, { s with operands := rest })

/-- Assembles the tree of the tokens ahead, from empty stacks. -/
def parse (s : Assembly) : AssemblyStep Tree :=
  match s.kind? with
  | none => (.error .noOperand, s)
  | some .finish => s.faultAt .emptyRule s.current.position
  | _ =>
    match run { s with pending := [], operands := [] } with
    | (.error e, s₁) => (.error e, s₁)
    | (.ok _, s₁) => s₁.takeOperand

end Assembly

def parseTokens (tokens : List Token) : Except AssemblyFailure Tree :=
  (Assembly.ofTokens tokens).parse.1

end Rulebook
