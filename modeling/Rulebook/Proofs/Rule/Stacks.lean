import Mathlib.Data.List.Chain
import Rulebook.Proofs.Rule.Safety
import Rulebook.Proofs.Rule.Stage

/-!
What the stacks of an assembly hold. At every call and return on the way of a parse the open groups
that wait are those that the consumed tokens leave open, connectives wait only above looser ones,
and there are operands for all of them.
-/

namespace Rulebook

/-- The upper of two connectives binds tighter than the lower one. -/
def Token.Tighter (upper lower : Token) : Prop :=
  ∃ q r, upper.kind.precedence? = some q ∧ lower.kind.precedence? = some r ∧ r < q

/-- A connective waits above an open group, or above a connective that does not bind as tight. -/
def Steep (p : List Token) : Prop :=
  p.IsChain fun upper lower => upper.kind.precedence?.isSome → lower.kind = .opening ∨
    upper.Tighter lower

section
variable {t : Token} {p p' : List Token} {os os' : List Tree} {least q : Nat}

theorem steep_nil : Steep [] := .nil

theorem Steep.suffix (h : Steep p) (hp : p' <:+ p) : Steep p' := List.IsChain.suffix h hp

theorem Steep.opening (h : Steep p) (ht : t.kind = .opening) : Steep (t :: p) := by
  refine List.isChain_cons.mpr ⟨fun lower _ hupper => ?_, h⟩
  rw [ht] at hupper
  cases hupper

theorem Steep.connective (h : Steep p) (ht : t.kind.precedence? = some q) (hp : Rests q p) :
    Steep (t :: p) := by
  refine List.isChain_cons.mpr ⟨fun lower hlower _ => ?_, h⟩
  exact (hp lower hlower).imp_right fun ⟨r, hr, hprec⟩ => ⟨q, r, ht, hprec, hr⟩

/-- Connectives that wait with no group between them bind tighter from one to the next. As there
are two precedences, there are two of them at most. -/
theorem Steep.of_run (h : Steep p) (hp : ∀ t ∈ p, t.kind.precedence?.isSome) :
    p.Pairwise Token.Tighter ∧ p.length ≤ 2 := by
  have hstep : ∀ {upper lower : Token} {rest}, Steep (upper :: lower :: rest) →
      upper ∈ p → lower ∈ p → upper.Tighter lower := by
    intro upper lower rest hsteep hupper hlower
    rcases (List.isChain_cons_cons.mp hsteep).1 (hp upper hupper) with hopening | htighter
    · have hsome := hp lower hlower
      rw [hopening] at hsome
      cases hsome
    · exact htighter
  match p, h with
  | [], _ => simp
  | [a], _ => simp
  | [a, b], h => simpa using hstep h (by simp) (by simp)
  | a :: b :: c :: rest, h =>
      have htail : Steep (b :: c :: rest) := (List.isChain_cons_cons.mp h).2
      obtain ⟨q, r, hq, hr, hlt⟩ := hstep h (by simp) (by simp)
      obtain ⟨r', u, hr', hu, hlt'⟩ := hstep htail (by simp) (by simp)
      obtain rfl := Option.some.inj (hr.symm.trans hr')
      have hupper := Assembly.precedence_bounds hq
      have hlower := Assembly.precedence_bounds hu
      omega

/-- What is left after folding down to a precedence does not bind as tight. -/
theorem rests_of_foldStacks (h : Assembly.foldStacks least p os = (p', os', true)) :
    Rests least p' := by
  induction p generalizing os with
  | nil =>
      cases h
      exact .nil
  | cons t p ih =>
      rw [foldStacks_cons] at h
      cases ht : t.kind.precedence? with
      | none =>
          simp only [ht, Prod.mk.injEq, decide_eq_true_eq] at h
          obtain ⟨rfl, rfl, hopening⟩ := h
          exact .opening hopening
      | some q =>
          simp only [ht] at h
          split at h
          · rename_i hq
            cases h
            exact .connective ht (by exact_mod_cast hq)
          · match os, h with
            | _ :: _ :: _, h => exact ih h

theorem openings_cons_of_eq (ht : t.kind = .opening) :
    (t :: p).filter (·.kind = .opening) = t :: p.filter (·.kind = .opening) :=
  List.filter_cons_of_pos (decide_eq_true ht)

theorem openings_cons_of_precedence (ht : t.kind.precedence? = some q) :
    (t :: p).filter (·.kind = .opening) = p.filter (·.kind = .opening) := by
  refine List.filter_cons_of_neg ?_
  intro hopening
  rw [of_decide_eq_true hopening] at ht
  cases ht

/-- Folding takes no open group off the stack. -/
theorem openings_foldStacks (least : Int) (p : List Token) (os : List Tree) :
    (Assembly.foldStacks least p os).1.filter (·.kind = .opening) =
      p.filter (·.kind = .opening) := by
  fun_induction Assembly.foldStacks least p os with
  | case1 os | case2 t p os hk | case3 t p os q hk hq => rfl
  | case4 t p q hk hq r l os ih => rw [ih, openings_cons_of_precedence hk]
  | case5 t p os q hk hq hos => rw [openings_cons_of_precedence hk]

theorem Rests.head_opening (h : Rests 0 (t :: p)) : t.kind = .opening := by
  rcases h t rfl with hopening | ⟨q, hq, -⟩
  · exact hopening
  · exact absurd hq (Nat.not_lt_zero q)

theorem openGroups_append_of_opening (ts : List Token) (ht : t.kind = .opening) :
    openGroups (ts ++ [t]) = t :: openGroups ts := by
  simp [openGroups, ht]

theorem openGroups_append_of_closing (ts : List Token) (ht : t.kind = .closing) :
    openGroups (ts ++ [t]) = (openGroups ts).drop 1 := by
  simp [openGroups, ht]

theorem openGroups_append_of_other (ts : List Token) (ho : t.kind ≠ .opening)
    (hc : t.kind ≠ .closing) : openGroups (ts ++ [t]) = openGroups ts := by
  cases hk : t.kind <;> simp_all [openGroups]

end

namespace Assembly

/-- The stack keeps track of the tokens consumed: the tokens ahead are the others, and the groups
that are open after those consumed wait in order, with connectives above them. -/
structure Tracks (tokens : List Token) (s : Assembly) : Prop where
  ahead : s.ahead = tokens.drop s.index
  groups : s.pending.filter (·.kind = .opening) = openGroups (tokens.take s.index)
  steep : Steep s.pending

section
variable {α : Type} {tokens : List Token} {s s₁ : Assembly} {u : Unit}

theorem of_onCurrent {step : Token → AssemblyStep α} {a : α}
    (h : s.onCurrent step = (.ok a, s₁)) : step s.current = (.ok a, s₁) := by
  unfold onCurrent at h
  split at h
  · cases h
  · rename_i t ts hs
    simpa [current, hs] using h

theorem comparison_eq_ok {c : Comparison} (h : s.comparison = (.ok c, s₁)) :
    s.passed.current.kind = .word ∧ s.passed.passed.current.kind = .word ∧
      s₁ = s.passed.passed.passed := by
  have hfield := of_onCurrent h
  dsimp only at hfield
  split at hfield
  · cases hfield
  · have hcomparator := of_onCurrent hfield
    split at hcomparator
    · rename_i hword
      have hliteral := of_onCurrent hcomparator
      split at hliteral
      · rename_i hword'
        exact ⟨hword.1, hword'.1, (Prod.mk.inj hliteral).2.symm⟩
      · cases hliteral
    · cases hcomparator

theorem openGroup_eq_ok (h : s.openGroup = (.ok u, s₁)) :
    s₁ = { s.passed with pending := s.current :: s.passed.pending } := by
  have hnext := of_onCurrent h
  split at hnext
  · cases hnext
  · cases hnext
  · exact (Prod.mk.inj hnext).2.symm

theorem fold_eq_ok {least : Int} (h : s.fold least = (.ok u, s₁)) : ∃ p os,
    foldStacks least s.pending s.operands = (p, os, true) ∧
      s₁ = { s with pending := p, operands := os } := by
  unfold fold at h
  rcases hfold : foldStacks least s.pending s.operands with ⟨p, os, complete⟩
  rw [hfold] at h
  dsimp only at h
  split at h
  · rename_i hcomplete
    exact ⟨p, os, by rw [hcomplete], (Prod.mk.inj h).2.symm⟩
  · cases h

theorem closeGroup_eq_ok (h : s.closeGroup = (.ok u, s₁)) : ∃ s₂ t p,
    s.fold 0 = (.ok (), s₂) ∧ s₂.pending = t :: p ∧ s₁ = { s₂ with pending := p }.passed := by
  unfold closeGroup at h
  dsimp only at h
  split at h
  · cases h
  · rename_i s₂ hfold
    split at h
    · cases h
    · rename_i t p hp
      exact ⟨s₂, t, p, hfold, hp, (Prod.mk.inj h).2.symm⟩

theorem connect_eq_ok {least : Nat} {b : Bool} (h : s.connect least = (.ok b, s₁)) : ∃ s₂,
    s.fold least = (.ok (), s₂) ∧
      s₁ = { s₂.passed with pending := s.current :: s₂.passed.pending } := by
  unfold connect at h
  dsimp only at h
  split at h
  · cases h
  · rename_i s₂ hfold
    have hnext := of_onCurrent h
    split at hnext
    case h_5 => exact ⟨s₂, hfold, (Prod.mk.inj hnext).2.symm⟩
    all_goals cases hnext

theorem complete_eq_ok {b : Bool} (h : s.complete = (.ok b, s₁)) : s.fold 0 = (.ok (), s₁) := by
  unfold complete at h
  split at h
  · cases h
  · rename_i s₂ hfold
    split at h
    · cases h
    · cases h
      exact hfold

/-- Passing a token adds it to those consumed. -/
theorem consumed_passed (h : s.ahead = tokens.drop s.index) (hk : s.current.kind ≠ .finish) :
    s.passed.ahead = tokens.drop s.passed.index ∧
      tokens.take s.passed.index = tokens.take s.index ++ [s.current] := by
  have hpassed : s.passed = { s with index := s.index + 1, ahead := s.ahead.drop 1 } := if_neg hk
  have hhead : tokens[s.index]? = some s.current := by
    rw [← List.head?_drop, ← h]
    cases hs : s.ahead with
    | nil => simp [current, hs, Token.finishAt] at hk
    | cons t ts => simp [current, hs]
  rw [hpassed]
  constructor
  · rw [h, List.drop_drop]
  · rw [List.take_add_one, hhead]
    rfl

theorem Tracks.passed (h : s.Tracks tokens) (hf : s.current.kind ≠ .finish)
    (ho : s.current.kind ≠ .opening) (hc : s.current.kind ≠ .closing) :
    s.passed.Tracks tokens := by
  obtain ⟨hahead, hconsumed⟩ := consumed_passed h.ahead hf
  refine ⟨hahead, ?_, ?_⟩
  · rw [hconsumed, openGroups_append_of_other _ ho hc, passed_pending, h.groups]
  · rw [passed_pending]
    exact h.steep

theorem Tracks.passed_word (h : s.Tracks tokens) (hk : s.current.kind = .word) :
    s.passed.Tracks tokens :=
  h.passed (by rw [hk]; decide) (by rw [hk]; decide) (by rw [hk]; decide)

theorem Tracks.comparison {c : Comparison} (h : s.Tracks tokens) (hk : s.current.kind = .word)
    (hc : s.comparison = (.ok c, s₁)) : s₁.Tracks tokens := by
  obtain ⟨hcomparator, hliteral, rfl⟩ := comparison_eq_ok hc
  exact ((h.passed_word hk).passed_word hcomparator).passed_word hliteral

theorem Tracks.openGroup (h : s.Tracks tokens) (hk : s.current.kind = .opening)
    (ho : s.openGroup = (.ok u, s₁)) : s₁.Tracks tokens := by
  obtain rfl := openGroup_eq_ok ho
  obtain ⟨hahead, hconsumed⟩ := consumed_passed h.ahead (by rw [hk]; decide)
  refine ⟨hahead, ?_, ?_⟩
  · rw [hconsumed, openGroups_append_of_opening _ hk, ← h.groups, passed_pending]
    exact openings_cons_of_eq hk
  · rw [passed_pending]
    exact h.steep.opening hk

theorem Tracks.primary (h : s.Tracks tokens) (hp : s.primary = (.ok u, s₁)) :
    s₁.Tracks tokens := by
  fun_induction Assembly.primary s with
  | case1 s hk | case2 s hk e s₂ hopen | case4 s hk | case5 s hk | case6 s hk | case7 s hk
  | case8 s hk e s₂ hc => cases hp
  | case3 s hk v s₂ hopen hlt ih => exact ih (h.openGroup (current_kind hk) hopen) hp
  | case9 s hk c s₂ hc =>
      cases hp
      have htracks := h.comparison (current_kind hk) hc
      exact ⟨htracks.ahead, htracks.groups, htracks.steep⟩

/-- A fold leaves nothing on top of the stack that binds as tight as `n`. -/
theorem Tracks.fold {n : Nat} (h : s.Tracks tokens) (hf : s.fold n = (.ok u, s₁)) :
    s₁.Tracks tokens ∧ Rests n s₁.pending ∧ s₁.current = s.current := by
  obtain ⟨p, os, hfold, rfl⟩ := fold_eq_ok hf
  have hopenings := openings_foldStacks n s.pending s.operands
  have hsuffix := foldStacks_suffix n s.pending s.operands
  rw [hfold] at hopenings hsuffix
  exact ⟨⟨h.ahead, hopenings.trans h.groups, h.steep.suffix hsuffix⟩,
    rests_of_foldStacks hfold, rfl⟩

theorem Tracks.closeGroup (h : s.Tracks tokens) (hk : s.current.kind = .closing)
    (hc : s.closeGroup = (.ok u, s₁)) : s₁.Tracks tokens := by
  obtain ⟨s₂, t, p, hfold, hp, rfl⟩ := closeGroup_eq_ok hc
  obtain ⟨h₂, hrests, hcurrent⟩ := h.fold (n := 0) hfold
  rw [hp] at hrests
  -- the group that is closed stands on top, as everything else was folded
  have hopening : t.kind = .opening := hrests.head_opening
  have hclosing : (current { s₂ with pending := p }).kind = .closing := hcurrent ▸ hk
  obtain ⟨hahead, hconsumed⟩ :=
    consumed_passed (s := { s₂ with pending := p }) h₂.ahead (by rw [hclosing]; decide)
  refine ⟨hahead, ?_, ?_⟩
  · rw [hconsumed, openGroups_append_of_closing _ hclosing, passed_pending, ← h₂.groups, hp,
      openings_cons_of_eq hopening]
    rfl
  · rw [passed_pending]
    exact h₂.steep.suffix (hp ▸ List.suffix_cons t p)

theorem Tracks.connect {least : Nat} {b : Bool} (h : s.Tracks tokens)
    (hk : s.current.kind.precedence? = some least) (hc : s.connect least = (.ok b, s₁)) :
    s₁.Tracks tokens := by
  obtain ⟨s₂, hfold, rfl⟩ := connect_eq_ok hc
  obtain ⟨h₂, hrests, hcurrent⟩ := h.fold hfold
  have hne : ∀ k : TokenKind, k.precedence? = none → s.current.kind ≠ k := by
    rintro k hnone rfl
    rw [hk] at hnone
    cases hnone
  have h₃ : s₂.passed.Tracks tokens := h₂.passed (hcurrent ▸ hne _ rfl) (hcurrent ▸ hne _ rfl)
    (hcurrent ▸ hne _ rfl)
  refine ⟨h₃.ahead, ?_, ?_⟩
  · rw [← h₃.groups]
    exact openings_cons_of_precedence hk
  · refine h₃.steep.connective hk ?_
    rw [passed_pending]
    exact hrests

theorem Tracks.afterPrimary {b : Bool} (h : s.Tracks tokens) (ha : s.afterPrimary = (.ok b, s₁)) :
    s₁.Tracks tokens := by
  fun_induction Assembly.afterPrimary s with
  | case1 s hk | case2 s hk e s₂ hclose | case7 s hk | case8 s hk => cases ha
  | case3 s hk v s₂ hclose hlt ih => exact ih (h.closeGroup (current_kind hk) hclose) ha
  | case4 s hk => exact (h.fold (n := 0) (complete_eq_ok ha)).1
  | case5 s hk | case6 s hk => exact h.connect (by rw [current_kind hk]; rfl) ha

theorem tracks_ofTokens (tokens : List Token) : (ofTokens tokens).Tracks (closeTokens tokens) :=
  ⟨rfl, rfl, steep_nil⟩

end

/-- The calls and returns of the two steps that a run repeats. The second one returns whether the
tree is complete. -/
inductive Moment where
  | primaryCalled
  | primaryReturned
  | afterPrimaryCalled
  | afterPrimaryReturned (complete : Bool)
  deriving DecidableEq, Repr

/-- A primary is complete, and no connective was queued behind it. -/
def Moment.hasPrimary : Moment → Bool
  | primaryCalled => false
  | primaryReturned => true
  | afterPrimaryCalled => true
  | afterPrimaryReturned complete => complete

/-- A run, with the states at the calls and returns on its way. -/
def runTraced (s : Assembly) : List (Moment × Assembly) × AssemblyStep Unit :=
  match h : s.primary with
  | (.error e, s₁) => ([(.primaryCalled, s)], (.error e, s₁))
  | (.ok _, s₁) =>
    let begun := [(.primaryCalled, s), (.primaryReturned, s₁), (.afterPrimaryCalled, s₁)]
    match h' : s₁.afterPrimary with
    | (.error e, s₂) => (begun, (.error e, s₂))
    | (.ok true, s₂) => (begun ++ [(.afterPrimaryReturned true, s₂)], (.ok (), s₂))
    | (.ok false, s₂) =>
      have : s₂.ahead.length < s.ahead.length :=
        Nat.lt_of_le_of_lt (afterPrimary_ahead_length_le h') (primary_ahead_length_lt h)
      (begun ++ (.afterPrimaryReturned false, s₂) :: s₂.runTraced.1, s₂.runTraced.2)
termination_by s.ahead.length

/-- A parse, with the states at the calls and returns on its way. -/
def parseTraced (s : Assembly) : List (Moment × Assembly) × AssemblyStep Tree :=
  match s.kind? with
  | none => ([], (.error .noOperand, s))
  | some .finish => ([], s.faultAt .emptyRule s.current.position)
  | _ =>
    match runTraced { s with pending := [], operands := [] } with
    | (visits, (.error e, s₁)) => (visits, (.error e, s₁))
    | (visits, (.ok _, s₁)) => (visits, s₁.takeOperand)

/-- What comes next after a moment: the step that is called returns, unless it fails, and the next
step is called in the state that it returns. After the return of a complete tree nothing comes. -/
inductive Follows : Moment × Assembly → Moment × Assembly → Prop
  | primary {s s' u} : s.primary = (.ok u, s') → Follows (.primaryCalled, s) (.primaryReturned, s')
  | onward (s) : Follows (.primaryReturned, s) (.afterPrimaryCalled, s)
  | afterPrimary {s s' complete} : s.afterPrimary = (.ok complete, s') →
      Follows (.afterPrimaryCalled, s) (.afterPrimaryReturned complete, s')
  | again (s) : Follows (.afterPrimaryReturned false, s) (.primaryCalled, s)

/-- All moments from the first call in a state, one after the other, until nothing comes next. -/
structure IsTrace (s : Assembly) (trace : List (Moment × Assembly)) : Prop where
  begins : trace.head? = some (.primaryCalled, s)
  follows : trace.IsChain Follows
  ends : ∀ last ∈ trace.getLast?, ∀ next, ¬ Follows last next

/-- What the stacks hold at a moment of a parse. -/
structure Stacked (tokens : List Token) (moment : Moment) (s : Assembly) : Prop where
  consumed : s.ahead = tokens.drop s.index
  waiting : ∀ t ∈ s.pending, t.kind = .opening ∨ t.kind = .and ∨ t.kind = .or
  tighter : ∀ run, run <:+: s.pending → (∀ t ∈ run, t.kind ≠ .opening) →
    run.Pairwise Token.Tighter ∧ run.length ≤ 2
  groups : s.pending.filter (·.kind = .opening) = openGroups (tokens.take s.index)
  operands : s.operands.length = joins s.pending + if moment.hasPrimary then 1 else 0

section
variable {tokens : List Token} {s s₁ : Assembly} {moment : Moment} {u : Unit}

/-- Tracing a run does not change it. -/
theorem runTraced_snd (s : Assembly) : s.runTraced.2 = s.run := by
  fun_induction runTraced s with
  | case1 s e s₁ hp => simp only [run_eq, hp]
  | case2 s u s₁ hp begun e s₂ ha => simp only [run_eq, hp, resume, ha]
  | case3 s u s₁ hp begun s₂ ha => simp only [run_eq, hp, resume, ha]
  | case4 s u s₁ hp begun s₂ ha hlt ih => simp only [run_eq s, hp, resume, ha, ih]

theorem parseTraced_snd (s : Assembly) : s.parseTraced.2 = s.parse := by
  have hrun := runTraced_snd { s with pending := [], operands := [] }
  unfold parseTraced parse
  rw [← hrun]
  cases s.kind? with
  | none => rfl
  | some k =>
      cases k with
      | finish => rfl
      | _ =>
          dsimp only
          rcases runTraced { s with pending := [], operands := [] } with ⟨visits, e | u, s₁⟩ <;> rfl

/-- No call and no return of a run is missing in its trace. -/
theorem isTrace_runTraced (s : Assembly) : s.IsTrace s.runTraced.1 := by
  fun_induction runTraced s with
  | case1 s e s₁ hp =>
      refine ⟨rfl, .singleton _, ?_⟩
      rintro _ ⟨⟩ next (hnext | _)
      cases hp.symm.trans hnext
  | case2 s u s₁ hp begun e s₂ ha =>
      refine ⟨rfl, .cons_cons (.primary hp) (.cons_cons (.onward s₁) (.singleton _)), ?_⟩
      rintro _ ⟨⟩ next (_ | _ | hnext)
      cases ha.symm.trans hnext
  | case3 s u s₁ hp begun s₂ ha =>
      refine ⟨rfl, .cons_cons (.primary hp) (.cons_cons (.onward s₁)
        (.cons_cons (.afterPrimary ha) (.singleton _))), ?_⟩
      rintro _ ⟨⟩ next hnext
      cases hnext
  | case4 s u s₁ hp begun s₂ ha hlt ih =>
      obtain ⟨hbegins, hfollows, hends⟩ := ih
      have hrest : ((Moment.afterPrimaryReturned false, s₂) :: s₂.runTraced.1).IsChain Follows := by
        refine List.isChain_cons.mpr ⟨fun next hnext => ?_, hfollows⟩
        obtain rfl := Option.some.inj (hbegins.symm.trans hnext)
        exact .again s₂
      refine ⟨rfl, .cons_cons (.primary hp) (.cons_cons (.onward s₁)
        (.cons_cons (.afterPrimary ha) hrest)), ?_⟩
      obtain ⟨more, hmore⟩ := List.head?_eq_some_iff.mp hbegins
      intro last hlast
      apply hends
      rw [hmore] at hlast ⊢
      simpa only [begun, List.cons_append, List.nil_append, List.getLast?_cons_cons] using hlast

/-- A parse that does not stop at its first token is traced from the call of its first step. -/
theorem isTrace_parseTraced {k : TokenKind} (hk : s.kind? = some k) (hne : k ≠ .finish) :
    IsTrace { s with pending := [], operands := [] } s.parseTraced.1 := by
  have hrun := isTrace_runTraced { s with pending := [], operands := [] }
  unfold parseTraced
  rw [hk]
  cases k with
  | finish => exact absurd rfl hne
  | _ =>
      dsimp only
      rcases h : runTraced { s with pending := [], operands := [] } with ⟨trace, e | u, s₁⟩ <;>
        rwa [h] at hrun

theorem Balanced.stacked {n : Nat} (h : s.Balanced n) (ht : s.Tracks tokens)
    (hn : n = if moment.hasPrimary then 1 else 0) : s.Stacked tokens moment := by
  refine ⟨ht.ahead, ?_, ?_, ht.groups, hn ▸ h.balance⟩
  · intro t hmem
    have hwaits := h.waiting t hmem
    cases hk : t.kind <;> simp_all [Token.Waits, TokenKind.precedence?]
  · intro run hrun hopening
    have hsteep : Steep run := List.IsChain.infix ht.steep hrun
    refine hsteep.of_run fun t hmem => ?_
    exact (h.waiting t (hrun.subset hmem)).resolve_left (hopening t hmem)

theorem Done.balanced (h : s.Done) (hs : s.Sound) : s.Balanced 1 := by
  obtain ⟨t, ht⟩ := h.operands
  exact ⟨hs, by rw [h.pending, ht]; rfl⟩

/-- At every moment of a run that begins with balanced stacks they hold what they should. -/
theorem stacked_of_mem_runTraced (h : s.Balanced 0) (ht : s.Tracks tokens) :
    ∀ visit ∈ s.runTraced.1, visit.2.Stacked tokens visit.1 := by
  fun_induction runTraced s with
  | case1 s e s₁ hp => simpa using h.stacked ht rfl
  | case2 s u s₁ hp begun e s₂ ha =>
      have h₁ : s₁.Balanced 1 := h.primary_ends.of_ok hp
      have ht₁ := ht.primary hp
      simp only [begun, List.forall_mem_cons]
      exact ⟨h.stacked ht rfl, h₁.stacked ht₁ rfl, h₁.stacked ht₁ rfl, nofun⟩
  | case3 s u s₁ hp begun s₂ ha =>
      have h₁ : s₁.Balanced 1 := h.primary_ends.of_ok hp
      have ht₁ := ht.primary hp
      have hdone : s₂.Done := h₁.afterPrimary_ends.of_ok ha
      have hsound : s₂.Sound := by simpa [ha] using h₁.toSound.afterPrimary
      simp only [begun, List.cons_append, List.nil_append, List.forall_mem_cons]
      exact ⟨h.stacked ht rfl, h₁.stacked ht₁ rfl, h₁.stacked ht₁ rfl,
        (hdone.balanced hsound).stacked (ht₁.afterPrimary ha) rfl, nofun⟩
  | case4 s u s₁ hp begun s₂ ha hlt ih =>
      have h₁ : s₁.Balanced 1 := h.primary_ends.of_ok hp
      have ht₁ := ht.primary hp
      have h₂ : s₂.Balanced 0 := h₁.afterPrimary_ends.of_ok ha
      have ht₂ := ht₁.afterPrimary ha
      simp only [begun, List.cons_append, List.nil_append, List.forall_mem_cons]
      exact ⟨h.stacked ht rfl, h₁.stacked ht₁ rfl, h₁.stacked ht₁ rfl, h₂.stacked ht₂ rfl,
        ih h₂ ht₂⟩

end

/-- At every call and return of the two steps of a parse, whatever its tokens, the stacks hold this:
open groups and connectives wait, no others; between two groups the connectives bind tighter from
one to the next, so that there are two at most; the groups are those that the tokens consumed leave
open, the innermost on top; and there is an operand for each connective, and one more if a primary
was just completed. -/
theorem stacked_of_parse (tokens : List Token) :
    (ofTokens tokens).parseTraced.2 = (ofTokens tokens).parse ∧
      ∀ visit ∈ (ofTokens tokens).parseTraced.1,
        visit.2.Stacked (closeTokens tokens) visit.1 := by
  refine ⟨parseTraced_snd _, ?_⟩
  have h : (ofTokens tokens).Balanced 0 := ⟨sound_ofTokens tokens, rfl⟩
  have hvisits := stacked_of_mem_runTraced h (tracks_ofTokens tokens)
  unfold parseTraced
  split
  · nofun
  · nofun
  · split
    · rename_i hr
      rw [← congrArg Prod.fst hr]
      exact hvisits
    · rename_i hr
      rw [← congrArg Prod.fst hr]
      exact hvisits

/-- In an open group `AND` waits above `OR`, with an operand for each and the one after them. -/
theorem stacked_of_grouped_joins :
    let tokens : List Token := [⟨.opening, some "(", 0⟩, ⟨.word, some "a", 1⟩, ⟨.word, some "=", 3⟩,
      ⟨.word, some "1", 5⟩, ⟨.or, some "OR", 7⟩, ⟨.word, some "b", 10⟩, ⟨.word, some "=", 12⟩,
      ⟨.word, some "2", 14⟩, ⟨.and, some "AND", 16⟩, ⟨.word, some "c", 20⟩, ⟨.word, some "=", 22⟩,
      ⟨.word, some "3", 24⟩, ⟨.closing, some ")", 25⟩]
    let s : Assembly := ⟨12, [⟨.closing, some ")", 25⟩, .finishAt 26],
      [⟨.and, some "AND", 16⟩, ⟨.or, some "OR", 7⟩, ⟨.opening, some "(", 0⟩],
      [.leaf ⟨"c", "=", "3"⟩, .leaf ⟨"b", "=", "2"⟩, .leaf ⟨"a", "=", "1"⟩]⟩
    (.primaryReturned, s) ∈ (ofTokens tokens).parseTraced.1 ∧
      s.Stacked (closeTokens tokens) .primaryReturned := by
  intro tokens s
  have hvisit : (.primaryReturned, s) ∈ (ofTokens tokens).parseTraced.1 := by decide +kernel
  exact ⟨hvisit, (stacked_of_parse tokens).2 _ hvisit⟩

end Assembly

end Rulebook
