import Rulebook.Proofs.Rule.Turns

/-!
Safety of assemblies. Whatever was called on an assembly before, a parse of its tokens ends in a
tree or in a fault of the rule: the tokens, operands and precedences it needs are there.
-/

namespace Rulebook

/-- A list of tokens with a finishing one at its end. -/
def IsClosed (tokens : List Token) : Prop := ∃ t ∈ tokens.getLast?, t.kind = .finish

/-- A token that may wait on the stack: an open group, or a connective. -/
def Token.Waits (t : Token) : Prop := t.kind = .opening ∨ t.kind.precedence?.isSome

/-- How many connectives wait. -/
def joins (pending : List Token) : Nat := pending.countP (·.kind.precedence?.isSome)

section
variable {t : Token} {tokens p : List Token}

theorem isClosed_closeTokens (tokens : List Token) : IsClosed (closeTokens tokens) := by
  unfold closeTokens
  split
  · rename_i h
    exact ⟨_, h, rfl⟩
  · exact ⟨.finishAt (endOfTokens tokens), by simp, rfl⟩

theorem IsClosed.ne_nil (h : IsClosed tokens) : tokens ≠ [] := by
  rintro rfl
  obtain ⟨t, ht, -⟩ := h
  cases ht

theorem IsClosed.of_cons (h : IsClosed (t :: tokens)) (ht : t.kind ≠ .finish) :
    IsClosed tokens := by
  cases tokens with
  | nil =>
      obtain ⟨u, hu, hk⟩ := h
      obtain rfl := Option.some.inj hu
      exact absurd hk ht
  | cons x tokens => simpa [IsClosed] using h

@[simp] theorem joins_nil : joins [] = 0 := rfl

theorem joins_opening (ht : t.kind = .opening) : joins (t :: p) = joins p := by
  simp [joins, ht, TokenKind.precedence?]

theorem joins_connective {q : Nat} (ht : t.kind.precedence? = some q) :
    joins (t :: p) = joins p + 1 := by
  simp [joins, ht]

end

namespace Assembly

/-- The calls that an assembly takes. -/
inductive Call where
  | parse
  | primary
  | afterPrimary
  | advance
  | comparison
  | isGrouped
  | fold (least : Int)

/-- The state that a call leaves behind, also when it fails. -/
def after (s : Assembly) : Call → Assembly
  | .parse => s.parse.2
  | .primary => s.primary.2
  | .afterPrimary => s.afterPrimary.2
  | .advance => s.advance.2
  | .comparison => s.comparison.2
  | .isGrouped => s
  | .fold least => (s.fold least).2

/-- What holds of an assembly whatever was called on it: a finishing token ends those ahead, and
only open groups and connectives wait. -/
structure Sound (s : Assembly) : Prop where
  closed : IsClosed s.ahead
  waiting : ∀ t ∈ s.pending, t.Waits

section
variable {s s₁ : Assembly} {least : Int}

theorem sound_ofTokens (tokens : List Token) : (ofTokens tokens).Sound :=
  ⟨isClosed_closeTokens tokens, nofun⟩

theorem Sound.exists_cons (h : s.Sound) : ∃ t ts, s.ahead = t :: ts :=
  List.exists_cons_of_ne_nil h.closed.ne_nil

theorem Sound.passed (h : s.Sound) : s.passed.Sound := by
  obtain ⟨t, ts, hs⟩ := h.exists_cons
  unfold Assembly.passed
  split
  · exact h
  · rename_i ht
    refine ⟨?_, h.waiting⟩
    simp only [hs, List.drop_one, List.tail_cons]
    exact IsClosed.of_cons (hs ▸ h.closed) (by simpa [current, hs] using ht)

theorem Sound.onCurrent {α : Type} {step : Token → AssemblyStep α} (h : s.Sound)
    (hstep : ∀ t, (step t).2.Sound) : (s.onCurrent step).2.Sound := by
  unfold Assembly.onCurrent
  split
  · exact h
  · exact hstep _

theorem Sound.comparison (h : s.Sound) : s.comparison.2.Sound := by
  unfold Assembly.comparison faultAt
  refine h.onCurrent fun field => ?_
  dsimp only
  split
  · exact h.passed
  · refine h.passed.onCurrent fun comparator => ?_
    split
    · refine h.passed.passed.onCurrent fun literal => ?_
      split
      · exact h.passed.passed.passed
      · exact h.passed.passed
    · exact h.passed

theorem Sound.push {t : Token} (h : s.Sound) (ht : t.Waits) :
    Sound { s with pending := t :: s.pending } :=
  ⟨h.closed, List.forall_mem_cons.mpr ⟨ht, h.waiting⟩⟩

theorem Sound.openGroup (h : s.Sound) (hk : s.current.kind = .opening) : s.openGroup.2.Sound := by
  unfold Assembly.openGroup faultAt
  refine h.passed.onCurrent fun next => ?_
  split
  · exact h.passed
  · exact h.passed
  · exact h.passed.push (.inl hk)

theorem Sound.primary (h : s.Sound) : s.primary.2.Sound := by
  fun_induction Assembly.primary s with
  | case1 s hk => exact h
  | case2 s hk e s₁ hopen => simpa [hopen] using h.openGroup (current_kind hk)
  | case3 s hk u s₁ hopen hlt ih => exact ih (by simpa [hopen] using h.openGroup (current_kind hk))
  | case4 s hk => exact h
  | case5 s hk => exact h
  | case6 s hk => exact h
  | case7 s hk => exact h
  | case8 s hk e s₁ hc => simpa [hc] using h.comparison
  | case9 s hk c s₁ hc =>
      have h₁ : s₁.Sound := by simpa [hc] using h.comparison
      exact ⟨h₁.closed, h₁.waiting⟩

theorem foldStacks_suffix (least : Int) (p : List Token) (os : List Tree) :
    (foldStacks least p os).1 <:+ p := by
  fun_induction foldStacks least p os with
  | case1 os => exact List.suffix_refl []
  | case2 t p os hk => exact List.suffix_refl _
  | case3 t p os q hk hq => exact List.suffix_refl _
  | case4 t p q hk hq r l os ih => exact ih.trans (List.suffix_cons t p)
  | case5 t p os q hk hq hos => exact List.suffix_cons t p

theorem fold_suffix (s : Assembly) (least : Int) : (s.fold least).2.pending <:+ s.pending := by
  have h := foldStacks_suffix least s.pending s.operands
  unfold fold
  dsimp only
  split <;> exact h

theorem Sound.fold (h : s.Sound) (least : Int) : (s.fold least).2.Sound :=
  ⟨fold_ahead s least ▸ h.closed, fun t ht => h.waiting t ((fold_suffix s least).mem ht)⟩

theorem Sound.of_fold {r : Except AssemblyFailure Unit} (h : s.Sound)
    (hfold : s.fold least = (r, s₁)) : s₁.Sound := by
  simpa [hfold] using h.fold least

theorem Sound.drop {p : List Token} (h : s.Sound) (hp : p <:+ s.pending) :
    Sound { s with pending := p } :=
  ⟨h.closed, fun t ht => h.waiting t (hp.mem ht)⟩

theorem Sound.closeGroup (h : s.Sound) : s.closeGroup.2.Sound := by
  unfold Assembly.closeGroup
  dsimp only
  split
  · rename_i hfold
    exact h.of_fold hfold
  · rename_i s₁ hfold
    have h₁ := h.of_fold hfold
    split
    · exact h₁
    · rename_i t p hp
      exact (h₁.drop (hp ▸ List.suffix_cons t p)).passed

theorem Sound.connect {n : Nat} (h : s.Sound) (hk : s.current.kind.precedence? = some n) :
    (s.connect n).2.Sound := by
  unfold Assembly.connect
  dsimp only
  split
  · rename_i hfold
    exact h.of_fold hfold
  · rename_i s₁ hfold
    have h₁ := (h.of_fold hfold).passed
    refine h₁.onCurrent fun next => ?_
    split
    case h_5 => exact h₁.push (.inr (by simp [hk]))
    all_goals exact h₁

theorem Sound.complete (h : s.Sound) : s.complete.2.Sound := by
  unfold Assembly.complete
  split
  · rename_i hfold
    exact h.of_fold hfold
  · rename_i s₁ hfold
    split <;> exact h.of_fold hfold

theorem Sound.afterPrimary (h : s.Sound) : s.afterPrimary.2.Sound := by
  fun_induction Assembly.afterPrimary s with
  | case1 s hk => exact h
  | case2 s hk e s₁ hclose => simpa [hclose] using h.closeGroup
  | case3 s hk u s₁ hclose hlt ih => exact ih (by simpa [hclose] using h.closeGroup)
  | case4 s hk => exact h.complete
  | case5 s hk => exact h.connect (by rw [current_kind hk]; rfl)
  | case6 s hk => exact h.connect (by rw [current_kind hk]; rfl)
  | case7 s hk => exact h
  | case8 s hk => exact h

theorem Sound.run (h : s.Sound) : s.run.2.Sound := by
  fun_induction Assembly.run s with
  | case1 s e s₁ hp => simpa [hp] using h.primary
  | case2 s u s₁ hp e s₂ ha =>
      have h₁ : s₁.Sound := by simpa [hp] using h.primary
      simpa [ha] using h₁.afterPrimary
  | case3 s u s₁ hp s₂ ha =>
      have h₁ : s₁.Sound := by simpa [hp] using h.primary
      simpa [ha] using h₁.afterPrimary
  | case4 s u s₁ hp s₂ ha hlt ih =>
      have h₁ : s₁.Sound := by simpa [hp] using h.primary
      exact ih (by simpa [ha] using h₁.afterPrimary)

theorem Sound.parse (h : s.Sound) : s.parse.2.Sound := by
  have hrun : Sound (Assembly.run { s with pending := [], operands := [] }).2 :=
    Sound.run ⟨h.closed, nofun⟩
  unfold Assembly.parse
  split
  · exact h
  · exact h
  · split
    · rename_i hr
      simpa [hr] using hrun
    · rename_i s₁ hr
      have h₁ : s₁.Sound := by simpa [hr] using hrun
      unfold takeOperand
      split
      · exact h₁
      · exact ⟨h₁.closed, h₁.waiting⟩

theorem Sound.after (h : s.Sound) (call : Call) : (s.after call).Sound := by
  cases call with
  | parse => exact h.parse
  | primary => exact h.primary
  | afterPrimary => exact h.afterPrimary
  | advance => exact h.passed
  | comparison => exact h.comparison
  | isGrouped => exact h
  | fold least => exact h.fold least

theorem Sound.calls (h : s.Sound) (calls : List Call) : (calls.foldl Assembly.after s).Sound := by
  induction calls generalizing s with
  | nil => exact h
  | cons call calls ih => exact ih (h.after call)

end

/-- A step succeeds in a state with a property, or stops at a fault of the rule. -/
inductive Ends {α : Type} (post : α → Assembly → Prop) (step : AssemblyStep α) : Prop
  | done (a : α) (s : Assembly) : step = (.ok a, s) → post a s → Ends post step
  | refused (f : Fault) (s : Assembly) : step = (.error (.fault f), s) →
      f.cause.family ≠ .lexical → Ends post step

/-- A sound assembly with `n` operands more than connectives that wait. -/
structure Balanced (n : Nat) (s : Assembly) : Prop extends Sound s where
  balance : s.operands.length = joins s.pending + n

/-- An assembly that is done: it came to a finishing token, and one tree is left. -/
structure Done (s : Assembly) : Prop where
  kind : s.kind? = some .finish
  pending : s.pending = []
  operands : ∃ t, s.operands = [t]

section
variable {α β : Type} {post : α → Assembly → Prop} {post' : β → Assembly → Prop} {s : Assembly}

theorem Ends.faultAt {cause : FaultCause} (hc : cause.family ≠ .lexical) (s : Assembly)
    (position : Int) : Ends post (s.faultAt cause position) :=
  .refused _ _ rfl hc

theorem Ends.of_ok {step : AssemblyStep α} {a : α} (h : Ends post step)
    (hstep : step = (.ok a, s)) : post a s := by
  rcases h with ⟨b, s₁, hb, hp⟩ | ⟨f, s₁, hf, -⟩
  · rw [hstep] at hb
    cases hb
    exact hp
  · rw [hstep] at hf
    cases hf

theorem Ends.imp {post' : α → Assembly → Prop} {step : AssemblyStep α} (h : Ends post step)
    (hp : ∀ a s, post a s → post' a s) : Ends post' step := by
  rcases h with ⟨a, s₁, ha, h₁⟩ | ⟨f, s₁, hf, hfam⟩
  · exact .done a s₁ ha (hp a s₁ h₁)
  · exact .refused f s₁ hf hfam

theorem Ends.of_error {step : AssemblyStep α} {e : AssemblyFailure} (h : Ends post step)
    (hstep : step = (.error e, s)) : Ends post' (.error e, s) := by
  rcases h with ⟨b, s₁, hb, -⟩ | ⟨f, s₁, hf, hfam⟩
  · rw [hstep] at hb
    cases hb
  · rw [hstep] at hf
    cases hf
    exact .refused f s rfl hfam

theorem Sound.onCurrent_ends {step : Token → AssemblyStep α} (h : s.Sound)
    (hstep : ∀ t, Ends post (step t)) : Ends post (s.onCurrent step) := by
  obtain ⟨t, ts, hs⟩ := h.exists_cons
  simpa only [Assembly.onCurrent, hs] using hstep t

/-- Folding finds two operands for each connective. What is left on the stack after all that may
be folded is an open group. -/
theorem foldStacks_balanced (least : Int) {p : List Token} {os : List Tree} (hp : ∀ t ∈ p, t.Waits)
    (hos : os.length = joins p + 1) : ∃ p' os', foldStacks least p os = (p', os', true) ∧
      os'.length = joins p' + 1 ∧ (least ≤ 1 → ∀ t ∈ p'.head?, t.kind = .opening) := by
  fun_induction foldStacks least p os with
  | case1 os => exact ⟨[], os, rfl, hos, fun _ => nofun⟩
  | case2 t p os hk =>
      have ht : t.kind = .opening := by simpa [Token.Waits, hk] using hp t (.head _)
      exact ⟨t :: p, os, by simp [ht], hos, fun _ => by simpa using ht⟩
  | case3 t p os q hk hq =>
      refine ⟨t :: p, os, rfl, hos, fun hleast => absurd hq ?_⟩
      have := (precedence_bounds hk).1
      omega
  | case4 t p q hk hq r l os ih =>
      refine ih (fun u hu => hp u (.tail _ hu)) ?_
      rw [joins_connective hk] at hos
      simpa using hos
  | case5 t p os q hk hq hos' =>
      rw [joins_connective hk] at hos
      match os, hos with
      | r :: l :: os, _ => exact absurd rfl (hos' r l os)

theorem Balanced.fold_ends (h : s.Balanced 1) (least : Int) :
    Ends (fun _ s' => s'.Balanced 1 ∧ s'.ahead = s.ahead ∧
      (least ≤ 1 → ∀ t ∈ s'.pending.head?, t.kind = .opening)) (s.fold least) := by
  obtain ⟨p, os, hfold, hos, hp⟩ := foldStacks_balanced least h.waiting h.balance
  have hs : s.fold least = (.ok (), { s with pending := p, operands := os }) := by
    simp [Assembly.fold, hfold]
  exact .done _ _ hs ⟨⟨h.of_fold hs, hos⟩, rfl, hp⟩

theorem Balanced.passed {n : Nat} (h : s.Balanced n) : s.passed.Balanced n := by
  refine ⟨h.toSound.passed, ?_⟩
  unfold Assembly.passed
  split <;> exact h.balance

theorem Balanced.closeGroup_ends (h : s.Balanced 1) :
    Ends (fun _ s' => s'.Balanced 1) s.closeGroup := by
  unfold Assembly.closeGroup
  dsimp only
  split
  · rename_i hfold
    exact (h.fold_ends 0).of_error hfold
  · rename_i s₁ hfold
    obtain ⟨h₁, -, hopen⟩ := (h.fold_ends 0).of_ok hfold
    split
    · exact .faultAt (by nofun) _ _
    · rename_i t p hp
      have ht : t.kind = .opening := hopen (by decide) t (by simp [hp])
      have hb := h₁.balance
      rw [hp, joins_opening ht] at hb
      exact .done _ _ rfl (Balanced.passed ⟨h₁.drop (hp ▸ List.suffix_cons t p), hb⟩)

theorem Balanced.connect_ends {n : Nat} (h : s.Balanced 1)
    (hk : s.current.kind.precedence? = some n) :
    Ends (fun complete s' => complete = false ∧ s'.Balanced 0) (s.connect n) := by
  unfold Assembly.connect
  dsimp only
  split
  · rename_i hfold
    exact (h.fold_ends n).of_error hfold
  · rename_i s₁ hfold
    have h₂ := ((h.fold_ends n).of_ok hfold).1.passed
    refine h₂.onCurrent_ends fun next => ?_
    split
    case h_5 =>
      refine .done _ _ rfl ⟨rfl, h₂.push (.inr (by simp [hk])), ?_⟩
      rw [joins_connective hk]
      exact h₂.balance
    all_goals exact .faultAt (by nofun) _ _

theorem Balanced.complete_ends (h : s.Balanced 1) (hk : s.kind? = some .finish) :
    Ends (fun complete s' => complete = true ∧ s'.Done) s.complete := by
  unfold Assembly.complete
  split
  · rename_i hfold
    exact (h.fold_ends 0).of_error hfold
  · rename_i s₁ hfold
    obtain ⟨h₁, ha, -⟩ := (h.fold_ends 0).of_ok hfold
    split
    · exact .faultAt (by nofun) _ _
    · rename_i hp
      have hb := h₁.balance
      rw [hp] at hb
      refine .done _ _ rfl ⟨rfl, ?_, hp, List.length_eq_one_iff.mp hb⟩
      rw [kind?, ha]
      exact hk

theorem Sound.kind?_ne_none (h : s.Sound) : s.kind? ≠ none := by
  obtain ⟨t, ts, hs⟩ := h.exists_cons
  simp [kind?, hs]

@[simp] theorem passed_pending (s : Assembly) : s.passed.pending = s.pending := by
  unfold Assembly.passed
  split <;> rfl

@[simp] theorem passed_operands (s : Assembly) : s.passed.operands = s.operands := by
  unfold Assembly.passed
  split <;> rfl

theorem Sound.comparison_ends (h : s.Sound) :
    Ends (fun _ s' => s'.pending = s.pending ∧ s'.operands = s.operands) s.comparison := by
  unfold Assembly.comparison
  refine h.onCurrent_ends fun field => ?_
  dsimp only
  split
  · exact .faultAt (by nofun) _ _
  · refine h.passed.onCurrent_ends fun comparator => ?_
    split
    · refine h.passed.passed.onCurrent_ends fun literal => ?_
      split
      · exact .done _ _ rfl (by simp)
      · exact .faultAt (by nofun) _ _
    · exact .faultAt (by nofun) _ _

theorem Balanced.openGroup_ends {n : Nat} (h : s.Balanced n) (hk : s.current.kind = .opening) :
    Ends (fun _ s' => s'.Balanced n) s.openGroup := by
  unfold Assembly.openGroup
  refine h.passed.onCurrent_ends fun next => ?_
  split
  · exact .faultAt (by nofun) _ _
  · exact .faultAt (by nofun) _ _
  · refine .done _ _ rfl ⟨h.passed.push (.inl hk), ?_⟩
    rw [joins_opening hk]
    exact h.passed.balance

theorem Balanced.primary_ends (h : s.Balanced 0) :
    Ends (fun _ s' => s'.Balanced 1) s.primary := by
  fun_induction Assembly.primary s with
  | case1 s hk => exact absurd hk h.kind?_ne_none
  | case2 s hk e s₁ hopen => exact (h.openGroup_ends (current_kind hk)).of_error hopen
  | case3 s hk u s₁ hopen hlt ih => exact ih ((h.openGroup_ends (current_kind hk)).of_ok hopen)
  | case4 s hk => exact .faultAt (by nofun) _ _
  | case5 s hk => exact .faultAt (by nofun) _ _
  | case6 s hk => exact .faultAt (by nofun) _ _
  | case7 s hk => exact .faultAt (by nofun) _ _
  | case8 s hk e s₁ hc => exact h.comparison_ends.of_error hc
  | case9 s hk c s₁ hc =>
      obtain ⟨hp, ho⟩ := h.comparison_ends.of_ok hc
      have h₁ : s₁.Sound := by simpa [hc] using h.comparison
      exact .done _ _ rfl ⟨⟨h₁.closed, h₁.waiting⟩, by simp [hp, ho, h.balance]⟩

theorem Balanced.afterPrimary_ends (h : s.Balanced 1) :
    Ends (fun complete s' => if complete then s'.Done else s'.Balanced 0) s.afterPrimary := by
  fun_induction Assembly.afterPrimary s with
  | case1 s hk => exact absurd hk h.kind?_ne_none
  | case2 s hk e s₁ hclose => exact h.closeGroup_ends.of_error hclose
  | case3 s hk u s₁ hclose hlt ih => exact ih (h.closeGroup_ends.of_ok hclose)
  | case4 s hk => exact (h.complete_ends hk).imp fun _ s' ⟨hb, hs'⟩ => by simpa [hb] using hs'
  | case5 s hk =>
      have hc : s.current.kind.precedence? = some 1 := by rw [current_kind hk]; rfl
      exact (h.connect_ends hc).imp fun _ s' ⟨hb, hs'⟩ => by simpa [hb] using hs'
  | case6 s hk =>
      have hc : s.current.kind.precedence? = some 2 := by rw [current_kind hk]; rfl
      exact (h.connect_ends hc).imp fun _ s' ⟨hb, hs'⟩ => by simpa [hb] using hs'
  | case7 s hk => exact .faultAt (by nofun) _ _
  | case8 s hk => exact .faultAt (by nofun) _ _

theorem Balanced.run_ends (h : s.Balanced 0) : Ends (fun _ s' => s'.Done) s.run := by
  fun_induction Assembly.run s with
  | case1 s e s₁ hp => exact h.primary_ends.of_error hp
  | case2 s u s₁ hp e s₂ ha => exact (h.primary_ends.of_ok hp).afterPrimary_ends.of_error ha
  | case3 s u s₁ hp s₂ ha =>
      exact .done _ _ rfl ((h.primary_ends.of_ok hp).afterPrimary_ends.of_ok ha)
  | case4 s u s₁ hp s₂ ha hlt ih => exact ih ((h.primary_ends.of_ok hp).afterPrimary_ends.of_ok ha)

/-- A parse of a sound assembly comes to a finishing token and leaves nothing on the stacks. -/
theorem Sound.parse_ends (h : s.Sound) :
    Ends (fun _ s' => s'.pending = [] ∧ s'.operands = [] ∧ s'.kind? = some .finish) s.parse := by
  have h₀ : Balanced 0 { s with pending := [], operands := [] } := ⟨⟨h.closed, nofun⟩, rfl⟩
  unfold Assembly.parse
  split
  · rename_i hk
    exact absurd hk h.kind?_ne_none
  · exact .faultAt (by nofun) _ _
  · split
    · rename_i hr
      exact h₀.run_ends.of_error hr
    · rename_i s₁ hr
      have hdone := h₀.run_ends.of_ok hr
      obtain ⟨t, ht⟩ := hdone.operands
      exact .done t { s₁ with operands := [] } (by simp [takeOperand, ht]) ⟨hdone.pending, rfl, hdone.kind⟩

end

/-- Whatever tokens an assembly is made of and whatever was called on it, a parse ends in a tree,
at a finishing token and with nothing left on the stacks, or in a fault of the rule. -/
theorem parse_safe (tokens : List Token) (calls : List Call) :
    (∃ t s', (calls.foldl after (ofTokens tokens)).parse = (.ok t, s') ∧ s'.pending = [] ∧
        s'.operands = [] ∧ s'.kind? = some .finish) ∨
      ∃ f s', (calls.foldl after (ofTokens tokens)).parse = (.error (.fault f), s') ∧
        f.cause.family ≠ .lexical := by
  rcases ((sound_ofTokens tokens).calls calls).parse_ends with ⟨t, s', hr, h⟩ | ⟨f, s', hr, hf⟩
  · exact .inl ⟨t, s', hr, h⟩
  · exact .inr ⟨f, s', hr, hf⟩

end Assembly

end Rulebook
