import Mathlib.Control.Monad.Basic
import Rulebook.Proofs.Rule.Layout
import Rulebook.Proofs.Rule.Turns

/-!
The grammar of rules. `AND` binds tighter than `OR`, both group from the left, and what stands in
parentheses counts as one factor. A run passes what tokens derive, and its stacks tell which
phrase it awaits.
-/

namespace Rulebook
open Assembly

/-- The levels of the grammar, the loosest first. -/
inductive Level where
  | expression
  | term
  | factor
  deriving DecidableEq, Repr

/-- The trees that a list of tokens derives at a level. -/
inductive Derives : Level → List Token → Tree → Prop
  | ofTerm {ts t} : Derives .term ts t → Derives .expression ts t
  | or {ls rs l r q} : Derives .expression ls l → Derives .term rs r →
      Derives .expression (ls ++ ⟨.or, some "OR", q⟩ :: rs) (.join "OR" l r)
  | ofFactor {ts t} : Derives .factor ts t → Derives .term ts t
  | and {ls rs l r q} : Derives .term ls l → Derives .factor rs r →
      Derives .term (ls ++ ⟨.and, some "AND", q⟩ :: rs) (.join "AND" l r)
  | group {ts t q q'} : Derives .expression ts t →
      Derives .factor (⟨.opening, some "(", q⟩ :: ts ++ [⟨.closing, some ")", q'⟩]) t
  | comparison {f c l q q' q''} : Comparator.isSymbol f = false → Comparator.isSymbol c = true →
      Comparator.isSymbol l = false →
      Derives .factor [⟨.word, some f, q⟩, ⟨.word, some c, q'⟩, ⟨.word, some l, q''⟩]
        (.leaf ⟨f, c, l⟩)

/-- A phrase begins with a word or an opening parenthesis. -/
def StartsPhrase (ts : List Token) : Prop :=
  ∃ x rest, ts = x :: rest ∧ (x.kind = .word ∨ x.kind = .opening)

theorem StartsPhrase.append {ts : List Token} (h : StartsPhrase ts) (us : List Token) :
    StartsPhrase (ts ++ us) := by
  obtain ⟨x, rest, rfl, hx⟩ := h
  exact ⟨x, rest ++ us, rfl, hx⟩

theorem Derives.startsPhrase {ℓ : Level} {ts : List Token} {t : Tree} (h : Derives ℓ ts t) :
    StartsPhrase ts := by
  induction h with
  | ofTerm h ih => exact ih
  | or hl hr ihl ihr => exact ihl.append _
  | ofFactor h ih => exact ih
  | and hl hr ihl ihr => exact ihl.append _
  | group h ih => exact ⟨_, _, rfl, .inr rfl⟩
  | comparison hf hc hl => exact ⟨_, _, rfl, .inl rfl⟩

/-- The precedence down to which the connectives of a phrase bind. -/
def Level.least : Level → Nat
  | .expression => 1
  | .term => 2
  | .factor => 3

/-- What is on top of the stack is an open group, or a connective that does not bind as tight as
`least`. -/
def Rests (least : Nat) (p : List Token) : Prop :=
  ∀ t ∈ p.head?, t.kind = .opening ∨ ∃ q < least, t.kind.precedence? = some q

section
variable {t : Token} {p p' : List Token} {os os' : List Tree} {least more q : Nat}

theorem Rests.nil : Rests least [] := fun _ h => by cases h

theorem Rests.opening (ht : t.kind = .opening) : Rests least (t :: p) := by
  intro u hu
  obtain rfl := Option.some.inj hu
  exact .inl ht

theorem Rests.connective (ht : t.kind.precedence? = some q) (hq : q < least) :
    Rests least (t :: p) := by
  intro u hu
  obtain rfl := Option.some.inj hu
  exact .inr ⟨q, hq, ht⟩

theorem Rests.mono (h : Rests least p) (hle : least ≤ more) : Rests more p :=
  fun t ht => (h t ht).imp_right fun ⟨q, hq, hp⟩ => ⟨q, Nat.lt_of_lt_of_le hq hle, hp⟩

theorem foldStacks_cons (least : Int) (t : Token) (p : List Token) (os : List Tree) :
    foldStacks least (t :: p) os =
      match t.kind.precedence? with
      | none => (t :: p, os, t.kind = .opening)
      | some q =>
        if q < least then (t :: p, os, true)
        else match os with
          | r :: l :: os => foldStacks least p (.join t.shown l r :: os)
          | _ => (p, [], false) :=
  foldStacks.eq_def least (t :: p) os

theorem Rests.foldStacks (h : Rests least p) (os : List Tree) :
    foldStacks least p os = (p, os, true) := by
  cases p with
  | nil => rfl
  | cons t p =>
      rw [foldStacks_cons]
      rcases h t rfl with ht | ⟨q, hq, ht⟩
      · simp [ht, TokenKind.precedence?]
      · have hq : (q : Int) < least := by exact_mod_cast hq
        simp only [ht, if_pos hq]

theorem foldStacks_join {l r : Tree} (ht : t.kind.precedence? = some q) (hq : least ≤ q) :
    foldStacks least (t :: p) (r :: l :: os) =
      foldStacks least p (.join t.shown l r :: os) := by
  have hlt : ¬ (q : Int) < least := by omega
  rw [foldStacks_cons, ht]
  simp only [if_neg hlt]

/-- Folding in two rounds, the tighter connectives first, is folding once. -/
theorem foldStacks_foldStacks (hle : least ≤ more)
    (h : foldStacks more p os = (p', os', true)) :
    foldStacks least p os = foldStacks least p' os' := by
  induction p generalizing os with
  | nil =>
      simp only [Assembly.foldStacks, Prod.mk.injEq, and_true] at h
      rw [h.1, h.2]
  | cons t p ih =>
      by_cases hr : Rests more (t :: p)
      · rw [hr.foldStacks] at h
        cases h
        rfl
      · rw [foldStacks_cons] at h
        cases ht : t.kind.precedence? with
        | none =>
            simp only [ht, Prod.mk.injEq, decide_eq_true_eq] at h
            exact absurd (.opening h.2.2) hr
        | some q =>
            have hq : more ≤ q := Nat.le_of_not_lt fun hlt => hr (.connective ht hlt)
            have hlt : ¬ (q : Int) < more := by omega
            simp only [ht, if_neg hlt] at h
            rcases os with _ | ⟨r, _ | ⟨l, os⟩⟩
            · cases h
            · cases h
            · rw [foldStacks_join ht (Nat.le_trans hle hq)]
              exact ih h

/-- Every connective binds at least as tight as `OR`. -/
theorem foldStacks_zero : foldStacks 0 p os = foldStacks (1 : Nat) p os := by
  induction p generalizing os with
  | nil => rfl
  | cons t p ih =>
      rw [foldStacks_cons, foldStacks_cons]
      cases ht : t.kind.precedence? with
      | none => rfl
      | some q =>
          have hq := (precedence_bounds ht).1
          have h0 : ¬ (q : Int) < 0 := by omega
          have h1 : ¬ (q : Int) < (1 : Nat) := by omega
          simp only [if_neg h0, if_neg h1]
          match os with
          | r :: l :: os => exact ih
          | [] => rfl
          | [_] => rfl

end

/-- A run passes a phrase: it comes to the tokens after the phrase, and there its stacks fold to
those before it, with the tree of the phrase on top. -/
def Passes (ℓ : Level) (ts : List Token) (t : Tree) : Prop :=
  ∀ (p : List Token) (os : List Tree) (rest : List Token) (i : Nat), Rests ℓ.least p →
    ∃ j p' os', run ⟨i, ts ++ rest, p, os⟩ = resume ⟨j, rest, p', os'⟩ ∧
      foldStacks ℓ.least p' os' = (p, t :: os, true)

section
variable {ℓ ℓ' : Level} {ts ls rs : List Token} {t l r : Tree}

theorem Passes.widen (h : Passes ℓ ts t) (hle : ℓ'.least ≤ ℓ.least) : Passes ℓ' ts t := by
  intro p os rest i hp
  obtain ⟨j, p', os', hrun, hfold⟩ := h p os rest i (hp.mono hle)
  exact ⟨j, p', os', hrun, (foldStacks_foldStacks hle hfold).trans (hp.foldStacks _)⟩

/-- A connective joins what stands on its sides, if the phrase on its right binds tighter. -/
theorem Passes.join {o : Token} (ho : o.kind.precedence? = some ℓ.least)
    (hlt : ℓ.least < ℓ'.least) (hl : Passes ℓ ls l) (hr : Passes ℓ' rs r)
    (hs : StartsPhrase rs) : Passes ℓ (ls ++ o :: rs) (.join o.shown l r) := by
  intro p os rest i hp
  obtain ⟨j, p', os', hrun, hfold⟩ := hl p os (o :: rs ++ rest) i hp
  obtain ⟨k, p'', os'', hrun', hfold'⟩ :=
    hr (o :: p) (l :: os) rest (j + 1) (.connective ho hlt)
  refine ⟨k, p'', os'', ?_, ?_⟩
  · obtain ⟨x, us, rfl, hx⟩ := hs
    rw [List.append_assoc, hrun, List.cons_append, List.cons_append, resume_joined _ ho hfold hx]
    exact hrun'
  · rw [foldStacks_foldStacks (Nat.le_of_lt hlt) hfold', foldStacks_join ho (Nat.le_refl _),
      hp.foldStacks]

theorem Passes.group {o c : Token} (ho : o.kind = .opening) (hc : c.kind = .closing)
    (h : Passes .expression ts t) (hs : StartsPhrase ts) :
    Passes .factor (o :: ts ++ [c]) t := by
  intro p os rest i hp
  obtain ⟨j, p', os', hrun, hfold⟩ := h (o :: p) os (c :: rest) (i + 1) (.opening ho)
  refine ⟨j + 1, p, t :: os, ?_, hp.foldStacks _⟩
  obtain ⟨x, us, rfl, hx⟩ := hs
  have hx : x.kind ≠ .closing ∧ x.kind ≠ .finish := by rcases hx with hx | hx <;> simp [hx]
  rw [← resume_closing hc (foldStacks_zero.trans hfold), ← hrun, List.append_assoc,
    List.cons_append, List.cons_append, run_opened ho hx.1 hx.2]
  rfl

theorem Passes.comparison {f k l : Token} (h : Compares f k l) :
    Passes .factor [f, k, l] (.leaf ⟨f.shown, k.shown, l.shown⟩) := by
  intro p os rest i hp
  refine ⟨i + 1 + 1 + 1, p, .leaf ⟨f.shown, k.shown, l.shown⟩ :: os, ?_, hp.foldStacks _⟩
  simp only [List.cons_append, List.nil_append, run_comparison h]

end

theorem Derives.passes {ℓ : Level} {ts : List Token} {t : Tree} (h : Derives ℓ ts t) :
    Passes ℓ ts t := by
  induction h with
  | ofTerm h ih => exact ih.widen (by decide)
  | or hl hr ihl ihr => exact ihl.join rfl (by decide) ihr hr.startsPhrase
  | ofFactor h ih => exact ih.widen (by decide)
  | and hl hr ihl ihr => exact ihl.join rfl (by decide) ihr hr.startsPhrase
  | group h ih => exact .group rfl rfl ih h.startsPhrase
  | comparison hf hc hl => exact .comparison ⟨rfl, rfl, rfl, hf, hc, hl⟩

/-- The stacks, after the tokens read so far, under which a phrase of a level comes next: an
expression at the start and in a group, a term after `OR`, a factor after `AND`. -/
inductive Awaits : Level → List Token → List Token → List Tree → Prop
  | start : Awaits .expression [] [] []
  | group {ℓ ts p os q} : Awaits ℓ ts p os →
      Awaits .expression (ts ++ [⟨.opening, some "(", q⟩]) (⟨.opening, some "(", q⟩ :: p) os
  | or {ts p os ls l q} : Awaits .expression ts p os → Derives .expression ls l →
      Awaits .term (ts ++ ls ++ [⟨.or, some "OR", q⟩]) (⟨.or, some "OR", q⟩ :: p) (l :: os)
  | and {ℓ ts p os ls l q} : Awaits ℓ ts p os → ℓ ≠ .factor → Derives .term ls l →
      Awaits .factor (ts ++ ls ++ [⟨.and, some "AND", q⟩]) (⟨.and, some "AND", q⟩ :: p) (l :: os)

section
variable {ℓ : Level} {ts ls p : List Token} {os : List Tree} {l : Tree}

theorem Derives.ofFactorTo (h : Derives .factor ls l) (ℓ : Level) : Derives ℓ ls l := by
  cases ℓ with
  | expression => exact .ofTerm (.ofFactor h)
  | term => exact .ofFactor h
  | factor => exact h

theorem Derives.ofTermTo (h : Derives .term ls l) (hℓ : ℓ ≠ .factor) : Derives ℓ ls l := by
  cases ℓ with
  | expression => exact .ofTerm h
  | term => exact h
  | factor => exact absurd rfl hℓ

/-- A phrase of a tighter level counts as one of a looser level. -/
theorem Derives.widen {ℓ' : Level} (h : Derives ℓ ls l) (hle : ℓ'.least ≤ ℓ.least) :
    Derives ℓ' ls l := by
  cases ℓ with
  | factor => exact h.ofFactorTo ℓ'
  | term => exact h.ofTermTo (by rintro rfl; exact absurd hle (by decide))
  | expression =>
      cases ℓ' with
      | expression => exact h
      | term | factor => exact absurd hle (by decide)

theorem Awaits.start_of_nil (h : Awaits ℓ ts [] os) : ts = [] ∧ os = [] := by
  cases h with
  | start => exact ⟨rfl, rfl⟩

/-- Where an expression is awaited with something on the stack, a group is open. -/
theorem Awaits.group_of_cons {g : Token} (h : Awaits .expression ts (g :: p) os) :
    ∃ ℓ us q, g = ⟨.opening, some "(", q⟩ ∧ ts = us ++ [g] ∧ Awaits ℓ us p os := by
  cases h with
  | group h => exact ⟨_, _, _, rfl, rfl, h⟩

theorem Awaits.rests (h : Awaits ℓ ts p os) (hℓ : ℓ ≠ .factor) : Rests 2 p := by
  cases h with
  | start => exact .nil
  | group h => exact .opening rfl
  | or h hl => exact .connective (q := 1) rfl (by decide)
  | and h hℓ' hl => exact absurd rfl hℓ

/-- A term is complete once what binds as tight as `AND` was folded. -/
theorem Awaits.fold_term (h : Awaits ℓ ts p os) (hl : Derives .factor ls l) :
    ∃ ℓ' ts' p' os' ls' l', foldStacks (2 : Nat) p (l :: os) = (p', l' :: os', true) ∧
      Awaits ℓ' ts' p' os' ∧ ℓ' ≠ .factor ∧ Derives .term ls' l' ∧ ts ++ ls = ts' ++ ls' := by
  by_cases hℓ : ℓ = .factor
  · subst hℓ
    cases h with
    | @and ℓ ts p os ks k q h hℓ hk =>
        refine ⟨ℓ, ts, p, os, ks ++ ⟨.and, some "AND", q⟩ :: ls, .join "AND" k l, ?_, h, hℓ,
          .and hk hl, by simp⟩
        rw [foldStacks_join (q := 2) rfl (Nat.le_refl _), (h.rests hℓ).foldStacks]
        rfl
  · exact ⟨ℓ, ts, p, os, ls, l, (h.rests hℓ).foldStacks _, h, hℓ, .ofFactor hl, rfl⟩

/-- An expression is complete once everything in its group was folded. -/
theorem Awaits.fold_expression (h : Awaits ℓ ts p os) (hl : Derives ℓ ls l) :
    ∃ ts' p' os' ls' l', foldStacks (1 : Nat) p (l :: os) = (p', l' :: os', true) ∧
      Awaits .expression ts' p' os' ∧ Derives .expression ls' l' ∧ ts ++ ls = ts' ++ ls' := by
  induction h generalizing ls l with
  | start => exact ⟨[], [], [], ls, l, rfl, .start, hl, rfl⟩
  | group h ih =>
      exact ⟨_, _, _, ls, l, (Rests.opening rfl).foldStacks _, .group h, hl, rfl⟩
  | @or ts p os ks k q h hk ih =>
      obtain ⟨ts', p', os', ls', l', hfold, ha, hd, he⟩ := ih (.or (q := q) hk hl)
      refine ⟨ts', p', os', ls', l', ?_, ha, hd, ?_⟩
      · rw [foldStacks_join (q := 1) rfl (Nat.le_refl _)]
        exact hfold
      · simpa using he
  | @and ℓ ts p os ks k q h hℓ hk ih =>
      have hj := (Derives.and (q := q) hk hl).ofTermTo hℓ
      obtain ⟨ts', p', os', ls', l', hfold, ha, hd, he⟩ := ih hj
      refine ⟨ts', p', os', ls', l', ?_, ha, hd, ?_⟩
      · rw [foldStacks_join (q := 2) rfl (by decide)]
        exact hfold
      · simpa using he

/-- Where a phrase is awaited, any phrase of its level extends to an expression. -/
theorem Awaits.completes (h : Awaits ℓ ts p os) (hl : Derives ℓ ls l) :
    ∃ us t, Derives .expression (ts ++ ls ++ us) t := by
  induction h generalizing ls l with
  | start => exact ⟨[], l, by simpa using hl⟩
  | @group ℓ ts p os q h ih =>
      have hg : Derives .factor
          (⟨.opening, some "(", q⟩ :: ls ++ [⟨.closing, some ")", 0⟩]) l := .group hl
      obtain ⟨us, t, ht⟩ := ih (hg.ofFactorTo ℓ)
      exact ⟨⟨.closing, some ")", 0⟩ :: us, t, by simpa using ht⟩
  | @or ts p os ks k q h hk ih =>
      obtain ⟨us, t, ht⟩ := ih (.or (q := q) hk hl)
      exact ⟨us, t, by simpa using ht⟩
  | @and ℓ ts p os ks k q h hℓ hk ih =>
      obtain ⟨us, t, ht⟩ := ih ((Derives.and (q := q) hk hl).ofTermTo hℓ)
      exact ⟨us, t, by simpa using ht⟩

end

theorem Token.IsRead.eq_word {x : Token} (h : x.IsRead) (hk : x.kind = .word) :
    ∃ w q, x = ⟨.word, some w, q⟩ := by
  cases h with
  | word hw hk q => exact ⟨_, q, rfl⟩
  | _ => cases hk

theorem Token.IsRead.eq_opening {x : Token} (h : x.IsRead) (hk : x.kind = .opening) :
    ∃ q, x = ⟨.opening, some "(", q⟩ := by
  cases h with
  | opening q => exact ⟨q, rfl⟩
  | word hw hw' q => cases hk
  | _ => cases hk

/-- Three words that compare, as they are read, derive the comparison. -/
theorem Assembly.Compares.derives {f k l : Token} (h : Compares f k l) (hf : f.IsRead)
    (hk : k.IsRead) (hl : l.IsRead) :
    Derives .factor [f, k, l] (.leaf ⟨f.shown, k.shown, l.shown⟩) := by
  obtain ⟨w, q, rfl⟩ := hf.eq_word h.field_word
  obtain ⟨w', q', rfl⟩ := hk.eq_word h.comparator_word
  obtain ⟨w'', q'', rfl⟩ := hl.eq_word h.literal_word
  exact .comparison h.field h.comparator h.literal

theorem closeTokens_finished (ts : List Token) (e : Int) :
    closeTokens (ts ++ [.finishAt e]) = ts ++ [.finishAt e] := by
  simp [closeTokens, Token.finishAt]

theorem parseTokens_of_derives {ts : List Token} {t : Tree} (h : Derives .expression ts t)
    (e : Int) : parseTokens (ts ++ [.finishAt e]) = .ok t := by
  obtain ⟨j, p, os, hrun, hfold⟩ := h.passes [] [] [.finishAt e] 0 .nil
  have hend : resume ⟨j, [.finishAt e], p, os⟩ = (.ok (), ⟨j, [.finishAt e], [], [t]⟩) :=
    resume_finish rfl (foldStacks_zero.trans hfold)
  unfold parseTokens ofTokens
  rw [closeTokens_finished, parse]
  obtain ⟨x, rest, rfl, hx⟩ := h.startsPhrase
  rcases hx with hx | hx <;>
    simp only [List.cons_append, kind?_cons, hx] <;>
    simp only [List.cons_append] at hrun <;>
    simp only [hrun, hend, takeOperand]

end Rulebook
