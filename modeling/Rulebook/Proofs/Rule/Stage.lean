import Rulebook.Proofs.Rule.Phrase

/-!
How far a rule was read. Each token of a rule either may follow where it stands, and takes the
assembly one stage further, or is refused there, whatever comes after it.
-/

namespace Rulebook
open Assembly

/-- The groups left open by tokens, the innermost first, if `groups` are open before them. -/
def groupsAfter (groups : List Token) (ts : List Token) : List Token :=
  ts.foldl (fun groups t => match t.kind with
    | .opening => t :: groups
    | .closing => groups.drop 1
    | _ => groups) groups

def openGroups (ts : List Token) : List Token := groupsAfter [] ts

@[simp] theorem groupsAfter_nil (groups : List Token) : groupsAfter groups [] = groups := rfl

@[simp] theorem groupsAfter_cons (groups : List Token) (t : Token) (ts : List Token) :
    groupsAfter groups (t :: ts) = groupsAfter (match t.kind with
      | .opening => t :: groups
      | .closing => groups.drop 1
      | _ => groups) ts := rfl

@[simp] theorem groupsAfter_append (groups ts us : List Token) :
    groupsAfter groups (ts ++ us) = groupsAfter (groupsAfter groups ts) us := by
  simp [groupsAfter]

/-- A phrase closes the groups that it opens. -/
theorem Derives.groupsAfter {ℓ : Level} {ts : List Token} {t : Tree} (h : Derives ℓ ts t)
    (groups : List Token) : groupsAfter groups ts = groups := by
  induction h generalizing groups with
  | ofTerm h ih | ofFactor h ih => exact ih groups
  | or hl hr ihl ihr | and hl hr ihl ihr => simp [ihl, ihr]
  | group h ih => simp [ih]
  | comparison hf hc hl => simp

/-- The open groups are those on the stack. -/
theorem Awaits.openGroups {ℓ : Level} {ts p : List Token} {os : List Tree}
    (h : Awaits ℓ ts p os) : openGroups ts = p.filter (·.kind = .opening) := by
  induction h with
  | start => rfl
  | group h ih => simpa [Rulebook.openGroups] using ih
  | or h hl ih | and h hℓ hl ih => simpa [Rulebook.openGroups, hl.groupsAfter] using ih

theorem Awaits.openGroups_append {ℓ ℓ' : Level} {ts ls p : List Token} {os : List Tree} {l : Tree}
    (h : Awaits ℓ ts p os) (hl : Derives ℓ' ls l) :
    Rulebook.openGroups (ts ++ ls) = p.filter (·.kind = .opening) := by
  simpa [Rulebook.openGroups, hl.groupsAfter] using h.openGroups

/-- Where a prefix of a rule ends, with the tokens that a fault there speaks of. -/
inductive Spot where
  | start
  | opened (opening : Token)
  | joined (connective : Token)
  | named (field : Token)
  | compared (field comparator : Token)
  | complete (groups : List Token)

namespace Spot

/-- A primary has to follow. -/
def awaitsPrimary : Spot → Bool
  | start | opened _ | joined _ => true
  | named _ | compared _ _ | complete _ => false

/-- The fault that a token commits by following at a spot, if it may not follow there. -/
def fault? (spot : Spot) (x : Token) : Option Fault :=
  let asField := if isComparator x then some ⟨.missingField x.shown, x.position⟩ else none
  match spot with
  | start =>
    match x.kind with
    | .finish => some ⟨.emptyRule, x.position⟩
    | .closing => some ⟨.unmatchedClosing, x.position⟩
    | .and | .or => some ⟨.missingLeft x.shown, x.position⟩
    | .word => asField
    | .opening => none
  | opened o =>
    match x.kind with
    | .finish => some ⟨.missingClosing, o.position⟩
    | .closing => some ⟨.emptyGroup, o.position⟩
    | .and | .or => some ⟨.missingLeft x.shown, x.position⟩
    | .word => asField
    | .opening => none
  | joined c =>
    match x.kind with
    | .finish | .closing | .and | .or => some ⟨.missingRight c.shown, c.position⟩
    | .word => asField
    | .opening => none
  | named f =>
    if x.kind = .word ∧ isComparator x = true then none
    else some ⟨.missingComparator f.shown (found x), x.position⟩
  | compared f c =>
    if x.kind = .word ∧ isComparator x = false then none
    else some ⟨.missingLiteral f.shown c.shown (found x), x.position⟩
  | complete groups =>
    match x.kind with
    | .finish => groups.head?.map fun o => ⟨.missingClosing, o.position⟩
    | .closing => if groups = [] then some ⟨.unmatchedClosing, x.position⟩ else none
    | .and | .or => none
    | .word | .opening => some ⟨.unexpected x.shown (!groups.isEmpty), x.position⟩

end Spot

/-- The spots at which a list of tokens ends: at the start, behind an opening parenthesis, a
connective, the field or the comparator of a comparison, or a complete factor. -/
inductive EndsAt : List Token → Spot → Prop
  | start : EndsAt [] .start
  | opened {ts o} : o.kind = .opening → EndsAt (ts ++ [o]) (.opened o)
  | joined {ts c} : c.kind = .and ∨ c.kind = .or → EndsAt (ts ++ [c]) (.joined c)
  | named {ts spot f} : EndsAt ts spot → spot.awaitsPrimary = true → f.kind = .word →
      EndsAt (ts ++ [f]) (.named f)
  | compared {ts f c} : EndsAt ts (.named f) → c.kind = .word → EndsAt (ts ++ [c]) (.compared f c)
  | complete {ts ls t} : Derives .factor ls t →
      EndsAt (ts ++ ls) (.complete (openGroups (ts ++ ls)))

/-- What an assembly does with the tokens ahead of it. -/
abbrev Continuation := List Token → AssemblyStep Unit

/-- A token is refused with a fault, whatever follows it. -/
def Refuses (k : Continuation) (x : Token) (f : Fault) : Prop :=
  ∀ vs, ∃ s, k (x :: vs) = (.error (.fault f), s)

/-- What happens to a token where a primary has to follow: it is refused, or a run begins to read
the primary with it. -/
inductive Begins (spot : Spot) (k : Continuation) (p : List Token) (os : List Tree) (x : Token) :
    Prop
  | refused {f} : spot.fault? x = some f → Refuses k x f → Begins spot k p os x
  | begun {i} : spot.fault? x = none → x.kind = .opening ∨ x.kind = .word ∧ isComparator x = false →
      (∀ vs, k (x :: vs) = run ⟨i, x :: vs, p, os⟩) → Begins spot k p os x

/-- An assembly of tokens from the first one. -/
def begin : Continuation := fun vs => onCurrent ⟨0, vs, [], []⟩ fun x =>
  if x.kind = .finish then faultAt ⟨0, vs, [], []⟩ .emptyRule x.position
  else run ⟨0, vs, [], []⟩

section
variable {spot : Spot} {k : Continuation} {p p' : List Token} {os os' : List Tree} {x : Token}
  {i : Nat}

theorem begin_finish (hx : x.kind = .finish) (vs : List Token) :
    begin (x :: vs) = faultAt ⟨0, x :: vs, [], []⟩ .emptyRule x.position := by
  simp [begin, hx]

theorem begin_of_ne (hx : x.kind ≠ .finish) (vs : List Token) :
    begin (x :: vs) = run ⟨0, x :: vs, [], []⟩ := by
  simp [begin, hx]

theorem Begins.faultAt {cause : FaultCause} {pos : Int} {s : List Token → Assembly}
    (h : ∀ vs, k (x :: vs) = (s vs).faultAt cause pos)
    (hspot : spot.fault? x = some ⟨cause, pos⟩) : Begins spot k p os x :=
  .refused hspot fun vs => ⟨s vs, h vs⟩

/-- Of the words a run refuses only comparators where a primary has to follow. -/
theorem Begins.word (hx : x.kind = .word) (hspot : spot.awaitsPrimary = true)
    (hk : ∀ vs, k (x :: vs) = run ⟨i, x :: vs, p, os⟩) : Begins spot k p os x := by
  cases hc : isComparator x with
  | true =>
      refine .faultAt (fun vs => (hk vs).trans (run_missingField hx hc)) ?_
      cases spot <;> simp_all [Spot.fault?, Spot.awaitsPrimary]
  | false =>
      refine .begun ?_ (.inr ⟨hx, hc⟩) hk
      cases spot <;> simp_all [Spot.fault?, Spot.awaitsPrimary]

theorem begins_start (x : Token) : Begins .start begin [] [] x := by
  by_cases hf : x.kind = .finish
  · exact .faultAt (begin_finish hf) (by simp [Spot.fault?, hf])
  have hk := begin_of_ne hf
  cases hx : x.kind with
  | finish => exact absurd hx hf
  | word => exact .word hx rfl hk
  | opening => exact .begun (by simp [Spot.fault?, hx]) (.inl hx) hk
  | closing => exact .faultAt (fun vs => (hk vs).trans (run_closing hx)) (by simp [Spot.fault?, hx])
  | and | or =>
      exact .faultAt (fun vs => (hk vs).trans (run_connective (congrArg _ hx)))
        (by simp [Spot.fault?, hx])

theorem begins_opened {o : Token} (ho : o.kind = .opening) (i : Nat) (x : Token) :
    Begins (.opened o) (fun vs => run ⟨i, o :: vs, p, os⟩) (o :: p) os x := by
  cases hx : x.kind with
  | finish => exact .faultAt (fun vs => run_unclosed ho hx) (by simp [Spot.fault?, hx])
  | closing => exact .faultAt (fun vs => run_emptyGroup ho hx) (by simp [Spot.fault?, hx])
  | word => exact .word hx rfl fun vs => run_opened ho (by simp [hx]) (by simp [hx])
  | opening =>
      exact .begun (by simp [Spot.fault?, hx]) (.inl hx)
        fun vs => run_opened ho (by simp [hx]) (by simp [hx])
  | and | or =>
      exact .faultAt (fun vs => (run_opened ho (by simp [hx]) (by simp [hx])).trans
        (run_connective (congrArg _ hx))) (by simp [Spot.fault?, hx])

theorem begins_joined {c : Token} {least : Nat} (hc : c.kind.precedence? = some least)
    (hfold : foldStacks least p os = (p', os', true)) (i : Nat) (x : Token) :
    Begins (.joined c) (fun vs => resume ⟨i, c :: vs, p, os⟩) (c :: p') os' x := by
  cases hx : x.kind with
  | word => exact .word hx rfl fun vs => resume_joined least hc hfold (.inl hx)
  | opening =>
      exact .begun (by simp [Spot.fault?, hx]) (.inl hx)
        fun vs => resume_joined least hc hfold (.inr hx)
  | finish | closing | and | or =>
      exact .faultAt (fun vs => resume_missingRight least hc hfold (by simp [hx]) (by simp [hx]))
        (by simp [Spot.fault?, hx])

end

/-- The stages of an assembly: the tokens read, the spot where they end, and what happens to those
ahead. Before a primary and after one the stacks are known by the phrase they await. -/
inductive Stage : List Token → Spot → Continuation → Prop
  | before {ℓ ts p os spot k} : Awaits ℓ ts p os → EndsAt ts spot → spot.awaitsPrimary = true →
      (∀ x, Begins spot k p os x) → Stage ts spot k
  | named {ℓ ts p os spot i f} : Awaits ℓ ts p os → EndsAt ts spot → spot.awaitsPrimary = true →
      f.IsRead → f.kind = .word → isComparator f = false →
      Stage (ts ++ [f]) (.named f) fun vs => run ⟨i, f :: vs, p, os⟩
  | compared {ℓ ts p os spot i f c} : Awaits ℓ ts p os → EndsAt ts spot →
      spot.awaitsPrimary = true → f.IsRead → f.kind = .word → isComparator f = false →
      c.IsRead → c.kind = .word → isComparator c = true →
      Stage (ts ++ [f, c]) (.compared f c) fun vs => run ⟨i, f :: c :: vs, p, os⟩
  | complete {ℓ ts ls p os l i} : Awaits ℓ ts p os → Derives .factor ls l →
      Stage (ts ++ ls) (.complete (openGroups (ts ++ ls))) fun vs => resume ⟨i, vs, p, l :: os⟩

namespace Stage

section
variable {spot : Spot} {k : Continuation} {ts : List Token} {x : Token}

theorem initial : Stage [] .start begin := .before .start .start rfl begins_start

theorem endsAt (h : Stage ts spot k) : EndsAt ts spot := by
  cases h with
  | before h hends hspot hk => exact hends
  | named h hends hspot hf hfw hfc => exact hends.named hspot hfw
  | compared h hends hspot hf hfw hfc hc hcw hcc =>
      simpa using (hends.named hspot hfw).compared hcw
  | complete h hl => exact .complete hl

end

/-- What happens to a token at a stage: it is refused, or it takes the assembly to the next one. -/
inductive Turn (ts : List Token) (spot : Spot) (k : Continuation) (x : Token) : Prop
  | refused {f} : spot.fault? x = some f → Refuses k x f → Turn ts spot k x
  | taken {spot' k'} : Stage (ts ++ [x]) spot' k' → (∀ vs, k (x :: vs) = k' vs) → Turn ts spot k x

/-- What happens at the end of the tokens: they are refused there, or make one tree. -/
inductive Finish (ts : List Token) (spot : Spot) (k : Continuation) (x : Token) : Prop
  | refused {f} : spot.fault? x = some f → Refuses k x f → Finish ts spot k x
  | accepted {t} : Derives .expression ts t →
      (∀ vs, ∃ s, k (x :: vs) = (.ok (), s) ∧ s.operands = [t]) → Finish ts spot k x

section
variable {spot : Spot} {k : Continuation} {ts ls p : List Token} {os : List Tree} {l : Tree}
  {x : Token} {ℓ : Level} {i : Nat}

theorem Turn.faultAt {cause : FaultCause} {pos : Int} {s : List Token → Assembly}
    (h : ∀ vs, k (x :: vs) = (s vs).faultAt cause pos)
    (hspot : spot.fault? x = some ⟨cause, pos⟩) : Turn ts spot k x :=
  .refused hspot fun vs => ⟨s vs, h vs⟩

theorem Finish.faultAt {cause : FaultCause} {pos : Int} {s : List Token → Assembly}
    (h : ∀ vs, k (x :: vs) = (s vs).faultAt cause pos)
    (hspot : spot.fault? x = some ⟨cause, pos⟩) : Finish ts spot k x :=
  .refused hspot fun vs => ⟨s vs, h vs⟩

theorem turn_before (h : Awaits ℓ ts p os) (hends : EndsAt ts spot)
    (hspot : spot.awaitsPrimary = true) (hk : Begins spot k p os x) (hx : x.IsRead) :
    Turn ts spot k x := by
  cases hk with
  | refused hf hr => exact .refused hf hr
  | @begun i hf hkind hk =>
      rcases hkind with hkind | ⟨hkind, hc⟩
      · obtain ⟨q, rfl⟩ := hx.eq_opening hkind
        exact .taken (.before h.group (.opened rfl) rfl (begins_opened rfl i)) hk
      · exact .taken (.named h hends hspot hx hkind hc) hk

/-- Behind a factor a connective may follow, and a closing parenthesis if a group is open. -/
theorem turn_complete (h : Awaits ℓ ts p os) (hl : Derives .factor ls l) (hx : x.IsRead) :
    Turn (ts ++ ls) (.complete (openGroups (ts ++ ls))) (fun vs => resume ⟨i, vs, p, l :: os⟩)
      x := by
  have hgrouped : p.any (fun t => t.kind = .opening) = !(openGroups (ts ++ ls)).isEmpty := by
    rw [h.openGroups_append hl, Bool.eq_iff_iff]
    simp
  -- all that may follow but `AND` first completes the expression of the innermost group
  obtain ⟨ts', p', os', ls', l', hfold, ha, hd, he⟩ := h.fold_expression (hl.ofFactorTo ℓ)
  have hp' := ha.openGroups_append hd
  cases hx with
  | opening q =>
      exact .faultAt (fun vs => resume_primary (.inr rfl)) (by simp [Spot.fault?, hgrouped])
  | word hw hk q =>
      exact .faultAt (fun vs => resume_primary (.inl rfl)) (by simp [Spot.fault?, hgrouped])
  | closing q =>
      cases p' with
      | nil =>
          exact .faultAt (fun vs => resume_closing_unmatched rfl (foldStacks_zero.trans hfold))
            (by simp [Spot.fault?, he, hp'])
      | cons g p' =>
          obtain ⟨ℓ', us, q', rfl, rfl, ha'⟩ := ha.group_of_cons
          have hgroup : Derives .factor
              (⟨.opening, some "(", q'⟩ :: ls' ++ [⟨.closing, some ")", q⟩]) l' := .group hd
          have hstage := Stage.complete (i := i + 1) ha' hgroup
          rw [he]
          exact .taken (by simpa using hstage)
            fun vs => resume_closing rfl (foldStacks_zero.trans hfold)
  | or q =>
      have hstage := Stage.before (ha.or (q := q) hd) (.joined (.inr rfl)) rfl
        (begins_joined rfl hfold i)
      exact .taken (by simpa [he] using hstage) fun vs => rfl
  | and q =>
      obtain ⟨ℓ', ts', p', os', ls', l', hfold, ha, hℓ, hd, he⟩ := h.fold_term hl
      have hstage := Stage.before (ha.and (q := q) hℓ hd) (.joined (.inl rfl)) rfl
        (begins_joined rfl hfold i)
      exact .taken (by simpa [he] using hstage) fun vs => rfl

/-- A token that is read is refused at a stage, by the fault of the spot, or leads to the next. -/
theorem turn (h : Stage ts spot k) (hx : x.IsRead) : Turn ts spot k x := by
  cases h with
  | before h hends hspot hk => exact turn_before h hends hspot (hk x) hx
  | @named ℓ ts p os spot i f h hends hspot hf hfw hfc =>
      by_cases hc : x.kind = .word ∧ isComparator x = true
      · have hstage := Stage.compared (i := i) h hends hspot hf hfw hfc hx hc.1 hc.2
        exact .taken (by simpa using hstage) fun vs => rfl
      · exact .faultAt (fun vs => run_missingComparator hfw hfc hc) (by simp [Spot.fault?, hc])
  | @compared ℓ ts p os spot i f c h hends hspot hf hfw hfc hc hcw hcc =>
      by_cases hl : x.kind = .word ∧ isComparator x = false
      · have hcompares : Compares f c x := ⟨hfw, hcw, hl.1, hfc, hcc, hl.2⟩
        have hstage := Stage.complete (i := i + 1 + 1 + 1) h (hcompares.derives hf hc hx)
        exact .taken (by simpa using hstage) fun vs => run_comparison hcompares
      · exact .faultAt (fun vs => run_missingLiteral hfw hfc hcw hcc hl)
          (by simp only [Spot.fault?, if_neg hl])
  | complete h hl => exact turn_complete h hl hx

theorem finish_complete (h : Awaits ℓ ts p os) (hl : Derives .factor ls l)
    (hx : x.kind = .finish) :
    Finish (ts ++ ls) (.complete (openGroups (ts ++ ls)))
      (fun vs => resume ⟨i, vs, p, l :: os⟩) x := by
  obtain ⟨ts', p', os', ls', l', hfold, ha, hd, he⟩ := h.fold_expression (hl.ofFactorTo ℓ)
  have hp' := ha.openGroups_append hd
  cases p' with
  | nil =>
      obtain ⟨rfl, rfl⟩ := ha.start_of_nil
      refine .accepted (t := l') (he ▸ hd) fun vs => ?_
      exact ⟨_, resume_finish hx (foldStacks_zero.trans hfold), rfl⟩
  | cons g p' =>
      obtain ⟨ℓ', us, q, rfl, rfl, ha'⟩ := ha.group_of_cons
      refine .faultAt (fun vs => resume_finish_open hx (foldStacks_zero.trans hfold)) ?_
      simp only [Spot.fault?, hx]
      rw [he, hp']
      rfl

/-- The end of the tokens is refused at a stage, unless one tree is complete. -/
theorem finish (h : Stage ts spot k) (hx : x.kind = .finish) : Finish ts spot k x := by
  cases h with
  | before h hends hspot hk =>
      cases hk x with
      | refused hf hr => exact .refused hf hr
      | begun hf hkind hk => simp [hx] at hkind
  | named h hends hspot hf hfw hfc =>
      have hc : ¬ (x.kind = .word ∧ isComparator x = true) := by simp [hx]
      exact .faultAt (fun vs => run_missingComparator hfw hfc hc)
        (by simp only [Spot.fault?, if_neg hc])
  | compared h hends hspot hf hfw hfc hc hcw hcc =>
      have hl : ¬ (x.kind = .word ∧ isComparator x = false) := by simp [hx]
      exact .faultAt (fun vs => run_missingLiteral hfw hfc hcw hcc hl)
        (by simp only [Spot.fault?, if_neg hl])
  | complete h hl => exact finish_complete h hl hx

end

/-- How an assembly of tokens ends from a stage on: some token is refused, at the stage that those
before it lead to, or the tokens are accepted with the tree they derive. -/
inductive Outcome (ts : List Token) (k : Continuation) (tail : List Token) (e : Int) : Prop
  | refused (us vs) {x spot k' f} : tail ++ [.finishAt e] = us ++ x :: vs →
      Stage (ts ++ us) spot k' → (∀ ws, k (us ++ ws) = k' ws) → spot.fault? x = some f →
      Refuses k' x f → Outcome ts k tail e
  | accepted {t s} : Derives .expression (ts ++ tail) t →
      k (tail ++ [.finishAt e]) = (.ok (), s) → s.operands = [t] → Outcome ts k tail e

theorem outcome {ts tail : List Token} {spot : Spot} {k : Continuation} (h : Stage ts spot k)
    (hread : ∀ x ∈ tail, x.IsRead) (e : Int) : Outcome ts k tail e := by
  induction tail generalizing ts spot k with
  | nil =>
      cases h.finish (x := .finishAt e) rfl with
      | refused hf hr =>
          exact .refused [] _ rfl (by simpa using h) (fun ws => rfl) hf hr
      | accepted hd hk =>
          obtain ⟨s, hk, hs⟩ := hk []
          exact .accepted (by simpa using hd) hk hs
  | cons x tail ih =>
      obtain ⟨hx, htail⟩ := List.forall_mem_cons.mp hread
      cases h.turn hx with
      | refused hf hr =>
          exact .refused [] _ rfl (by simpa using h) (fun ws => rfl) hf hr
      | taken hstage hk =>
          cases ih hstage htail with
          | refused us vs he hstage' hk' hf hr =>
              refine .refused (x :: us) vs (by simpa using he) (by simpa using hstage')
                (fun ws => ?_) hf hr
              exact (hk (us ++ ws)).trans (hk' ws)
          | accepted hd hk' hs =>
              exact .accepted (by simpa using hd) ((hk _).trans hk') hs

end Stage

theorem parseTokens_eq (ts : List Token) : parseTokens ts =
    match begin (closeTokens ts) with
    | (.error e, _) => .error e
    | (.ok _, s) => s.takeOperand.1 := by
  unfold parseTokens ofTokens parse begin
  cases closeTokens ts with
  | nil => rfl
  | cons x vs =>
      rw [kind?_cons, onCurrent_cons]
      by_cases hx : x.kind = .finish
      · simp only [hx, current_cons, if_true, faultAt]
      · rw [if_neg hx]
        rcases run ⟨0, x :: vs, [], []⟩ with ⟨_ | _, s⟩ <;> cases hk : x.kind <;> simp_all

end Rulebook
