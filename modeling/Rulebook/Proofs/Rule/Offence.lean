import Rulebook.Proofs.Rule.Grammar

/-!
Where a rejected rule goes wrong. The tokens up to some point can be continued to a rule and with
the next one they cannot; the spot at which they end fixes the fault that is reported.
-/

namespace Rulebook
open Assembly

/-- The spot at which tokens end, told by the last few of them, the last one first. -/
def Spot.ofLast (groups : List Token) : List Token → Spot
  | [] => .start
  | x :: before =>
    match x.kind with
    | .opening => .opened x
    | .and | .or => .joined x
    | .closing | .finish => .complete groups
    | .word =>
      match before with
      | [] => .named x
      | y :: before =>
        if y.kind ≠ .word then .named x
        else if before.head?.any (·.kind = .word) then .complete groups
        else .compared y x

theorem EndsAt.eq_ofLast {ts : List Token} {spot : Spot} (h : EndsAt ts spot) :
    spot = .ofLast (openGroups ts) ts.reverse := by
  cases h with
  | start => rfl
  | opened ho => simp [Spot.ofLast, ho]
  | joined hc => rcases hc with hc | hc <;> simp [Spot.ofLast, hc]
  | named h hspot hf =>
      cases h with
      | start => simp [Spot.ofLast, hf]
      | opened ho => simp [Spot.ofLast, hf, ho]
      | joined hc => rcases hc with hc | hc <;> simp [Spot.ofLast, hf, hc]
      | named | compared | complete => cases hspot
  | compared h hc =>
      cases h with
      | named h hspot hf =>
          cases h with
          | start => simp [Spot.ofLast, hf, hc]
          | opened ho => simp [Spot.ofLast, hf, hc, ho]
          | joined hj => rcases hj with hj | hj <;> simp [Spot.ofLast, hf, hc, hj]
          | named | compared | complete => cases hspot
  | complete hl =>
      cases hl with
      | group h => simp [Spot.ofLast]
      | comparison hf hc hl => simp [Spot.ofLast]

/-- Tokens end at one spot only. -/
theorem EndsAt.unique {ts : List Token} {spot spot' : Spot} (h : EndsAt ts spot)
    (h' : EndsAt ts spot') : spot = spot' :=
  h.eq_ofLast.trans h'.eq_ofLast.symm

/-- Tokens that some further ones make a list that is accepted. -/
def IsViable (ts : List Token) : Prop := ∃ us t, parseTokens (ts ++ us) = .ok t

/-- The longest beginning of a list that is viable. -/
structure IsLongestViable (p ts : List Token) : Prop where
  begins : p <+: ts
  viable : IsViable p
  longest : ∀ q, q <+: ts → IsViable q → q.length ≤ p.length

theorem IsLongestViable.unique {p q ts : List Token} (hp : IsLongestViable p ts)
    (hq : IsLongestViable q ts) : p = q := by
  have hle := hp.longest q hq.begins hq.viable
  have hge := hq.longest p hp.begins hp.viable
  exact (List.prefix_of_prefix_length_le hp.begins hq.begins hge).eq_of_length
    (Nat.le_antisymm hge hle)

theorem IsViable.isLongest {ts : List Token} (h : IsViable ts) : IsLongestViable ts ts :=
  ⟨List.prefix_refl ts, h, fun _ hq _ => hq.length_le⟩

theorem isViable_of_derives {ts : List Token} (us : List Token) {t : Tree}
    (h : Derives .expression (ts ++ us) t) : IsViable ts :=
  ⟨us ++ [.finishAt 0], t, by rw [← List.append_assoc, parseTokens_of_derives h]⟩

section
variable {ts us p : List Token} {os : List Tree} {x : Token} {f : Fault} {ℓ : Level} {spot : Spot}
  {k : Continuation}

/-- Where a primary is awaited, any part of a factor may stand. -/
theorem Awaits.isViable (h : Awaits ℓ ts p os) {l : Tree} (hl : Derives .factor us l) {vs ws}
    (he : us = vs ++ ws) : IsViable (ts ++ vs) := by
  obtain ⟨us', t, ht⟩ := h.completes (hl.ofFactorTo ℓ)
  exact isViable_of_derives (ws ++ us') (by simpa [he] using ht)

theorem Stage.isViable (h : Stage ts spot k) : IsViable ts := by
  have hc (f c : Text) (q q' : Int) (hf : Comparator.isSymbol f = false)
      (hc : Comparator.isSymbol c = true) : Derives .factor
        [⟨.word, some f, q⟩, ⟨.word, some c, q'⟩, ⟨.word, some "1", 0⟩] (.leaf ⟨f, c, "1"⟩) :=
    .comparison hf hc (by decide)
  cases h with
  | before h hends hspot hk =>
      simpa using h.isViable (hc "a" "=" 0 0 rfl rfl) (List.nil_append _).symm
  | named h hends hspot hf hfw hfc =>
      obtain ⟨w, q, rfl⟩ := hf.eq_word hfw
      exact h.isViable (hc w "=" q 0 hfc rfl) rfl
  | compared h hends hspot hf hfw hfc hk hkw hkc =>
      obtain ⟨w, q, rfl⟩ := hf.eq_word hfw
      obtain ⟨w', q', rfl⟩ := hk.eq_word hkw
      exact h.isViable (hc w w' q q' hfc hkc) rfl
  | complete h hl => exact h.isViable hl (List.append_nil _).symm

theorem closeTokens_append_cons (us : List Token) (x : Token) (vs : List Token) :
    ∃ ws, closeTokens (us ++ x :: vs) = us ++ x :: ws := by
  unfold closeTokens
  split
  · exact ⟨vs, rfl⟩
  · exact ⟨vs ++ [_], by simp; rfl⟩

/-- No list with a refused token in it is viable. -/
theorem Refuses.not_isViable (h : Refuses k x f) (hk : ∀ ws, begin (us ++ ws) = k ws)
    (vs : List Token) : ¬ IsViable (us ++ x :: vs) := by
  rintro ⟨ws, t, ht⟩
  obtain ⟨ws', hclose⟩ := closeTokens_append_cons us x (vs ++ ws)
  obtain ⟨s, hs⟩ := h ws'
  rw [List.append_assoc, List.cons_append, parseTokens_eq, hclose, hk, hs] at ht
  cases ht

/-- Tokens that are not accepted are refused behind their longest viable beginning, with the fault
of the spot at which that ends. -/
theorem exists_offence (hread : ∀ x ∈ ts, x.IsRead) (e : Int)
    (hno : ∀ t, parseTokens (ts ++ [.finishAt e]) ≠ .ok t) :
    ∃ us x spot f, IsLongestViable us ts ∧ (ts ++ [.finishAt e])[us.length]? = some x ∧
      EndsAt us spot ∧ spot.fault? x = some f ∧
      parseTokens (ts ++ [.finishAt e]) = .error (.fault f) := by
  cases Stage.initial.outcome hread e with
  | accepted hd hk hs => exact absurd (parseTokens_of_derives hd e) (hno _)
  | @refused us vs x spot k f he hstage hk hf hr =>
      rw [List.nil_append] at hstage
      have hus : us <+: ts ++ [.finishAt e] := ⟨x :: vs, he.symm⟩
      have hlen := congrArg List.length he
      simp only [List.length_append, List.length_cons, List.length_nil] at hlen
      refine ⟨us, x, spot, f, ⟨?_, hstage.isViable, fun q hq hv => ?_⟩, ?_, hstage.endsAt, hf, ?_⟩
      · exact List.prefix_of_prefix_length_le hus (List.prefix_append _ _) (by omega)
      · by_contra hlt
        have hx : us ++ [x] <+: ts ++ [.finishAt e] := ⟨vs, by simp [he]⟩
        have hq' := hq.trans (List.prefix_append ts [.finishAt e])
        obtain ⟨ws, rfl⟩ := List.prefix_of_prefix_length_le hx hq' (by simp; omega)
        exact hr.not_isViable hk ws (by simpa using hv)
      · simp [he]
      · obtain ⟨s, hs⟩ := hr vs
        rw [parseTokens_eq, closeTokens_finished, he, hk, hs]

end

/-- A rejected text is reported for the token behind the longest viable beginning of its tokens,
with the fault that this token commits at the spot, the only one, where that beginning ends. -/
theorem compile_first_offence {text : Text} {tokens p : List Token} {x : Token}
    (h : tokenize text = .ok tokens) (hno : ∀ t, compile text ≠ .ok t)
    (hp : IsLongestViable p (unfinished tokens)) (hx : tokens[p.length]? = some x) :
    ∃ spot f, (∀ other, EndsAt p other ↔ other = spot) ∧ spot.fault? x = some f ∧
      compile text = .error (.fault f) := by
  obtain ⟨ts, hl, rfl⟩ := tokenize_eq_ok_iff.mp h
  rw [unfinished_append hl.isRead] at hp
  have hcompile : compile text = parseTokens (ts ++ [.finishAt text.length]) := by
    simp only [compile, h]
  rw [hcompile] at hno ⊢
  obtain ⟨us, y, spot, f, hus, hy, hends, hf, hparse⟩ := exists_offence hl.isRead _ hno
  obtain rfl := hp.unique hus
  obtain rfl := Option.some.inj (hx.symm.trans hy)
  exact ⟨spot, f, fun other => ⟨fun ho => ho.unique hends, fun ho => ho ▸ hends⟩, hf, hparse⟩

theorem compile_unclosed_groups :
    tokenize "((a = 1" = .ok [⟨.opening, some "(", 0⟩, ⟨.opening, some "(", 1⟩,
      ⟨.word, some "a", 2⟩, ⟨.word, some "=", 4⟩, ⟨.word, some "1", 6⟩, .finishAt 7] ∧
    compile "((a = 1" = .error (.fault ⟨.missingClosing, 1⟩) := by
  have h : tokenize "((a = 1" = .ok [⟨.opening, some "(", 0⟩, ⟨.opening, some "(", 1⟩,
      ⟨.word, some "a", 2⟩, ⟨.word, some "=", 4⟩, ⟨.word, some "1", 6⟩, .finishAt 7] := by
    decide +kernel
  refine ⟨h, ?_⟩
  have hc : Derives .factor [⟨.word, some "a", 2⟩, ⟨.word, some "=", 4⟩, ⟨.word, some "1", 6⟩]
      (.leaf ⟨"a", "=", "1"⟩) := .comparison (by decide) (by decide) (by decide)
  have hno : ∀ t, compile "((a = 1" ≠ .ok t := by
    intro t ht
    obtain ⟨ts, hl, hd⟩ := compile_eq_ok_iff.mp ht
    have hts := (tokenize_eq_ok_iff.mpr ⟨ts, hl, rfl⟩).symm.trans h
    obtain rfl := List.dropLast_concat.symm.trans (congrArg List.dropLast (Except.ok.inj hts))
    exact absurd (hd.groupsAfter []) (by decide)
  have hviable : IsViable [⟨.opening, some "(", 0⟩, ⟨.opening, some "(", 1⟩,
      ⟨.word, some "a", 2⟩, ⟨.word, some "=", 4⟩, ⟨.word, some "1", 6⟩] :=
    isViable_of_derives [⟨.closing, some ")", 7⟩, ⟨.closing, some ")", 8⟩]
      (.ofTerm (.ofFactor (.group (.ofTerm (.ofFactor (.group (.ofTerm (.ofFactor hc))))))))
  obtain ⟨spot, f, hspot, hf, hcompile⟩ := compile_first_offence h hno hviable.isLongest rfl
  obtain rfl := (hspot (.complete _)).mp (show EndsAt ([_, _] ++ _) _ from .complete hc)
  rw [hcompile, Option.some.inj hf.symm]

end Rulebook
