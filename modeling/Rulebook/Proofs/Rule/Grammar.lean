import Rulebook.Proofs.Rule.Stage
import Rulebook.Rule.Compile

/-!
A text compiles to a tree exactly if its tokens derive it in the grammar of rules, and they derive
one tree at most.
-/

namespace Rulebook
open Assembly

/-- Assembling tokens as they are read ends in a fault or in a tree that they derive. -/
theorem parseTokens_cases {ts : List Token} (hread : ∀ x ∈ ts, x.IsRead) (e : Int) :
    (∃ f, parseTokens (ts ++ [.finishAt e]) = .error (.fault f)) ∨
      ∃ t, parseTokens (ts ++ [.finishAt e]) = .ok t ∧ Derives .expression ts t := by
  rw [parseTokens_eq, closeTokens_finished]
  cases Stage.initial.outcome hread e with
  | refused us vs he hstage hk hf hr =>
      obtain ⟨s, hs⟩ := hr vs
      rw [he, hk, hs]
      exact .inl ⟨_, rfl⟩
  | accepted hd hk hs =>
      rw [hk]
      exact .inr ⟨_, by simp [takeOperand, hs], hd⟩

theorem parseTokens_eq_ok_iff {ts : List Token} (hread : ∀ x ∈ ts, x.IsRead) (e : Int)
    {t : Tree} : parseTokens (ts ++ [.finishAt e]) = .ok t ↔ Derives .expression ts t := by
  refine ⟨fun h => ?_, fun h => parseTokens_of_derives h e⟩
  rcases parseTokens_cases hread e with ⟨f, hf⟩ | ⟨u, hu, hd⟩
  · rw [hf] at h
    cases h
  · rw [hu] at h
    exact Except.ok.inj h ▸ hd

/-- A list of tokens derives at most one tree. -/
theorem Derives.unique {ts : List Token} {t u : Tree} (ht : Derives .expression ts t)
    (hu : Derives .expression ts u) : t = u :=
  Except.ok.inj ((parseTokens_of_derives ht 0).symm.trans (parseTokens_of_derives hu 0))

/-- A text compiles to the tree that the tokens in it derive. -/
theorem compile_eq_ok_iff {text : Text} {t : Tree} :
    compile text = .ok t ↔ ∃ ts, Layout 0 text ts ∧ Derives .expression ts t := by
  unfold compile
  cases h : tokenize text with
  | error f =>
      refine ⟨nofun, ?_⟩
      rintro ⟨ts, hl, -⟩
      rw [tokenize_eq_ok_iff.mpr ⟨ts, hl, rfl⟩] at h
      cases h
  | ok tokens =>
      obtain ⟨ts, hl, rfl⟩ := tokenize_eq_ok_iff.mp h
      simp only [parseTokens_eq_ok_iff hl.isRead]
      refine ⟨fun hd => ⟨ts, hl, hd⟩, ?_⟩
      rintro ⟨us, hl', hd⟩
      have he := Except.ok.inj (h.symm.trans (tokenize_eq_ok_iff.mpr ⟨us, hl', rfl⟩))
      exact List.append_cancel_right he ▸ hd

/-- The tokens of a list but for the finishing one. -/
def unfinished (tokens : List Token) : List Token := tokens.filter fun x => x.kind ≠ .finish

theorem unfinished_append {ts : List Token} (hread : ∀ x ∈ ts, x.IsRead) (e : Int) :
    unfinished (ts ++ [.finishAt e]) = ts := by
  have hts : ts.filter (fun x => x.kind ≠ .finish) = ts :=
    List.filter_eq_self.mpr fun x hx => by simpa using (hread x hx).kind_ne_finish
  simp only [unfinished, List.filter_append, hts]
  simp [Token.finishAt]

/-- A text that falls into tokens compiles to a tree exactly if the tokens derive that tree. They
derive one tree at most, and if they derive none the text is refused. -/
theorem compile_iff_derives {text : Text} {tokens : List Token} (h : tokenize text = .ok tokens) :
    (∀ t, compile text = .ok t ↔ Derives .expression (unfinished tokens) t) ∧
      ((∀ t, ¬ Derives .expression (unfinished tokens) t) →
        ∃ f, compile text = .error (.fault f)) ∧
      ∀ t u, Derives .expression (unfinished tokens) t →
        Derives .expression (unfinished tokens) u → t = u := by
  obtain ⟨ts, hl, rfl⟩ := tokenize_eq_ok_iff.mp h
  rw [unfinished_append hl.isRead]
  simp only [compile, h]
  refine ⟨fun t => parseTokens_eq_ok_iff hl.isRead _, fun hnone => ?_,
    fun t u ht hu => ht.unique hu⟩
  rcases parseTokens_cases hl.isRead text.length with hf | ⟨t, -, hd⟩
  · exact hf
  · exact absurd hd (hnone t)

theorem compile_mixed :
    tokenize "a > 1 OR b = 2 AND (c < 3)" = .ok [⟨.word, some "a", 0⟩, ⟨.word, some ">", 2⟩,
      ⟨.word, some "1", 4⟩, ⟨.or, some "OR", 6⟩, ⟨.word, some "b", 9⟩, ⟨.word, some "=", 11⟩,
      ⟨.word, some "2", 13⟩, ⟨.and, some "AND", 15⟩, ⟨.opening, some "(", 19⟩,
      ⟨.word, some "c", 20⟩, ⟨.word, some "<", 22⟩, ⟨.word, some "3", 24⟩,
      ⟨.closing, some ")", 25⟩, .finishAt 26] ∧
    compile "a > 1 OR b = 2 AND (c < 3)" = .ok (.join "OR" (.leaf ⟨"a", ">", "1"⟩)
      (.join "AND" (.leaf ⟨"b", "=", "2"⟩) (.leaf ⟨"c", "<", "3"⟩))) := by
  have h : tokenize "a > 1 OR b = 2 AND (c < 3)" = .ok [⟨.word, some "a", 0⟩,
      ⟨.word, some ">", 2⟩, ⟨.word, some "1", 4⟩, ⟨.or, some "OR", 6⟩, ⟨.word, some "b", 9⟩,
      ⟨.word, some "=", 11⟩, ⟨.word, some "2", 13⟩, ⟨.and, some "AND", 15⟩,
      ⟨.opening, some "(", 19⟩, ⟨.word, some "c", 20⟩, ⟨.word, some "<", 22⟩,
      ⟨.word, some "3", 24⟩, ⟨.closing, some ")", 25⟩, .finishAt 26] := by decide +kernel
  refine ⟨h, ((compile_iff_derives h).1 _).mpr ?_⟩
  have hc : Derives .factor [⟨.opening, some "(", 19⟩, ⟨.word, some "c", 20⟩,
      ⟨.word, some "<", 22⟩, ⟨.word, some "3", 24⟩, ⟨.closing, some ")", 25⟩]
      (.leaf ⟨"c", "<", "3"⟩) :=
    .group (.ofTerm (.ofFactor (.comparison (by decide) (by decide) (by decide))))
  exact .or (.ofTerm (.ofFactor (.comparison (by decide) (by decide) (by decide))))
    (.and (.ofFactor (.comparison (by decide) (by decide) (by decide))) hc)

end Rulebook
