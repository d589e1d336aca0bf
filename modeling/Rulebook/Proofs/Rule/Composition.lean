import Rulebook.Proofs.Rule.RoundTrip
import Rulebook.Proofs.Rule.Tiling

/-!
Rules made of rules. The text of a rule is read as the same phrase wherever a word may end behind
it, so a rule in parentheses, alone or joined to another one, keeps its tree whatever stands in it.
-/

namespace Rulebook

section
variable {pos : Nat} {t rest : Text} {ts us : List Token}

theorem AtBoundary.append (ht : AtBoundary t) (hr : AtBoundary rest) : AtBoundary (t ++ rest) := by
  cases t with
  | nil => exact hr
  | cons c t => exact .cons _ (ht c rfl)

/-- What lies in a text lies there whatever follows, if a word may end before that. -/
theorem Layout.append (h : Layout pos t ts) (hr : AtBoundary rest)
    (hrest : Layout (pos + t.length) rest us) : Layout pos (t ++ rest) (ts ++ us) := by
  induction h with
  | nil pos => exact hrest
  | @blank pos c t ts hc h ih =>
      apply Layout.blank hc
      apply ih
      rwa [Nat.add_right_comm]
  | @opening pos t ts h ih =>
      apply Layout.opening
      apply ih
      rwa [Nat.add_right_comm]
  | @closing pos t ts h ih =>
      apply Layout.closing
      apply ih
      rwa [Nat.add_right_comm]
  | @word pos w t ts hw ht h ih =>
      rw [List.append_assoc]
      apply Layout.word hw (ht.append hr)
      apply ih
      rwa [Nat.add_assoc, ← List.length_append]

end

section
variable {ℓ : Level} {ts us : List Token} {t : Tree}

/-- Tokens with the contents of others begin with the same token, wherever that stands. -/
theorem exists_cons_of_content {x : Token} (h : us.map Token.content = (x :: ts).map Token.content) :
    ∃ q vs, us = ⟨x.kind, x.value, q⟩ :: vs ∧ vs.map Token.content = ts.map Token.content := by
  obtain ⟨⟨kind, value, q⟩, vs, rfl, hx, hvs⟩ := List.map_eq_cons_iff.mp h
  cases hx
  exact ⟨q, vs, rfl, hvs⟩

/-- Tokens with the contents of others fall into the same parts on both sides of a token. -/
theorem exists_append_of_content {ls rs : List Token} {x : Token}
    (h : us.map Token.content = (ls ++ x :: rs).map Token.content) :
    ∃ ls' q rs', us = ls' ++ ⟨x.kind, x.value, q⟩ :: rs' ∧
      ls'.map Token.content = ls.map Token.content ∧
      rs'.map Token.content = rs.map Token.content := by
  rw [List.map_append] at h
  obtain ⟨ls', vs, rfl, hls, hvs⟩ := List.map_eq_append_iff.mp h
  obtain ⟨q, rs', rfl, hrs⟩ := exists_cons_of_content hvs
  exact ⟨ls', q, rs', rfl, hls, hrs⟩

/-- Where tokens stand does not matter to what they derive. -/
theorem Derives.moved (h : Derives ℓ ts t) (he : us.map Token.content = ts.map Token.content) :
    Derives ℓ us t := by
  induction h generalizing us with
  | ofTerm h ih => exact .ofTerm (ih he)
  | ofFactor h ih => exact .ofFactor (ih he)
  | or hl hr ihl ihr =>
      obtain ⟨ls, q, rs, rfl, hls, hrs⟩ := exists_append_of_content he
      exact .or (ihl hls) (ihr hrs)
  | and hl hr ihl ihr =>
      obtain ⟨ls, q, rs, rfl, hls, hrs⟩ := exists_append_of_content he
      exact .and (ihl hls) (ihr hrs)
  | group h ih =>
      obtain ⟨vs, q', ws, rfl, hvs, hws⟩ := exists_append_of_content he
      obtain ⟨q, us, rfl, hus⟩ := exists_cons_of_content hvs
      obtain rfl := List.map_eq_nil_iff.mp hws
      exact .group (ih hus)
  | comparison hf hc hl =>
      obtain ⟨q, vs, rfl, hvs⟩ := exists_cons_of_content he
      obtain ⟨q', ws, rfl, hws⟩ := exists_cons_of_content hvs
      obtain ⟨q'', us, rfl, hus⟩ := exists_cons_of_content hws
      obtain rfl := List.map_eq_nil_iff.mp hus
      exact .comparison hf hc hl

end

/-- The text of a rule is a phrase, wherever it stands and a word may end behind it. -/
theorem prints_of_compile {s : Text} {t : Tree} (h : compile s = .ok t) :
    Prints .expression t fun rest => s ++ rest := by
  intro P rest hr hP pos
  obtain ⟨ts, hl, hd⟩ := compile_eq_ok_iff.mp h
  obtain ⟨us, hl', he⟩ := hl.moved pos
  obtain ⟨vs, hvs, hp⟩ := hP (pos + s.length)
  exact ⟨us ++ vs, hl'.append hr hvs, us, vs, rfl, hd.moved he, hp⟩

/-- Two rules in parentheses, with a connective between them, make the rule that joins their trees,
and a rule in parentheses is the rule itself. -/
theorem compile_joined_groups {s₁ s₂ : Text} {t₁ t₂ : Tree} (h₁ : compile s₁ = .ok t₁)
    (h₂ : compile s₂ = .ok t₂) (c : Connective) :
    compile ("(" ++ s₁ ++ ") " ++ c.word ++ " (" ++ s₂ ++ ")") = .ok (.join c.word t₁ t₂) ∧
      compile ("(" ++ s₁ ++ ")") = .ok t₁ := by
  have hg₁ := (prints_of_compile h₁).grouped
  have hg₂ := (prints_of_compile h₂).grouped
  have hleft : Prints c.level t₁ _ := hg₁.widen (by cases c <;> decide)
  have hright : Prints c.rightLevel t₂ _ := hg₂.widen (by cases c <;> decide)
  constructor
  · simpa [Text.ofString, Text.ofChars] using (hleft.joined hright).compile
  · simpa [Text.ofString, Text.ofChars] using hg₁.compile

theorem compile_joined_groups_once :
    compile "a = 1 OR n != 'x) OR (y'" =
        .ok (.join "OR" (.leaf ⟨"a", "=", "1"⟩) (.leaf ⟨"n", "!=", "'x) OR (y'"⟩)) ∧
      compile " (b<1 > 2)AND c = ')' " =
        .ok (.join "AND" (.leaf ⟨"b<1", ">", "2"⟩) (.leaf ⟨"c", "=", "')'"⟩)) ∧
      compile "(a = 1 OR n != 'x) OR (y') AND ( (b<1 > 2)AND c = ')' )" =
        .ok (.join "AND"
          (.join "OR" (.leaf ⟨"a", "=", "1"⟩) (.leaf ⟨"n", "!=", "'x) OR (y'"⟩))
          (.join "AND" (.leaf ⟨"b<1", ">", "2"⟩) (.leaf ⟨"c", "=", "')'"⟩))) := by
  have h₁ : compile "a = 1 OR n != 'x) OR (y'" =
      .ok (.join "OR" (.leaf ⟨"a", "=", "1"⟩) (.leaf ⟨"n", "!=", "'x) OR (y'"⟩)) := by
    decide +kernel
  have h₂ : compile " (b<1 > 2)AND c = ')' " =
      .ok (.join "AND" (.leaf ⟨"b<1", ">", "2"⟩) (.leaf ⟨"c", "=", "')'"⟩)) := by
    decide +kernel
  exact ⟨h₁, h₂, (compile_joined_groups h₁ h₂ .and).1⟩

end Rulebook
