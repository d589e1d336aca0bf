import Rulebook.Proofs.Rule.Printing
import Rulebook.Proofs.Rule.Safety

/-!
Holes in printed trees. Where a part of a tree is missing, its text has nothing or an empty group,
and a primary is still awaited there when a connective, a closing parenthesis or the end comes. So
the text of a damaged tree is refused.
-/

namespace Rulebook

/-- How much of a primary was read. -/
inductive Reach where
  | nothing
  | field
  | comparator
  | whole
  deriving DecidableEq, Repr

/-- What was read once a token of a kind follows, if it may follow in a rule. -/
def Reach.next? : Reach → TokenKind → Option Reach
  | .nothing, .opening => some .nothing
  | .nothing, .word => some .field
  | .field, .word => some .comparator
  | .comparator, .word => some .whole
  | .whole, .closing => some .whole
  | .whole, .and => some .nothing
  | .whole, .or => some .nothing
  | _, _ => none

/-- How far a primary was read at the end of tokens, if each of them may follow those before it. -/
def reach? (kinds : List TokenKind) : Option Reach := kinds.foldlM Reach.next? .nothing

/-- Tokens that come to the end of a primary. -/
def Completes (kinds : List TokenKind) : Prop := reach? kinds = some .whole

/-- Tokens that go wrong, or after which a primary is still awaited. -/
def Stalls (kinds : List TokenKind) : Prop := reach? kinds = none ∨ reach? kinds = some .nothing

section
variable {ks ls : List TokenKind}

theorem Stalls.not_completes (h : Stalls ks) : ¬ Completes ks := by
  intro hc
  rcases h with h | h
  · cases h.symm.trans hc
  · cases h.symm.trans hc

theorem reach?_append (ks ls : List TokenKind) :
    reach? (ks ++ ls) = (reach? ks).bind fun r => ls.foldlM Reach.next? r :=
  List.foldlM_append

/-- A connective may follow a whole primary only, and another primary is awaited behind it. -/
theorem reach?_connective (c : Connective) (ks ls : List TokenKind) :
    reach? (ks ++ c.kind :: ls) = if reach? ks = some .whole then reach? ls else none := by
  rw [reach?_append]
  rcases reach? ks with _ | (_ | _ | _ | _) <;> cases c <;> rfl

/-- A group is read to its end exactly if what stands in it comes to the end of a primary. -/
theorem reach?_group (ks : List TokenKind) :
    reach? (.opening :: (ks ++ [.closing])) =
      if reach? ks = some .whole then some .whole else none := by
  have hopen : reach? (.opening :: (ks ++ [.closing])) = reach? (ks ++ [.closing]) := rfl
  rw [hopen, reach?_append]
  rcases reach? ks with _ | (_ | _ | _ | _) <;> rfl

theorem Completes.side (h : Completes ks) (grouped : Bool) : Completes (sideKinds grouped ks) := by
  cases grouped with
  | false => exact h
  | true => exact (reach?_group ks).trans (if_pos h)

theorem Stalls.side (h : Stalls ks) (grouped : Bool) : Stalls (sideKinds grouped ks) := by
  cases grouped with
  | false => exact h
  | true => exact .inl ((reach?_group ks).trans (if_neg h.not_completes))

theorem Completes.join (hk : Completes ks) (hl : Completes ls) (c : Connective) :
    Completes (ks ++ c.kind :: ls) := by
  have hreach := (reach?_connective c ks ls).trans (if_pos hk)
  rw [Completes, hreach]
  exact hl

theorem Stalls.left (hk : Stalls ks) (c : Connective) (ls : List TokenKind) :
    Stalls (ks ++ c.kind :: ls) :=
  .inl ((reach?_connective c ks ls).trans (if_neg hk.not_completes))

theorem Stalls.right (hk : Completes ks) (hl : Stalls ls) (c : Connective) :
    Stalls (ks ++ c.kind :: ls) := by
  have hreach := (reach?_connective c ks ls).trans (if_pos hk)
  rw [Stalls, hreach]
  exact hl

theorem stalls_nil : Stalls [] := .inr rfl

end

/-- A phrase comes to the end of its last primary. -/
theorem Derives.completes {ℓ : Level} {ts : List Token} {t : Tree} (h : Derives ℓ ts t) :
    Completes (ts.map (·.kind)) := by
  induction h with
  | ofTerm h ih | ofFactor h ih => exact ih
  | or hl hr ihl ihr =>
      rw [List.map_append, List.map_cons]
      exact ihl.join ihr .or
  | and hl hr ihl ihr =>
      rw [List.map_append, List.map_cons]
      exact ihl.join ihr .and
  | group h ih =>
      rw [List.map_append, List.map_cons]
      exact ih.side true
  | comparison hf hc hl => rfl

/-- A well-formed tree is printed to the end of its last primary. -/
theorem Tree.completes_kinds {t : Tree} (h : t.isWellFormed = true) : Completes t.kinds := by
  induction t with
  | leaf c => rfl
  | join w l r ihl ihr =>
      simp only [isWellFormed, Bool.and_eq_true] at h
      obtain ⟨c, hc⟩ := Option.isSome_iff_exists.mp h.1.1
      obtain rfl := Connective.word_of_ofWord? hc
      rw [kinds_join]
      exact ((ihl h.1.2).side _).join ((ihr h.2).side _) c
  | hole | foreign => cases h

/-- A tree with a part missing is printed as tokens that go wrong or leave a primary awaited. -/
theorem Tree.stalls_kinds {t : Tree} (hvalid : ∀ c ∈ t.comparisons, c.isValid = true)
    (h : t.isWellFormed = false) : Stalls t.kinds := by
  induction t with
  | leaf c =>
      have hc := hvalid c (List.mem_singleton.mpr rfl)
      cases hc.symm.trans h
  | join w l r ihl ihr =>
      obtain ⟨hl, hr⟩ := List.forall_mem_append.mp hvalid
      cases hw : Connective.ofWord? w with
      | none =>
          rw [kinds_unknown hw]
          exact stalls_nil
      | some c =>
          obtain rfl := Connective.word_of_ofWord? hw
          rw [kinds_join]
          -- the first side that is damaged stops the reading
          cases hwl : l.isWellFormed with
          | false => exact ((ihl hl hwl).side _).left c _
          | true =>
              have hwr : r.isWellFormed = false := by simpa [isWellFormed, hw, hwl] using h
              exact .right ((completes_kinds hwl).side _) ((ihr hr hwr).side _) c
  | hole | foreign => exact stalls_nil

/-- A text that falls into tokens is compiled, or refused with a fault that is not lexical. -/
theorem compile_ends {text : Text} {ts : List Token} (hl : Layout 0 text ts) :
    (∃ t, compile text = .ok t) ∨
      ∃ f, compile text = .error (.fault f) ∧ f.cause.family ≠ .lexical := by
  have hcompile : compile text = parseTokens (ts ++ [.finishAt text.length]) := by
    simp only [compile, tokenize_eq_ok_iff.mpr ⟨ts, hl, rfl⟩]
  rw [hcompile, parseTokens]
  cases (Assembly.sound_ofTokens (ts ++ [.finishAt text.length])).parse_ends with
  | done t s hs => exact .inl ⟨t, by rw [hs]⟩
  | refused f s hs hf => exact .inr ⟨f, by rw [hs], hf⟩

/-- A damaged tree whose comparisons can all be written down is printed as a text that falls into
tokens and is refused. -/
theorem compile_text_of_damaged {t : Tree} (ht : t.IsWritable) (h : t.isWellFormed = false) :
    ∃ f, compile t.text = .error (.fault f) ∧ f.cause.family ≠ .lexical := by
  obtain ⟨ts, hl, hk⟩ := ht.exists_layout
  have hstalls : Stalls (ts.map (·.kind)) := by
    rw [hk]
    exact Tree.stalls_kinds (fun c hc => (ht c hc).1) h
  rcases compile_ends hl with ⟨u, hu⟩ | hfault
  · obtain ⟨us, hl', hd⟩ := compile_eq_ok_iff.mp hu
    have hsame := (tokenize_eq_ok_iff.mpr ⟨us, hl', rfl⟩).symm.trans
      (tokenize_eq_ok_iff.mpr ⟨ts, hl, rfl⟩)
    obtain rfl := List.append_cancel_right (Except.ok.inj hsame)
    exact absurd hd.completes hstalls.not_completes
  · exact hfault

theorem compile_text_of_unknown_connective :
    (Tree.join "OR" (.leaf ⟨"a", "=", "1"⟩)
        (.join "AND" (.join "XOR" (.leaf ⟨"b", ">", "'x y'"⟩) .hole) .foreign)).IsWritable ∧
      ∃ f, compile "a = 1 OR () AND " = .error (.fault f) ∧ f.cause.family ≠ .lexical := by
  have ht : (Tree.join "OR" (.leaf ⟨"a", "=", "1"⟩) (.join "AND"
      (.join "XOR" (.leaf ⟨"b", ">", "'x y'"⟩) .hole) .foreign)).IsWritable := by
    intro c hc
    simp only [Tree.comparisons, List.append_nil, List.singleton_append, List.mem_cons,
      List.not_mem_nil, or_false] at hc
    rcases hc with rfl | rfl
    · exact ⟨by decide, ⟨by decide +kernel, by decide⟩, ⟨by decide +kernel, by decide⟩⟩
    · exact ⟨by decide, ⟨by decide +kernel, by decide⟩, ⟨by decide +kernel, by decide⟩⟩
  exact ⟨ht, compile_text_of_damaged ht (by decide)⟩

end Rulebook
