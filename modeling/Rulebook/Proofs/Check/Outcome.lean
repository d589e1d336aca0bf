import Rulebook.Check.Field
import Rulebook.Proofs.Text.Plain

/-!
Checks that come out good. A check of several parts is good only if each part is, and a value that
passes a check of a text is that text.
-/

namespace Rulebook

variable {α β γ : Type} {entries : List (Value × Value)} {text : Text} {v : Value}

theorem Checked.exists_map_eq_good {f : α → β} {a : Checked α} {P : β → Prop} :
    (∃ b, f <$> a = .good b ∧ P b) ↔ ∃ x, a = .good x ∧ P (f x) := by
  constructor
  · rintro ⟨b, h, hb⟩
    cases a with
    | bad problems => cases h
    | good x =>
        cases h
        exact ⟨x, rfl, hb⟩
  · rintro ⟨x, rfl, hx⟩
    exact ⟨f x, rfl, hx⟩

/-- A chain of checks is good if all of them are; the first stands in front. -/
theorem Checked.exists_seq_eq_good {f : Checked (α → β)} {a : Checked α} {P : β → Prop} :
    (∃ b, f <*> a = .good b ∧ P b) ↔ ∃ g, f = .good g ∧ ∃ x, a = .good x ∧ P (g x) := by
  constructor
  · rintro ⟨b, h, hb⟩
    cases f with
    | bad problems => cases a <;> cases h
    | good g =>
        cases a with
        | bad problems => cases h
        | good x =>
            cases h
            exact ⟨g, rfl, x, rfl, hb⟩
  · rintro ⟨g, rfl, x, rfl, hx⟩
    exact ⟨g x, rfl, hx⟩

theorem Checked.under_eq_good {step : PathStep} {c : Checked α} {a : α}
    (h : c.under step = .good a) : c = .good a := by
  cases c with
  | good b => exact h
  | bad problems => cases h

theorem Checked.apply_eq_good {f : α → β → γ} {a : Checked α} {b : Checked β} {c : γ}
    (h : f <$> a <*> b = .good c) : ∃ x y, a = .good x ∧ b = .good y ∧ c = f x y := by
  have hparts : ∃ c', f <$> a <*> b = .good c' ∧ c' = c := ⟨c, h, rfl⟩
  simp only [exists_seq_eq_good, exists_map_eq_good] at hparts
  obtain ⟨x, hx, y, hy, rfl⟩ := hparts
  exact ⟨x, y, hx, hy, rfl⟩

theorem Check.requiredMember_eq_good {name : String} {check : Value → Checked α} {a : α}
    (h : requiredMember name entries check = .good a) :
    ∃ v, Value.lookup name entries = some v ∧ check v = .good a := by
  unfold requiredMember at h
  split at h
  · cases h
  · exact ⟨_, by assumption, Checked.under_eq_good h⟩

theorem Checked.andThen_eq_good {c : Checked α} {next : α → Checked β} {b : β}
    (h : c.andThen next = .good b) : ∃ a, c = .good a ∧ next a = .good b := by
  cases c with
  | good a => exact ⟨a, rfl, h⟩
  | bad problems => cases h

theorem Check.optionalMember_eq_good {name : String} {default a : α} {check : Value → Checked α}
    (h : optionalMember name entries default check = .good a) :
    Value.lookup name entries = none ∧ a = default ∨
      ∃ v, Value.lookup name entries = some v ∧ check v = .good a := by
  unfold optionalMember optional at h
  split at h
  · exact .inl ⟨by assumption, (Checked.good.inj h).symm⟩
  · exact .inr ⟨_, by assumption, Checked.under_eq_good h⟩

theorem Check.text_eq_good (h : Check.text v = .good text) : v = .text text := by
  cases v with
  | text s => rw [Checked.good.inj h]
  | _ => cases h

theorem Check.string_eq_good {s : String} (h : Check.string v = .good s) : v = .ofString s := by
  obtain ⟨t, ht, hs⟩ := Checked.andThen_eq_good h
  obtain rfl := Check.text_eq_good ht
  split at hs
  · rename_i s' hread
    obtain rfl := Checked.good.inj hs
    rw [Value.ofString, Text.eq_ofString_of_toString? hread]
  · cases hs

theorem Check.boundedString_eq_good {least most : Nat} {s : String}
    (h : boundedString least most v = .good s) :
    v = .ofString s ∧ least ≤ s.length ∧ s.length ≤ most := by
  obtain ⟨s', hs', hbounds⟩ := Checked.andThen_eq_good h
  split at hbounds
  · cases hbounds
  · split at hbounds
    · cases hbounds
    · obtain rfl := Checked.good.inj hbounds
      exact ⟨Check.string_eq_good hs', by omega, by omega⟩

theorem Checked.items_text_eq_good {start : Nat} {items : List Value} {ts : List Text}
    (h : Checked.items Check.text start items = .good ts) : items = ts.map Value.text := by
  induction items generalizing start ts with
  | nil =>
      cases h
      rfl
  | cons v items ih =>
      obtain ⟨t, us, ht, hus, rfl⟩ := Checked.apply_eq_good (f := List.cons) h
      rw [Check.text_eq_good (Checked.under_eq_good ht), ih hus, List.map_cons]

theorem Check.textList_eq_good {ts : List Text} (h : textList v = .good ts) :
    v = .list (ts.map Value.text) := by
  cases v with
  | list items => rw [Checked.items_text_eq_good h]
  | _ => cases h

end Rulebook
