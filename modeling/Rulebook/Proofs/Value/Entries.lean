import Rulebook.Value.Basic

/-!
The entries of a dictionary. A text names one entry: what is put under it is found there, and what
stands under other texts is left as it was.
-/

namespace Rulebook.Value

variable {name other : Text} {entries : List (Value × Value)} {v : Value}

theorem mem_of_lookup {name : Text} (h : lookup name entries = some v) :
    (.text name, v) ∈ entries := by
  induction entries with
  | nil => cases h
  | cons e entries ih =>
      obtain ⟨k, w⟩ := e
      cases k with
      | text s =>
          rw [lookup] at h
          split at h
          · rename_i hs
            obtain rfl := eq_of_beq hs
            obtain rfl := Option.some.inj h
            exact .head _
          · exact .tail _ (ih h)
      | _ => exact .tail _ (ih h)

theorem sameKey_text (k : Value) (name : Text) :
    sameKey k (.text name) = true ↔ k = .text name := by
  cases k with
  | text s => simp [sameKey]
  | real x => cases x <;> simp [sameKey, keyNumber?]
  | _ => simp [sameKey, keyNumber?]

theorem lookup_put_self : lookup name (put (.text name) v entries) = some v := by
  induction entries with
  | nil => simp [put, lookup]
  | cons e rest ih =>
      obtain ⟨k, u⟩ := e
      rw [put]
      split
      · rename_i hk
        obtain rfl := (sameKey_text k name).mp hk
        simp [lookup]
      · rename_i hk
        rw [sameKey_text] at hk
        cases k with
        | text s =>
            have hs : s ≠ name := fun he => hk (by rw [he])
            rw [lookup, if_neg (by simpa using hs)]
            exact ih
        | _ => exact ih

theorem lookup_put_of_ne (h : other ≠ name) :
    lookup other (put (.text name) v entries) = lookup other entries := by
  induction entries with
  | nil => simp [put, lookup, h.symm]
  | cons e rest ih =>
      obtain ⟨k, u⟩ := e
      rw [put]
      split
      · rename_i hk
        obtain rfl := (sameKey_text k name).mp hk
        have hne : (name == other) = false := by simpa using h.symm
        simp [lookup, hne]
      · cases k with
        | text s =>
            rw [lookup, lookup]
            split
            · rfl
            · exact ih
        | _ => exact ih

end Rulebook.Value
