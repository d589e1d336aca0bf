import Mathlib.Data.List.TakeWhile
import Rulebook.Http.Content

/-!
Plain texts: those in which no half of a surrogate pair stands alone. They have bytes, and they are
the texts of strings.
-/

namespace Rulebook.Text

def IsPlain (t : Text) : Prop := ∀ p ∈ t, p.isHalf = false

section
variable {t u : Text}

theorem isPlain_nil : IsPlain [] := nofun

theorem ofString_injective {a b : String} (h : ofString a = ofString b) : a = b :=
  Option.some.inj ((toString?_ofString a).symm.trans
    ((congrArg toString? h).trans (toString?_ofString b)))

theorem ofString_append (s t : String) : ofString (s ++ t) = ofString s ++ ofString t := by
  simp [ofString, ofChars]

theorem eq_ofString_of_toString? {s : String} (h : toString? t = some s) : t = ofString s := by
  obtain ⟨cs, hcs, rfl⟩ := Option.map_eq_some_iff.mp h
  rw [ofString, String.toList_ofList]
  clear h
  induction t generalizing cs with
  | nil =>
      obtain rfl := Option.some.inj hcs
      rfl
  | cons p t ih =>
      rw [List.mapM_cons] at hcs
      obtain ⟨c, hc, hcs⟩ := Option.bind_eq_some_iff.mp hcs
      obtain ⟨cs', hcs', he⟩ := Option.bind_eq_some_iff.mp hcs
      obtain rfl := Option.some.inj he
      cases p with
      | half index => cases hc
      | char c' =>
          obtain rfl := Option.some.inj hc
          exact congrArg _ (ih cs' hcs')

theorem isPlain_ofChars (cs : List Char) : IsPlain (ofChars cs) := by
  intro p hp
  obtain ⟨c, -, rfl⟩ := List.mem_map.mp hp
  rfl

theorem isPlain_ofString (s : String) : IsPlain (ofString s) := isPlain_ofChars _

theorem IsPlain.append (ht : IsPlain t) (hu : IsPlain u) : IsPlain (t ++ u) := by
  intro p hp
  rcases List.mem_append.mp hp with hp | hp
  · exact ht p hp
  · exact hu p hp

theorem IsPlain.cons (c : Char) (ht : IsPlain t) : IsPlain (.char c :: t) :=
  List.forall_mem_cons.mpr ⟨rfl, ht⟩

/-- Parts of a plain text are plain. -/
theorem IsPlain.of_infix (ht : IsPlain t) (h : u <:+: t) : IsPlain u :=
  fun p hp => ht p (h.subset hp)

theorem IsPlain.drop (ht : IsPlain t) (n : Nat) : IsPlain (t.drop n) :=
  fun p hp => ht p (List.mem_of_mem_drop hp)

theorem IsPlain.take (ht : IsPlain t) (n : Nat) : IsPlain (t.take n) :=
  fun p hp => ht p (List.mem_of_mem_take hp)

theorem isPlain_flatMap {α : Type} {l : List α} {f : α → Text} (h : ∀ a ∈ l, IsPlain (f a)) :
    IsPlain (l.flatMap f) := by
  intro p hp
  obtain ⟨a, ha, hp⟩ := List.mem_flatMap.mp hp
  exact h a ha p hp

theorem IsPlain.joined (ht : IsPlain t) {ts : List Text} (h : ∀ u ∈ ts, IsPlain u) :
    IsPlain (joined t ts) := by
  induction ts with
  | nil => exact isPlain_nil
  | cons u rest ih =>
      obtain ⟨hu, hrest⟩ := List.forall_mem_cons.mp h
      cases rest with
      | nil => exact hu
      | cons v rest => exact (hu.append ht).append (ih hrest)

/-- A plain text is the text of its string. -/
theorem IsPlain.ofString_toString (h : IsPlain t) : ofString (toString t) = t := by
  induction t with
  | nil => rfl
  | cons p t ih =>
      obtain ⟨hp, ht⟩ := List.forall_mem_cons.mp h
      cases p with
      | half index => cases hp
      | char c => simpa [ofString, toString, ofChars, CodePoint.toChar?] using ih ht

/-- A text can be written in a form if all its code points have bytes there. -/
theorem unwritable?_eq_none_iff (form : ByteForm) :
    Text.unwritable? form t = none ↔ ∀ p ∈ t, form.writes p = true := by
  rw [← List.dropWhile_eq_nil_iff, Text.unwritable?]
  cases hrest : t.dropWhile form.writes with
  | nil => simp
  | cons p rest =>
      have hp : form.writes p = false := by
        have hhead := List.head?_dropWhile_not form.writes t
        rw [hrest] at hhead
        simpa using hhead
      simp [hp]

/-- A plain text has bytes. -/
theorem IsPlain.unwritable? (h : IsPlain t) : unwritable? .utf8 t = none :=
  (unwritable?_eq_none_iff .utf8).mpr fun p hp => by simp [ByteForm.writes, h p hp]

theorem isPlain_of_unwritable? (h : Text.unwritable? .utf8 t = none) : IsPlain t := by
  intro p hp
  simpa [ByteForm.writes] using (unwritable?_eq_none_iff .utf8).mp h p hp

end

theorem isPlain_ofInt (n : Int) : IsPlain (ofInt n) := by
  unfold ofInt
  split
  · exact .cons _ (isPlain_ofChars _)
  · exact isPlain_ofChars _

theorem exists_digit_of_mem {width n : Nat} {p : CodePoint} (h : p ∈ hexDigits width n) :
    ∃ d < 16, p = .char (Nat.digitChar d) := by
  induction width generalizing n with
  | zero => cases h
  | succ width ih =>
      rcases List.mem_append.mp h with h | h
      · exact ih h
      · exact ⟨n % 16, Nat.mod_lt n (by decide), List.mem_singleton.mp h⟩

theorem isPlain_hexDigits (width n : Nat) : IsPlain (hexDigits width n) := by
  intro p hp
  obtain ⟨d, -, rfl⟩ := exists_digit_of_mem hp
  rfl

theorem isPlain_unitEscape (n : Nat) : IsPlain (Json.unitEscape n) :=
  .cons _ (.cons _ (isPlain_hexDigits 4 n))

/-- A plain text is written as a plain one. -/
theorem IsPlain.writtenText {t : Text} (h : IsPlain t) (inAscii : Bool) :
    IsPlain (Json.writtenText inAscii t) := by
  have hchar : ∀ p ∈ t, IsPlain (Json.writtenChar inAscii p) := by
    intro p hp
    have hone : IsPlain [p] := List.forall_mem_singleton.mpr (h p hp)
    unfold Json.writtenChar
    repeat' split
    · exact .cons _ hone
    · exact .cons _ (.cons _ isPlain_nil)
    · exact .cons _ (.cons _ isPlain_nil)
    · exact .cons _ (.cons _ isPlain_nil)
    · exact .cons _ (.cons _ isPlain_nil)
    · exact .cons _ (.cons _ isPlain_nil)
    · exact hone
    · exact isPlain_flatMap fun n _ => isPlain_unitEscape n
  exact .append (.cons _ (isPlain_flatMap hchar)) (.cons _ isPlain_nil)

end Rulebook.Text
