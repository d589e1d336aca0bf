import Mathlib.Data.List.Find
import Rulebook.Json.Reader

/-!
How numbers, names and texts end. What is read of them does not depend on a mark that stands behind
them.
-/

namespace Rulebook.Json

/-- A text that no value before it goes on into: it is empty, or a mark begins it. -/
def IsStop (u : Text) : Prop := ∀ p ∈ u.head?, p = .char ',' ∨ p = .char '\x7d'

/-- A part that was read, with a text behind what is left. -/
def leaving {α : Type} (u : Text) (p : α × Text) : α × Text := (p.1, p.2 ++ u)

section
variable {p : CodePoint} {t u rest : Text}

theorem IsStop.head?_append_ne (hu : IsStop u) {c : Char} (hc : c ≠ ',' ∧ c ≠ '\x7d')
    (h : t.head? ≠ some (.char c)) : (t ++ u).head? ≠ some (.char c) := by
  rcases t with _ | ⟨p, t⟩
  · intro hhead
    rcases hu _ hhead with he | he
    · exact hc.1 (CodePoint.char.inj he)
    · exact hc.2 (CodePoint.char.inj he)
  · exact h

theorem skip_append (h : skip t ≠ []) : skip (t ++ u) = skip t ++ u := by
  unfold skip at h ⊢
  rw [List.dropWhile_append, if_neg (by simpa using h)]

theorem skip_append_of_cons {more : Text} (h : skip t = p :: more) :
    skip (t ++ u) = p :: (more ++ u) := by
  rw [skip_append (by rw [h]; exact List.cons_ne_nil _ _), h, List.cons_append]

theorem takeWhile_append_stop (f : CodePoint → Bool) (hu : ∀ p ∈ u.head?, f p = false) :
    (t ++ u).takeWhile f = t.takeWhile f ∧ (t ++ u).dropWhile f = t.dropWhile f ++ u := by
  induction t with
  | nil =>
      cases u with
      | nil => exact ⟨rfl, rfl⟩
      | cons p u =>
          have hp : f p = false := hu p rfl
          simp [hp]
  | cons p t ih =>
      cases hp : f p with
      | true => simp [hp, ih.1, ih.2]
      | false => simp [hp]

theorem IsStop.not_digit (hu : IsStop u) : ∀ p ∈ u.head?, p.isDigit = false := by
  intro p hp
  rcases hu p hp with rfl | rfl <;> rfl

theorem splitDigits_append (hu : IsStop u) : splitDigits (t ++ u) = leaving u (splitDigits t) := by
  obtain ⟨htake, hdrop⟩ := takeWhile_append_stop (t := t) CodePoint.isDigit hu.not_digit
  rw [splitDigits, htake, hdrop]
  rfl

theorem splitWhole_of_head?_ne (h : t.head? ≠ some (.char '0')) : splitWhole t = splitDigits t := by
  unfold splitWhole
  split
  · exact absurd rfl h
  · rfl

theorem splitWhole_append (hu : IsStop u) : splitWhole (t ++ u) = leaving u (splitWhole t) := by
  by_cases h : t.head? = some (.char '0')
  · obtain ⟨rest, rfl⟩ := List.head?_eq_some_iff.mp h
    rfl
  · rw [splitWhole_of_head?_ne h, splitWhole_of_head?_ne (hu.head?_append_ne (by decide) h),
      splitDigits_append hu]

theorem splitFraction_of_head?_ne (h : t.head? ≠ some (.char '.')) : splitFraction t = ([], t) := by
  unfold splitFraction
  split
  · exact absurd rfl h
  · rfl

theorem splitFraction_append (hu : IsStop u) :
    splitFraction (t ++ u) = leaving u (splitFraction t) := by
  by_cases h : t.head? = some (.char '.')
  · obtain ⟨rest, rfl⟩ := List.head?_eq_some_iff.mp h
    rw [List.cons_append, splitFraction, splitFraction, splitDigits_append hu]
    by_cases hempty : (splitDigits rest).1.isEmpty <;> simp [leaving, hempty]
  · rw [splitFraction_of_head?_ne h, splitFraction_of_head?_ne (hu.head?_append_ne (by decide) h)]
    rfl

/-- Splits off the sign of an exponent, if there is one. -/
def splitSign : Text → Text × Text
  | .char '+' :: more => (['+'], more)
  | .char '-' :: more => (['-'], more)
  | t => ([], t)

theorem splitSign_of_head?_ne (hplus : t.head? ≠ some (.char '+'))
    (hminus : t.head? ≠ some (.char '-')) : splitSign t = ([], t) := by
  unfold splitSign
  split
  · exact absurd rfl hplus
  · exact absurd rfl hminus
  · rfl

theorem splitSign_append (hu : IsStop u) : splitSign (t ++ u) = leaving u (splitSign t) := by
  by_cases hplus : t.head? = some (.char '+')
  · obtain ⟨rest, rfl⟩ := List.head?_eq_some_iff.mp hplus
    rfl
  by_cases hminus : t.head? = some (.char '-')
  · obtain ⟨rest, rfl⟩ := List.head?_eq_some_iff.mp hminus
    rfl
  · rw [splitSign_of_head?_ne hplus hminus, splitSign_of_head?_ne
      (hu.head?_append_ne (by decide) hplus) (hu.head?_append_ne (by decide) hminus)]
    rfl

theorem splitExponent_cons (e : CodePoint) (rest : Text) : splitExponent (e :: rest) =
    if e == 'e' || e == 'E' then
      if (splitDigits (splitSign rest).2).1.isEmpty then ([], e :: rest)
      else (e :: (splitSign rest).1 ++ (splitDigits (splitSign rest).2).1,
        (splitDigits (splitSign rest).2).2)
    else ([], e :: rest) := by
  unfold splitExponent splitSign
  dsimp only
  split <;> rfl

theorem splitExponent_append (hu : IsStop u) :
    splitExponent (t ++ u) = leaving u (splitExponent t) := by
  rcases t with _ | ⟨e, rest⟩
  · rcases u with _ | ⟨p, u⟩
    · rfl
    · rcases hu p rfl with rfl | rfl <;> rfl
  · rw [List.cons_append, splitExponent_cons, splitExponent_cons, splitSign_append hu]
    simp only [leaving, splitDigits_append hu]
    cases e == 'e' || e == 'E' with
    | false => rfl
    | true => cases (splitDigits (splitSign rest).2).1.isEmpty <;> rfl

theorem readMagnitude_append (hu : IsStop u) (bounds : ReadBounds) (negative : Bool) :
    readMagnitude bounds negative (t ++ u) =
      (readMagnitude bounds negative t).map (leaving u) := by
  unfold readMagnitude
  simp only [splitWhole_append hu, splitFraction_append hu, splitExponent_append hu, leaving]
  split
  · rfl
  split
  · split <;> rfl
  · split <;> rfl

theorem readNumber_of_head?_ne (h : t.head? ≠ some (.char '-')) (bounds : ReadBounds) :
    readNumber bounds t = readMagnitude bounds false t := by
  unfold readNumber
  split
  · exact absurd rfl h
  · rfl

theorem readNumber_append (hu : IsStop u) (bounds : ReadBounds) :
    readNumber bounds (t ++ u) = (readNumber bounds t).map (leaving u) := by
  by_cases h : t.head? = some (.char '-')
  · obtain ⟨rest, rfl⟩ := List.head?_eq_some_iff.mp h
    exact readMagnitude_append hu bounds true
  · rw [readNumber_of_head?_ne h, readNumber_of_head?_ne (hu.head?_append_ne (by decide) h),
      readMagnitude_append hu]

theorem startsWith_append {name : Text} (h : ∀ p ∈ u.head?, p ∉ name) :
    Text.startsWith name (t ++ u) = Text.startsWith name t := by
  unfold Text.startsWith
  induction name generalizing t with
  | nil => rfl
  | cons c name ih =>
      have hname : ∀ p ∈ u.head?, p ∉ name := fun p hp hmem => h p hp (.tail _ hmem)
      rcases t with _ | ⟨p, t⟩
      · rcases u with _ | ⟨p, u⟩
        · rfl
        · have hne : c ≠ p := fun he => h p rfl (he ▸ .head _)
          simp [List.isPrefixOf, hne]
      · simp only [List.cons_append, List.isPrefixOf, ih hname]

theorem readScalar_append (hu : IsStop u) (bounds : ReadBounds) :
    readScalar bounds (t ++ u) = (readScalar bounds t).map (leaving u) := by
  have hmarks : ∀ entry ∈ names, CodePoint.char ',' ∉ entry.1 ∧ CodePoint.char '}' ∉ entry.1 := by
    decide
  have hfind : names.find? (fun entry => Text.startsWith entry.1 (t ++ u)) =
      names.find? (fun entry => Text.startsWith entry.1 t) := by
    refine List.find?_congr fun entry hentry => startsWith_append fun p hp => ?_
    rcases hu p hp with rfl | rfl
    · exact (hmarks entry hentry).1
    · exact (hmarks entry hentry).2
  unfold readScalar
  rw [hfind]
  split
  · rename_i name v hname
    have hstart := List.find?_some hname
    have hle : name.length ≤ t.length := (List.isPrefixOf_iff_prefix.mp hstart).length_le
    rw [List.drop_append_of_le_length hle]
    rfl
  · exact readNumber_append hu bounds

theorem readScalar_congr {bounds bounds' : ReadBounds} (h : bounds.digits = bounds'.digits)
    (t : Text) : readScalar bounds t = readScalar bounds' t := by
  simp only [readScalar, readNumber, readMagnitude, h]

theorem readParts_escape {c e : CodePoint} (h : simpleEscape? c = some e) :
    readParts (.char '\\' :: c :: t) = (readParts t).map fun r => (.plain e :: r.1, r.2) := by
  have hne : c ≠ .char 'u' := by
    rintro rfl
    cases h
  rw [readParts, h]
  exact fun _ _ _ _ _ he => absurd he hne

theorem readParts_plain {c : CodePoint} (hquote : c ≠ .char '\x22') (hslash : c ≠ .char '\\')
    (hcontrol : ¬ c.toNat < 32) :
    readParts (c :: t) = (readParts t).map fun r => (.plain c :: r.1, r.2) := by
  rw [readParts]
  · rw [if_neg (by simpa [hcontrol] using hslash)]
  · exact hquote
  · exact fun _ _ _ _ _ he => absurd he hslash
  · exact fun _ _ he => absurd he hslash

theorem map_readParts_append {part : TextPart} {parts : List TextPart}
    (ih : ∀ {rest parts}, readParts t = some (parts, rest) →
      readParts (t ++ u) = some (parts, rest ++ u))
    (h : (readParts t).map (fun r => (part :: r.1, r.2)) = some (parts, rest)) :
    (readParts (t ++ u)).map (fun r => (part :: r.1, r.2)) = some (parts, rest ++ u) := by
  obtain ⟨⟨parts', rest'⟩, hr, he⟩ := Option.map_eq_some_iff.mp h
  obtain ⟨rfl, rfl⟩ := Prod.mk.inj he
  rw [ih hr]
  rfl

/-- What follows the closing mark of a text does not matter. -/
theorem readParts_append {parts : List TextPart} (h : readParts t = some (parts, rest)) :
    readParts (t ++ u) = some (parts, rest ++ u) := by
  fun_induction readParts t generalizing parts rest with
  | case1 => cases h
  | case2 more =>
      cases h
      rfl
  | case3 a b c d more hhex => cases h
  | case4 a b c d more n hhex ih =>
      simp only [List.cons_append, readParts, hhex]
      exact map_readParts_append ih h
  | case5 c more hunit hsimple => cases h
  | case6 c more hunit e hsimple ih =>
      rw [List.cons_append, List.cons_append, readParts_escape hsimple]
      exact map_readParts_append ih h
  | case7 c more hquote hunit hslash hcontrol => cases h
  | case8 c more hquote hunit hslash hplain ih =>
      simp only [Bool.or_eq_true, decide_eq_true_eq, beq_iff_eq, not_or] at hplain
      rw [List.cons_append, readParts_plain hquote hplain.2 hplain.1]
      exact map_readParts_append ih h

end

end Rulebook.Json
