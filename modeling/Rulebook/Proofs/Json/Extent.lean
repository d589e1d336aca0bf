import Rulebook.Proofs.Json.Reading
import Rulebook.Proofs.Text.Cutting

/-!
How much text a value takes up. A text that is read has all its ink in the JSON text, besides the
marks around it, and so have the texts of a list with the commas between them.
-/

namespace Rulebook

open Text (ink)

mutual

/-- The ink that the JSON text of a value has at least, as far as it comes from texts and lists. -/
def Value.extent : Value → Nat
  | .text s => ink s + 2
  | .list items => itemsExtent items + 1
  | _ => 0

/-- The ink of items, each with the comma or the bracket that follows it. -/
def Value.itemsExtent : List Value → Nat
  | [] => 0
  | v :: rest => extent v + 1 + itemsExtent rest

end

namespace Json

/-- The ink that a part of a text has at most. -/
def TextPart.ink : TextPart → Nat
  | .plain p => Text.ink [p]
  | .unit _ => 1

/-- What is read from a text and what is left of the text have no more ink than it. -/
def Takes {α : Type} (size : α → Nat) (t : Text) (r : Except ReadFailure (α × Text)) : Prop :=
  ∀ a rest, r = .ok (a, rest) → size a + ink rest ≤ ink t

section
variable {α β : Type} {size : α → Nat} {t rest : Text} {r : Except ReadFailure (α × Text)}

theorem takes_error (failure : ReadFailure) : Takes size t (.error failure) := nofun

theorem takes_ok {a : α} (h : size a + ink rest ≤ ink t) : Takes size t (.ok (a, rest)) := by
  intro a' rest' he
  cases he
  exact h

theorem Takes.bind {size' : β → Nat} {t' : Text} {f : α × Text → Except ReadFailure (β × Text)}
    (h : Takes size t r)
    (hf : ∀ a rest, size a + ink rest ≤ ink t → Takes size' t' (f (a, rest))) :
    Takes size' t' (r >>= f) := by
  cases r with
  | error failure => exact takes_error failure
  | ok p => exact hf p.1 p.2 (h p.1 p.2 rfl)

end

section
variable {t rest : Text} {parts : List TextPart}

theorem ink_skip_le (t : Text) : ink (skip t) ≤ ink t :=
  Text.ink_le_of_sublist (List.dropWhile_sublist _)

/-- The joined text has no more ink than its parts: two units may be one character. -/
theorem ink_joinParts_le (parts : List TextPart) :
    ink (joinParts parts) ≤ (parts.map TextPart.ink).sum := by
  fun_induction joinParts parts with
  | case1 => exact Nat.le_refl _
  | case2 p rest ih =>
      rw [Text.ink_cons, List.map_cons, List.sum_cons, TextPart.ink]
      omega
  | case3 n => exact Text.ink_singleton_le _
  | case4 n p rest ih =>
      have hunit := Text.ink_singleton_le (.ofNat n)
      rw [Text.ink_cons, Text.ink_cons p]
      simp only [List.map_cons, List.sum_cons, TextPart.ink]
      omega
  | case5 n m rest hpair ih =>
      have hunit := Text.ink_singleton_le (.char (Text.joinSurrogates n m))
      rw [Text.ink_cons]
      simp only [List.map_cons, List.sum_cons, TextPart.ink]
      omega
  | case6 n m rest hpair ih =>
      have hunit := Text.ink_singleton_le (.ofNat n)
      rw [Text.ink_cons]
      simp only [List.map_cons, List.sum_cons, TextPart.ink] at ih ⊢
      omega

theorem ink_readParts_cons {part : TextPart} {more : Text}
    (h : (readParts more).map (fun r => (part :: r.1, r.2)) = some (parts, rest))
    (ih : ∀ {parts rest}, readParts more = some (parts, rest) →
      (parts.map TextPart.ink).sum + 1 + ink rest ≤ ink more)
    (hpart : part.ink + ink more ≤ ink t) :
    (parts.map TextPart.ink).sum + 1 + ink rest ≤ ink t := by
  obtain ⟨⟨parts', rest'⟩, hread, he⟩ := Option.map_eq_some_iff.mp h
  obtain ⟨rfl, rfl⟩ := Prod.mk.inj he
  have hmore := ih hread
  dsimp only
  rw [List.map_cons, List.sum_cons]
  omega

/-- The closing mark has ink too. -/
theorem ink_readParts_le (h : readParts t = some (parts, rest)) :
    (parts.map TextPart.ink).sum + 1 + ink rest ≤ ink t := by
  have hslash : Text.isBlank (.char '\\') = false := by decide
  fun_induction readParts t generalizing parts rest with
  | case1 => cases h
  | case2 more =>
      cases h
      have hquote : Text.isBlank (.char '\x22') = false := by decide
      rw [Text.ink_cons_of_not_blank hquote, List.map_nil, List.sum_nil]
      omega
  | case3 a b c d more hhex => cases h
  | case4 a b c d more n hhex ih =>
      refine ink_readParts_cons h ih ?_
      have hmore : ink more ≤ ink (.char 'u' :: a :: b :: c :: d :: more) :=
        Text.ink_le_of_sublist (List.suffix_append [CodePoint.char 'u', a, b, c, d] more).sublist
      rw [Text.ink_cons_of_not_blank hslash, TextPart.ink]
      omega
  | case5 c more hunit hsimple => cases h
  | case6 c more hunit e hsimple ih =>
      refine ink_readParts_cons h ih ?_
      have hmore : ink more ≤ ink (c :: more) :=
        Text.ink_le_of_sublist (List.sublist_cons_self c more)
      have hone := Text.ink_singleton_le e
      rw [Text.ink_cons_of_not_blank hslash, TextPart.ink]
      omega
  | case7 c more hquote hunit hsimple hcontrol => cases h
  | case8 c more hquote hunit hsimple hplain ih =>
      refine ink_readParts_cons h ih ?_
      rw [Text.ink_cons c more, TextPart.ink]
      omega

theorem takes_readText (t : Text) : Takes (fun s => ink s + 1) t (readText t) := by
  intro s rest h
  unfold readText at h
  split at h
  · rename_i parts more hread
    cases h
    have hparts := ink_readParts_le hread
    have hjoin := ink_joinParts_le parts
    dsimp only
    omega
  · cases h

end

section
variable {t : Text}

theorem splitDigits_suffix (t : Text) : (splitDigits t).2 <:+ t := List.dropWhile_suffix _

theorem splitWhole_suffix (t : Text) : (splitWhole t).2 <:+ t := by
  unfold splitWhole
  split
  · exact List.suffix_cons _ _
  · exact splitDigits_suffix t

theorem splitFraction_suffix (t : Text) : (splitFraction t).2 <:+ t := by
  unfold splitFraction
  split
  · dsimp only
    split
    · exact List.suffix_refl _
    · exact (splitDigits_suffix _).trans (List.suffix_cons _ _)
  · exact List.suffix_refl t

theorem splitSign_suffix (t : Text) : (splitSign t).2 <:+ t := by
  unfold splitSign
  split
  · exact List.suffix_cons _ _
  · exact List.suffix_cons _ _
  · exact List.suffix_refl t

theorem splitExponent_suffix (t : Text) : (splitExponent t).2 <:+ t := by
  cases t with
  | nil => exact List.suffix_refl _
  | cons e rest =>
      rw [splitExponent_cons]
      split
      · split
        · exact List.suffix_refl _
        · exact ((splitDigits_suffix _).trans (splitSign_suffix rest)).trans (List.suffix_cons _ _)
      · exact List.suffix_refl _

/-- Numbers and names have no extent of their own. -/
theorem takes_readMagnitude (bounds : ReadBounds) (negative : Bool) (t : Text) :
    Takes Value.extent t (readMagnitude bounds negative t) := by
  have hrest : ink (splitExponent (splitFraction (splitWhole t).2).2).2 ≤ ink t :=
    Text.ink_le_of_sublist (((splitExponent_suffix _).trans (splitFraction_suffix _)).trans
      (splitWhole_suffix t)).sublist
  unfold readMagnitude
  dsimp only
  split
  · exact takes_error _
  · split
    · split
      · exact takes_error _
      · exact takes_ok (by simpa only [Value.extent, Nat.zero_add] using hrest)
    · split
      · exact takes_ok (by simpa only [Value.extent, Nat.zero_add] using hrest)
      · exact takes_error _

theorem takes_readScalar (bounds : ReadBounds) (t : Text) :
    Takes Value.extent t (readScalar bounds t) := by
  unfold readScalar
  split
  · rename_i name v hname
    have hextent : ∀ entry ∈ names, entry.2.extent = 0 := by decide
    apply takes_ok
    rw [hextent _ (List.mem_of_find?_eq_some hname), Nat.zero_add]
    exact Text.ink_le_of_sublist (List.drop_sublist _ _)
  · unfold readNumber
    split
    · intro v more hread
      rw [Text.ink_cons]
      exact Nat.le_add_right_of_le (takes_readMagnitude bounds true _ v more hread)
    · exact takes_readMagnitude bounds false t

end

section
variable {α : Type} {sizes : List α → Nat}
  {parts : Text → Except ReadFailure (List α × Text)} {close : Char} {t rest : Text}

/-- Each part of a container has a comma or the closing mark behind it. -/
theorem takes_afterPart (size : α → Nat) (hnil : sizes [] = 0)
    (hcons : ∀ a as, sizes (a :: as) = size a + 1 + sizes as)
    (hclose : Text.isBlank (.char close) = false) (hparts : ∀ t, Takes sizes t (parts t)) (a : α)
    (h : size a + ink rest ≤ ink t) : Takes sizes t (afterPart close parts a rest) := by
  have hskip := ink_skip_le rest
  unfold afterPart
  split
  · rename_i hhead
    obtain ⟨more, hmore⟩ := List.head?_eq_some_iff.mp hhead
    rw [hmore, Text.ink_cons_of_not_blank hclose] at hskip
    rw [hmore]
    apply takes_ok
    rw [hcons, hnil, List.tail_cons]
    omega
  -- the comma has the ink that the part is counted with besides its own
  · split
    · rename_i hhead
      have hcomma : Text.isBlank (.char ',') = false := by decide
      obtain ⟨more, hmore⟩ := List.head?_eq_some_iff.mp hhead
      rw [hmore, Text.ink_cons_of_not_blank hcomma] at hskip
      rw [hmore]
      refine (hparts _).bind fun as rest' has => takes_ok ?_
      have hbetween := ink_skip_le more
      rw [List.tail_cons] at has
      dsimp only
      rw [hcons]
      omega
    · exact takes_error _

/-- The mark that opens a container counts for the container itself. -/
theorem takes_readContainer {whole : List α → Value} {start : Char}
    {parts : Nat → Text → Except ReadFailure (List α × Text)} (hnil : sizes [] = 0)
    (hwhole : ∀ as, (whole as).extent ≤ sizes as + 1)
    (hstart : Text.isBlank (.char start) = false)
    (hparts : ∀ depth t, Takes sizes t (parts depth t)) (isObject : Bool) (depth : Nat)
    (rest : Text) : Takes Value.extent (.char start :: rest)
      (readContainer close isObject whole parts depth rest) := by
  have hskip := ink_skip_le rest
  cases depth with
  | zero => exact takes_error _
  | succ depth =>
      rw [readContainer_succ]
      split
      · apply takes_ok
        have htail := Text.ink_le_of_sublist (List.tail_sublist (skip rest))
        have hempty := hwhole []
        rw [hnil] at hempty
        rw [Text.ink_cons_of_not_blank hstart]
        omega
      · refine (hparts depth _).bind fun as rest' has => takes_ok ?_
        have has' := hwhole as
        rw [Text.ink_cons_of_not_blank hstart]
        dsimp only
        omega

end

section
variable {bounds : ReadBounds} {fuel : Nat} {t : Text}

theorem takes_readValue
    (hitems : ∀ depth t, Takes Value.itemsExtent t (readItems bounds fuel depth t))
    (hmembers : ∀ depth t, Takes List.length t (readMembers bounds fuel depth t)) (depth : Nat)
    (t : Text) : Takes Value.extent t (readValue bounds (fuel + 1) depth t) := by
  by_cases htext : t.head? = some (.char '\x22')
  · obtain ⟨rest, rfl⟩ := List.head?_eq_some_iff.mp htext
    have hquote : Text.isBlank (.char '\x22') = false := by decide
    rw [readValue_text]
    refine (takes_readText rest).bind fun s more hs => takes_ok ?_
    rw [Text.ink_cons_of_not_blank hquote, Value.extent]
    dsimp only
    omega
  by_cases hlist : t.head? = some (.char '[')
  · obtain ⟨rest, rfl⟩ := List.head?_eq_some_iff.mp hlist
    have hwhole (items : List Value) : (Value.list items).extent ≤ Value.itemsExtent items + 1 :=
      Nat.le_of_eq (by rw [Value.extent])
    rw [readValue_list]
    exact takes_readContainer rfl hwhole (by decide) hitems false depth rest
  by_cases hdict : t.head? = some (.char '\x7b')
  · obtain ⟨rest, rfl⟩ := List.head?_eq_some_iff.mp hdict
    have hwhole (entries : List (Value × Value)) :
        (Value.ofEntries entries).extent ≤ entries.length + 1 := by
      simp [Value.ofEntries, Value.extent]
    rw [readValue_dict]
    exact takes_readContainer rfl hwhole (by decide) hmembers true depth rest
  · rw [readValue_scalar htext hlist hdict]
    exact takes_readScalar bounds t

theorem takes_afterKey (hvalue : ∀ depth t, Takes Value.extent t (readValue bounds fuel depth t))
    (hmembers : ∀ depth t, Takes List.length t (readMembers bounds fuel depth t)) (depth : Nat)
    (key rest : Text) : Takes List.length rest (afterKey bounds fuel depth key rest) := by
  have hskip := ink_skip_le rest
  unfold afterKey
  split
  · rename_i more hmore
    rw [hmore, Text.ink_cons] at hskip
    have hbetween := ink_skip_le more
    refine (hvalue depth (skip more)).bind fun v rest' hv => ?_
    rw [afterMember_eq]
    refine takes_afterPart (fun _ => 0) rfl (fun e es => ?_) (by decide) (hmembers depth) _ ?_
    · rw [List.length_cons]
      omega
    · dsimp only
      omega
  · exact takes_error _

/-- No reader makes more of a text than is in it. -/
theorem takes_read (bounds : ReadBounds) (fuel : Nat) :
    (∀ depth t, Takes Value.extent t (readValue bounds fuel depth t)) ∧
      (∀ depth t, Takes Value.itemsExtent t (readItems bounds fuel depth t)) ∧
      ∀ depth t, Takes List.length t (readMembers bounds fuel depth t) := by
  induction fuel with
  | zero => exact ⟨fun _ _ => takes_error _, fun _ _ => takes_error _, fun _ _ => takes_error _⟩
  | succ fuel ih =>
      obtain ⟨hvalue, hitems, hmembers⟩ := ih
      refine ⟨takes_readValue hitems hmembers, fun depth t => ?_, fun depth t => ?_⟩
      · rw [readItems_succ]
        refine (hvalue depth t).bind fun v rest hv => ?_
        rw [afterItem_eq]
        exact takes_afterPart Value.extent rfl (fun _ _ => rfl) (by decide) (hitems depth) v hv
      · by_cases htext : t.head? = some (.char '\x22')
        · obtain ⟨rest, rfl⟩ := List.head?_eq_some_iff.mp htext
          rw [readMembers_succ]
          refine (takes_readText rest).bind fun key more hkey entries left hread => ?_
          have hafter := takes_afterKey hvalue hmembers depth key more entries left hread
          rw [Text.ink_cons]
          omega
        · rw [readMembers_of_head?_ne htext]
          exact takes_error _

/-- A JSON text has at least the ink of its value. -/
theorem extent_le_of_read {v : Value} (h : read bounds t = .ok v) : v.extent ≤ ink t := by
  obtain ⟨rest, -, hread⟩ := exists_of_read_eq_ok h
  have htakes := (takes_read bounds _).1 _ _ v rest hread
  have hskip := ink_skip_le t
  omega

end

end Json

end Rulebook
