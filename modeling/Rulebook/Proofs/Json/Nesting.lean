import Rulebook.Proofs.Json.Member

/-!
How reading JSON text depends on the bound for nesting: a smaller bound gives the same value or
refuses the text.
-/

namespace Rulebook.Json

/-- The first outcome is the second one, or else it refuses a text as too deep. -/
def Deepens {α : Type} (r r' : Except ReadFailure α) : Prop :=
  r = r' ∨ ∃ isObject, r = .error (.tooDeep isObject)

section
variable {α β : Type} {r r' : Except ReadFailure α}

theorem Deepens.refl (r : Except ReadFailure α) : Deepens r r := .inl rfl

theorem Deepens.bind {f g : α → Except ReadFailure β} (h : Deepens r r')
    (hnext : ∀ a, Deepens (f a) (g a)) : Deepens (r >>= f) (r' >>= g) := by
  rcases h with rfl | ⟨isObject, rfl⟩
  · cases r with
    | error failure => exact .refl _
    | ok a => exact hnext a
  · exact .inr ⟨isObject, rfl⟩

variable {bounds bounds' : ReadBounds} {fuel depth depth' : Nat}

section
variable {close : Char} {parts parts' : Nat → Text → Except ReadFailure (List α × Text)}
  (hparts : ∀ {depth depth'} t, depth ≤ depth' → Deepens (parts depth t) (parts' depth' t))
include hparts

theorem deepens_readContainer (h : depth ≤ depth') (isObject : Bool) (whole : List α → Value)
    (rest : Text) : Deepens (readContainer close isObject whole parts depth rest)
      (readContainer close isObject whole parts' depth' rest) := by
  cases depth with
  | zero => exact .inr ⟨isObject, rfl⟩
  | succ depth =>
      obtain ⟨depth', rfl⟩ : ∃ n, depth' = n + 1 := ⟨depth' - 1, by omega⟩
      rw [readContainer_succ, readContainer_succ]
      split
      · exact .refl _
      · exact (hparts _ (Nat.le_of_succ_le_succ h)).bind fun _ => .refl _

theorem deepens_afterPart (h : depth ≤ depth') (a : α) (rest : Text) :
    Deepens (afterPart close (parts depth) a rest) (afterPart close (parts' depth') a rest) := by
  unfold afterPart
  split
  · exact .refl _
  split
  · exact (hparts _ h).bind fun _ => .refl _
  · exact .refl _

end

section
variable (hmembers : ∀ {depth depth'} t, depth ≤ depth' →
  Deepens (readMembers bounds fuel depth t) (readMembers bounds' fuel depth' t))
include hmembers

theorem deepens_afterMember (h : depth ≤ depth') (key : Text) (v : Value) (rest : Text) :
    Deepens (afterMember bounds fuel depth key v rest)
      (afterMember bounds' fuel depth' key v rest) := by
  rw [afterMember_eq, afterMember_eq]
  exact deepens_afterPart hmembers h (.text key, v) rest

theorem deepens_afterKey (hvalue : ∀ {depth depth'} t, depth ≤ depth' →
      Deepens (readValue bounds fuel depth t) (readValue bounds' fuel depth' t))
    (h : depth ≤ depth') (key rest : Text) :
    Deepens (afterKey bounds fuel depth key rest) (afterKey bounds' fuel depth' key rest) := by
  unfold afterKey
  split
  · exact (hvalue _ h).bind fun p => deepens_afterMember hmembers h key p.1 p.2
  · exact .refl _

end

/-- A smaller bound for nesting changes nothing but that it may refuse. -/
theorem deepens_read (hbounds : bounds.digits = bounds'.digits) (fuel : Nat) :
    (∀ {depth depth'} t, depth ≤ depth' →
        Deepens (readValue bounds fuel depth t) (readValue bounds' fuel depth' t)) ∧
      (∀ {depth depth'} t, depth ≤ depth' →
        Deepens (readItems bounds fuel depth t) (readItems bounds' fuel depth' t)) ∧
      ∀ {depth depth'} t, depth ≤ depth' →
        Deepens (readMembers bounds fuel depth t) (readMembers bounds' fuel depth' t) := by
  induction fuel with
  | zero =>
      exact ⟨fun _ _ => .refl _, fun _ _ => .refl _, fun _ _ => .refl _⟩
  | succ fuel ih =>
      obtain ⟨hvalue, hitems, hmembers⟩ := ih
      refine ⟨fun t h => ?_, fun t h => ?_, fun t h => ?_⟩
      · by_cases htext : t.head? = some (.char '\x22')
        · obtain ⟨rest, rfl⟩ := List.head?_eq_some_iff.mp htext
          rw [readValue_text, readValue_text]
          exact .refl _
        by_cases hlist : t.head? = some (.char '[')
        · obtain ⟨rest, rfl⟩ := List.head?_eq_some_iff.mp hlist
          rw [readValue_list, readValue_list]
          exact deepens_readContainer hitems h false _ rest
        by_cases hdict : t.head? = some (.char '\x7b')
        · obtain ⟨rest, rfl⟩ := List.head?_eq_some_iff.mp hdict
          rw [readValue_dict, readValue_dict]
          exact deepens_readContainer hmembers h true _ rest
        · rw [readValue_scalar htext hlist hdict, readValue_scalar htext hlist hdict,
            readScalar_congr hbounds]
          exact .refl _
      · rw [readItems_succ, readItems_succ]
        refine (hvalue t h).bind fun p => ?_
        rw [afterItem_eq, afterItem_eq]
        exact deepens_afterPart hitems h p.1 p.2
      · by_cases htext : t.head? = some (.char '\x22')
        · obtain ⟨rest, rfl⟩ := List.head?_eq_some_iff.mp htext
          rw [readMembers_succ, readMembers_succ]
          exact (Deepens.refl _).bind fun p => deepens_afterKey hmembers hvalue h p.1 p.2
        · rw [readMembers_of_head?_ne htext, readMembers_of_head?_ne htext]
          exact .refl _

/-- Two bounds for the nesting of a text give one value, or the smaller one refuses it. -/
theorem read_deepens (hbounds : bounds.digits = bounds'.digits)
    (hdepth : bounds.depth ≤ bounds'.depth) (t : Text) : Deepens (read bounds t) (read bounds' t) := by
  unfold read
  exact ((deepens_read hbounds _).1 _ hdepth).bind fun _ => .refl _

theorem read_of_le {t : Text} {v : Value} (h : read bounds t = .ok v)
    (hbounds : bounds.digits = bounds'.digits) (hdepth : bounds.depth ≤ bounds'.depth) :
    read bounds' t = .ok v := by
  rcases read_deepens hbounds hdepth t with he | ⟨isObject, he⟩
  · exact he ▸ h
  · cases he.symm.trans h

/-- A text that has a value within some bounds has it within others, or is too deep for them. -/
theorem read_eq_ok_or_tooDeep {t : Text} {v : Value} (h : read bounds t = .ok v)
    (hbounds : bounds.digits = bounds'.digits) :
    read bounds' t = .ok v ∨ ∃ isObject, read bounds' t = .error (.tooDeep isObject) := by
  rcases Nat.le_total bounds.depth bounds'.depth with hdepth | hdepth
  · exact .inl (read_of_le h hbounds hdepth)
  · exact (read_deepens hbounds.symm hdepth t).imp (fun he => he.trans h) id

end

section
variable {bounds : ReadBounds} {fuel depth : Nat} {t s rest : Text}

theorem readMagnitude_ne_text {negative : Bool} :
    readMagnitude bounds negative t ≠ .ok (.text s, rest) := by
  unfold readMagnitude
  dsimp only
  repeat' split
  all_goals nofun

theorem readScalar_ne_text : readScalar bounds t ≠ .ok (.text s, rest) := by
  unfold readScalar
  split
  · rename_i name v hname
    have hmem := List.mem_of_find?_eq_some hname
    simp only [names, List.mem_cons, Prod.mk.injEq, List.not_mem_nil, or_false] at hmem
    rcases hmem with ⟨-, rfl⟩ | ⟨-, rfl⟩ | ⟨-, rfl⟩ | ⟨-, rfl⟩ | ⟨-, rfl⟩ | ⟨-, rfl⟩ <;> nofun
  · unfold readNumber
    split <;> exact readMagnitude_ne_text

theorem bind_ne_text {α : Type} {f : α → Value} (hf : ∀ a, f a ≠ .text s)
    (r : Except ReadFailure (α × Text)) :
    r >>= (fun p => .ok (f p.1, p.2)) ≠ .ok (.text s, rest) := by
  intro h
  cases r with
  | error failure => cases h
  | ok p => exact hf p.1 (congrArg Prod.fst (Except.ok.inj h))

theorem readContainer_ne_text {α : Type} {close : Char} {isObject : Bool} {whole : List α → Value}
    (hwhole : ∀ parts, whole parts ≠ .text s)
    (parts : Nat → Text → Except ReadFailure (List α × Text)) :
    readContainer close isObject whole parts depth t ≠ .ok (.text s, rest) := by
  cases depth with
  | zero => nofun
  | succ depth =>
      rw [readContainer_succ]
      split
      · exact fun h => hwhole [] (congrArg Prod.fst (Except.ok.inj h))
      · exact bind_ne_text hwhole _

/-- Whatever the bounds are, a text is read alike. -/
theorem readValue_of_eq_text (h : readValue bounds fuel depth t = .ok (.text s, rest))
    (bounds' : ReadBounds) (depth' : Nat) :
    readValue bounds' fuel depth' t = .ok (.text s, rest) := by
  cases fuel with
  | zero => cases h
  | succ fuel =>
      by_cases htext : t.head? = some (.char '\x22')
      · obtain ⟨more, rfl⟩ := List.head?_eq_some_iff.mp htext
        rwa [readValue_text] at h ⊢
      by_cases hlist : t.head? = some (.char '[')
      · obtain ⟨more, rfl⟩ := List.head?_eq_some_iff.mp hlist
        have hne : ∀ items, Value.list items ≠ .text s := fun _ => nofun
        exact absurd (readValue_list.symm.trans h) (readContainer_ne_text hne _)
      by_cases hdict : t.head? = some (.char '\x7b')
      · obtain ⟨more, rfl⟩ := List.head?_eq_some_iff.mp hdict
        have hne : ∀ entries, Value.ofEntries entries ≠ .text s := fun _ => nofun
        exact absurd (readValue_dict.symm.trans h) (readContainer_ne_text hne _)
      · rw [readValue_scalar htext hlist hdict] at h
        exact absurd h readScalar_ne_text

theorem read_of_eq_text (h : read bounds t = .ok (.text s)) (bounds' : ReadBounds) :
    read bounds' t = .ok (.text s) := by
  obtain ⟨rest, hrest, hread⟩ := exists_of_read_eq_ok h
  rw [read_eq, readValue_of_eq_text hread]
  change (if (skip rest).isEmpty then _ else _) = _
  rw [hrest]
  rfl

theorem read_of_read?_eq_text (h : read? t = some (.text s)) (bounds : ReadBounds) :
    read bounds t = .ok (.text s) :=
  read_of_eq_text (read_of_read? h) bounds

end

/-- Brackets that open, and behind them as many that close. -/
def nested : Nat → Text → Text
  | 0, rest => rest
  | n + 1, rest => .char '[' :: nested n (.char ']' :: rest)

section
variable {bounds : ReadBounds} {fuel depth n : Nat} {t rest : Text}

theorem ofChars_replicate_append (n : Nat) (rest : Text) :
    Text.ofChars (List.replicate n '[' ++ List.replicate n ']') ++ rest = nested n rest := by
  induction n generalizing rest with
  | zero => rfl
  | succ n ih =>
      rw [nested, ← ih, List.replicate_succ, List.replicate_succ']
      simp [Text.ofChars]

theorem skip_nested (n : Nat) (rest : Text) :
    skip (nested n (.char ']' :: rest)) = nested n (.char ']' :: rest) := by
  cases n <;> rfl

theorem readItems_of_close {v : Value}
    (h : readValue bounds fuel depth t = .ok (v, .char ']' :: rest)) :
    readItems bounds (fuel + 1) depth t = .ok ([v], rest) := by
  rw [readItems_succ, h]
  rfl

/-- Lists within lists are read if the bound lets them nest so deep, and are refused otherwise. -/
theorem readValue_nested (hfuel : 2 * n + 1 ≤ fuel) :
    (n < depth → ∃ v, readValue bounds fuel depth (nested (n + 1) rest) = .ok (v, rest)) ∧
      (depth ≤ n →
        readValue bounds fuel depth (nested (n + 1) rest) = .error (.tooDeep false)) := by
  induction n generalizing fuel depth rest with
  | zero =>
      obtain ⟨fuel, rfl⟩ : ∃ k, fuel = k + 1 := ⟨fuel - 1, by omega⟩
      cases depth with
      | zero => exact ⟨nofun, fun _ => rfl⟩
      | succ depth => exact ⟨fun _ => ⟨_, rfl⟩, nofun⟩
  | succ n ih =>
      obtain ⟨fuel, rfl⟩ : ∃ k, fuel = k + 2 := ⟨fuel - 2, by omega⟩
      cases depth with
      | zero => exact ⟨nofun, fun _ => rfl⟩
      | succ depth =>
          have hskip := skip_nested (n + 1) rest
          have hfuel' : 2 * n + 1 ≤ fuel := by omega
          obtain ⟨hok, hdeep⟩ := @ih fuel depth (.char ']' :: rest) hfuel'
          have hopens : (nested (n + 1) (.char ']' :: rest)).head? ≠ some (.char ']') := nofun
          rw [nested, readValue_list, readContainer_succ, hskip, if_neg hopens]
          constructor
          · intro h
            obtain ⟨v, hv⟩ := hok (Nat.lt_of_succ_lt_succ h)
            rw [readItems_of_close hv]
            exact ⟨_, rfl⟩
          · intro h
            rw [readItems_succ, hdeep (Nat.le_of_succ_le_succ h)]
            rfl

theorem length_nested (n : Nat) (rest : Text) : (nested n rest).length = 2 * n + rest.length := by
  induction n generalizing rest with
  | zero => simp [nested]
  | succ n ih =>
      rw [nested, List.length_cons, ih, List.length_cons]
      omega

theorem read_nested (bounds : ReadBounds) (n : Nat) :
    (n < bounds.depth → ∃ v, read bounds (nested (n + 1) []) = .ok v) ∧
      (bounds.depth ≤ n → read bounds (nested (n + 1) []) = .error (.tooDeep false)) := by
  have hskip : skip (nested (n + 1) []) = nested (n + 1) [] := rfl
  have hfuel : 2 * n + 1 ≤ 2 * (nested (n + 1) []).length + 2 := by
    rw [length_nested]
    omega
  obtain ⟨hok, hdeep⟩ := @readValue_nested bounds _ bounds.depth n [] hfuel
  constructor
  · intro h
    obtain ⟨v, hv⟩ := hok h
    exact ⟨v, by rw [read_eq, hskip, hv]; rfl⟩
  · intro h
    rw [read_eq, hskip, hdeep h]
    rfl

theorem read_objectText_nested {name : Text}
    (hname : readText (name ++ [.char '\x22']) = .ok (name, [])) (hdepth : bounds.depth = depth + 1)
    (n : Nat) :
    (n < depth → ∃ v,
        read bounds (objectText name (nested (n + 1) [])) = .ok (.dict [(.text name, v)])) ∧
      (depth ≤ n →
        read bounds (objectText name (nested (n + 1) [])) = .error (.tooDeep false)) := by
  have hdigits : (ReadBounds.mk bounds.digits depth).digits = bounds.digits := rfl
  obtain ⟨hok, hdeep⟩ := read_nested ⟨bounds.digits, depth⟩ n
  constructor
  · intro h
    obtain ⟨v, hv⟩ := hok h
    exact ⟨v, read_objectText hname hdigits hdepth hv⟩
  · exact fun h => read_objectText_tooDeep hname hdigits hdepth (hdeep h)

end

end Rulebook.Json
