import Rulebook.Proofs.Json.Reading

/-!
Objects given by the texts of their members. A member is read as its value would be by itself.
-/

namespace Rulebook.Json

/-- A member of an object: its name and its value, and what follows. -/
def memberText (name value rest : Text) : Text :=
  .char '\x22' :: (name ++ .char '\x22' :: .char ':' :: .char ' ' :: (value ++ rest))

theorem two_mul_length_le (name t u : Text) :
    2 * t.length + 2 ≤ 2 * (memberText name t u).length + 2 := by
  simp only [memberText, List.length_cons, List.length_append]
  omega

section
variable {bounds bounds' : ReadBounds} {fuel depth : Nat} {name name' t u : Text}

theorem readValue_memberText :
    readValue bounds (fuel + 1) (depth + 1) (.char '\x7b' :: memberText name t u) =
      readMembers bounds fuel depth (memberText name t u) >>= fun p =>
        .ok (Value.ofEntries p.1, p.2) := by
  rw [readValue_dict, readContainer_succ, if_neg]
  · rfl
  · nofun

theorem afterMember_comma {v : Value} :
    afterMember bounds fuel depth name v (.char ',' :: .char ' ' :: memberText name' t u) =
      readMembers bounds fuel depth (memberText name' t u) >>= fun p =>
        .ok ((.text name, v) :: p.1, p.2) :=
  rfl

theorem readText_of_name {rest : Text}
    (hname : readText (name ++ [.char '\x22']) = .ok (name, [])) :
    readText (name ++ .char '\x22' :: rest) = .ok (name, rest) := by
  have hover := carriesOver_readText (name ++ [.char '\x22']) rest (by rw [hname]; nofun)
  rw [hname, List.append_assoc] at hover
  exact hover

variable (hname : readText (name ++ [.char '\x22']) = .ok (name, [])) (hu : IsStop u)
  (hbounds : bounds.digits = bounds'.digits) (hfuel : 2 * t.length + 2 ≤ fuel)
include hname hu hbounds hfuel

theorem readMembers_memberText {v : Value} (h : read bounds t = .ok v) :
    readMembers bounds' (fuel + 1) bounds.depth (memberText name t u) =
      afterMember bounds' fuel bounds.depth name v u := by
  rw [memberText, readMembers_succ, readText_of_name hname]
  exact afterKey_of_read_eq_ok hu hbounds hfuel name h

theorem readMembers_memberText_tooDeep {isObject : Bool}
    (h : read bounds t = .error (.tooDeep isObject)) :
    readMembers bounds' (fuel + 1) bounds.depth (memberText name t u) =
      .error (.tooDeep isObject) := by
  rw [memberText, readMembers_succ, readText_of_name hname]
  exact afterKey_of_read_eq_tooDeep hu hbounds hfuel name h

end

theorem isStop_close : IsStop [.char '\x7d'] := by
  rintro p ⟨⟩
  exact .inr rfl

theorem read_members_eq {bounds : ReadBounds} {depth : Nat} {name t u : Text}
    (hdepth : bounds.depth = depth + 1) : read bounds (.char '\x7b' :: memberText name t u) =
      readMembers bounds (2 * (memberText name t u).length + 3) depth (memberText name t u) >>=
        fun p => if (skip p.2).isEmpty then .ok (Value.ofEntries p.1) else .error .malformed := by
  have hskip : skip (.char '\x7b' :: memberText name t u) = .char '\x7b' :: memberText name t u :=
    rfl
  rw [read_eq, hskip, hdepth, List.length_cons, Nat.mul_succ, readValue_memberText]
  cases readMembers bounds (2 * (memberText name t u).length + 3) depth (memberText name t u) <;> rfl

/-- The text of an object with one member. -/
def objectText (name value : Text) : Text := .char '\x7b' :: memberText name value [.char '\x7d']

section
variable {bounds bounds' : ReadBounds} {name t : Text}
  (hname : readText (name ++ [.char '\x22']) = .ok (name, []))
  (hbounds : bounds.digits = bounds'.digits) (hdepth : bounds'.depth = bounds.depth + 1)
include hname hbounds hdepth

theorem read_objectText {v : Value} (h : read bounds t = .ok v) :
    read bounds' (objectText name t) = .ok (.dict [(.text name, v)]) := by
  rw [objectText, read_members_eq hdepth,
    readMembers_memberText hname isStop_close hbounds (two_mul_length_le ..) h]
  rfl

theorem read_objectText_tooDeep {isObject : Bool}
    (h : read bounds t = .error (.tooDeep isObject)) :
    read bounds' (objectText name t) = .error (.tooDeep isObject) := by
  rw [objectText, read_members_eq hdepth,
    readMembers_memberText_tooDeep hname isStop_close hbounds (two_mul_length_le ..) h]
  rfl

end

end Rulebook.Json
