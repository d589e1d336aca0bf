import Rulebook.Proofs.Json.Member
import Rulebook.Proofs.Json.Nesting
import Rulebook.Proofs.Text.Plain
import Rulebook.Proofs.Text.Utf8
import Rulebook.Request.Body

/-!
Requests to decide a rule on data, made from the JSON text of each. What is read from such a body
are the rule and the data, unless the data nest too deep.
-/

namespace Rulebook

/-- The body of a request to decide a rule on data, from the JSON text of each. -/
def adHocBody (rule data : String) : String :=
  "\x7b\"rule\": " ++ rule ++ ", \"data\": " ++ data ++ "\x7d"

namespace Json

theorem ofString_adHocBody (quoted data : String) : Text.ofString (adHocBody quoted data) =
    .char '\x7b' :: memberText "rule" quoted (.char ',' :: .char ' ' ::
      memberText "data" data [.char '\x7d']) := by
  have hrule : Text.ofString "\x7b\"rule\": " =
      .char '\x7b' :: memberText "rule" [] [] := by decide
  have hdata : Text.ofString ", \"data\": " =
      .char ',' :: .char ' ' :: memberText "data" [] [] := by decide
  simp only [adHocBody, Text.ofString_append, hrule, hdata, memberText]
  simp [Text.ofString, Text.ofChars]

section
variable {quoted data : String} {rule : Text} {bounds bounds' : ReadBounds} {v : Value}

variable (hquoted : read? quoted = some (.text rule)) (hbounds : bounds.digits = bounds'.digits)
  (hdepth : bounds'.depth = bounds.depth + 1)
include hquoted hbounds hdepth

/-- The body of a request is read up to its data, whatever these are. -/
theorem read_adHocBody : ∃ fuel, 2 * (data : Text).length + 2 ≤ fuel ∧
    read bounds' (adHocBody quoted data) =
      readMembers bounds' (fuel + 1) bounds.depth
          (memberText "data" data [.char '\x7d']) >>= fun p =>
        if (skip p.2).isEmpty then .ok (Value.ofEntries ((.text "rule", .text rule) :: p.1))
        else .error .malformed := by
  have hname : readText (Text.ofString "rule" ++ [.char '\x22']) = .ok ("rule", []) := by decide
  have hstop : IsStop (.char ',' :: .char ' ' :: memberText "data" data [.char '\x7d']) := by
    rintro p ⟨⟩
    exact .inl rfl
  rw [ofString_adHocBody, read_members_eq hdepth, readMembers_memberText hname hstop hbounds
    (two_mul_length_le ..) (read_of_read?_eq_text hquoted bounds), afterMember_comma]
  refine ⟨2 * (memberText "rule" quoted (.char ',' :: .char ' ' ::
    memberText "data" data [.char '\x7d'])).length + 1, ?_, ?_⟩
  · simp only [memberText, List.length_cons, List.length_append]
    omega
  · cases readMembers bounds' _ bounds.depth (memberText "data" data [.char '\x7d']) <;> rfl

theorem read_adHocBody_of_ok (h : read bounds data = .ok v) :
    read bounds' (adHocBody quoted data) =
      .ok (.dict [(.text "rule", .text rule), (.text "data", v)]) := by
  obtain ⟨fuel, hfuel, hread⟩ := read_adHocBody hquoted hbounds hdepth
  rw [hread, readMembers_memberText (by decide) isStop_close hbounds hfuel h]
  have hentries : Value.ofEntries [(.text "rule", .text rule), (.text "data", v)] =
      .dict [(.text "rule", .text rule), (.text "data", v)] := by
    have hkey : Value.sameKey (.text "rule") (.text "data") = false := by decide
    simp [Value.ofEntries, Value.put, hkey]
  rw [← hentries]
  rfl

theorem read_adHocBody_of_tooDeep {isObject : Bool}
    (h : read bounds data = .error (.tooDeep isObject)) :
    read bounds' (adHocBody quoted data) = .error (.tooDeep isObject) := by
  obtain ⟨fuel, hfuel, hread⟩ := read_adHocBody hquoted hbounds hdepth
  rw [hread, readMembers_memberText_tooDeep (by decide) isStop_close hbounds hfuel h]
  rfl

end

end Json

namespace Http

/-- The bounds for the data of a request: they nest within its body. -/
def dataBounds : Json.ReadBounds := ⟨mostIntegerDigits, bodyBounds.depth - 1⟩

/-- The body of a request is made from the JSON texts of a rule and of data. -/
structure Request.Carries (r : Request) (rule data : String) : Prop where
  json : r.hasJson = true
  body : r.body = (adHocBody rule data).toUTF8.toList

namespace Request
variable {r : Request} {rule quoted data : String} {v : Value}

theorem Carries.decode? (h : r.Carries quoted data) :
    Text.decode? (r.body.map UInt8.toNat) = some (Text.ofString (adHocBody quoted data)) := by
  have hlist : ∃ cs, (adHocBody quoted data).toList = '\x7b' :: '\x22' :: cs := by
    simp only [adHocBody, String.toList_append, List.append_assoc]
    exact ⟨_, rfl⟩
  obtain ⟨cs, hcs⟩ := hlist
  rw [h.body]
  exact Text.decode?_toUTF8 hcs (by decide) (by decide)

theorem Carries.body_ne_nil (h : r.Carries quoted data) : r.body.isEmpty = false := by
  have hdecode := h.decode?
  cases hbody : r.body with
  | nil =>
      rw [hbody, Json.ofString_adHocBody] at hdecode
      cases hdecode
  | cons byte bytes => rfl

theorem Carries.readBody_of_ok (h : r.Carries quoted data)
    (hread : Json.read bodyBounds (adHocBody quoted data) = .ok v) : r.readBody = .value v := by
  rw [readBody, h.body_ne_nil, h.json, h.decode?]
  simp [hread]

theorem Carries.readBody_of_tooDeep (h : r.Carries quoted data) {isObject : Bool}
    (hread : Json.read bodyBounds (adHocBody quoted data) = .error (.tooDeep isObject)) :
    r.readBody = .unreadable := by
  rw [readBody, h.body_ne_nil, h.json, h.decode?]
  simp [hread]

end Request

end Http

end Rulebook
