import Rulebook.Proofs.Check.Outcome
import Rulebook.Proofs.Http.Content
import Rulebook.Request.Body

/-!
Bodies of requests that pass their checks, and the bodies of verdicts, which can always be sent.
-/

namespace Rulebook

section
variable {entries data : List (Value × Value)} {text : Text} {v : Value}

theorem checkRuleText_eq_good {bound : LengthBound}
    (h : checkRuleText (.good bound) v = .good text) :
    v = .text text ∧ text.length ≤ bound.most ∧ Text.isAllBlank text = false := by
  obtain ⟨t, ht, hbound⟩ := Checked.andThen_eq_good h
  obtain rfl := Check.text_eq_good ht
  simp only [Checked.andThen] at hbound
  split at hbound
  · cases hbound
  · split at hbound
    · cases hbound
    · rename_i hlength hblank
      obtain rfl := Checked.good.inj hbound
      exact ⟨rfl, by omega, by simpa using hblank⟩

/-- A text within the bound that is not blank passes the check of a rule. -/
theorem checkRuleText_of_length {rule : Text} {bound : LengthBound}
    (hlength : rule.length ≤ bound.most) (hblank : Text.isAllBlank rule = false) :
    checkRuleText (.good bound) (.text rule) = .good rule := by
  simp [checkRuleText, Check.text, Checked.andThen, Nat.not_lt_of_le hlength, hblank]

/-- What is known of a body that was checked: where its members come from, and their bounds. -/
structure CreateBody.IsChecked (bound : LengthBound) (entries : List (Value × Value))
    (body : CreateBody) : Prop where
  rule : Value.lookup "rule" entries = some (.text body.rule)
  ruleChecked : checkRuleText (.good bound) (.text body.rule) = .good body.rule
  ruleLength : body.rule.length ≤ bound.most
  ruleNotBlank : Text.isAllBlank body.rule = false
  name : Value.lookup "name" entries = none ∧ body.name = defaultRuleName ∨
    Value.lookup "name" entries = some (.ofString body.name)
  nameLength : 1 ≤ body.name.length ∧ body.name.length ≤ 255

theorem CreateBody.isChecked_of_check {bound : LengthBound} {body : CreateBody}
    (h : CreateBody.check (.good bound) entries = .good body) : body.IsChecked bound entries := by
  obtain ⟨name, rule, hname, hrule, rfl⟩ := Checked.apply_eq_good h
  obtain ⟨v, hv, hcheck⟩ := Check.requiredMember_eq_good hrule
  obtain ⟨rfl, hlength, hblank⟩ := checkRuleText_eq_good hcheck
  rcases Check.optionalMember_eq_good hname with ⟨hnone, rfl⟩ | ⟨w, hw, hbounds⟩
  · have hdefault : 1 ≤ defaultRuleName.length ∧ defaultRuleName.length ≤ 255 := by decide
    exact ⟨hv, hcheck, hlength, hblank, .inl ⟨hnone, rfl⟩, hdefault⟩
  · obtain ⟨rfl, hlengths⟩ := Check.boundedString_eq_good hbounds
    exact ⟨hv, hcheck, hlength, hblank, .inr hw, hlengths⟩

theorem EvaluateBody.check_of_data (h : Value.lookup "data" entries = some (.dict data)) :
    EvaluateBody.check entries = .good ⟨data⟩ := by
  simp [EvaluateBody.check, checkData, Check.optionalMember, Check.optional, h, Check.dictionary,
    Checked.under, Functor.map, Checked.map]

theorem AdHocBody.check_of_data {bound : Checked LengthBound}
    (hdata : Value.lookup "data" entries = some (.dict data))
    (hrule : Value.lookup "rule" entries = some (.text text))
    (htext : checkRuleText bound (.text text) = .good text) :
    AdHocBody.check bound entries = .good ⟨data, text⟩ := by
  simp [AdHocBody.check, checkData, Check.optionalMember, Check.optional, hdata, Check.dictionary,
    Check.requiredMember, hrule, htext, Checked.under, Functor.map, Checked.map, Seq.seq,
    Checked.apply]

end

/-- The response to a request for a verdict can be sent. -/
theorem VerdictBody.fault?_json (ruleId : Option String) (result : Bool) :
    (Http.Response.json 200 (VerdictBody.value ⟨ruleId.map Text.ofString, result⟩)).fault? =
      none := by
  refine Value.IsSendable.fault?_json (.object ?_) 200
  simp only [List.forall_mem_cons]
  refine ⟨?_, .bool result, nofun⟩
  cases ruleId with
  | none => exact .null
  | some id => exact .ofString id

end Rulebook
