import Rulebook.Proofs.Command.Decision
import Rulebook.Proofs.Request.AdHoc
import Rulebook.Proofs.Rule.Message
import Rulebook.Proofs.Service.Evaluation

/-!
Deciding a rule by a command and by a request. On data that the service can read the two tell the
same, whatever the rule, as long as a refusal of the rule can be sent. Data that nest deep are
another matter: a request refuses them before it looks at the rule.
-/

namespace Rulebook

open Http (Request Response Target)

/-- If a rule text is refused, the refusal can be sent: its message repeats no half of a surrogate
pair. -/
def Text.HasPlainRefusal (rule : Text) : Prop :=
  ∀ f, compile rule = .error (.fault f) → f.message.IsPlain

/-- A plain rule text has no half to repeat, whichever of its words the message quotes. -/
theorem Text.IsPlain.hasPlainRefusal {rule : Text} (h : rule.IsPlain) : rule.HasPlainRefusal := by
  intro f hf
  obtain ⟨f', hf', hmessage⟩ := exists_fault_of_compile_error hf
  cases hf'
  exact hmessage h

/-- How the report of a command and the response to a request compare that decide a rule on the same
data. They tell the same, unless the data nest too deep to be read within the body; the request is
refused then. The command tells the decision wherever its own reader can go on. -/
structure Compares (rule : Text) (data : String) (entries : List (Value × Value)) (r : Request)
    (report : Report) (response : Response) : Prop where
  alike : r.readBody ≠ .unreadable → ∀ told, report.Tells told ↔ response.Tells told
  refused : r.readBody = .unreadable → response.status = 400 ∧
    response.member? "detail" = some (.ofString "There was an error parsing the body")
  decided : Json.read Report.recordBounds data = .ok (.dict entries) →
    report.Tells (.of rule entries)

namespace Server
open Service

section
variable {s : Settings} {d : Database} {response : Response} {told : Decision} {rule : Text}
  {data : List (Value × Value)}

/-- What is answered to a request to decide a rule tells the decision. -/
theorem tells_evaluateAdHoc_iff (hrefusal : rule.HasPlainRefusal) (hresponse :
      (response.status, response.body) = carried s (replyOf (evaluateAdHoc d ⟨data, rule⟩))) :
    response.Tells told ↔ told = .of rule data := by
  unfold Decision.of
  cases hcompile : compile rule with
  | ok tree =>
      dsimp only
      cases hresult : (tree.decideOn (.dict data)).result with
      | ok result =>
          have hreply : replyOf (evaluateAdHoc d ⟨data, rule⟩) =
              .ok (.json 200 (VerdictBody.value ⟨none, result⟩)) := by
            refine replyOf_eq_ok ?_ (VerdictBody.fault?_json none result)
            simp only [evaluateAdHoc, hcompile, hresult]
            rfl
          rw [hreply] at hresponse
          exact Response.tells_verdict_iff (congrArg Prod.fst hresponse)
            (congrArg Prod.snd hresponse)
      | error failure =>
          have hreply : replyOf (evaluateAdHoc d ⟨data, rule⟩) = .error (.verdict failure) := by
            simp only [evaluateAdHoc, hcompile, hresult]
            rfl
          rw [hreply] at hresponse
          exact Response.tells_failure_iff (congrArg Prod.fst hresponse)
  | error failure =>
      obtain ⟨f, rfl, -⟩ := exists_fault_of_compile_error hcompile
      have hplain : Text.IsPlain ("Invalid rule: " ++ f.message) :=
        (Text.isPlain_ofString _).append (hrefusal f hcompile)
      have hreply : replyOf (evaluateAdHoc d ⟨data, rule⟩) =
          .ok (.detail 400 ("Invalid rule: " ++ f.message)) := by
        refine replyOf_eq_ok ?_ (Response.fault?_detail hplain 400)
        simp only [evaluateAdHoc, hcompile]
        rfl
      rw [hreply] at hresponse
      exact Response.tells_refusal_iff (congrArg Prod.fst hresponse) (congrArg Prod.snd hresponse)

end

/-- A POST to decide a rule on data, made from the JSON text of each. -/
structure SendsAdHoc (server : Server) (r : Request) (quoted data : String) : Prop where
  posts : server.Posts r .evaluateAdHoc
  carries : r.Carries quoted data

section
variable {server : Server} {r : Request} {rule : Text} {quoted data : String}
  {entries : List (Value × Value)} {levels : Nat}

section
variable (h : server.SendsAdHoc r quoted data) (hquoted : Json.read? quoted = some (.text rule))
include h hquoted

/-- Data that nest no deeper than the body may are decided, and the response tells so. -/
theorem SendsAdHoc.exists_decision (hlength : rule.length ≤ server.settings.maxRuleLength.most)
    (hblank : Text.isAllBlank rule = false) (hrefusal : rule.HasPlainRefusal)
    (hdata : Json.read Http.dataBounds data = .ok (.dict entries)) :
    r.readBody ≠ .unreadable ∧ ∃ response after, server.receive r = .ok (response, after) ∧
      ∀ told, response.Tells told ↔ told = .of rule entries := by
  have hdigits : Http.dataBounds.digits = Http.bodyBounds.digits := rfl
  have hbody := Json.read_adHocBody_of_ok hquoted hdigits rfl hdata
  have hread : r.capitalised.readBody = .value _ := h.carries.readBody_of_ok hbody
  have hcheck : AdHocBody.check (.good server.settings.maxRuleLength)
      [(.text "rule", .text rule), (.text "data", .dict entries)] = .good ⟨entries, rule⟩ :=
    AdHocBody.check_of_data rfl rfl (checkRuleText_of_length hlength hblank)
  have hresponse := h.posts.handle.1
  rw [act_evaluateAdHoc hread hcheck] at hresponse
  refine ⟨fun hunreadable => ?_, (server.handle r.capitalised).1, _, h.posts.receive, fun told =>
    tells_evaluateAdHoc_iff hrefusal hresponse⟩
  cases hread.symm.trans hunreadable

/-- Data that nest deeper are refused before the rule is looked at. -/
theorem SendsAdHoc.exists_refusal {isObject : Bool}
    (hdata : Json.read Http.dataBounds data = .error (.tooDeep isObject)) :
    r.readBody = .unreadable ∧ ∃ response after, server.receive r = .ok (response, after) ∧
      response.status = 400 ∧
      response.member? "detail" = some (.ofString "There was an error parsing the body") := by
  have hdigits : Http.dataBounds.digits = Http.bodyBounds.digits := rfl
  have hbody := Json.read_adHocBody_of_tooDeep hquoted hdigits rfl hdata
  have hread : r.capitalised.readBody = .unreadable := h.carries.readBody_of_tooDeep hbody
  have hreply : replyOf (act server.settings server.database r.capitalised
      (Target.ofText r.target) .evaluateAdHoc) =
        .ok (.detail 400 "There was an error parsing the body") := by
    refine replyOf_eq_ok ?_ (Response.fault?_detail (Text.isPlain_ofString _) 400)
    simp only [act, hread, withReadable]
    rfl
  have hresponse := h.posts.handle.1
  rw [hreply] at hresponse
  obtain ⟨hstatus, hbody⟩ := Prod.mk.inj hresponse
  exact ⟨hread, (server.handle r.capitalised).1, _, h.posts.receive, hstatus,
    Response.member?_detail hbody⟩

end

end

/-- The text of an object that holds lists within lists. -/
def nestedData (n : Nat) : String :=
  "\x7b\"a\": " ++ String.ofList (List.replicate n '[' ++ List.replicate n ']') ++ "\x7d"

theorem ofString_nestedData (n : Nat) :
    Text.ofString (nestedData n) = Json.objectText "a" (Json.nested n []) := by
  have hlists : Text.ofString (String.ofList (List.replicate n '[' ++ List.replicate n ']')) =
      Json.nested n [] := by
    rw [← Json.ofChars_replicate_append, List.append_nil, Text.ofString, String.toList_ofList]
  have hname : Text.ofString "\x7b\"a\": " = .char '\x7b' :: Json.memberText "a" [] [] := by decide
  rw [nestedData, Text.ofString_append, Text.ofString_append, hlists, hname, Json.objectText,
    Json.memberText, Json.memberText]
  simp [Text.ofString, Text.ofChars]

theorem readText_a : Json.readText (Text.ofString "a" ++ [.char '\x22']) = .ok ("a", []) := by
  decide

theorem read_nestedData_tooDeep {bounds : Json.ReadBounds} {depth n : Nat}
    (hdepth : bounds.depth = depth + 1) (h : depth ≤ n) :
    Json.read bounds (nestedData (n + 1)) = .error (.tooDeep false) := by
  rw [ofString_nestedData]
  exact (Json.read_objectText_nested readText_a hdepth n).2 h

theorem exists_read?_nestedData (n : Nat) :
    ∃ entries, Json.read? (nestedData (n + 1)) = some (.dict entries) := by
  have hlength : ∃ depth, n < depth ∧
      (Json.objectText "a" (Json.nested (n + 1) [])).length = depth + 1 := by
    refine ⟨_, ?_, List.length_cons⟩
    simp only [Json.memberText, Json.length_nested, List.length_cons, List.length_append]
    omega
  obtain ⟨depth, hlt, hdepth⟩ := hlength
  have hread := @Json.read_objectText_nested ⟨depth + 1, depth + 1⟩ depth "a" readText_a rfl n
  obtain ⟨v, hv⟩ := hread.1 hlt
  rw [Json.read?, ofString_nestedData, hdepth, hv]
  exact ⟨_, rfl⟩

end Server

end Rulebook
