import Rulebook.Proofs.Http.Content
import Rulebook.Proofs.Text.Utf8
import Rulebook.Service.Action

/-!
What checks find fault with. Every problem is one of a value that was checked, so a request that can
be sent back is refused with a report that can be sent.
-/

namespace Rulebook

/-- All problems that a check found are of values that satisfy `P`. -/
def Checked.Blames {α : Type} (P : Value → Prop) (c : Checked α) : Prop :=
  ∀ problems, c = .bad problems → ∀ p ∈ problems, P p.input

namespace Checked
variable {α β : Type} {P : Value → Prop} {c : Checked α} {v : Value}

theorem Blames.good (a : α) : Blames P (.good a) := nofun

theorem Blames.fail (kind : ProblemKind) (h : P v) : Blames P (.fail kind v : Checked α) := by
  rintro _ ⟨⟩
  exact List.forall_mem_singleton.mpr h

theorem Blames.under (h : c.Blames P) (step : PathStep) : (c.under step).Blames P := by
  cases c with
  | good a => exact .good a
  | bad problems =>
      rintro _ ⟨⟩ p hp
      obtain ⟨q, hq, rfl⟩ := List.mem_map.mp hp
      exact h _ rfl q hq

theorem Blames.map (h : c.Blames P) (f : α → β) : (f <$> c).Blames P := by
  cases c with
  | good a => exact .good _
  | bad problems =>
      rintro _ ⟨⟩
      exact h _ rfl

theorem Blames.seq {f : Checked (α → β)} (hf : f.Blames P) (h : c.Blames P) :
    (f <*> c).Blames P := by
  cases f with
  | good g =>
      cases c with
      | good a => exact .good _
      | bad problems =>
          rintro _ ⟨⟩
          exact h _ rfl
  | bad problems =>
      cases c with
      | good a =>
          rintro _ ⟨⟩
          exact hf _ rfl
      | bad more =>
          rintro _ ⟨⟩
          exact List.forall_mem_append.mpr ⟨hf _ rfl, h _ rfl⟩

theorem Blames.andThen (h : c.Blames P) {next : α → Checked β} (hnext : ∀ a, (next a).Blames P) :
    (c.andThen next).Blames P := by
  cases c with
  | good a => exact hnext a
  | bad problems =>
      rintro _ ⟨⟩
      exact h _ rfl

end Checked

namespace Check
variable {α : Type} {P : Value → Prop} {v : Value} {check : Value → Checked α} {default : α}
  {name : String} {entries : List (Value × Value)}

theorem blames_text (h : P v) : (text v).Blames P := by
  cases v with
  | text s => exact .good s
  | _ => exact .fail _ h

theorem blames_boundedString (h : P v) (least most : Nat) :
    (boundedString least most v).Blames P := by
  refine Checked.Blames.andThen (Checked.Blames.andThen (blames_text h) fun s => ?_) fun s => ?_
  · split
    · exact .good _
    · exact .fail _ h
  · split
    · exact .fail _ h
    · split
      · exact .fail _ h
      · exact .good _

theorem blames_integer (h : P v) : (integer v).Blames P := by
  cases v with
  | int n => exact .good n
  | bool b => exact .good _
  | text t =>
      simp only [integer, integerOfText]
      split
      · exact .fail _ h
      · split
        · exact .fail _ h
        · exact .good _
  | real x =>
      simp only [integer]
      split
      · split
        · exact .good _
        · exact .fail _ h
      · exact .fail _ h
      · exact .fail _ h
  | _ => exact .fail _ h

theorem blames_optional {given : Option Value} (h : ∀ v ∈ given, (check v).Blames P) :
    (optional name given default check).Blames P := by
  cases given with
  | none => exact .good default
  | some v => exact (h v rfl).under _

theorem blames_requiredMember (hentries : P (.dict entries))
    (h : ∀ v, Value.lookup name entries = some v → (check v).Blames P) :
    (requiredMember name entries check).Blames P := by
  unfold requiredMember
  split
  · exact (Checked.Blames.fail _ hentries).under _
  · rename_i v hv
    exact (h v hv).under _

end Check

section
variable {P : Value → Prop} {v : Value} {entries : List (Value × Value)}

theorem blames_checkRuleText (h : P v) (bound : LengthBound) :
    (checkRuleText (.good bound) v).Blames P := by
  refine (Check.blames_text h).andThen fun s => (Checked.Blames.good bound).andThen fun bound => ?_
  split
  · exact .fail _ h
  · split
    · exact .fail _ h
    · exact .good _

theorem CreateBody.blames_check (h : Value.IsSendable (.dict entries)) (bound : LengthBound) :
    (CreateBody.check (.good bound) entries).Blames Value.IsSendable := by
  refine Checked.Blames.seq (Checked.Blames.map ?_ _) (Check.blames_requiredMember h fun v hv => ?_)
  · exact Check.blames_optional fun v hv => Check.blames_boundedString (h.of_lookup hv) _ _
  · exact blames_checkRuleText (h.of_lookup hv) bound

end

/-- A body that can be sent back in a report. -/
def Http.BodyRead.IsSendable : BodyRead → Prop
  | .value v => v.IsSendable
  | .bytes source => ∃ t, Text.ofUtf8 0 [] none (source.map UInt8.toNat) = .ok t
  | .nothing | .malformed | .unreadable => True

namespace Service

/-- A body that can be sent back is checked, and found fault with only for what can be sent. -/
theorem blames_checkBody {body : Http.BodyRead} (h : body.IsSendable) (bound : LengthBound) :
    ∃ checked, checkBody (CreateBody.check (.good bound)) body = .ok checked ∧
      checked.Blames Value.IsSendable := by
  cases body with
  | nothing => exact ⟨_, rfl, .fail _ .null⟩
  | malformed | unreadable => exact ⟨_, rfl, .fail _ (.dict nofun nofun)⟩
  | bytes source =>
      obtain ⟨t, ht⟩ := h
      refine ⟨.fail .notAttributes (.text t), ?_, .fail _ (.text (Text.isPlain_of_ofUtf8 ht))⟩
      rw [checkBody, ht]
      rfl
  | value v =>
      cases v with
      | dict entries => exact ⟨_, rfl, CreateBody.blames_check h bound⟩
      | _ => exact ⟨_, rfl, .fail _ h⟩

theorem fault?_bodyProblems {problems : List Problem} (h : ∀ p ∈ problems, p.input.IsSendable) :
    (Http.Response.unprocessable (bodyProblems problems)).fault? = none := by
  refine Http.Response.fault?_unprocessable fun p hp => ?_
  obtain ⟨q, hq, rfl⟩ := List.mem_map.mp hp
  exact h q hq

/-- What a query gives is text of a string. -/
theorem blames_checkWindowPart (t : Http.Target) (name : String) (default : Int) :
    (checkWindowPart t [] name default).Blames Value.IsSendable := by
  refine Checked.Blames.under (Check.blames_optional fun v hv => Check.blames_integer ?_) _
  obtain ⟨s, -, rfl⟩ := Option.map_eq_some_iff.mp hv
  exact .ofString s

end Service

end Rulebook
