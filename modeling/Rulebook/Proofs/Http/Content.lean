import Rulebook.Proofs.Json.Alphabet
import Rulebook.Proofs.Text.Plain
import Rulebook.Proofs.Value.Entries

/-!
What can be sent. A value in which all numbers are finite and all texts plain is written as a plain
text, so a response that carries it can be sent.
-/

namespace Rulebook

/-- A value that can be sent: the numbers in it are finite and its texts are plain. -/
inductive Value.IsSendable : Value → Prop
  | null : IsSendable .null
  | bool (b) : IsSendable (.bool b)
  | int (n) : IsSendable (.int n)
  | real (negative units) : IsSendable (.real (.finite negative units))
  | text {t} : Text.IsPlain t → IsSendable (.text t)
  | list {items} : (∀ v ∈ items, IsSendable v) → IsSendable (.list items)
  | dict {entries : List (Value × Value)} : (∀ e ∈ entries, IsSendable e.1) →
      (∀ e ∈ entries, IsSendable e.2) → IsSendable (.dict entries)

namespace Value
open Text

section
variable {v : Value} {items : List Value} {entries : List (Value × Value)}

theorem exists_of_mem_itemsWithoutHidden (h : v ∈ itemsWithoutHidden items) :
    ∃ w ∈ items, v = w.withoutHidden := by
  induction items with
  | nil => cases h
  | cons w items ih =>
      rcases List.mem_cons.mp h with rfl | h
      · exact ⟨w, .head _, rfl⟩
      · obtain ⟨w', hw', rfl⟩ := ih h
        exact ⟨w', .tail _ hw', rfl⟩

theorem exists_of_mem_entriesWithoutHidden {e : Value × Value}
    (h : e ∈ entriesWithoutHidden entries) :
    ∃ e' ∈ entries, e = (e'.1, e'.2.withoutHidden) := by
  induction entries with
  | nil => cases h
  | cons e' entries ih =>
      obtain ⟨k, w⟩ := e'
      rw [entriesWithoutHidden] at h
      split at h
      · obtain ⟨e'', he'', rfl⟩ := ih h
        exact ⟨e'', .tail _ he'', rfl⟩
      · rcases List.mem_cons.mp h with rfl | h
        · exact ⟨(k, w), .head _, rfl⟩
        · obtain ⟨e'', he'', rfl⟩ := ih h
          exact ⟨e'', .tail _ he'', rfl⟩

theorem itemsHaveNonFinite_eq_false (h : ∀ v ∈ items, v.hasNonFinite = false) :
    itemsHaveNonFinite items = false := by
  induction items with
  | nil => rfl
  | cons v items ih =>
      obtain ⟨hv, hitems⟩ := List.forall_mem_cons.mp h
      rw [itemsHaveNonFinite, hv, ih hitems]
      rfl

theorem entriesHaveNonFinite_eq_false (h : ∀ e ∈ entries, e.2.hasNonFinite = false) :
    entriesHaveNonFinite entries = false := by
  induction entries with
  | nil => rfl
  | cons e entries ih =>
      obtain ⟨he, hentries⟩ := List.forall_mem_cons.mp h
      rw [entriesHaveNonFinite, he, ih hentries]
      rfl

end

namespace IsSendable
variable {v : Value} {entries : List (Value × Value)}

theorem isPlain_writtenScalar (h : v.IsSendable) : IsPlain (Json.writtenScalar false v) := by
  cases h with
  | null => exact isPlain_ofString _
  | bool b => cases b <;> exact isPlain_ofString _
  | int n => exact isPlain_ofInt n
  | real negative units => exact isPlain_ofChars _
  | text ht => exact ht.writtenText false
  | list | dict => exact isPlain_nil

theorem isPlain_writtenKey (h : v.IsSendable) : IsPlain (Json.writtenKey false v) := by
  have hscalar := h.isPlain_writtenScalar
  cases h with
  | text ht => exact hscalar
  | _ => exact hscalar.writtenText false

theorem isIn_compact : Json.Style.compact.IsIn fun p => p.isHalf = false where
  brackets := isPlain_ofString _
  first _ := isPlain_ofString _
  between _ := isPlain_ofString _
  last _ := isPlain_ofString _
  afterKey := isPlain_ofString _

/-- A value that can be sent is written in short as a plain text. -/
theorem writesPlain (h : v.IsSendable) :
    Json.WritesIn (fun p => p.isHalf = false) .compact v := by
  induction h with
  | list h ih => exact Json.writesIn_list isIn_compact ih
  | dict hk hv ihk ihv =>
      exact Json.writesIn_dict isIn_compact (fun e he => (hk e he).isPlain_writtenKey) ihv
  | null => exact Json.writesIn_scalar (fun _ _ => rfl) IsSendable.null.isPlain_writtenScalar
  | bool b => exact Json.writesIn_scalar (fun _ _ => rfl) (IsSendable.bool b).isPlain_writtenScalar
  | int n => exact Json.writesIn_scalar (fun _ _ => rfl) (IsSendable.int n).isPlain_writtenScalar
  | real negative units =>
      exact Json.writesIn_scalar (fun _ _ => rfl)
        (IsSendable.real negative units).isPlain_writtenScalar
  | text ht =>
      exact Json.writesIn_scalar (fun _ _ => rfl) (IsSendable.text ht).isPlain_writtenScalar

theorem hasNonFinite (h : v.IsSendable) : v.hasNonFinite = false := by
  induction h with
  | list h ih => exact itemsHaveNonFinite_eq_false ih
  | dict hk hv ihk ihv => exact entriesHaveNonFinite_eq_false ihv
  | _ => rfl

/-- A response that carries such a value can be sent. -/
theorem fault?_json (h : v.IsSendable) (status : Nat) :
    (Http.Response.json status v).fault? = none := by
  have hplain : IsPlain (Json.compact v) := h.writesPlain 0 [] isPlain_nil
  simp [Http.Response.fault?, Http.Response.json, Http.Body.content?, h.hasNonFinite,
    hplain.unwritable?]

theorem ofString (s : String) : IsSendable (.ofString s) := .text (isPlain_ofString s)

theorem object {members : List (String × Value)} (h : ∀ m ∈ members, m.2.IsSendable) :
    IsSendable (.object members) := by
  refine .dict ?_ ?_
  · intro e he
    obtain ⟨m, -, rfl⟩ := List.mem_map.mp he
    exact .ofString _
  · intro e he
    obtain ⟨m, hm, rfl⟩ := List.mem_map.mp he
    exact h m hm

theorem of_lookup (h : IsSendable (.dict entries)) {name : Text}
    (hv : lookup name entries = some v) : v.IsSendable := by
  cases h with
  | dict hk hvalues => exact hvalues _ (mem_of_lookup hv)

/-- What is shown of a value in a report can be sent if the value can. -/
theorem withoutHidden (h : v.IsSendable) : v.withoutHidden.IsSendable := by
  induction h with
  | list h ih =>
      refine .list fun v hv => ?_
      obtain ⟨w, hw, rfl⟩ := exists_of_mem_itemsWithoutHidden hv
      exact ih w hw
  | dict hk hv ihk ihv =>
      refine .dict ?_ ?_
      · intro e he
        obtain ⟨e', he', rfl⟩ := exists_of_mem_entriesWithoutHidden he
        exact hk e' he'
      · intro e he
        obtain ⟨e', he', rfl⟩ := exists_of_mem_entriesWithoutHidden he
        exact ihv e' he'
  | null => exact .null
  | bool b => exact .bool b
  | int n => exact .int n
  | real negative units => exact .real negative units
  | text ht => exact .text ht

end IsSendable

end Value

/-- The report of a problem can be sent if the value that has it can. -/
theorem Problem.isSendable_value {p : Problem} (h : p.input.IsSendable) : p.value.IsSendable := by
  have hpath : ∀ v ∈ p.path.map PathStep.value, v.IsSendable := by
    intro v hv
    obtain ⟨step, -, rfl⟩ := List.mem_map.mp hv
    cases step with
    | name s => exact .ofString s
    | index n => exact .int n
  have hcontext : ∀ v, p.kind.context? = some v → v.IsSendable := by
    intro v hv
    unfold ProblemKind.context? at hv
    split at hv
    · obtain rfl := Option.some.inj hv
      exact .object (List.forall_mem_singleton.mpr (.int _))
    · obtain rfl := Option.some.inj hv
      exact .object (List.forall_mem_singleton.mpr (.int _))
    · obtain rfl := Option.some.inj hv
      exact .object (List.forall_mem_singleton.mpr (.object nofun))
    · cases hv
  refine .object (List.forall_mem_append.mpr ⟨?_, ?_⟩)
  · simp only [List.forall_mem_cons]
    exact ⟨.ofString _, .list hpath, .ofString _, h.withoutHidden, nofun⟩
  · split
    · rename_i v hv
      exact List.forall_mem_singleton.mpr (hcontext v hv)
    · exact nofun

/-- A response with a plain detail can be sent. -/
theorem Http.Response.fault?_detail {text : Text} (h : text.IsPlain) (status : Nat) :
    (detail status text).fault? = none :=
  (Value.IsSendable.object (List.forall_mem_singleton.mpr (.text h))).fault?_json status

/-- A response about problems can be sent if the values that have them can. -/
theorem Http.Response.fault?_unprocessable {problems : List Problem}
    (h : ∀ p ∈ problems, p.input.IsSendable) : (unprocessable problems).fault? = none := by
  have hvalues : ∀ v ∈ problems.map Problem.value, v.IsSendable := by
    intro v hv
    obtain ⟨p, hp, rfl⟩ := List.mem_map.mp hv
    exact Problem.isSendable_value (h p hp)
  have hbody : Value.IsSendable (.object [("detail", .list (problems.map Problem.value))]) :=
    .object (List.forall_mem_singleton.mpr (.list hvalues))
  exact hbody.fault?_json 422

end Rulebook
