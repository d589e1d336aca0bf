import Rulebook.Proofs.Http.Content
import Rulebook.Proofs.Rule.RoundTrip
import Rulebook.Proofs.Rule.Storage
import Rulebook.Service.Action

/-!
Showing stored rules. A rule whose tree is that of its text can be shown unless the tree nests too
deep, and what shows it can be sent.
-/

namespace Rulebook

/-- All texts in a tree have a property. -/
def Tree.HasTexts (P : Text → Prop) : Tree → Prop
  | .leaf c => P c.field ∧ P c.comparator ∧ P c.literal
  | .join w left right => P w ∧ left.HasTexts P ∧ right.HasTexts P
  | .hole => True
  | .foreign => True

/-- What a token holds is a part of the text that it lies in. -/
theorem Layout.infix_of_mem {pos : Nat} {text : Text} {ts : List Token} (h : Layout pos text ts) :
    ∀ x ∈ ts, ∀ w ∈ x.value, w <:+: text := by
  induction h with
  | nil pos => nofun
  | blank hc h ih => exact fun x hx w hw => (ih x hx w hw).trans (List.suffix_cons _ _).isInfix
  | opening h ih | closing h ih =>
      refine List.forall_mem_cons.mpr ⟨fun w hw => ?_, fun x hx w hw =>
        (ih x hx w hw).trans (List.suffix_cons _ _).isInfix⟩
      obtain rfl := Option.some.inj hw
      exact (List.prefix_append [_] _).isInfix
  | word hw hr h ih =>
      refine List.forall_mem_cons.mpr ⟨fun w' hw' => ?_, fun x hx w hw =>
        (ih x hx w hw).trans (List.suffix_append _ _).isInfix⟩
      obtain rfl := Option.some.inj hw'
      exact (List.prefix_append _ _).isInfix

/-- The texts in a tree are those of its tokens. -/
theorem Derives.hasTexts {P : Text → Prop} {ℓ : Level} {ts : List Token} {t : Tree}
    (h : Derives ℓ ts t) (hts : ∀ x ∈ ts, ∀ w ∈ x.value, P w) : t.HasTexts P := by
  induction h with
  | ofTerm h ih | ofFactor h ih => exact ih hts
  | or hl hr ihl ihr | and hl hr ihl ihr =>
      simp only [List.forall_mem_append, List.forall_mem_cons] at hts
      exact ⟨hts.2.1 _ rfl, ihl hts.1, ihr hts.2.2⟩
  | group h ih =>
      simp only [List.forall_mem_append, List.forall_mem_cons] at hts
      exact ih hts.1.2
  | comparison hf hc hl =>
      simp only [List.forall_mem_cons] at hts
      exact ⟨hts.1 _ rfl, hts.2.1 _ rfl, hts.2.2.1 _ rfl⟩

/-- The texts in a tree are parts of the rule. -/
theorem hasTexts_of_compile {P : Text → Prop} {text : Text} {t : Tree}
    (h : compile text = .ok t) (htext : ∀ w, w <:+: text → P w) : t.HasTexts P := by
  obtain ⟨ts, hl, hd⟩ := compile_eq_ok_iff.mp h
  exact hd.hasTexts fun x hx w hw => htext w (hl.infix_of_mem x hx w hw)

namespace Tree

/-- The stored form of a tree without holes is a dictionary that nests once for each level. -/
theorem exists_stored {t : Tree} (h : t.isWellFormed = true) :
    ∃ entries, t.stored = .dict entries ∧ Value.entryLevels entries = t.height + 1 := by
  induction t with
  | leaf c =>
      rw [stored_leaf]
      exact ⟨_, rfl, rfl⟩
  | join w l r ihl ihr =>
      simp only [isWellFormed, Bool.and_eq_true] at h
      obtain ⟨ls, hl, hls⟩ := ihl h.1.2
      obtain ⟨rs, hr, hrs⟩ := ihr h.2
      rw [stored_join, hl, hr]
      refine ⟨_, rfl, ?_⟩
      simp only [List.map_cons, List.map_nil, Value.entryLevels, Value.levels, Value.ofString, hls,
        hrs, height]
      omega
  | hole => cases h
  | foreign => cases h

theorem withoutNonFinite_stored (t : Tree) : t.stored.withoutNonFinite = t.stored := by
  induction t with
  | leaf c =>
      rw [stored_leaf]
      rfl
  | join w l r ihl ihr =>
      rw [stored_join]
      simp [storedJoin, Value.object, Value.withoutNonFinite, Value.entriesWithoutNonFinite,
        Value.ofString, ihl, ihr]
  | hole =>
      rw [stored_hole]
      rfl
  | foreign =>
      rw [stored_foreign]
      rfl

theorem isSendable_stored {t : Tree} (h : t.HasTexts Text.IsPlain) : t.stored.IsSendable := by
  induction t with
  | leaf c =>
      obtain ⟨hf, hc, hl⟩ := h
      have hline : c.text.IsPlain :=
        (((hf.append (Text.isPlain_ofString " ")).append hc).append
          (Text.isPlain_ofString " ")).append hl
      rw [stored_leaf]
      refine .object ?_
      simp only [List.forall_mem_cons]
      exact ⟨.ofString _, .text hline, .text hf, .text hc, .text hl, .null, .null, nofun⟩
  | join w l r ihl ihr =>
      obtain ⟨hw, hl, hr⟩ := h
      rw [stored_join]
      refine .object ?_
      simp only [List.forall_mem_cons]
      exact ⟨.ofString _, .text hw, ihl hl, ihr hr, nofun⟩
  | hole =>
      rw [stored_hole]
      exact .null
  | foreign =>
      rw [stored_foreign]
      exact .null

end Tree

namespace Service
variable {rule : StoredRule} {tree : Tree}

/-- What shows a rule with a tree. -/
def ruleValue (rule : StoredRule) (tree : Tree) : Value :=
  .object [("id", .ofString rule.id), ("name", .ofString rule.name), ("rule_text", .text rule.text),
    ("rule_ast", tree.stored)]

theorem shownRule_of_compile (h : compile rule.text = .ok tree) (htree : rule.tree = tree.stored) :
    shownRule rule = if mostShownLevels ≤ tree.height then .error .deepRule
      else .ok (ruleValue rule tree) := by
  obtain ⟨entries, hstored, hlevels⟩ := Tree.exists_stored (isExpressible_of_compile h).wellFormed
  have hfinite := tree.withoutNonFinite_stored
  rw [hstored] at hfinite
  simp only [shownRule, htree, hstored, hlevels, hfinite, ruleValue, Nat.lt_succ_iff]

theorem isSendable_ruleValue (h : compile rule.text = .ok tree) (hplain : rule.text.IsPlain) :
    (ruleValue rule tree).IsSendable := by
  refine .object ?_
  simp only [List.forall_mem_cons]
  have htexts : tree.HasTexts Text.IsPlain := hasTexts_of_compile h fun w hw => hplain.of_infix hw
  exact ⟨.ofString _, .ofString _, .text hplain, Tree.isSendable_stored htexts, nofun⟩

theorem fault?_ruleValue (h : compile rule.text = .ok tree)
    (hwritable : Text.unwritable? .utf8 rule.text = none) (status : Nat) :
    (Http.Response.json status (ruleValue rule tree)).fault? = none :=
  (isSendable_ruleValue h (Text.isPlain_of_unwritable? hwritable)).fault?_json status

/-- A rule with a tree can be shown, and what shows it can be sent. -/
structure IsShown (rule : StoredRule) (tree : Tree) : Prop where
  shown : shownRule rule = .ok (ruleValue rule tree)
  sent : ∀ status, (Http.Response.json status (ruleValue rule tree)).fault? = none

end Service

end Rulebook
