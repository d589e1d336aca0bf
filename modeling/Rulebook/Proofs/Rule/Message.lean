import Rulebook.Proofs.Rule.Offence
import Rulebook.Proofs.Rule.Quotation
import Rulebook.Proofs.Service.Showing

/-!
What a rule that is refused is told. The words in a message are those of tokens of the rule, so a
plain text is refused with a plain message.
-/

namespace Rulebook

namespace FaultCause

/-- The words that a cause quotes. -/
def words : FaultCause → List Text
  | unterminatedQuote | emptyRule | noCondition | emptyGroup | unmatchedClosing | missingClosing => []
  | refused reason => [reason]
  | missingLeft w | missingRight w | missingField w | unexpected w _ => [w]
  | missingComparator f found => f :: found.toList
  | missingLiteral f c found => f :: c :: found.toList

theorem isPlain_foundText {found : Option Text} (h : ∀ w ∈ found, w.IsPlain) :
    (foundText found).IsPlain := by
  cases found with
  | none => exact Text.isPlain_ofString _
  | some w =>
      exact ((Text.isPlain_ofString _).append (h w rfl)).append (Text.isPlain_ofString _)

theorem isPlain_text {cause : FaultCause} (h : ∀ w ∈ cause.words, w.IsPlain) :
    cause.text.IsPlain := by
  have hs := Text.isPlain_ofString
  cases cause with
  | refused reason => exact h reason (.head _)
  | missingLeft w | missingRight w => exact ((hs _).append (h w (.head _))).append (hs _)
  | missingField w => exact ((hs _).append (h w (.head _))).append (hs _)
  | missingComparator f found =>
      obtain ⟨hf, hfound⟩ := List.forall_mem_cons.mp h
      refine (((hs _).append hf).append (hs _)).append (isPlain_foundText ?_)
      simpa using hfound
  | missingLiteral f c found =>
      obtain ⟨hf, hrest⟩ := List.forall_mem_cons.mp h
      obtain ⟨hc, hfound⟩ := List.forall_mem_cons.mp hrest
      refine (((((hs _).append hf).append (hs _)).append hc).append (hs _)).append
        (isPlain_foundText ?_)
      simpa using hfound
  | unexpected w grouped =>
      refine (((hs _).append (h w (.head _))).append (hs _)).append ?_
      cases grouped <;> exact hs _
  | unterminatedQuote | emptyRule | noCondition | emptyGroup | unmatchedClosing
  | missingClosing => exact hs _

end FaultCause

theorem Fault.isPlain_message {f : Fault} (h : ∀ w ∈ f.cause.words, w.IsPlain) :
    f.message.IsPlain :=
  ((FaultCause.isPlain_text h).append (Text.isPlain_ofString _)).append (Text.isPlain_ofInt _)

/-- The tokens that a spot speaks of. -/
def Spot.tokens : Spot → List Token
  | start | complete _ => []
  | opened o => [o]
  | joined c => [c]
  | named f => [f]
  | compared f c => [f, c]

theorem EndsAt.mem_of_mem_tokens {ts : List Token} {spot : Spot} (h : EndsAt ts spot) :
    ∀ x ∈ spot.tokens, x ∈ ts := by
  cases h with
  | start | complete => exact nofun
  | opened | joined | named => simp [Spot.tokens]
  | compared h =>
      cases h with
      | named => simp [Spot.tokens]

theorem found_eq_some {x : Token} {w : Text} (h : Assembly.found x = some w) : w = x.shown := by
  unfold Assembly.found at h
  split at h
  · cases h
  · exact (Option.some.inj h).symm

/-- The words that a fault quotes are those of the token that commits it, or of the spot. -/
theorem Spot.exists_of_mem_words {spot : Spot} {x : Token} {f : Fault}
    (h : spot.fault? x = some f) : ∀ w ∈ f.cause.words, ∃ t ∈ x :: spot.tokens, w = t.shown := by
  intro w hw
  cases spot with
  | start | opened o | joined c =>
      cases hk : x.kind <;> simp only [fault?, hk] at h
      all_goals try split at h
      all_goals cases h
      all_goals simp_all [FaultCause.words, tokens]
  | named f =>
      simp only [fault?] at h
      split at h
      · cases h
      · cases h
        rcases List.mem_cons.mp hw with rfl | hw
        · exact ⟨f, by simp [tokens], rfl⟩
        · exact ⟨x, .head _, found_eq_some (Option.mem_toList.mp hw)⟩
  | compared f c =>
      simp only [fault?] at h
      split at h
      · cases h
      · cases h
        rcases List.mem_cons.mp hw with rfl | hw
        · exact ⟨f, by simp [tokens], rfl⟩
        rcases List.mem_cons.mp hw with rfl | hw
        · exact ⟨c, by simp [tokens], rfl⟩
        · exact ⟨x, .head _, found_eq_some (Option.mem_toList.mp hw)⟩
  | complete groups =>
      cases hk : x.kind with
      | finish =>
          simp only [fault?, hk] at h
          obtain ⟨o, -, rfl⟩ := Option.map_eq_some_iff.mp h
          cases hw
      | closing =>
          simp only [fault?, hk] at h
          split at h <;> cases h
          cases hw
      | word | opening =>
          simp only [fault?, hk] at h
          cases h
          exact ⟨x, .head _, List.mem_singleton.mp hw⟩
      | and | or => simp [fault?, hk] at h

theorem cause_of_tokenize {text : Text} {f : Fault} (h : tokenize text = .error f) :
    f.cause = .unterminatedQuote := by
  obtain ⟨p, -, rfl⟩ := tokenize_eq_error_iff.mp h
  rfl

theorem Token.isPlain_shown {x : Token} (h : ∀ w ∈ x.value, w.IsPlain) : x.shown.IsPlain := by
  unfold shown
  cases hv : x.value with
  | none => exact Text.isPlain_ofString _
  | some w => exact h w hv

/-- A text that does not compile is refused with a fault, and with a plain message if it is plain.
-/
theorem exists_fault_of_compile {text : Text} (hno : ∀ t, compile text ≠ .ok t) :
    ∃ f, compile text = .error (.fault f) ∧ (text.IsPlain → f.message.IsPlain) := by
  cases htokens : tokenize text with
  | error f =>
      refine ⟨f, by simp only [compile, htokens], fun _ => Fault.isPlain_message ?_⟩
      rw [cause_of_tokenize htokens]
      intro w hw
      cases hw
  | ok tokens =>
      obtain ⟨ts, hl, rfl⟩ := tokenize_eq_ok_iff.mp htokens
      have hcompile : compile text = parseTokens (ts ++ [.finishAt text.length]) := by
        simp only [compile, htokens]
      rw [hcompile] at hno ⊢
      obtain ⟨us, x, spot, f, hus, hx, hends, hf, hparse⟩ := exists_offence hl.isRead _ hno
      refine ⟨f, hparse, fun hplain => Fault.isPlain_message fun w hw => ?_⟩
      have hts : ∀ t ∈ ts ++ [.finishAt text.length], t.shown.IsPlain := by
        refine List.forall_mem_append.mpr ⟨fun t ht => ?_, ?_⟩
        · exact Token.isPlain_shown fun w hw => hplain.of_infix (hl.infix_of_mem t ht w hw)
        · exact List.forall_mem_singleton.mpr (Text.isPlain_ofString _)
      obtain ⟨t, ht, rfl⟩ := Spot.exists_of_mem_words hf w hw
      rcases List.mem_cons.mp ht with rfl | ht
      · exact hts _ (List.mem_of_getElem? hx)
      · have hmem := hus.begins.subset (hends.mem_of_mem_tokens t ht)
        exact hts t (List.mem_append_left _ hmem)

theorem exists_fault_of_compile_error {text : Text} {failure : AssemblyFailure}
    (h : compile text = .error failure) :
    ∃ f, failure = .fault f ∧ (text.IsPlain → f.message.IsPlain) := by
  obtain ⟨f, hf, hplain⟩ := exists_fault_of_compile fun tree htree => nomatch h.symm.trans htree
  exact ⟨f, Except.error.inj (h.symm.trans hf), hplain⟩

end Rulebook
