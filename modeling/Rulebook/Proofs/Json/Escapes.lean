import Mathlib.Data.List.Chain
import Rulebook.Json.Printer
import Rulebook.Proofs.Json.Ending
import Rulebook.Proofs.Text.Plain
import Rulebook.Proofs.Text.Utf8

/-!
Texts that were written are read back, characters that have to be escaped among them. Only a high
half with a low half right behind it would be read as one character.
-/

namespace Rulebook

/-- No two halves in a text stand so that they make a pair. -/
def Text.IsUnpaired (t : Text) : Prop :=
  List.IsChain (fun p q : CodePoint => Text.isHighSurrogate p.toNat = true →
    Text.isLowSurrogate q.toNat = false) t

/-- The number of a character lies outside of the range of the halves. -/
theorem CodePoint.toNat_char_bounds (c : Char) :
    (c.toNat < 0xD800 ∨ 0xDFFF < c.toNat) ∧ c.toNat < 0x110000 := by
  have := c.valid
  simp only [UInt32.isValidChar, Nat.isValidChar] at this
  simp only [Char.toNat]
  omega

theorem CodePoint.ofNat_half {n : Nat} (h : n < 2048) :
    ofNat (firstHalf + n) = half ⟨n, h⟩ := by
  have hsub : firstHalf + n - firstHalf = n := Nat.add_sub_cancel_left ..
  have hbounds : firstHalf ≤ firstHalf + n ∧ firstHalf + n - firstHalf < 2048 := by
    rw [hsub]
    exact ⟨Nat.le_add_right _ _, h⟩
  rw [ofNat, dif_pos hbounds]
  congr

theorem CodePoint.toNat_lt (p : CodePoint) : p.toNat < 0x110000 := by
  cases p with
  | char c => exact (toNat_char_bounds c).2
  | half i =>
      have := i.isLt
      simp only [toNat, firstHalf]
      omega

/-- A code point is that of its number. -/
theorem CodePoint.ofNat_toNat_self (p : CodePoint) : ofNat p.toNat = p := by
  cases p with
  | char c => exact ofNat_toNat c
  | half i => exact ofNat_half i.isLt

namespace Text

theorem isHighSurrogate_char (c : Char) : isHighSurrogate c.toNat = false := by
  have := (CodePoint.toNat_char_bounds c).1
  simp only [isHighSurrogate, Bool.and_eq_false_iff, decide_eq_false_iff_not]
  omega

theorem IsPlain.isUnpaired {t : Text} (h : t.IsPlain) : t.IsUnpaired := by
  induction t with
  | nil => exact .nil
  | cons p t ih =>
      obtain ⟨hp, ht⟩ := List.forall_mem_cons.mp h
      refine List.isChain_cons.mpr ⟨?_, ih ht⟩
      intro q hq hhigh
      cases p with
      | char c =>
          rw [CodePoint.toNat, isHighSurrogate_char] at hhigh
          cases hhigh
      | half i => cases hp

/-- Parts of a text without pairs have none. -/
theorem IsUnpaired.of_infix {t u : Text} (ht : t.IsUnpaired) (h : u <:+: t) : u.IsUnpaired :=
  List.IsChain.infix ht h

/-- Halves on the two sides of a blank make no pair. -/
theorem IsUnpaired.append_blank {t u : Text} (ht : t.IsUnpaired) (hu : u.IsUnpaired) :
    (t ++ " " ++ u).IsUnpaired := by
  have hlast : (t ++ " ").IsUnpaired := by
    refine List.isChain_append.mpr ⟨ht, .singleton _, ?_⟩
    rintro p - q ⟨⟩ -
    decide
  refine List.isChain_append.mpr ⟨hlast, hu, ?_⟩
  rintro p hp q - hhigh
  have hblank : (t ++ (" " : Text)).getLast? = some (.char ' ') := List.getLast?_concat ..
  obtain rfl := Option.some.inj (hblank.symm.trans hp)
  cases hhigh

end Text

namespace Json

theorem hexDigit?_digitChar : ∀ d < 16, Text.hexDigit? (.char (Nat.digitChar d)) = some d := by
  decide

/-- A code unit is read back from its escape. -/
theorem readParts_unitEscape {n : Nat} (hn : n < 0x10000) (t : Text) :
    readParts (unitEscape n ++ t) = (readParts t).map fun r => (.unit n :: r.1, r.2) := by
  have hdigit (k : Nat) : Text.hexDigit? (.char (Nat.digitChar (k % 16))) = some (k % 16) :=
    hexDigit?_digitChar _ (Nat.mod_lt k (by decide))
  have hfour : hexFour? (.char (Nat.digitChar (n / 16 / 16 / 16 % 16)))
      (.char (Nat.digitChar (n / 16 / 16 % 16))) (.char (Nat.digitChar (n / 16 % 16)))
      (.char (Nat.digitChar (n % 16))) = some n := by
    simp only [hexFour?, hdigit]
    change some _ = some n
    congr 1
    omega
  change readParts (.char '\\' :: .char 'u' :: _ :: _ :: _ :: _ :: t) = _
  rw [readParts, hfour]

/-- What the parts of a text stand for: a plain one for itself, units for the code point that they
encode. -/
inductive Shows : List TextPart → Text → Prop
  | nil : Shows [] []
  | plain (p : CodePoint) {ps t} : Shows ps t → Shows (.plain p :: ps) (p :: t)
  | units (p : CodePoint) {ps t} : Shows ps t →
      Shows ((Text.unitsOfNumber p.toNat).map .unit ++ ps) (p :: t)

section
variable {n : Nat} {p : CodePoint} {t rest : Text} {ps : List TextPart}

theorem joinParts_unit (h : ∀ m, ps.head? = some (.unit m) →
      Text.isHighSurrogate n = true → Text.isLowSurrogate m = false) :
    joinParts (.unit n :: ps) = .ofNat n :: joinParts ps := by
  rcases ps with _ | ⟨⟨q⟩ | ⟨m⟩, ps⟩
  · rfl
  · rfl
  · have hpair : ¬ (Text.isHighSurrogate n && Text.isLowSurrogate m) = true := by
      rw [Bool.and_eq_true]
      rintro ⟨hhigh, hlow⟩
      rw [h m rfl hhigh] at hlow
      cases hlow
    rw [joinParts, if_neg hpair]

/-- The units of a character beyond the first plane are read as that character. -/
theorem joinParts_pair {c : Char} (hc : 0x10000 ≤ c.toNat) :
    joinParts ((Text.unitsOfNumber c.toNat).map .unit ++ ps) = .char c :: joinParts ps := by
  have hmost := (CodePoint.toNat_char_bounds c).2
  have hhigh : Text.isHighSurrogate (0xD800 + (c.toNat - 0x10000) / 0x400) = true := by
    simp only [Text.isHighSurrogate, Bool.and_eq_true, decide_eq_true_eq]
    omega
  have hlow : Text.isLowSurrogate (0xDC00 + (c.toNat - 0x10000) % 0x400) = true := by
    simp only [Text.isLowSurrogate, Bool.and_eq_true, decide_eq_true_eq]
    omega
  have hjoin : Text.joinSurrogates (0xD800 + (c.toNat - 0x10000) / 0x400)
      (0xDC00 + (c.toNat - 0x10000) % 0x400) = c := by
    have hnumber : 0x10000 + (0xD800 + (c.toNat - 0x10000) / 0x400 - 0xD800) * 0x400 +
        (0xDC00 + (c.toNat - 0x10000) % 0x400 - 0xDC00) = c.toNat := by omega
    rw [Text.joinSurrogates, hnumber, Char.ofNat_toNat]
  rw [Text.unitsOfNumber, if_neg (Nat.not_lt.mpr hc)]
  simp only [List.map_cons, List.map_nil, List.cons_append, List.nil_append, joinParts, hhigh, hlow,
    Bool.and_self, if_true, hjoin]

theorem unitsOfNumber_of_lt (h : n < 0x10000) : Text.unitsOfNumber n = [n] := if_pos h

/-- A low unit stands in front only where a low half does. -/
theorem Shows.low_head (h : Shows ps t) {m : Nat} (hm : ps.head? = some (.unit m))
    (hlow : Text.isLowSurrogate m = true) :
    ∃ q ∈ t.head?, Text.isLowSurrogate q.toNat = true := by
  cases h with
  | nil => cases hm
  | plain p h => cases hm
  | units p h =>
      refine ⟨p, rfl, ?_⟩
      by_cases hone : p.toNat < 0x10000
      · rw [unitsOfNumber_of_lt hone] at hm
        cases hm
        exact hlow
      · -- the first unit of a pair is a high one
        have hmost := p.toNat_lt
        rw [Text.unitsOfNumber, if_neg hone] at hm
        cases hm
        simp only [Text.isLowSurrogate, Bool.and_eq_true, decide_eq_true_eq] at hlow
        omega

theorem Shows.joinParts_eq (h : Shows ps t) (ht : t.IsUnpaired) : joinParts ps = t := by
  induction h with
  | nil => rfl
  | plain p h ih => rw [joinParts, ih ht.tail]
  | @units p ps t h ih =>
      have hrest : joinParts ps = t := ih ht.tail
      by_cases hone : p.toNat < 0x10000
      · rw [unitsOfNumber_of_lt hone, List.map_singleton, List.singleton_append, joinParts_unit,
          CodePoint.ofNat_toNat_self, hrest]
        intro m hm hhigh
        rw [Bool.eq_false_iff]
        intro hlow
        obtain ⟨q, hq, hqlow⟩ := h.low_head hm hlow
        rw [(List.isChain_cons.mp ht).1 q hq hhigh] at hqlow
        cases hqlow
      · cases p with
        | char c => rw [CodePoint.toNat, joinParts_pair (Nat.le_of_not_lt hone), hrest]
        | half i =>
            have := i.isLt
            simp only [CodePoint.toNat, CodePoint.firstHalf] at hone
            omega

theorem readParts_units {ns : List Nat} (h : ∀ n ∈ ns, n < 0x10000) (t : Text) :
    readParts (ns.flatMap unitEscape ++ t) =
      (readParts t).map fun r => (ns.map .unit ++ r.1, r.2) := by
  induction ns with
  | nil => exact Option.map_id'.symm
  | cons n ns ih =>
      obtain ⟨hn, hns⟩ := List.forall_mem_cons.mp h
      rw [List.flatMap_cons, List.append_assoc, readParts_unitEscape hn, ih hns, Option.map_map]
      rfl

theorem lt_of_mem_unitsOfNumber (p : CodePoint) :
    ∀ n ∈ Text.unitsOfNumber p.toNat, n < 0x10000 := by
  have hmost := p.toNat_lt
  intro n hn
  unfold Text.unitsOfNumber at hn
  split at hn
  · rw [List.mem_singleton] at hn
    omega
  · simp only [List.mem_cons, List.not_mem_nil, or_false] at hn
    omega

/-- A code point is written so that it is read as a plain part or as its units. -/
theorem readParts_writtenChar (inAscii : Bool) (p : CodePoint) (t : Text) :
    readParts (writtenChar inAscii p ++ t) =
        (readParts t).map (fun r => (.plain p :: r.1, r.2)) ∨
      readParts (writtenChar inAscii p ++ t) =
        (readParts t).map fun r => ((Text.unitsOfNumber p.toNat).map .unit ++ r.1, r.2) := by
  unfold writtenChar
  split
  · rename_i h
    left
    simp only [Bool.or_eq_true, beq_iff_eq] at h
    rcases h with rfl | rfl <;> exact readParts_escape rfl
  rename_i hmark
  simp only [Bool.or_eq_true, beq_iff_eq, not_or] at hmark
  -- the five control characters that have a letter of their own
  iterate 5
    split
    · rename_i h
      obtain rfl := eq_of_beq h
      exact .inl (readParts_escape rfl)
  split
  · rename_i h
    simp only [Bool.and_eq_true, decide_eq_true_eq] at h
    exact .inl (readParts_plain hmark.1 hmark.2 (Nat.not_lt.mpr h.1))
  · exact .inr (readParts_units (lt_of_mem_unitsOfNumber p) t)

/-- A written text is read back up to its closing mark. -/
theorem readParts_written (inAscii : Bool) (t rest : Text) : ∃ ps, Shows ps t ∧
    readParts (t.flatMap (writtenChar inAscii) ++ .char '\x22' :: rest) = some (ps, rest) := by
  induction t with
  | nil => exact ⟨[], .nil, rfl⟩
  | cons p t ih =>
      obtain ⟨ps, hps, hread⟩ := ih
      rw [List.flatMap_cons, List.append_assoc]
      rcases readParts_writtenChar inAscii p (t.flatMap (writtenChar inAscii) ++
        .char '\x22' :: rest) with h | h
      · exact ⟨_, .plain p hps, by rw [h, hread]; rfl⟩
      · exact ⟨_, .units p hps, by rw [h, hread]; rfl⟩

theorem readText_written (inAscii : Bool) (ht : t.IsUnpaired) (rest : Text) :
    readText (t.flatMap (writtenChar inAscii) ++ .char '\x22' :: rest) = .ok (t, rest) := by
  obtain ⟨ps, hps, hread⟩ := readParts_written inAscii t rest
  simp only [readText, hread, hps.joinParts_eq ht]

end

/-- A code point of ASCII. -/
def IsAscii (p : CodePoint) : Prop := p.toNat < 128

instance : DecidablePred IsAscii := fun p => inferInstanceAs (Decidable (p.toNat < 128))

theorem isAscii_unitEscape (n : Nat) : ∀ p ∈ unitEscape n, IsAscii p := by
  have hdigit : ∀ d < 16, IsAscii (.char (Nat.digitChar d)) := by decide
  refine List.forall_mem_cons.mpr ⟨by decide, List.forall_mem_cons.mpr ⟨by decide, ?_⟩⟩
  intro p hp
  obtain ⟨d, hd, rfl⟩ := Text.exists_digit_of_mem hp
  exact hdigit d hd

/-- All but ASCII is escaped where that is asked for. -/
theorem isAscii_writtenChar (c : CodePoint) : ∀ p ∈ writtenChar true c, IsAscii p := by
  unfold writtenChar
  split
  · rename_i h
    simp only [Bool.or_eq_true, beq_iff_eq] at h
    rcases h with rfl | rfl <;> decide
  iterate 5
    split
    · decide
  split
  · rename_i h
    simp only [Bool.not_true, Bool.or_false, Bool.and_eq_true, decide_eq_true_eq] at h
    exact List.forall_mem_singleton.mpr (Nat.lt_of_le_of_lt h.2 (by decide))
  · intro p hp
    obtain ⟨n, -, hn⟩ := List.mem_flatMap.mp hp
    exact isAscii_unitEscape n p hn

theorem isAscii_writtenText (t : Text) : ∀ p ∈ writtenText true t, IsAscii p := by
  refine List.forall_mem_append.mpr ⟨List.forall_mem_cons.mpr ⟨by decide, ?_⟩, by decide⟩
  intro p hp
  obtain ⟨c, -, hc⟩ := List.mem_flatMap.mp hp
  exact isAscii_writtenChar c p hc

end Json

end Rulebook
