import Rulebook.Proofs.Text.Plain
import Rulebook.Text.Encoding
import Rulebook.Text.Undecodable

/-!
The bytes of a string are read back as its text. What is read strictly is plain, and bytes that are
refused stand where their report says.
-/

namespace Rulebook

theorem CodePoint.ofNat_toNat (c : Char) : CodePoint.ofNat c.toNat = .char c := by
  have hvalid : ¬ (firstHalf ≤ c.toNat ∧ c.toNat - firstHalf < 2048) := by
    have := c.valid
    simp only [UInt32.isValidChar, Nat.isValidChar] at this
    simp only [firstHalf, Char.toNat]
    omega
  rw [CodePoint.ofNat, dif_neg hvalid, Char.ofNat_toNat]

namespace Text

section
variable {k n : Nat} {rest : List Nat} {p : PartialChar}

theorem PartialChar.ofLeading?_two (hleast : 2 ≤ k) (hmost : k < 0x20) :
    ofLeading? true (0xC0 + k) = some ⟨1, 0x80, 0xBF, k⟩ := by
  rw [ofLeading?, if_pos (by simp; omega), Nat.add_sub_cancel_left]

/-- The second of three bytes is bounded so that two would not do. -/
theorem PartialChar.ofLeading?_three (hmost : k < 0x10) :
    ofLeading? true (0xE0 + k) = some ⟨2, if k = 0 then 0xA0 else 0x80, 0xBF, k⟩ := by
  cases k with
  | zero => rfl
  | succ k =>
      rw [ofLeading?, if_neg (by simp; omega), if_neg (by simp), if_neg (by simp),
        if_pos (by simp; omega), if_neg (Nat.succ_ne_zero k), Nat.add_sub_cancel_left]

/-- The second of four bytes is bounded so that three would not do, and by the last character. -/
theorem PartialChar.ofLeading?_four (hmost : k < 5) :
    ofLeading? true (0xF0 + k) =
      some ⟨3, if k = 0 then 0x90 else 0x80, if k = 4 then 0x8F else 0xBF, k⟩ := by
  match k with
  | 0 | 1 | 2 | 3 | 4 => rfl

variable {a b c m low high bits : Nat}

theorem ofBytes?_leading (hlarge : 0x80 ≤ n) (hp : PartialChar.ofLeading? true n = some p) :
    ofBytes? none (n :: rest) = ofBytes? (some p) rest := by
  simp [ofBytes?, Nat.not_lt_of_le hlarge, hp]

theorem ofBytes?_takes (hlow : p.low ≤ n) (hhigh : n ≤ p.high) :
    ofBytes? (some p) (n :: rest) = if p.toCome ≤ 1 then
      (ofBytes? none rest).map (.ofNat (p.bitsWith n) :: ·)
      else ofBytes? (some (p.next n)) rest := by
  have htakes : p.takes n = true := by simp [PartialChar.takes, hlow, hhigh]
  simp [ofBytes?, htakes]

theorem ofBytes?_next (hlow : low ≤ 0x80 + a) (hhigh : 0x80 + a ≤ high) :
    ofBytes? (some ⟨m + 2, low, high, bits⟩) ((0x80 + a) :: rest) =
      ofBytes? (some ⟨m + 1, 0x80, 0xBF, 0x40 * bits + a⟩) rest := by
  have hbits : 0x80 + a - 0x80 = a := Nat.add_sub_cancel_left 0x80 a
  rw [ofBytes?_takes hlow hhigh]
  unfold PartialChar.next PartialChar.bitsWith
  rw [hbits]
  rfl

theorem ofBytes?_last (ha : a < 0x40) :
    ofBytes? (some ⟨1, 0x80, 0xBF, bits⟩) ((0x80 + a) :: rest) =
      (ofBytes? none rest).map (.ofNat (0x40 * bits + a) :: ·) := by
  have hbits : 0x80 + a - 0x80 = a := Nat.add_sub_cancel_left 0x80 a
  have hhigh : 0x80 + a ≤ 0xBF := by omega
  rw [ofBytes?_takes (Nat.le_add_right 0x80 a) hhigh]
  unfold PartialChar.bitsWith
  rw [hbits]
  rfl

theorem ofBytes?_two (hleast : 2 ≤ k) (hk : k < 0x20) (ha : a < 0x40) :
    ofBytes? none ([0xC0 + k, 0x80 + a] ++ rest) =
      (ofBytes? none rest).map (.ofNat (0x40 * k + a) :: ·) := by
  simp only [List.cons_append, List.nil_append]
  rw [ofBytes?_leading (by omega) (PartialChar.ofLeading?_two hleast hk), ofBytes?_last ha]

theorem ofBytes?_three (hk : k < 0x10) (hleast : k = 0 → 0x20 ≤ a) (ha : a < 0x40)
    (hb : b < 0x40) : ofBytes? none ([0xE0 + k, 0x80 + a, 0x80 + b] ++ rest) =
      (ofBytes? none rest).map (.ofNat (0x40 * (0x40 * k + a) + b) :: ·) := by
  simp only [List.cons_append, List.nil_append]
  rw [ofBytes?_leading (by omega) (PartialChar.ofLeading?_three hk),
    ofBytes?_next (by split <;> omega) (by omega), ofBytes?_last hb]

theorem ofBytes?_four (hk : k < 5) (hleast : k = 0 → 0x10 ≤ a) (hmost : k = 4 → a < 0x10)
    (ha : a < 0x40) (hb : b < 0x40) (hc : c < 0x40) :
    ofBytes? none ([0xF0 + k, 0x80 + a, 0x80 + b, 0x80 + c] ++ rest) =
      (ofBytes? none rest).map (.ofNat (0x40 * (0x40 * (0x40 * k + a) + b) + c) :: ·) := by
  simp only [List.cons_append, List.nil_append]
  rw [ofBytes?_leading (by omega) (PartialChar.ofLeading?_four hk),
    ofBytes?_next (by split <;> omega) (by split <;> omega),
    ofBytes?_next (Nat.le_add_right ..) (by omega), ofBytes?_last hc]

theorem ofBytes?_bytesOfNumber (hleast : 0x80 ≤ n) (hmost : n < 0x110000) :
    ofBytes? none (bytesOfNumber n ++ rest) = (ofBytes? none rest).map (.ofNat n :: ·) := by
  unfold bytesOfNumber
  split
  · omega
  split
  · have hn : 0x40 * (n / 0x40) + n % 0x40 = n := Nat.div_add_mod n 0x40
    exact (ofBytes?_two (by omega) (by omega) (by omega)).trans (by rw [hn])
  split
  · have hn : 0x40 * (0x40 * (n / 0x1000) + n / 0x40 % 0x40) + n % 0x40 = n := by omega
    exact (ofBytes?_three (by omega) (by omega) (by omega) (by omega)).trans (by rw [hn])
  · have hn : 0x40 * (0x40 * (0x40 * (n / 0x40000) + n / 0x1000 % 0x40) + n / 0x40 % 0x40) +
        n % 0x40 = n := by omega
    exact (ofBytes?_four (by omega) (by omega) (by omega) (by omega) (by omega) (by omega)).trans
      (by rw [hn])

theorem toNat_lt (c : Char) : c.toNat < 0x110000 := by
  have := c.valid
  simp only [UInt32.isValidChar, Nat.isValidChar] at this
  simp only [Char.toNat]
  omega

theorem ofBytes?_bytesOfChar (c : Char) :
    ofBytes? none (bytesOfChar c ++ rest) = (ofBytes? none rest).map (.char c :: ·) := by
  unfold bytesOfChar
  by_cases hone : c.toNat < 0x80
  · simp [bytesOfNumber, hone, ofBytes?]
  · rw [ofBytes?_bytesOfNumber (by omega) (toNat_lt c), CodePoint.ofNat_toNat]

theorem ofBytes?_flatMap (cs : List Char) :
    ofBytes? none (cs.flatMap bytesOfChar) = some (ofChars cs) := by
  induction cs with
  | nil => rfl
  | cons c cs ih =>
      rw [List.flatMap_cons, ofBytes?_bytesOfChar, ih]
      rfl

end

theorem toNat_ofNat_of_lt (h : n < 0x100) : (UInt8.ofNat n).toNat = n := by
  rw [UInt8.toNat_ofNat', Nat.mod_eq_of_lt h]

theorem map_toNat_utf8EncodeChar (c : Char) :
    (String.utf8EncodeChar c).map UInt8.toNat = bytesOfChar c := by
  have hmost : c.val.toNat < 0x110000 := toNat_lt c
  unfold String.utf8EncodeChar bytesOfChar bytesOfNumber
  rw [Char.toNat]
  generalize c.val.toNat = n at hmost
  dsimp only
  by_cases hone : n ≤ 0x7F
  · rw [if_pos hone, if_pos (show n < 0x80 by omega), List.map_singleton,
      toNat_ofNat_of_lt (by omega)]
  rw [if_neg hone, if_neg (show ¬ n < 0x80 by omega)]
  by_cases htwo : n ≤ 0x7FF
  · rw [if_pos htwo, if_pos (show n < 0x800 by omega)]
    simp (disch := omega) only [List.map_cons, List.map_nil, toNat_ofNat_of_lt]
    simp only [List.cons.injEq, and_true]
    omega
  rw [if_neg htwo, if_neg (show ¬ n < 0x800 by omega)]
  by_cases hthree : n ≤ 0xFFFF
  · rw [if_pos hthree, if_pos (show n < 0x10000 by omega)]
    simp (disch := omega) only [List.map_cons, List.map_nil, toNat_ofNat_of_lt]
    simp only [List.cons.injEq, and_true]
    omega
  · rw [if_neg hthree, if_neg (show ¬ n < 0x10000 by omega)]
    simp (disch := omega) only [List.map_cons, List.map_nil, toNat_ofNat_of_lt]
    simp only [List.cons.injEq, and_true]
    omega

theorem toList_loop (bytes : ByteArray) (i : Nat) (done : List UInt8) :
    ByteArray.toList.loop bytes i done = done.reverse ++ bytes.data.toList.drop i := by
  fun_induction ByteArray.toList.loop bytes i done with
  | case1 i done h ih =>
      have hi : i < bytes.data.toList.length := by simpa using h
      rw [ih, List.drop_eq_getElem_cons hi]
      simp [ByteArray.get!, h]
  | case2 i done h =>
      rw [List.drop_eq_nil_of_le (by simpa using Nat.le_of_not_lt h), List.append_nil]

/-- The bytes of a string are those of its characters. -/
theorem map_toNat_toUTF8 (s : String) :
    s.toUTF8.toList.map UInt8.toNat = s.toList.flatMap bytesOfChar := by
  have hbytes : s.toUTF8.toList = s.toList.flatMap String.utf8EncodeChar := by
    rw [ByteArray.toList, toList_loop, List.reverse_nil, List.nil_append, List.drop_zero]
    conv => lhs; rw [← String.ofList_toList (s := s)]
    rw [String.toUTF8, String.toByteArray_ofList, List.utf8Encode, List.toList_data_toByteArray]
  rw [hbytes, List.map_flatMap]
  simp only [map_toNat_utf8EncodeChar]

section
variable {a b : Nat} {rest : List Nat}

theorem ofMark?_of_ascii (hpos : 0 < a) (hascii : a < 0x80) :
    Encoding.ofMark? (a :: rest) = none := by
  unfold Encoding.ofMark?
  split
  case h_6 => rfl
  all_goals
    rename_i heq
    have ha := (List.cons.inj heq).1
    omega

theorem ofZeros_of_ascii (ha : 0 < a) (hb : 0 < b) :
    Encoding.ofZeros (a :: b :: rest) = .bytes := by
  have ha' : (a == 0) = false := beq_false_of_ne (Nat.ne_of_gt ha)
  have hb' : (b == 0) = false := beq_false_of_ne (Nat.ne_of_gt hb)
  match rest with
  | [] | [_] | _ :: _ :: _ => simp [Encoding.ofZeros, ha', hb']

end

section
variable {position : Nat} {begun source : List Nat} {state : Option PartialChar} {c : Char}
  {read : Except Undecodable Text} {t : Text} {u : Undecodable}

theorem isPlain_of_map_cons (h : read.map (.char c :: ·) = .ok t)
    (hread : ∀ rest, read = .ok rest → IsPlain rest) : IsPlain t := by
  cases read with
  | error u => cases h
  | ok rest =>
      cases h
      exact .cons c (hread rest rfl)

theorem error_of_map_cons (h : read.map (.char c :: ·) = .error u) : read = .error u := by
  cases read with
  | error u' =>
      cases h
      rfl
  | ok rest => cases h

/-- What is read strictly are characters. -/
theorem isPlain_of_ofUtf8 (h : ofUtf8 position begun state source = .ok t) : IsPlain t := by
  induction source generalizing position begun state t with
  | nil =>
      unfold ofUtf8 at h
      split at h
      · cases h
      · cases h
        exact isPlain_nil
  | cons n rest ih =>
      unfold ofUtf8 at h
      split at h
      · split at h
        · exact isPlain_of_map_cons h fun _ => ih
        · split at h
          · exact ih h
          · cases h
      · split at h
        · cases h
        · split at h
          · exact isPlain_of_map_cons h fun _ => ih
          · exact ih h

/-- Bytes that are refused stand at the position of their report. -/
theorem exists_of_ofUtf8_error {before : List Nat} (hbegun : state = none → begun = [])
    (h : ofUtf8 before.length begun state source = .error u) :
    ∃ sound rest, before ++ begun ++ source = sound ++ u.bytes ++ rest ∧
      u.position = sound.length := by
  induction source generalizing before begun state with
  | nil =>
      unfold ofUtf8 at h
      split at h
      · cases h
        exact ⟨before, [], rfl, rfl⟩
      · cases h
  | cons n rest ih =>
      -- a character is complete with this byte, and the next one begins behind it
      have hnext (h : ofUtf8 (before.length + begun.length + 1) [] none rest = .error u) :
          ∃ sound behind, before ++ begun ++ n :: rest = sound ++ u.bytes ++ behind ∧
            u.position = sound.length := by
        have hlength : before.length + begun.length + 1 = (before ++ begun ++ [n]).length := by
          simp [Nat.add_assoc]
        rw [hlength] at h
        simpa using ih (fun _ => rfl) h
      unfold ofUtf8 at h
      split at h
      · obtain rfl := hbegun rfl
        split at h
        · exact hnext (error_of_map_cons h)
        · split at h
          · simpa using ih (by simp) h
          · cases h
            exact ⟨before, rest, by simp, rfl⟩
      · split at h
        · cases h
          exact ⟨before, n :: rest, rfl, rfl⟩
        · split at h
          · exact hnext (error_of_map_cons h)
          · simpa using ih (by simp) h

end

/-- A string that begins with two ASCII characters is read back from its bytes. -/
theorem decode?_toUTF8 {s : String} {a b : Char} {cs : List Char} (hs : s.toList = a :: b :: cs)
    (ha : 0 < a.toNat ∧ a.toNat < 0x80) (hb : 0 < b.toNat ∧ b.toNat < 0x80) :
    decode? (s.toUTF8.toList.map UInt8.toNat) = some (ofString s) := by
  have hone {c : Char} (hc : c.toNat < 0x80) : bytesOfChar c = [c.toNat] := if_pos hc
  have hbytes : s.toList.flatMap bytesOfChar = a.toNat :: b.toNat :: cs.flatMap bytesOfChar := by
    rw [hs, List.flatMap_cons, List.flatMap_cons, hone ha.2, hone hb.2]
    rfl
  rw [map_toNat_toUTF8, decode?, hbytes, ofMark?_of_ascii ha.1 ha.2, ofZeros_of_ascii ha.1 hb.1,
    ← hbytes]
  exact ofBytes?_flatMap s.toList

end Text

end Rulebook
