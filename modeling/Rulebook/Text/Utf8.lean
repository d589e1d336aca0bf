import Rulebook.Text.Basic

/-!
Characters as bytes. A character has one to four bytes; the first of them tells how many, and within
which bounds the second lies.
-/

namespace Rulebook.Text

/-- The bytes of a number that is written like a character. -/
def bytesOfNumber (n : Nat) : List Nat :=
  if n < 0x80 then [n]
  else if n < 0x800 then [0xC0 + n / 0x40, 0x80 + n % 0x40]
  else if n < 0x10000 then [0xE0 + n / 0x1000, 0x80 + n / 0x40 % 0x40, 0x80 + n % 0x40]
  else [0xF0 + n / 0x40000, 0x80 + n / 0x1000 % 0x40, 0x80 + n / 0x40 % 0x40, 0x80 + n % 0x40]

def bytesOfChar (c : Char) : List Nat := bytesOfNumber c.toNat

/-- A character that is being read: how many bytes are to come, the bounds of the next one, and the
bits so far. -/
structure PartialChar where
  toCome : Nat
  low : Nat
  high : Nat
  bits : Nat

/-- The character that a leading byte begins. With `halves`, halves of surrogate pairs are read
too. -/
def PartialChar.ofLeading? (halves : Bool) (n : Nat) : Option PartialChar :=
  if 0xC2 ≤ n && n ≤ 0xDF then some ⟨1, 0x80, 0xBF, n - 0xC0⟩
  else if n == 0xE0 then some ⟨2, 0xA0, 0xBF, 0⟩
  else if n == 0xED && !halves then some ⟨2, 0x80, 0x9F, 0xD⟩
  else if 0xE1 ≤ n && n ≤ 0xEF then some ⟨2, 0x80, 0xBF, n - 0xE0⟩
  else if n == 0xF0 then some ⟨3, 0x90, 0xBF, 0⟩
  else if n == 0xF4 then some ⟨3, 0x80, 0x8F, 4⟩
  else if 0xF1 ≤ n && n ≤ 0xF3 then some ⟨3, 0x80, 0xBF, n - 0xF0⟩
  else none

def PartialChar.takes (p : PartialChar) (n : Nat) : Bool := p.low ≤ n && n ≤ p.high

def PartialChar.bitsWith (p : PartialChar) (n : Nat) : Nat := 0x40 * p.bits + (n - 0x80)

/-- The character after its next byte, which is not the last. -/
def PartialChar.next (p : PartialChar) (n : Nat) : PartialChar :=
  ⟨p.toCome - 1, 0x80, 0xBF, p.bitsWith n⟩

/-- The characters of bytes. A character that is broken off counts as one replacement. -/
def charsOfBytes (state : Option PartialChar) : List Nat → List Char
  | [] => if state.isSome then ['\ufffd'] else []
  | n :: rest =>
    let fresh (done : List Char) : List Char :=
      if n < 0x80 then done ++ Char.ofNat n :: charsOfBytes none rest
      else match PartialChar.ofLeading? false n with
        | some p => done ++ charsOfBytes (some p) rest
        | none => done ++ '\ufffd' :: charsOfBytes none rest
    match state with
    | none => fresh []
    | some p =>
      if p.takes n then
        if p.toCome ≤ 1 then Char.ofNat (p.bitsWith n) :: charsOfBytes none rest
        else charsOfBytes (some (p.next n)) rest
      else fresh ['\ufffd']

/-- The text of bytes, if nothing in it is broken off. Halves of surrogate pairs are read too. -/
def ofBytes? (state : Option PartialChar) : List Nat → Option Text
  | [] => if state.isSome then none else some []
  | n :: rest =>
    match state with
    | none =>
      if n < 0x80 then (ofBytes? none rest).map (.char (Char.ofNat n) :: ·)
      else (PartialChar.ofLeading? true n).bind fun p => ofBytes? (some p) rest
    | some p =>
      if !p.takes n then none
      else if p.toCome ≤ 1 then (ofBytes? none rest).map (.ofNat (p.bitsWith n) :: ·)
      else ofBytes? (some (p.next n)) rest

end Rulebook.Text
