import Rulebook.Text.Hex
import Rulebook.Text.Utf8

/-!
Bytes that are no text, and the words in which that is reported. Halves of surrogate pairs have no
bytes here.
-/

namespace Rulebook.Text

/-- What keeps bytes from being a character. -/
inductive ByteFault where
  | leading
  | continuation
  | ending
  deriving DecidableEq, Repr

def ByteFault.reason : ByteFault → String
  | leading => "invalid start byte"
  | continuation => "invalid continuation byte"
  | ending => "unexpected end of data"

/-- The first bytes that are no character, and where they begin. -/
structure Undecodable where
  position : Nat
  bytes : List Nat
  fault : ByteFault
  deriving DecidableEq, Repr

namespace Undecodable

/-- Which bytes are meant: the one, or those from one place to another. -/
def named (u : Undecodable) : Text :=
  match u.bytes with
  | [n] => "byte 0x" ++ hexDigits 2 n ++ " in position " ++ ofNat u.position
  | bytes =>
    "bytes in position " ++ ofNat u.position ++ "-" ++ ofNat (u.position + bytes.length - 1)

def message (u : Undecodable) : Text :=
  "'utf-8' codec can't decode " ++ u.named ++ ": " ++ ofString u.fault.reason

end Undecodable

/-- The text of bytes, or the first of them that are none. A character may have begun: with these
bytes, at this position. -/
def ofUtf8 (position : Nat) (begun : List Nat) (state : Option PartialChar) :
    List Nat → Except Undecodable Text
  | [] => if state.isSome then .error ⟨position, begun, .ending⟩ else .ok []
  | n :: rest =>
    match state with
    | none =>
      if n < 0x80 then (ofUtf8 (position + 1) [] none rest).map (.char (Char.ofNat n) :: ·)
      else match PartialChar.ofLeading? false n with
        | some p => ofUtf8 position [n] (some p) rest
        | none => .error ⟨position, [n], .leading⟩
    | some p =>
      if !p.takes n then .error ⟨position, begun, .continuation⟩
      else if p.toCome ≤ 1 then
        (ofUtf8 (position + begun.length + 1) [] none rest).map (.char (Char.ofNat (p.bitsWith n)) :: ·)
      else ofUtf8 position (begun ++ [n]) (some (p.next n)) rest

end Rulebook.Text
