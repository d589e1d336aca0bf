import Rulebook.Text.Surrogate
import Rulebook.Text.Utf8

/-!
Encodings of texts. Bytes do not say which encoding they are in, but a text that begins with an
ASCII character shows it by where its zero bytes stand; a byte order mark shows it as well.
-/

namespace Rulebook.Text

/-- Which byte of a number comes first. -/
inductive ByteOrder where
  | greatestFirst
  | leastFirst
  deriving DecidableEq, Repr

def ByteOrder.number (order : ByteOrder) (bytes : List Nat) : Nat :=
  match order with
  | greatestFirst => bytes.foldl (fun n b => 0x100 * n + b) 0
  | leastFirst => bytes.foldr (fun b n => 0x100 * n + b) 0

/-- How code points are written as bytes: by one byte or more, in pairs, or in fours. -/
inductive Encoding where
  | bytes
  | pairs (order : ByteOrder)
  | fours (order : ByteOrder)
  deriving DecidableEq, Repr

namespace Encoding

/-- The encoding that a byte order mark names, and the bytes after it. -/
def ofMark? : List Nat → Option (Encoding × List Nat)
  | 0x00 :: 0x00 :: 0xFE :: 0xFF :: rest => some (fours .greatestFirst, rest)
  | 0xFF :: 0xFE :: 0x00 :: 0x00 :: rest => some (fours .leastFirst, rest)
  | 0xFE :: 0xFF :: rest => some (pairs .greatestFirst, rest)
  | 0xFF :: 0xFE :: rest => some (pairs .leastFirst, rest)
  | 0xEF :: 0xBB :: 0xBF :: rest => some (bytes, rest)
  | _ => none

def ofZeros : List Nat → Encoding
  | a :: b :: c :: d :: _ =>
    if a == 0 then (if b == 0 then fours .greatestFirst else pairs .greatestFirst)
    else if b == 0 then (if c == 0 && d == 0 then fours .leastFirst else pairs .leastFirst)
    else bytes
  | [a, b] =>
    if a == 0 then pairs .greatestFirst else if b == 0 then pairs .leastFirst else bytes
  | _ => bytes

def pairNumbers? (order : ByteOrder) : List Nat → Option (List Nat)
  | [] => some []
  | a :: b :: rest => (pairNumbers? order rest).map (order.number [a, b] :: ·)
  | _ => none

def fourPoints? (order : ByteOrder) : List Nat → Option Text
  | [] => some []
  | a :: b :: c :: d :: rest =>
    let n := order.number [a, b, c, d]
    if n < 0x110000 then (fourPoints? order rest).map (.ofNat n :: ·) else none
  | _ => none

def decode? (e : Encoding) (source : List Nat) : Option Text :=
  match e with
  | bytes => ofBytes? none source
  | pairs order => (pairNumbers? order source).map ofUnits
  | fours order => fourPoints? order source

end Encoding

/-- The text of bytes whose encoding has to be found out. -/
def decode? (source : List Nat) : Option Text :=
  match Encoding.ofMark? source with
  | some (e, rest) => e.decode? rest
  | none => (Encoding.ofZeros source).decode? source

end Rulebook.Text
