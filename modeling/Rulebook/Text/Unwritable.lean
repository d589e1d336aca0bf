import Rulebook.Text.Quoted

/-!
Texts that cannot be written as bytes, and the words in which that is reported.
-/

namespace Rulebook.Text

/-- A form in which texts are written: as ASCII, with one byte for every character, or as UTF-8. -/
inductive ByteForm where
  | ascii
  | singleByte
  | utf8
  deriving DecidableEq, Repr

namespace ByteForm

def name : ByteForm → String
  | ascii => "ascii"
  | singleByte => "latin-1"
  | utf8 => "utf-8"

/-- A code point that has bytes in a form. Only halves of surrogate pairs have none in UTF-8. -/
def writes (form : ByteForm) (p : CodePoint) : Bool :=
  match form with
  | ascii => p.toNat < 128
  | singleByte => p.toNat < 256
  | utf8 => !p.isHalf

/-- What a form says of a code point that has no bytes in it. -/
def refusal : ByteForm → String
  | ascii => "ordinal not in range(128)"
  | singleByte => "ordinal not in range(256)"
  | utf8 => "surrogates not allowed"

end ByteForm

/-- Code points, one after the other, that have no bytes in a form, and the place of the first of
them. -/
structure Unwritable where
  form : ByteForm
  position : Nat
  run : Text
  deriving DecidableEq, Repr

/-- The first code points of a text that have no bytes in a form, if there are any. -/
def unwritable? (form : ByteForm) (t : Text) : Option Unwritable :=
  let before := t.takeWhile form.writes
  let run := (t.dropWhile form.writes).takeWhile fun p => !form.writes p
  if run.isEmpty then none else some ⟨form, before.length, run⟩

namespace Unwritable

/-- Which code points are meant: the one, or those from one place to another. -/
def named (u : Unwritable) : Text :=
  match u.run with
  | [p] => "character '" ++ numericEscape p.toNat ++ "' in position " ++ ofNat u.position
  | run =>
    "characters in position " ++ ofNat u.position ++ "-" ++ ofNat (u.position + run.length - 1)

def message (u : Unwritable) : Text :=
  "'" ++ ofString u.form.name ++ "' codec can't encode " ++ u.named ++ ": " ++
    ofString u.form.refusal

end Unwritable

end Rulebook.Text
