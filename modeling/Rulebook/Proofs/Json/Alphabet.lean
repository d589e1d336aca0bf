import Rulebook.Json.Printer

/-!
The code points that a value is written with. If those of its scalars, of its keys and of the style
are of one kind, then all are.
-/

namespace Rulebook.Json

/-- The code points that a style adds to what it writes are of a kind. -/
structure Style.IsIn (P : CodePoint → Prop) (style : Style) : Prop where
  brackets : ∀ p ∈ ("[]\x7b\x7d" : Text), P p
  first : ∀ level, ∀ p ∈ style.first level, P p
  between : ∀ level, ∀ p ∈ style.between level, P p
  last : ∀ level, ∀ p ∈ style.last level, P p
  afterKey : ∀ p ∈ style.afterKey, P p

/-- A value is written in code points of a kind, whatever text of that kind follows it. -/
def WritesIn (P : CodePoint → Prop) (style : Style) (v : Value) : Prop :=
  ∀ level rest, (∀ p ∈ rest, P p) → ∀ p ∈ written style level v rest, P p

theorem writesIn_scalar {P : CodePoint → Prop} {style : Style} {v : Value}
    (hwritten : ∀ level rest, written style level v rest = writtenScalar style.inAscii v ++ rest)
    (h : ∀ p ∈ writtenScalar style.inAscii v, P p) : WritesIn P style v := by
  intro level rest hrest
  rw [hwritten]
  exact List.forall_mem_append.mpr ⟨h, hrest⟩

section
variable {P : CodePoint → Prop} {style : Style} {items : List Value}
  {entries : List (Value × Value)} {level : Nat} {rest : Text} (hs : style.IsIn P)
include hs

theorem forall_mem_writtenItems (h : ∀ v ∈ items, WritesIn P style v) (hrest : ∀ p ∈ rest, P p) :
    ∀ p ∈ writtenItems style level items rest, P p := by
  induction items with
  | nil => exact hrest
  | cons v items ih =>
      obtain ⟨hv, hitems⟩ := List.forall_mem_cons.mp h
      exact List.forall_mem_append.mpr ⟨hs.between level, hv _ _ (ih hitems)⟩

theorem writesIn_list (h : ∀ v ∈ items, WritesIn P style v) : WritesIn P style (.list items) := by
  intro level rest hrest
  have hopen : P '[' := hs.brackets _ (by decide)
  have hclose : P ']' := hs.brackets _ (by decide)
  have hend : ∀ p ∈ CodePoint.char ']' :: rest, P p := List.forall_mem_cons.mpr ⟨hclose, hrest⟩
  cases items with
  | nil => exact List.forall_mem_cons.mpr ⟨hopen, hend⟩
  | cons v items =>
      obtain ⟨hv, hitems⟩ := List.forall_mem_cons.mp h
      have hlast := List.forall_mem_append.mpr ⟨hs.last level, hend⟩
      refine List.forall_mem_cons.mpr ⟨hopen, List.forall_mem_append.mpr ⟨hs.first level, ?_⟩⟩
      exact hv _ _ (forall_mem_writtenItems hs hitems hlast)

section
variable (hk : ∀ e ∈ entries, ∀ p ∈ writtenKey style.inAscii e.1, P p)
  (hv : ∀ e ∈ entries, WritesIn P style e.2)
include hk hv

theorem forall_mem_writtenMembers (hrest : ∀ p ∈ rest, P p) :
    ∀ p ∈ writtenMembers style level entries rest, P p := by
  induction entries with
  | nil => exact hrest
  | cons e entries ih =>
      obtain ⟨hkey, hkeys⟩ := List.forall_mem_cons.mp hk
      obtain ⟨hvalue, hvalues⟩ := List.forall_mem_cons.mp hv
      have hmore := hvalue (level + 1) _ (ih hkeys hvalues)
      simp only [writtenMembers, List.forall_mem_append]
      exact ⟨⟨⟨hs.between level, hkey⟩, hs.afterKey⟩, hmore⟩

theorem writesIn_dict : WritesIn P style (.dict entries) := by
  intro level rest hrest
  have hopen : P '\x7b' := hs.brackets _ (by decide)
  have hclose : P '\x7d' := hs.brackets _ (by decide)
  have hend : ∀ p ∈ CodePoint.char '\x7d' :: rest, P p := List.forall_mem_cons.mpr ⟨hclose, hrest⟩
  cases entries with
  | nil => exact List.forall_mem_cons.mpr ⟨hopen, hend⟩
  | cons e entries =>
      obtain ⟨hkey, hkeys⟩ := List.forall_mem_cons.mp hk
      obtain ⟨hvalue, hvalues⟩ := List.forall_mem_cons.mp hv
      have hlast := List.forall_mem_append.mpr ⟨hs.last level, hend⟩
      simp only [written, List.forall_mem_cons, List.forall_mem_append]
      refine ⟨hopen, ⟨⟨hs.first level, hkey⟩, hs.afterKey⟩, ?_⟩
      exact hvalue _ _ (forall_mem_writtenMembers hs hkeys hvalues hlast)

end

end

end Rulebook.Json
