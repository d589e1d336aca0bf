import Rulebook.Log.Entry
import Rulebook.Proofs.Text.Hex

/-!
The correlation id of a log entry. A note that brings none of its own gets the id of the context
that it is made in, or one that is made for it alone. Numbers of ids are used up in order, so that
an id that was made belongs to one entry or one request if the ids of all numbers differ.
-/

namespace Rulebook

namespace Fields
variable {name other : String} {v : Value} {fields : Fields}

theorem lookup_cons (name : String) (f : String × Value) (rest : Fields) :
    List.lookup name (f :: rest) = if name = f.1 then some f.2 else List.lookup name rest := by
  rw [List.lookup_cons]
  by_cases h : name = f.1
  · simp [h]
  · have hne : (name == f.1) = false := by simpa using h
    rw [hne, if_neg h]

theorem lookup_put (name other : String) (v : Value) (fields : Fields) :
    (put name v fields).lookup other = if other = name then some v else fields.lookup other := by
  induction fields with
  | nil => rw [put, lookup_cons]
  | cons f rest ih =>
      obtain ⟨n, w⟩ := f
      rw [put]
      split
      · rename_i hn
        subst hn
        by_cases ho : other = n <;> simp [lookup_cons, ho]
      · rename_i hn
        rw [lookup_cons, lookup_cons, ih]
        by_cases ho : other = name
        · simp [ho, Ne.symm hn]
        · simp [ho]

theorem lookup_put_of_ne (h : other ≠ name) :
    (put name v fields).lookup other = fields.lookup other := by
  rw [lookup_put, if_neg h]

theorem lookup_drop_of_ne (h : other ≠ name) :
    (drop name fields).lookup other = fields.lookup other := by
  induction fields with
  | nil => rfl
  | cons f rest ih =>
      rw [drop, List.filter_cons]
      split
      · rw [lookup_cons, lookup_cons]
        exact congrArg _ ih
      · rename_i hn
        have hne : other ≠ f.1 := by
          rintro rfl
          simp [h] at hn
        rw [lookup_cons, if_neg hne]
        exact ih

theorem lookup_putNew (name other : String) (v : Value) (fields : Fields) :
    (putNew name v fields).lookup other =
      (fields.lookup other).or (if other = name then some v else none) := by
  unfold putNew has
  split
  · rename_i h
    by_cases ho : other = name
    · subst ho
      cases hl : fields.lookup other <;> simp_all
    · simp [ho]
  · rw [List.lookup_append, lookup_cons]
    rfl

/-- What is taken over from a context does not replace what is there. -/
theorem lookup_foldl_putNew (name : String) (context fields : Fields) :
    (context.foldl (fun acc f => putNew f.1 f.2 acc) fields).lookup name =
      (fields.lookup name).or (context.lookup name) := by
  induction context generalizing fields with
  | nil => simp
  | cons f rest ih =>
      rw [List.foldl_cons, ih, lookup_putNew, lookup_cons, Option.or_assoc]
      by_cases hn : name = f.1 <;> simp [hn]

end Fields

/-- The context of what is done for a request with this correlation id. -/
def Log.contextOf (id : String) : Fields := [(correlationField, .ofString id)]

namespace Note
open Log

/-- A note that brings no correlation id of its own. -/
def IsAnonymous (note : Note) : Prop := note.fields.lookup correlationField = none

instance (note : Note) : Decidable note.IsAnonymous :=
  inferInstanceAs (Decidable (_ = none))

variable {note : Note}

theorem IsAnonymous.lookup_ownFields (h : note.IsAnonymous) :
    note.ownFields.lookup correlationField = none := by
  unfold ownFields
  split
  · exact h
  · rw [Fields.lookup_put_of_ne (by decide)]
    exact h

theorem lookup_renameEvent (fields : Fields) :
    (renameEvent fields).lookup correlationField = fields.lookup correlationField := by
  unfold renameEvent
  split
  · rw [Fields.lookup_put_of_ne (by decide), Fields.lookup_drop_of_ne (by decide)]
  · rfl

theorem IsAnonymous.lookup_fieldsIn (h : note.IsAnonymous) (context : Fields) :
    (note.fieldsIn context).lookup correlationField = context.lookup correlationField := by
  have hlevel : correlationField ≠ "level" := by decide
  have hlogger : correlationField ≠ "logger" := by decide
  have hplace : correlationField ≠ placeField := by decide
  simp only [fieldsIn, withLogger, Fields.lookup_put_of_ne hlogger,
    Fields.lookup_put_of_ne hlevel, Fields.lookup_drop_of_ne hplace, Fields.lookup_foldl_putNew,
    h.lookup_ownFields, Option.none_or]

/-- An entry carries the correlation id of its context, and no id is made for it. -/
theorem IsAnonymous.entry_of_some (h : note.IsAnonymous) (ids : IdSource) {context : Fields}
    {v : Value} (hcontext : context.lookup correlationField = some v) :
    (note.entry ids context).1.lookup correlationField = some v ∧
      (note.entry ids context).2 = ids := by
  have hlookup := (h.lookup_fieldsIn context).trans hcontext
  have hhas : (note.fieldsIn context).has correlationField = true := by simp [Fields.has, hlookup]
  simp only [entry, withCorrelation, hhas, if_true, lookup_renameEvent, hlookup, and_self]

/-- Where the context has no correlation id, the next one is made for an entry. -/
theorem IsAnonymous.entry_of_none (h : note.IsAnonymous) (ids : IdSource) {context : Fields}
    (hcontext : context.lookup correlationField = none) :
    (note.entry ids context).1.lookup correlationField = some (.ofString ids.next) ∧
      (note.entry ids context).2 = ids.advance := by
  have hlookup := (h.lookup_fieldsIn context).trans hcontext
  have hhas : (note.fieldsIn context).has correlationField = false := by simp [Fields.has, hlookup]
  simp only [entry, withCorrelation, hhas, Bool.false_eq_true, if_false, lookup_renameEvent,
    List.lookup_append, hlookup, Option.none_or, Fields.lookup_cons, if_true, and_self]

end Note

namespace Log

/-- Ids that come later from the same place: more numbers may be used up. -/
structure IdSource.Grows (ids ids' : IdSource) : Prop where
  idAt : ids'.idAt = ids.idAt
  used : ids.used ≤ ids'.used

theorem IdSource.Grows.refl (ids : IdSource) : ids.Grows ids := ⟨rfl, Nat.le_refl _⟩

theorem IdSource.Grows.trans {a b c : IdSource} (h : a.Grows b) (h' : b.Grows c) : a.Grows c :=
  ⟨h'.idAt.trans h.idAt, Nat.le_trans h.used h'.used⟩

theorem IdSource.grows_advance (ids : IdSource) : ids.Grows ids.advance :=
  ⟨rfl, Nat.le_succ _⟩

/-- The ids that were made differ from each other, and from all that were sent. -/
structure IdSource.IsFresh (ids : IdSource) (sent : List String) : Prop where
  made : ∀ n < ids.used, ∀ m < n, ids.idAt m ≠ ids.idAt n
  sent : ∀ n < ids.used, ids.idAt n ∉ sent

theorem IdSource.IsFresh.idAt_ne {ids : IdSource} {sent : List String} (h : ids.IsFresh sent)
    {m n : Nat} (hm : m < ids.used) (hn : n < ids.used) (hne : m ≠ n) :
    ids.idAt m ≠ ids.idAt n := by
  rcases Nat.lt_or_gt_of_ne hne with hlt | hgt
  · exact h.made n hn m hlt
  · exact (h.made m hm n hgt).symm

/-- Counting makes ids that all differ, and that differ from all without their beginning. -/
theorem IdSource.isFresh_counting {ids : IdSource} {start : Nat} {sent : List String}
    (hids : ids.idAt = (counting start).idAt)
    (hsent : ∀ id ∈ sent, ¬ "cid_".toList <+: id.toList) : ids.IsFresh sent where
  made := by
    intro n hn m hlt h
    rw [hids] at h
    have hplain (k : Nat) : Text.IsPlain (Text.numeral 12 k) := Text.isPlain_hexDigits _ k
    have hdigits := congrArg Text.ofString ((String.append_right_inj "cid_").mp h)
    rw [(hplain _).ofString_toString, (hplain _).ofString_toString] at hdigits
    have hnumber := Text.numeral_injective 12 hdigits
    omega
  sent := by
    intro n hn hmem
    rw [hids] at hmem
    exact hsent _ hmem (by simp [counting])

/-- A line carries a correlation id. -/
def Carries (id : String) (line : Fields) : Prop :=
  line.lookup correlationField = some (.ofString id)

theorem Carries.eq {line : Fields} {a b : String} (ha : Carries a line) (hb : Carries b line) :
    a = b :=
  Text.ofString_injective (Value.text.inj (Option.some.inj (ha.symm.trans hb)))

/-- A line that carries this id, because the id was bound when the line was written. -/
structure IsBound (id : String) (line : Fields) : Prop where
  written : ∃ (ids : IdSource) (note : Note), note.IsAnonymous ∧
    line = (note.entry ids (contextOf id)).1
  carried : Carries id line

/-- A line that carries an id that was made for it, from this number, because no id was bound when
it was written. -/
structure IsMade (idAt : Nat → String) (n : Nat) (line : Fields) : Prop where
  written : ∃ note : Note, note.IsAnonymous ∧ line = (note.entry ⟨idAt, n⟩ []).1
  carried : Carries (idAt n) line

/-- Lines that carry ids that were made for them, from the numbers that were used up meanwhile. -/
def AreMade (ids ids' : IdSource) (lines : List Fields) : Prop :=
  ∀ line ∈ lines, ∃ n, ids.used ≤ n ∧ n < ids'.used ∧ IsMade ids.idAt n line

variable {least : LogLevel} {notes : List Note} {id : String}

/-- Entries for which an id is bound all carry it. -/
theorem entries_contextOf (hnotes : ∀ note ∈ notes, note.IsAnonymous) (ids : IdSource) :
    (∀ line ∈ (Note.entries least (contextOf id) ids notes).1, IsBound id line) ∧
      (Note.entries least (contextOf id) ids notes).2 = ids := by
  induction notes with
  | nil => exact ⟨List.forall_mem_nil _, rfl⟩
  | cons note notes ih =>
      obtain ⟨hnote, hnotes⟩ := List.forall_mem_cons.mp hnotes
      obtain ⟨hlines, hids⟩ := ih hnotes
      have hcontext : (contextOf id).lookup correlationField = some (.ofString id) := rfl
      obtain ⟨hcarried, hsame⟩ := hnote.entry_of_some ids hcontext
      unfold Note.entries
      split
      · dsimp only
        rw [hsame]
        exact ⟨List.forall_mem_cons.mpr ⟨⟨⟨ids, note, hnote, rfl⟩, hcarried⟩, hlines⟩, hids⟩
      · exact ⟨hlines, hids⟩

/-- Entries for which no id is bound all carry ids of their own. -/
theorem entries_nil (hnotes : ∀ note ∈ notes, note.IsAnonymous) (ids : IdSource) :
    AreMade ids (Note.entries least [] ids notes).2 (Note.entries least [] ids notes).1 ∧
      ids.Grows (Note.entries least [] ids notes).2 := by
  induction notes generalizing ids with
  | nil => exact ⟨List.forall_mem_nil _, .refl ids⟩
  | cons note notes ih =>
      obtain ⟨hnote, hnotes⟩ := List.forall_mem_cons.mp hnotes
      have hcontext : ([] : Fields).lookup correlationField = none := rfl
      obtain ⟨hcarried, hadvance⟩ := hnote.entry_of_none ids hcontext
      unfold Note.entries
      split
      · dsimp only
        rw [hadvance]
        obtain ⟨hlines, hgrows⟩ := ih hnotes ids.advance
        have hfirst : IsMade ids.idAt ids.used (note.entry ids []).1 :=
          ⟨⟨note, hnote, rfl⟩, hcarried⟩
        refine ⟨List.forall_mem_cons.mpr ⟨⟨ids.used, Nat.le_refl _, hgrows.used, hfirst⟩, ?_⟩,
          ids.grows_advance.trans hgrows⟩
        intro line hline
        obtain ⟨n, hn, hlt, hmade⟩ := hlines line hline
        exact ⟨n, Nat.le_of_succ_le hn, hlt, hmade⟩
      · exact ih hnotes ids

end Log

end Rulebook
