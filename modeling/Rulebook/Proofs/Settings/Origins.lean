import Mathlib.Data.List.Forall2
import Rulebook.Proofs.Check.Outcome
import Rulebook.Proofs.Json.Extent
import Rulebook.Proofs.Number.Decimal
import Rulebook.Settings

/-!
Origins of other sites. A text with commas between origins is read back as these origins if it is
given as an argument, and never if it stands in the environment: there JSON text is asked for.
-/

namespace Rulebook

open Text (ink isBlank)

/-- An origin that may stand in a text with commas: neither a comma nor a blank at its ends is part
of it. -/
structure IsOrigin (o : Text) : Prop where
  not_empty : o ≠ []
  no_comma : CodePoint.char ',' ∉ o
  first : ∀ p ∈ o.head?, isBlank p = false
  last : ∀ p ∈ o.getLast?, isBlank p = false

/-- The text `piece` is `o` with blanks around it, or without. -/
def Text.IsPadded (o piece : Text) : Prop :=
  ∃ before after : Text, (∀ p ∈ before, isBlank p = true) ∧ (∀ p ∈ after, isBlank p = true) ∧
    piece = before ++ o ++ after

/-- The text of origins: commas stand between them, and blanks may stand around each. -/
def Settings.Spells (origins : List Text) (w : Text) : Prop :=
  ∃ pieces, List.Forall₂ Text.IsPadded origins pieces ∧ w = Text.joined [.char ','] pieces

section
variable {o piece w : Text} {origins pieces : List Text}

theorem IsOrigin.strip_eq (ho : IsOrigin o) (h : o.IsPadded piece) : Text.strip piece = o := by
  obtain ⟨before, after, hbefore, hafter, rfl⟩ := h
  exact Text.trimBoth_padded hbefore hafter ho.first ho.last

theorem IsOrigin.notMem_piece (ho : IsOrigin o) (h : o.IsPadded piece) :
    CodePoint.char ',' ∉ piece := by
  have hcomma : isBlank (.char ',') = false := by decide
  obtain ⟨before, after, hbefore, hafter, rfl⟩ := h
  rw [List.mem_append, List.mem_append]
  rintro ((hmem | hmem) | hmem)
  · exact Bool.false_ne_true (hcomma.symm.trans (hbefore _ hmem))
  · exact ho.no_comma hmem
  · exact Bool.false_ne_true (hcomma.symm.trans (hafter _ hmem))

namespace Settings

theorem pieces_of_padded (h : List.Forall₂ Text.IsPadded origins pieces)
    (horigins : ∀ o ∈ origins, IsOrigin o) :
    (∀ piece ∈ pieces, CodePoint.char ',' ∉ piece) ∧ pieces.map Text.strip = origins := by
  induction h with
  | nil => exact ⟨nofun, rfl⟩
  | cons hpadded _ ih =>
      obtain ⟨ho, hrest⟩ := List.forall_mem_cons.mp horigins
      obtain ⟨hcommas, hstrip⟩ := ih hrest
      refine ⟨List.forall_mem_cons.mpr ⟨ho.notMem_piece hpadded, hcommas⟩, ?_⟩
      rw [List.map_cons, ho.strip_eq hpadded, hstrip]

/-- Origins are the trimmed pieces of their text. -/
theorem Spells.pieces_eq (h : Spells origins w) (hne : origins ≠ [])
    (horigins : ∀ o ∈ origins, IsOrigin o) :
    (Text.pieces (.char ',') w).map Text.strip = origins := by
  obtain ⟨pieces, hpadded, rfl⟩ := h
  have hpieces : pieces ≠ [] := by
    rintro rfl
    cases hpadded
    exact hne rfl
  obtain ⟨hcommas, hstrip⟩ := pieces_of_padded hpadded horigins
  rw [Text.pieces_joined hpieces hcommas, hstrip]

/-- The ink of a text is that of the origins that are read from it, and that of the commas. -/
theorem ink_of_pieces_eq (h : (Text.pieces (.char ',') w).map Text.strip = origins) :
    (origins.map (ink · + 1)).sum = ink w + 1 := by
  have hstrip : (fun o => ink o + 1) ∘ Text.strip = (ink · + 1) := by
    funext piece
    exact congrArg (· + 1) (Text.ink_strip piece)
  rw [← h, List.map_map, hstrip, Text.sum_ink_pieces (by decide)]

end Settings

end

namespace Settings
variable {given : String → Option Value} {s : Settings}

/-- The origins are checked by themselves: other origins in their place change nothing else. -/
theorem check_eq_good (h : check given = .good s) :
    Check.optional "cors_origins" (given "cors_origins") defaults.corsOrigins originList =
        .good s.corsOrigins ∧
      ∀ other o, (∀ field, field ≠ "cors_origins" → other field = given field) →
        Check.optional "cors_origins" (other "cors_origins") defaults.corsOrigins originList =
          .good o →
        check other = .good { s with corsOrigins := o } := by
  have hfields : ∃ s', check given = .good s' ∧ s' = s := ⟨s, h, rfl⟩
  simp only [check, Checked.exists_seq_eq_good, Checked.exists_map_eq_good] at hfields
  obtain ⟨_, h1, _, h2, _, h3, _, h4, _, h5, _, h6, _, h7, _, h8, _, h9, _, h10, _, h11, _, h12,
    _, h13, _, h14, _, h15, _, h16, rfl⟩ := hfields
  refine ⟨h10, ?_⟩
  intro other o hother ho
  simp (disch := decide) only [check, hother, ho, h1, h2, h3, h4, h5, h6, h7, h8, h9, h11, h12, h13,
    h14, h15, h16]
  rfl

section
variable {environ : List (String × String)} {arguments extra : List (String × Value)}
  {name field v : String} {w : Text} {origins : List Text}

theorem load_eq_ok_iff : load environ arguments = .ok s ↔
    listFields.findSome? (listFailure? environ) = none ∧
      check (given? environ arguments) = .good s := by
  unfold load
  split
  · simp [*]
  · split <;> simp [*]

theorem load_of_listFailure {failure : SettingsFailure}
    (h : listFailure? environ "cors_origins" = some failure) :
    load environ arguments = .error failure := by
  have hfirst : listFields.findSome? (listFailure? environ) = some failure := by
    rw [listFields, List.findSome?_cons, h]
  unfold load
  simp only [hfirst]

/-- Arguments for another field do not matter. -/
theorem given?_append_of_ne (hextra : ∀ a ∈ extra, lowerName a.1 = name) (hfield : field ≠ name) :
    given? environ (arguments ++ extra) field = given? environ arguments field := by
  have hnone : extra.reverse.find? (fun a => lowerName a.1 == field) = none := by
    refine List.find?_eq_none.mpr fun a ha => ?_
    rw [hextra a (List.mem_reverse.mp ha), beq_iff_eq]
    exact hfield.symm
  rw [given?, List.reverse_append, List.find?_append, hnone, Option.none_or, given?]

/-- The last argument for a field is the one that counts. -/
theorem given?_append_self (hname : lowerName name = field) (v : Value) :
    given? environ (arguments ++ [(name, v)]) field = some v := by
  have hlast : (lowerName name == field) = true := beq_iff_eq.mpr hname
  simp only [given?, List.reverse_concat, List.find?_cons_of_pos, hlast, Option.map_some,
    Option.some_or]

theorem given?_of_noArgument (h : ∀ a ∈ arguments, lowerName a.1 ≠ field) :
    given? environ arguments field = fromEnvironment? environ field := by
  have hnone : arguments.reverse.find? (fun a => lowerName a.1 == field) = none := by
    refine List.find?_eq_none.mpr fun a ha => ?_
    rw [beq_iff_eq]
    exact h a (List.mem_reverse.mp ha)
  rw [given?, hnone]
  rfl

/-- An argument for the origins may be replaced by every other one that can be read. -/
theorem load_argument (hw : originList (.text w) = .good origins)
    (hextra : ∀ a ∈ extra, lowerName a.1 = "cors_origins") (hname : lowerName name = "cors_origins")
    (h : load environ (arguments ++ extra) = .ok s) :
    load environ (arguments ++ [(name, .text w)]) = .ok { s with corsOrigins := origins } := by
  obtain ⟨hlists, hcheck⟩ := load_eq_ok_iff.mp h
  refine load_eq_ok_iff.mpr ⟨hlists, (check_eq_good hcheck).2 _ _ ?_ ?_⟩
  · intro field hfield
    have hlast : ∀ a ∈ [(name, Value.text w)], lowerName a.1 = "cors_origins" :=
      List.forall_mem_singleton.mpr hname
    rw [given?_append_of_ne hlast hfield, given?_append_of_ne hextra hfield]
  · simp only [given?_append_self hname, Check.optional, hw, Checked.under]

end

section
variable {w : Text} {origins : List Text} {v : Value}

theorem sum_ink_le_itemsExtent (origins : List Text) :
    (origins.map (ink · + 1)).sum ≤ Value.itemsExtent (origins.map Value.text) := by
  induction origins with
  | nil => exact Nat.le_refl 0
  | cons o origins ih =>
      rw [List.map_cons, List.sum_cons, List.map_cons, Value.itemsExtent, Value.extent]
      omega

/-- A text that is JSON text has more ink than the origins in its value, so that it does not spell
them. -/
theorem originList_ne_of_read {bounds : Json.ReadBounds} (h : Json.read bounds w = .ok v)
    (hw : (Text.pieces (.char ',') w).map Text.strip = origins) : originList v ≠ .good origins := by
  have hink := ink_of_pieces_eq hw
  have hextent := Json.extent_le_of_read h
  intro horigins
  cases v with
  | text s =>
      have hs := ink_of_pieces_eq (Checked.good.inj horigins)
      rw [Value.extent] at hextent
      omega
  | list items =>
      have hsum := sum_ink_le_itemsExtent origins
      have hitems := Check.textList_eq_good (v := .list items) horigins
      rw [hitems, Value.extent] at hextent
      omega
  | null | bool b | int n | real x | dict entries => cases horigins

theorem Spells.exists_first {o : Text} (h : Spells (o :: origins) w) :
    ∃ before rest : Text, (∀ p ∈ before, isBlank p = true) ∧ w = before ++ (o ++ rest) := by
  obtain ⟨pieces, hpadded, rfl⟩ := h
  cases hpadded with
  | @cons _ piece _ more hpiece hmore =>
      obtain ⟨before, after, hbefore, -, rfl⟩ := hpiece
      cases more with
      | nil => exact ⟨before, after, hbefore, by rw [Text.joined, List.append_assoc]⟩
      | cons next more =>
          refine ⟨before, after ++ [.char ','] ++ Text.joined [.char ','] (next :: more),
            hbefore, ?_⟩
          simp only [Text.joined, List.append_assoc]

/-- Behind blanks there is what follows them, or a blank that JSON text does not know. -/
theorem exists_skip_append {before : Text} {p : CodePoint} (hp : Json.isSpace p = false)
    (hbefore : ∀ q ∈ before, isBlank q = true) (rest : Text) :
    ∃ q more, Json.skip (before ++ p :: rest) = q :: more ∧ (q = p ∨ isBlank q = true) := by
  induction before with
  | nil => exact ⟨p, rest, List.dropWhile_cons_of_neg (by simp [hp]), .inl rfl⟩
  | cons q before ih =>
      obtain ⟨hq, hrest⟩ := List.forall_mem_cons.mp hbefore
      cases hspace : Json.isSpace q with
      | true =>
          obtain ⟨q', more, hskip, hq'⟩ := ih hrest
          refine ⟨q', more, ?_, hq'⟩
          rw [Json.skip, List.cons_append, List.dropWhile_cons_of_pos hspace]
          exact hskip
      | false =>
          exact ⟨q, before ++ p :: rest, List.dropWhile_cons_of_neg (by simp [hspace]), .inr hq⟩

/-- The default origins are no JSON text, however they are spelled. -/
theorem read_of_spells_defaults (h : Spells defaults.corsOrigins w) (bounds : Json.ReadBounds) :
    Json.read bounds w = .error .malformed := by
  obtain ⟨before, rest, hbefore, rfl⟩ := h.exists_first
  obtain ⟨q, more, hskip, hq⟩ := exists_skip_append (p := .char 'h') (by decide) hbefore
    (Text.ofString "ttp://localhost:3000" ++ rest)
  have hmarks : ∀ m ∈ Json.openingMarks, m ≠ .char 'h' ∧ isBlank m = false := by decide
  refine Json.read_of_not_opening hskip ?_ ?_
  · intro hmem
    obtain ⟨hletter, hblank⟩ := hmarks q hmem
    rcases hq with rfl | hq
    · exact hletter rfl
    · exact Bool.false_ne_true (hblank.symm.trans hq)
  · rcases hq with rfl | hq
    · rfl
    · exact Text.isDigit_of_isBlank hq

/-- What the environment gives for the origins is the value of a JSON text, or nothing. -/
theorem fromEnvironment?_origins {environ : List (String × String)} {value : String}
    (h : valueOf? environ "cors_origins" = some value) :
    fromEnvironment? environ "cors_origins" = none ∨
      ∃ v, Json.read? value = some v ∧ fromEnvironment? environ "cors_origins" = some v := by
  have hlist : listFields.contains "cors_origins" = true := by decide
  simp only [fromEnvironment?, h, Option.bind_some, hlist, if_true]
  cases hread : Json.read? value with
  | none => exact .inl rfl
  | some v =>
      cases v with
      | null => exact .inl rfl
      | _ => exact .inr ⟨_, rfl, rfl⟩

theorem listFailure?_of_malformed {environ : List (String × String)} {field value : String}
    (hvalue : valueOf? environ field = some value)
    (hread : Json.read listBounds value = .error .malformed) :
    listFailure? environ field = some (.unreadableList field) := by
  simp only [listFailure?, hvalue, Option.bind_eq_bind, Option.bind_some, Option.pure_def,
    Option.map_some, hread]

/-- The environment never gives origins that are spelled with commas: a text that is not JSON text
stops the loading, and JSON text has another value. -/
theorem corsOrigins_ne_of_environment {environ : List (String × String)}
    {arguments : List (String × Value)} {s : Settings} {value : String}
    (hne : origins ≠ []) (horigins : ∀ o ∈ origins, IsOrigin o) (hw : Spells origins value)
    (hvalue : valueOf? environ "cors_origins" = some value)
    (hnone : ∀ a ∈ arguments, lowerName a.1 ≠ "cors_origins")
    (h : load environ arguments = .ok s) : s.corsOrigins ≠ origins := by
  rintro rfl
  obtain ⟨hcheck, -⟩ := check_eq_good (load_eq_ok_iff.mp h).2
  rw [given?_of_noArgument hnone] at hcheck
  rcases fromEnvironment?_origins hvalue with hgiven | ⟨v, hread, hgiven⟩
  -- the origins are then the default ones, and no text that spells those is JSON text
  · rw [hgiven] at hcheck
    have hdefaults : defaults.corsOrigins = s.corsOrigins := Checked.good.inj hcheck
    rw [← hdefaults] at hw
    have hfailure := listFailure?_of_malformed hvalue (read_of_spells_defaults hw listBounds)
    rw [load_of_listFailure hfailure] at h
    cases h
  · rw [hgiven] at hcheck
    have horiginal : originList v = .good s.corsOrigins := Checked.under_eq_good hcheck
    exact originList_ne_of_read (Json.read_of_read? hread) (hw.pieces_eq hne horigins) horiginal

/-- Where origins may be spelled with commas. An argument is read back as these origins, whenever
the settings can be made with any argument for the origins or with none. A variable of the
environment is never read back so; unless it is JSON text by chance, the settings cannot be made. -/
theorem origins_by_source (hne : origins ≠ []) (horigins : ∀ o ∈ origins, IsOrigin o)
    (hw : Spells origins w) (environ : List (String × String))
    (arguments : List (String × Value)) :
    (∀ name extra s, lowerName name = "cors_origins" →
      (∀ a ∈ extra, lowerName a.1 = "cors_origins") → load environ (arguments ++ extra) = .ok s →
      load environ (arguments ++ [(name, .text w)]) = .ok { s with corsOrigins := origins }) ∧
    ∀ value, valueOf? environ "cors_origins" = some value → Text.ofString value = w →
      (∀ a ∈ arguments, lowerName a.1 ≠ "cors_origins") →
      (∀ s, load environ arguments = .ok s → s.corsOrigins ≠ origins) ∧
      (Json.read listBounds w = .error .malformed →
        load environ arguments = .error (.unreadableList "cors_origins")) := by
  constructor
  · intro name extra s hname hextra hload
    have hread : originList (.text w) = .good origins :=
      congrArg Checked.good (hw.pieces_eq hne horigins)
    exact load_argument hread hextra hname hload
  · rintro value hvalue rfl hnone
    constructor
    · intro s hload
      exact corsOrigins_ne_of_environment hne horigins hw hvalue hnone hload
    · intro hread
      exact load_of_listFailure (listFailure?_of_malformed hvalue hread)

/-- Two sites: their text as an argument gives both, and as a variable it stops the loading. -/
theorem origins_of_two_sites :
    let sites : List Text := ["http://a.test", "http://b.test"]
    let w : String := "http://a.test, http://b.test"
    let environ := [("RULEAST_CORS_ORIGINS", w)]
    Spells sites w ∧
      load [] [("cors_origins", .ofString w)] = .ok { defaults with corsOrigins := sites } ∧
      (∀ s, load environ [] = .ok s → s.corsOrigins ≠ sites) ∧
      load environ [] = .error (.unreadableList "cors_origins") := by
  intro sites w environ
  have hsites : ∀ o ∈ sites, IsOrigin o := by
    have hfirst : IsOrigin "http://a.test" := ⟨by decide, by decide, by decide, by decide⟩
    have hsecond : IsOrigin "http://b.test" := ⟨by decide, by decide, by decide, by decide⟩
    exact List.forall_mem_cons.mpr ⟨hfirst, List.forall_mem_singleton.mpr hsecond⟩
  have hspells : Spells sites w := by
    have hsecond : Text.IsPadded "http://b.test" " http://b.test" :=
      ⟨[.char ' '], [], by decide, nofun, rfl⟩
    exact ⟨["http://a.test", " http://b.test"],
      .cons ⟨[], [], nofun, nofun, rfl⟩ (.cons hsecond .nil), by decide +kernel⟩
  have hskip : Json.skip w = .char 'h' :: Text.ofString "ttp://a.test, http://b.test" := by
    decide +kernel
  have hdefaults : load [] [] = .ok defaults := rfl
  have hargument := (origins_by_source (by decide) hsites hspells [] []).1
  have hvalue : valueOf? environ "cors_origins" = some w := by decide +kernel
  have hvariable := (origins_by_source (by decide) hsites hspells environ []).2 w hvalue rfl nofun
  exact ⟨hspells, hargument "cors_origins" [] defaults (by decide) nofun hdefaults, hvariable.1,
    hvariable.2 (Json.read_of_not_opening hskip (by decide) rfl)⟩

end

end Settings

end Rulebook
