import Rulebook.Proofs.Rule.Damage
import Rulebook.Proofs.Rule.RoundTrip

/-!
Comparisons that stand as one line. A stored comparison that lost the keys of its parts is read from
the line, which is cut at blanks. The cut knows nothing of quotation marks, so it finds the field
again only if no blank stands in it.
-/

namespace Rulebook

/-- The keys under which the parts of a comparison stand apart. -/
def Comparison.splitKeys : List Text := ["field", "comparator", "literal"]

/-- The entries under none of the keys. -/
def Value.withoutKeys (keys : List Text) (entries : List (Value × Value)) : List (Value × Value) :=
  entries.filter fun e => !keys.any fun name => Value.sameKey e.1 (.text name)

/-- A dictionary without some of its keys. -/
def Value.without (keys : List Text) : Value → Value
  | .dict entries => .dict (withoutKeys keys entries)
  | v => v

/-- Some of the comparisons in a stored tree lose keys of their parts, one key at least; `lines`
are these comparisons from left to right. -/
inductive Value.LosesSplits : Value → Value → List Comparison → Prop
  | kept (v) : LosesSplits v v []
  | lost (c : Comparison) {keys : List Text} : keys ≠ [] → keys ⊆ Comparison.splitKeys →
      LosesSplits c.stored (c.stored.without keys) [c]
  | join (w : Text) {l l' r r' : Value} {us vs} : LosesSplits l l' us → LosesSplits r r' vs →
      LosesSplits (storedJoin w l r) (storedJoin w l' r') (us ++ vs)

/-- The comparison that is read from a line. -/
def Comparison.ofLine? (line : Text) : Option Comparison :=
  (Text.splitThree line).bind fun (f, c, l) => ofParts? (.text f, .text c, .text l)

namespace Value
variable {keys : List Text} {name : Text} {entries : List (Value × Value)}

theorem lookup_withoutKeys_of_mem (h : name ∈ keys) :
    lookup name (withoutKeys keys entries) = none := by
  induction entries with
  | nil => rfl
  | cons e rest ih =>
      obtain ⟨k, v⟩ := e
      rw [withoutKeys, List.filter_cons]
      split
      · rename_i hkept
        cases k with
        | text s =>
            have hs : (s == name) = false := by
              simp only [sameKey, Bool.not_eq_true', List.any_eq_false] at hkept
              simpa using hkept name h
            rw [lookup, hs]
            exact ih
        | _ => exact ih
      · exact ih

theorem lookup_withoutKeys_of_not_mem (h : name ∉ keys) :
    lookup name (withoutKeys keys entries) = lookup name entries := by
  induction entries with
  | nil => rfl
  | cons e rest ih =>
      obtain ⟨k, v⟩ := e
      rw [withoutKeys, List.filter_cons]
      cases k with
      | text s =>
          by_cases hs : s = name
          · subst hs
            have hkept : (keys.any fun n => sameKey (.text s) (.text n)) = false := by
              refine List.any_eq_false.mpr fun n hn => ?_
              simpa [sameKey] using fun he : s = n => h (he ▸ hn)
            simp [hkept, lookup]
          · have hne : (s == name) = false := by simpa using hs
            rw [lookup, hne]
            split
            · rw [lookup, hne]
              exact ih
            · exact ih
      | _ => split <;> exact ih

end Value

namespace Text
variable {w t rest : Text} {b : CodePoint}

theorem isBlank_eq_false_of_mem_firstWord {p : CodePoint} (h : p ∈ firstWord t) :
    isBlank p = false := by
  simpa using List.all_eq_true.mp List.all_takeWhile p h

theorem firstWord_append (hw : ∀ p ∈ w, isBlank p = false) (hb : isBlank b = true) :
    firstWord (w ++ b :: rest) = w := by
  have hall : ∀ p ∈ w, (!isBlank p) = true := by simpa using hw
  rw [firstWord, List.takeWhile_append_of_pos hall]
  simp [hb]

theorem afterWord_append (hw : ∀ p ∈ w, isBlank p = false) (hb : isBlank b = true) :
    afterWord (w ++ b :: rest) = rest.dropWhile isBlank := by
  have hall : ∀ p ∈ w, (!isBlank p) = true := by simpa using hw
  rw [afterWord, List.dropWhile_append_of_pos hall]
  simp [hb]

/-- A text that starts with no blank has none to drop. -/
theorem dropWhile_isBlank (h : ∀ p ∈ t.head?, isBlank p = false) : t.dropWhile isBlank = t := by
  cases t with
  | nil => rfl
  | cons p t => simp [h p rfl]

/-- Two words without blanks inside and a rest that starts with no blank. -/
theorem splitThree_append {u : Text} (hu : u ≠ []) (hw : w ≠ [])
    (hub : ∀ p ∈ u, isBlank p = false) (hwb : ∀ p ∈ w, isBlank p = false)
    (ht : t ≠ []) (htb : ∀ p ∈ t.head?, isBlank p = false) :
    splitThree (u ++ .char ' ' :: (w ++ .char ' ' :: t)) = some (u, w, t) := by
  have hspace : isBlank (.char ' ') = true := by decide
  have hhead : ∀ {v rest : Text}, v ≠ [] → (∀ p ∈ v, isBlank p = false) →
      (v ++ rest).dropWhile isBlank = v ++ rest := by
    intro v rest hv hvb
    obtain ⟨p, v, rfl⟩ := List.exists_cons_of_ne_nil hv
    exact dropWhile_isBlank (by simpa using hvb p (by simp))
  have hempty : t.isEmpty = false := by simpa using ht
  simp only [splitThree, hhead hu hub, firstWord_append hub hspace, afterWord_append hub hspace,
    hhead hw hwb, firstWord_append hwb hspace, afterWord_append hwb hspace, dropWhile_isBlank htb,
    hempty, Bool.false_eq_true, if_false]

end Text

namespace Comparison
variable {c : Comparison} {keys : List Text}

theorem text_eq (c : Comparison) :
    c.text = c.field ++ .char ' ' :: (c.comparator ++ .char ' ' :: c.literal) := by
  simp [text, Text.ofString, Text.ofChars]

theorem stored_injective : Function.Injective stored := by
  intro c d h
  simp only [stored, Value.object, List.map_cons, List.map_nil, Value.dict.injEq,
    List.cons.injEq, Prod.mk.injEq, Value.text.injEq, true_and, and_true] at h
  obtain ⟨-, hf, hc, hl⟩ := h
  obtain ⟨f, k, l⟩ := c
  simp_all

/-- Without one of the keys of its parts a comparison is read from its line. -/
theorem ofStored_without (c : Comparison) (hne : keys ≠ []) (hk : keys ⊆ splitKeys) :
    Tree.ofStored (c.stored.without keys) = ((ofLine? c.text).map .leaf).getD .hole := by
  obtain ⟨entries, he, hkind, -⟩ := c.stored_entries
  have hline : Value.lookup "value" entries = some (.text c.text) := by
    cases he
    rfl
  have hkept (name : Text) (hname : name ∉ splitKeys) :
      Value.lookup name (Value.withoutKeys keys entries) = Value.lookup name entries :=
    Value.lookup_withoutKeys_of_not_mem fun hin => hname (hk hin)
  have hkind' : nodeKind (Value.withoutKeys keys entries) = .comparing := by
    rw [← hkind, nodeKind, nodeKind, hkept _ (by decide), hkept _ (by decide)]
  have hparts : splitParts? (Value.withoutKeys keys entries) = none := by
    obtain ⟨name, hname⟩ := List.exists_mem_of_ne_nil keys hne
    have hgone : Value.lookup name (Value.withoutKeys keys entries) = none :=
      Value.lookup_withoutKeys_of_mem hname
    have hsplit := hk hname
    simp only [splitKeys, List.mem_cons, List.not_mem_nil, or_false] at hsplit
    unfold splitParts?
    split
    · rcases hsplit with rfl | rfl | rfl <;> simp_all
    · rfl
  have hread : ofEntries? (Value.withoutKeys keys entries) = ofLine? c.text := by
    rw [ofEntries?, hparts]
    simp only [lineParts?, hkept "value" (by decide), hline, ofLine?]
    cases Text.splitThree c.text <;> rfl
  rw [he, Value.without, Tree.ofStored_dict, hkind', hread]

/-- A line is cut into the parts that it was put together from exactly if no blank stands in the
field. The literal may hold blanks: it is the rest of the line. -/
theorem ofLine?_text_iff (hc : c.isValid = true) (hf : IsWord c.field) (hl : IsWord c.literal) :
    ofLine? c.text = some c ↔ ∀ p ∈ c.field, Text.isBlank p = false := by
  obtain ⟨-, hsymbol, -⟩ := isValid_iff.mp hc
  constructor
  · intro h p hp
    obtain ⟨⟨f, k, l⟩, hsplit, hparts⟩ := Option.bind_eq_some_iff.mp h
    obtain ⟨hfield, -, -⟩ := ofParts?_eq_some hparts
    cases hfield
    simp only [Text.splitThree] at hsplit
    split at hsplit
    · cases hsplit
    · simp only [Option.some.injEq, Prod.mk.injEq] at hsplit
      rw [← hsplit.1] at hp
      exact Text.isBlank_eq_false_of_mem_firstWord hp
  · intro hblank
    obtain ⟨k, hk⟩ := Comparator.symbol_of_isSymbol hsymbol
    have hkblank : ∀ p ∈ c.comparator, Text.isBlank p = false := by
      rw [hk]
      cases k <;> decide
    have hlblank : ∀ p ∈ c.literal.head?, Text.isBlank p = false := by
      intro p hp
      obtain ⟨rest, hrest⟩ := List.head?_eq_some_iff.mp hp
      have hpairs := hl.pairs
      rw [hrest, pairsQuotes, Bool.and_eq_true] at hpairs
      have hends : endsWord p = false := by simpa using hpairs.1
      simp only [endsWord, Bool.or_eq_false_iff] at hends
      exact hends.1.1
    have hsplit := Text.splitThree_append hf.nonempty (comparator_ne_nil hsymbol) hblank hkblank
      hl.nonempty hlblank
    rw [ofLine?, text_eq, hsplit]
    exact if_pos hsymbol

/-- Reading finds a comparison again without the keys of its parts exactly if no blank stands in its
field. -/
theorem ofStored_without_eq_leaf_iff (hc : c.isValid = true) (hf : IsWord c.field)
    (hl : IsWord c.literal) (hne : keys ≠ []) (hk : keys ⊆ splitKeys) :
    Tree.ofStored (c.stored.without keys) = .leaf c ↔
      ∀ p ∈ c.field, Text.isBlank p = false := by
  rw [ofStored_without c hne hk, ← ofLine?_text_iff hc hf hl]
  cases ofLine? c.text <;> simp

end Comparison

theorem storedJoin_injective {w w' : Text} {l l' r r' : Value}
    (h : storedJoin w l r = storedJoin w' l' r') : w = w' ∧ l = l' ∧ r = r' := by
  simpa [storedJoin, Value.object] using h

theorem Comparison.stored_ne_storedJoin (c : Comparison) (w : Text) (l r : Value) :
    c.stored ≠ storedJoin w l r := by
  simp [stored, storedJoin, Value.object]

namespace Value.LosesSplits
variable {v : Value} {lines : List Comparison}

/-- What a stored comparison may become. -/
theorem leaf_cases {c : Comparison} (h : c.stored.LosesSplits v lines) :
    v = c.stored ∧ lines = [] ∨ ∃ keys, keys ≠ [] ∧ keys ⊆ Comparison.splitKeys ∧
      v = c.stored.without keys ∧ lines = [c] := by
  generalize hs : c.stored = s at h
  cases h with
  | kept => exact .inl ⟨rfl, rfl⟩
  | lost d hne hk =>
      obtain rfl := Comparison.stored_injective hs
      exact .inr ⟨_, hne, hk, rfl, rfl⟩
  | join w hl hr => exact absurd hs (c.stored_ne_storedJoin _ _ _)

/-- What a stored join may become: its sides change, each by itself. -/
theorem join_cases {w : Text} {l r : Value} (h : (storedJoin w l r).LosesSplits v lines) :
    ∃ l' r' us vs, l.LosesSplits l' us ∧ r.LosesSplits r' vs ∧ v = storedJoin w l' r' ∧
      lines = us ++ vs := by
  generalize hs : storedJoin w l r = s at h
  cases h with
  | kept => exact ⟨l, r, [], [], .kept l, .kept r, hs.symm, rfl⟩
  | lost d hne hk => exact absurd hs.symm (d.stored_ne_storedJoin _ _ _)
  | join w' hl hr =>
      obtain ⟨rfl, rfl, rfl⟩ := storedJoin_injective hs
      exact ⟨_, _, _, _, hl, hr, rfl, rfl⟩

end Value.LosesSplits

/-- The two ways in which a comparison is stored agree on a tree that rule text can express if and
only if no comparison that is read from its line has a blank in its field. -/
theorem Tree.IsExpressible.ofStored_eq_iff {t : Tree} (ht : t.IsExpressible) {v : Value}
    {lines : List Comparison} (h : t.stored.LosesSplits v lines) :
    ofStored v = t ↔ ∀ c ∈ lines, ∀ p ∈ c.field, Text.isBlank p = false := by
  induction t generalizing v lines with
  | leaf c =>
      have hc : c.isValid = true := ht.wellFormed
      obtain ⟨hf, hl⟩ := ht.renderable c (List.mem_singleton.mpr rfl)
      rw [stored_leaf] at h
      rcases h.leaf_cases with ⟨rfl, rfl⟩ | ⟨keys, hne, hk, rfl, rfl⟩
      · simp [Comparison.ofStored_stored hc]
      · rw [Comparison.ofStored_without_eq_leaf_iff hc (isRenderable_iff.mp hf).1
          (isRenderable_iff.mp hl).1 hne hk, List.forall_mem_singleton]
  | join w l r ihl ihr =>
      have hw := ht.wellFormed
      have hr := ht.renderable
      simp only [isWellFormed, Bool.and_eq_true] at hw
      simp only [comparisons, List.forall_mem_append] at hr
      rw [stored_join] at h
      obtain ⟨l', r', us, vs, hl', hr', rfl, rfl⟩ := h.join_cases
      rw [ofStored_storedJoin hw.1.1, List.forall_mem_append, ← ihl ⟨hw.1.2, hr.1⟩ hl',
        ← ihr ⟨hw.2, hr.2⟩ hr']
      simp
  | hole | foreign => exact absurd ht.wellFormed (by decide)

/-- A compiled rule of which comparisons lost the keys of their parts is read back unchanged if and
only if none of these comparisons has a blank in its field. -/
theorem Tree.ofStored_eq_iff_of_losesSplits {text : Text} {t : Tree} {v : Value}
    {lines : List Comparison} (hc : compile text = .ok t) (h : t.stored.LosesSplits v lines) :
    ofStored v = t ↔ ∀ c ∈ lines, ∀ p ∈ c.field, Text.isBlank p = false :=
  (isExpressible_of_compile hc).ofStored_eq_iff h

/-- A literal with blanks is read back from a line, next to a comparison that lost one key. -/
theorem Tree.ofStored_of_lost_sides :
    compile "a > 'x  y ' OR b = 2" =
        .ok (.join "OR" (.leaf ⟨"a", ">", "'x  y '"⟩) (.leaf ⟨"b", "=", "2"⟩)) ∧
      ofStored (storedJoin "OR"
          ((Comparison.stored ⟨"a", ">", "'x  y '"⟩).without Comparison.splitKeys)
          ((Comparison.stored ⟨"b", "=", "2"⟩).without ["literal"])) =
        .join "OR" (.leaf ⟨"a", ">", "'x  y '"⟩) (.leaf ⟨"b", "=", "2"⟩) := by
  have hcompile : compile "a > 'x  y ' OR b = 2" =
      .ok (.join "OR" (.leaf ⟨"a", ">", "'x  y '"⟩) (.leaf ⟨"b", "=", "2"⟩)) := by
    decide +kernel
  have hlost : (join "OR" (leaf ⟨"a", ">", "'x  y '"⟩) (leaf ⟨"b", "=", "2"⟩)).stored.LosesSplits
      (storedJoin "OR" ((Comparison.stored ⟨"a", ">", "'x  y '"⟩).without Comparison.splitKeys)
        ((Comparison.stored ⟨"b", "=", "2"⟩).without ["literal"]))
      ([⟨"a", ">", "'x  y '"⟩] ++ [⟨"b", "=", "2"⟩]) := by
    rw [stored_join, stored_leaf, stored_leaf]
    exact .join "OR" (.lost _ (by decide) (by decide)) (.lost _ (by decide) (by decide))
  exact ⟨hcompile, (ofStored_eq_iff_of_losesSplits hcompile hlost).mpr (by decide)⟩

/-- A field in quotes with blanks is cut: another comparison is read in place of the one stored. -/
theorem Tree.ofStored_of_quoted_field :
    compile "'a > b' = 1" = .ok (.leaf ⟨"'a > b'", "=", "1"⟩) ∧
      (leaf ⟨"'a > b'", "=", "1"⟩).stored.LosesSplits
        ((Comparison.stored ⟨"'a > b'", "=", "1"⟩).without Comparison.splitKeys)
        [⟨"'a > b'", "=", "1"⟩] ∧
      ofStored ((Comparison.stored ⟨"'a > b'", "=", "1"⟩).without Comparison.splitKeys) =
        .leaf ⟨"'a", ">", "b' = 1"⟩ := by
  refine ⟨by decide +kernel, ?_, ?_⟩
  · rw [stored_leaf]
    exact .lost _ (by decide) (List.Subset.refl _)
  · rw [Comparison.ofStored_without _ (by decide) (List.Subset.refl _)]
    decide +kernel

end Rulebook
