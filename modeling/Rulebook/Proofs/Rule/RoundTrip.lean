import Rulebook.Proofs.Rule.Grammar
import Rulebook.Rule.Print

/-!
Printing and compiling. A tree that rule text can express is compiled back from its own text;
compiling yields such trees and no others.
-/

namespace Rulebook

/-- A word that is read as itself, and not as a connective or a comparator. -/
structure IsRenderable (w : Text) : Prop where
  tokens : (tokenize w).map (·.map fun x => (x.kind, x.value)) =
    .ok [(.word, some w), (.finish, none)]
  no_comparator : Comparator.isSymbol w = false

/-- A tree that rule text can express: it is well formed, and the words of its comparisons can be
written down. -/
structure Tree.IsExpressible (t : Tree) : Prop where
  wellFormed : t.isWellFormed = true
  renderable : ∀ c ∈ t.comparisons, IsRenderable c.field ∧ IsRenderable c.literal

theorem IsWord.tokenize {w : Text} (hw : IsWord w) :
    tokenize w = .ok [⟨.ofWord w, some w, 0⟩, .finishAt w.length] := by
  refine tokenize_eq_ok_iff.mpr ⟨[_], ?_, rfl⟩
  have hl : Layout 0 (w ++ []) [⟨.ofWord w, some w, 0⟩] := .word hw .nil (.nil _)
  rwa [List.append_nil] at hl

theorem isRenderable_iff {w : Text} : IsRenderable w ↔
    IsWord w ∧ TokenKind.ofWord w = .word ∧ Comparator.isSymbol w = false := by
  constructor
  · rintro ⟨ht, hc⟩
    cases h : tokenize w with
    | error f =>
        rw [h] at ht
        cases ht
    | ok tokens =>
        obtain ⟨ts, hl, rfl⟩ := tokenize_eq_ok_iff.mp h
        have hts : ts.map (fun x => (x.kind, x.value)) = [(.word, some w)] := by
          rw [h] at ht
          simp only [Except.map, List.map_append, Except.ok.injEq] at ht
          exact List.append_inj_left' ht rfl
        obtain ⟨x, rfl, hx⟩ := List.map_eq_singleton_iff.mp hts
        have hread := hl.isRead x (List.mem_singleton.mpr rfl)
        cases hread with
        | word hw hk pos =>
            cases hx
            exact ⟨hw, hk, hc⟩
        | opening | closing | and | or => cases hx
  · rintro ⟨hw, hk, hc⟩
    refine ⟨?_, hc⟩
    rw [hw.tokenize, hk]
    rfl

/-- A tree compiled from a text can be expressed. -/
theorem Derives.isExpressible {ℓ : Level} {ts : List Token} {t : Tree} (h : Derives ℓ ts t)
    (hread : ∀ x ∈ ts, x.IsRead) : t.IsExpressible := by
  induction h with
  | ofTerm h ih | ofFactor h ih => exact ih hread
  | or hl hr ihl ihr | and hl hr ihl ihr =>
      simp only [List.forall_mem_append, List.forall_mem_cons] at hread
      have hL := ihl hread.1
      have hR := ihr hread.2.2
      refine ⟨?_, ?_⟩
      · simp only [Tree.isWellFormed, hL.wellFormed, hR.wellFormed, Bool.and_true]
        decide
      · simp only [Tree.comparisons, List.forall_mem_append]
        exact ⟨hL.renderable, hR.renderable⟩
  | group h ih =>
      simp only [List.cons_append, List.forall_mem_cons, List.forall_mem_append] at hread
      exact ih hread.2.1
  | comparison hf hc hl =>
      simp only [List.forall_mem_cons] at hread
      obtain ⟨hreadf, -, hreadl, -⟩ := hread
      cases hreadf with
      | word hwf hkf =>
          cases hreadl with
          | word hwl hkl =>
              refine ⟨?_, ?_⟩
              · simp [Tree.isWellFormed, Comparison.isValid, hc, hwf.nonempty, hwl.nonempty]
              · simp only [Tree.comparisons, List.forall_mem_singleton]
                exact ⟨isRenderable_iff.mpr ⟨hwf, hkf, hf⟩, isRenderable_iff.mpr ⟨hwl, hkl, hl⟩⟩

/-- Wherever a text stands, it is read as tokens that satisfy `P`. -/
def Reads (P : List Token → Prop) (text : Text) : Prop :=
  ∀ pos, ∃ ts, Layout pos text ts ∧ P ts

/-- A token with a text, and tokens that satisfy `P` after it. -/
def TokenThen (kind : TokenKind) (w : Text) (P : List Token → Prop) (ts : List Token) : Prop :=
  ∃ q us, ts = ⟨kind, some w, q⟩ :: us ∧ P us

/-- A phrase that derives a tree, and tokens that satisfy `P` after it. -/
def PhraseThen (ℓ : Level) (t : Tree) (P : List Token → Prop) (ts : List Token) : Prop :=
  ∃ us vs, ts = us ++ vs ∧ Derives ℓ us t ∧ P vs

section
variable {P Q : List Token → Prop} {rest : Text}

theorem Reads.nil (h : P []) : Reads P [] := fun pos => ⟨[], .nil pos, h⟩

theorem Reads.imp (h : Reads P rest) (hPQ : ∀ ts, P ts → Q ts) : Reads Q rest := by
  intro pos
  obtain ⟨ts, hl, hp⟩ := h pos
  exact ⟨ts, hl, hPQ ts hp⟩

theorem Reads.blank {c : CodePoint} (hc : Text.isBlank c = true) (h : Reads P rest) :
    Reads P (c :: rest) := by
  intro pos
  obtain ⟨ts, hl, hp⟩ := h (pos + 1)
  exact ⟨ts, .blank hc hl, hp⟩

theorem Reads.opening (h : Reads P rest) :
    Reads (TokenThen .opening "(" P) (.char '(' :: rest) := by
  intro pos
  obtain ⟨ts, hl, hp⟩ := h (pos + 1)
  exact ⟨_, .opening hl, pos, ts, rfl, hp⟩

theorem Reads.closing (h : Reads P rest) :
    Reads (TokenThen .closing ")" P) (.char ')' :: rest) := by
  intro pos
  obtain ⟨ts, hl, hp⟩ := h (pos + 1)
  exact ⟨_, .closing hl, pos, ts, rfl, hp⟩

theorem Reads.word {w : Text} (hw : IsWord w) (hr : AtBoundary rest) (h : Reads P rest) :
    Reads (TokenThen (.ofWord w) w P) (w ++ rest) := by
  intro pos
  obtain ⟨ts, hl, hp⟩ := h (pos + w.length)
  exact ⟨_, .word hw hr hl, pos, ts, rfl, hp⟩

end

theorem Comparator.symbol_of_isSymbol {s : Text} (h : Comparator.isSymbol s = true) :
    ∃ c : Comparator, s = c.symbol := by
  unfold isSymbol ofSymbol? at h
  split_ifs at h with h₁ h₂ h₃ h₄ h₅ h₆
  · exact ⟨.gt, h₁⟩
  · exact ⟨.lt, h₂⟩
  · exact ⟨.eq, h₃⟩
  · exact ⟨.ne, h₄⟩
  · exact ⟨.ge, h₅⟩
  · exact ⟨.le, h₆⟩
  · cases h

theorem Comparator.symbol_isWord (c : Comparator) :
    IsWord c.symbol ∧ TokenKind.ofWord c.symbol = .word := by
  cases c <;> exact ⟨⟨by decide, by decide⟩, by decide⟩

/-- A comparison is read as its three words. -/
theorem Reads.comparison {c : Comparison} {P : List Token → Prop} {rest : Text}
    (hf : IsRenderable c.field) (hc : Comparator.isSymbol c.comparator = true)
    (hl : IsRenderable c.literal) (hr : AtBoundary rest) (hP : Reads P rest) :
    Reads (TokenThen .word c.field (TokenThen .word c.comparator (TokenThen .word c.literal P)))
      ((Tree.leaf c).textBefore rest) := by
  obtain ⟨hwf, hkf, -⟩ := isRenderable_iff.mp hf
  obtain ⟨hwl, hkl, -⟩ := isRenderable_iff.mp hl
  obtain ⟨s, hs⟩ := Comparator.symbol_of_isSymbol hc
  obtain ⟨hws, hks⟩ := s.symbol_isWord
  rw [← hs] at hws hks
  have h₁ := Reads.blank (c := .char ' ') (by decide) (.word hwl hr hP)
  have h₂ := Reads.blank (c := .char ' ') (by decide) (.word hws (.cons _ (by decide)) h₁)
  have h₃ := Reads.word hwf (.cons _ (by decide)) h₂
  have htext : (Tree.leaf c).textBefore rest = c.field ++ (.char ' ' :: (c.comparator ++
      (.char ' ' :: (c.literal ++ rest)))) := by
    simp [Tree.textBefore, Comparison.text, Text.ofString, Text.ofChars]
  rwa [hkf, hks, hkl, ← htext] at h₃

theorem Connective.word_of_ofWord? {w : Text} {c : Connective}
    (h : Connective.ofWord? w = some c) : w = c.word := by
  unfold ofWord? at h
  split_ifs at h with h₁ h₂
  · exact Option.some.inj h ▸ h₁
  · exact Option.some.inj h ▸ h₂

/-- The level of what a connective joins, and of what stands on its left. -/
def Connective.level : Connective → Level
  | .and => .term
  | .or => .expression

/-- The level of what stands on the right of a connective. -/
def Connective.rightLevel : Connective → Level
  | .and => .factor
  | .or => .term

theorem Derives.join {ls rs : List Token} {l r : Tree} (c : Connective) (q : Int)
    (hl : Derives c.level ls l) (hr : Derives c.rightLevel rs r) :
    Derives c.level (ls ++ ⟨.ofWord c.word, some c.word, q⟩ :: rs) (.join c.word l r) := by
  cases c with
  | and => exact .and hl hr
  | or => exact .or hl hr

/-- The level of the phrase that a well-formed tree is printed as. -/
def Tree.level : Tree → Level
  | .join w _ _ => ((Connective.ofWord? w).map Connective.level).getD .expression
  | _ => .factor

/-- A well-formed tree is a comparison, or a connective stands on its top. -/
theorem Tree.top_cases {t : Tree} (ht : t.isWellFormed = true) :
    (t.topPrecedence? = none ∧ t.level = .factor) ∨
      ∃ c : Connective, t.topPrecedence? = some c.precedence ∧ t.level = c.level := by
  cases t with
  | leaf c => exact .inl ⟨rfl, rfl⟩
  | join w l r =>
      simp only [isWellFormed, Bool.and_eq_true] at ht
      obtain ⟨c, hc⟩ := Option.isSome_iff_exists.mp ht.1.1
      exact .inr ⟨c, by simp [topPrecedence?, hc], by simp [level, hc]⟩
  | hole | foreign => cases ht

/-- A left side is grouped exactly if its phrase is of a looser level than stands there. -/
theorem Tree.groupsLeft_eq {t : Tree} (ht : t.isWellFormed = true) (c : Connective) :
    t.groupsLeft c.precedence = decide (t.level.least < c.level.least) := by
  unfold groupsLeft
  rcases top_cases ht with ⟨hp, hl⟩ | ⟨d, hp, hl⟩
  · rw [hp, hl]
    cases c <;> decide
  · rw [hp, hl]
    cases c <;> cases d <;> decide

/-- A right side is grouped exactly if its phrase is of a looser level than stands there. -/
theorem Tree.groupsRight_eq {t : Tree} (ht : t.isWellFormed = true) (c : Connective) :
    t.groupsRight c.precedence = decide (t.level.least < c.rightLevel.least) := by
  unfold groupsRight
  rcases top_cases ht with ⟨hp, hl⟩ | ⟨d, hp, hl⟩
  · rw [hp, hl]
    cases c <;> decide
  · rw [hp, hl]
    cases c <;> cases d <;> decide

/-- A tree is printed as a phrase of a level, wherever a word may end after it. -/
def Prints (ℓ : Level) (t : Tree) (print : Text → Text) : Prop :=
  ∀ ⦃P : List Token → Prop⦄ ⦃rest : Text⦄, AtBoundary rest → Reads P rest →
    Reads (PhraseThen ℓ t P) (print rest)

theorem Prints.comparison {c : Comparison} (hf : IsRenderable c.field)
    (hc : Comparator.isSymbol c.comparator = true) (hl : IsRenderable c.literal) :
    Prints .factor (.leaf c) (Tree.leaf c).textBefore := by
  intro P rest hr hP
  refine (Reads.comparison hf hc hl hr hP).imp ?_
  rintro ts ⟨q, us, rfl, q', us', rfl, q'', us'', rfl, hp⟩
  exact ⟨[_, _, _], us'', rfl, .comparison hf.no_comparator hc hl.no_comparator, hp⟩

section
variable {ℓ ℓ' : Level} {t : Tree} {print : Text → Text}

/-- A phrase of a tighter level is printed as one of a looser level, too. -/
theorem Prints.widen (h : Prints ℓ t print) (hle : ℓ'.least ≤ ℓ.least) : Prints ℓ' t print := by
  intro P rest hr hP
  refine (h hr hP).imp ?_
  rintro ts ⟨us, vs, rfl, hd, hp⟩
  exact ⟨us, vs, rfl, hd.widen hle, hp⟩

/-- In parentheses any phrase is printed as a factor. -/
theorem Prints.grouped (h : Prints ℓ t print) :
    Prints .factor t fun rest => .char '(' :: print (.char ')' :: rest) := by
  intro P rest hr hP
  refine Reads.imp (.opening (h (.cons _ (by decide)) (.closing hP))) ?_
  rintro ts ⟨q, us, rfl, vs, ws, rfl, hd, q', ws', rfl, hp⟩
  refine ⟨⟨.opening, some "(", q⟩ :: vs ++ [⟨.closing, some ")", q'⟩], ws', by simp, ?_, hp⟩
  exact .group (hd.widen (by cases ℓ <;> decide))

/-- A tree is compiled back from what it is printed as. -/
theorem Prints.compile (h : Prints ℓ t print) : compile (print []) = .ok t := by
  obtain ⟨ts, hl, us, vs, rfl, hd, rfl⟩ := h .nil (.nil (P := (· = [])) rfl) 0
  rw [List.append_nil] at hl
  exact compile_eq_ok_iff.mpr ⟨us, hl, hd.widen (by cases ℓ <;> decide)⟩

/-- The text of a side of a join, with `rest` after it. -/
def Tree.sideText (grouped : Bool) (t : Tree) (rest : Text) : Text :=
  parenthesis grouped '(' (t.textBefore (parenthesis grouped ')' rest))

/-- A side that is of a looser level than stands there is grouped. -/
theorem Prints.side (h : Prints t.level t t.textBefore) {grouped : Bool}
    (hg : grouped = decide (t.level.least < ℓ.least)) : Prints ℓ t (Tree.sideText grouped t) := by
  cases grouped with
  | false => exact h.widen (Nat.le_of_not_lt (of_decide_eq_false hg.symm))
  | true => exact h.grouped.widen (by cases ℓ <;> decide)

end

theorem Connective.word_isWord (c : Connective) : IsWord c.word := by
  cases c <;> exact ⟨by decide, by decide⟩

theorem Connective.ofWord?_word (c : Connective) : Connective.ofWord? c.word = some c := by
  cases c <;> decide

theorem Tree.level_join (c : Connective) (l r : Tree) : (Tree.join c.word l r).level = c.level := by
  rw [level, c.ofWord?_word]
  rfl

theorem Tree.textBefore_join (c : Connective) (l r : Tree) (rest : Text) :
    (Tree.join c.word l r).textBefore rest =
      sideText (l.groupsLeft c.precedence) l (.char ' ' :: (c.word ++
        .char ' ' :: sideText (r.groupsRight c.precedence) r rest)) := by
  rw [textBefore, c.ofWord?_word]
  simp [sideText, Text.ofString, Text.ofChars]

/-- Two phrases are joined by the word of a connective with blanks around it. -/
theorem Prints.joined {c : Connective} {l r : Tree} {printl printr : Text → Text}
    (hl : Prints c.level l printl) (hr : Prints c.rightLevel r printr) :
    Prints c.level (.join c.word l r)
      fun rest => printl (.char ' ' :: (c.word ++ .char ' ' :: printr rest)) := by
  intro P rest hrest hP
  have hright := Reads.blank (c := .char ' ') (by decide) (hr hrest hP)
  have hword := Reads.word c.word_isWord (.cons _ (by decide)) hright
  refine (hl (.cons _ (by decide)) (.blank (c := .char ' ') (by decide) hword)).imp ?_
  rintro ts ⟨us, vs, rfl, hd, q, ws, rfl, us', vs', rfl, hd', hp⟩
  exact ⟨us ++ ⟨.ofWord c.word, some c.word, q⟩ :: us', vs', by simp, hd.join c q hd', hp⟩

theorem Prints.join {c : Connective} {l r : Tree} (hwl : l.isWellFormed = true)
    (hwr : r.isWellFormed = true) (hl : Prints l.level l l.textBefore)
    (hr : Prints r.level r r.textBefore) :
    Prints c.level (.join c.word l r) (Tree.join c.word l r).textBefore := by
  have hleft := hl.side (Tree.groupsLeft_eq hwl c)
  have hright := hr.side (Tree.groupsRight_eq hwr c)
  intro P rest hrest hP
  rw [Tree.textBefore_join]
  exact hleft.joined hright hrest hP

theorem Tree.IsExpressible.prints {t : Tree} (h : t.IsExpressible) :
    Prints t.level t t.textBefore := by
  induction t with
  | leaf c =>
      have hw : c.isValid = true := h.wellFormed
      simp only [Comparison.isValid, Bool.and_eq_true] at hw
      obtain ⟨hf, hl⟩ := h.renderable c (List.mem_singleton.mpr rfl)
      exact .comparison hf hw.1.2 hl
  | join w l r ihl ihr =>
      have hw := h.wellFormed
      have hr := h.renderable
      simp only [isWellFormed, Bool.and_eq_true] at hw
      simp only [comparisons, List.forall_mem_append] at hr
      obtain ⟨c, hc⟩ := Option.isSome_iff_exists.mp hw.1.1
      obtain rfl := Connective.word_of_ofWord? hc
      rw [level_join]
      exact .join hw.1.2 hw.2 (ihl ⟨hw.1.2, hr.1⟩) (ihr ⟨hw.2, hr.2⟩)
  | hole | foreign => exact absurd h.wellFormed (by decide)

theorem Tree.IsExpressible.compile_text {t : Tree} (h : t.IsExpressible) :
    compile t.text = .ok t :=
  h.prints.compile

theorem isExpressible_of_compile {text : Text} {t : Tree} (h : compile text = .ok t) :
    t.IsExpressible := by
  obtain ⟨ts, hl, hd⟩ := compile_eq_ok_iff.mp h
  exact hd.isExpressible hl.isRead

/-- A tree is compiled back from its own text exactly if rule text can express it, and these are
the trees that texts compile to. -/
theorem compile_text_eq_ok_iff (t : Tree) :
    (compile t.text = .ok t ↔ t.IsExpressible) ∧
      ((∃ text, compile text = .ok t) ↔ t.IsExpressible) :=
  ⟨⟨isExpressible_of_compile, fun h => h.compile_text⟩,
    fun ⟨_, h⟩ => isExpressible_of_compile h, fun h => ⟨t.text, h.compile_text⟩⟩

end Rulebook
