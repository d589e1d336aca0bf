import Rulebook.Proofs.Rule.RoundTrip

/-!
What trees are printed as. The text of any tree, damaged or not, is read as tokens whose kinds are
known from the tree; and no text of a rule has fewer groups than the one its tree is printed as.
-/

namespace Rulebook

/-- The comparisons of a tree are valid and can be written down, whatever else there is in it. -/
def Tree.IsWritable (t : Tree) : Prop :=
  ∀ c ∈ t.comparisons, c.isValid = true ∧ IsRenderable c.field ∧ IsRenderable c.literal

theorem Tree.IsExpressible.isWritable {t : Tree} (h : t.IsExpressible) : t.IsWritable := by
  obtain ⟨hw, hr⟩ := h
  induction t with
  | leaf c =>
      intro d hd
      obtain rfl := List.mem_singleton.mp hd
      exact ⟨hw, hr d hd⟩
  | join w l r ihl ihr =>
      simp only [isWellFormed, Bool.and_eq_true] at hw
      simp only [comparisons, List.forall_mem_append] at hr
      exact List.forall_mem_append.mpr ⟨ihl hw.1.2 hr.1, ihr hw.2 hr.2⟩
  | hole | foreign => cases hw

def Connective.kind : Connective → TokenKind
  | .and => .and
  | .or => .or

theorem Connective.ofWord_word (c : Connective) : TokenKind.ofWord c.word = c.kind := by
  cases c <;> decide

/-- The kinds of the tokens of a side, in parentheses or not. -/
def sideKinds (grouped : Bool) (kinds : List TokenKind) : List TokenKind :=
  if grouped then .opening :: (kinds ++ [.closing]) else kinds

/-- The kinds of the tokens that a tree is printed as. -/
def Tree.kinds : Tree → List TokenKind
  | .leaf _ => [.word, .word, .word]
  | .join w l r =>
    match Connective.ofWord? w with
    | none => []
    | some c => sideKinds (l.groupsLeft c.precedence) l.kinds ++
        c.kind :: sideKinds (r.groupsRight c.precedence) r.kinds
  | .hole => []
  | .foreign => []

theorem Tree.kinds_join (c : Connective) (l r : Tree) : (Tree.join c.word l r).kinds =
    sideKinds (l.groupsLeft c.precedence) l.kinds ++
      c.kind :: sideKinds (r.groupsRight c.precedence) r.kinds := by
  rw [kinds, c.ofWord?_word]

theorem Tree.kinds_unknown {w : Text} (hw : Connective.ofWord? w = none) (l r : Tree) :
    (Tree.join w l r).kinds = [] := by
  rw [kinds, hw]

/-- Tokens of given kinds. -/
def HasKinds (kinds : List TokenKind) (ts : List Token) : Prop := ts.map (·.kind) = kinds

theorem TokenThen.hasKinds {k : TokenKind} {w : Text} {kinds : List TokenKind} {ts : List Token}
    (h : TokenThen k w (HasKinds kinds) ts) : HasKinds (k :: kinds) ts := by
  obtain ⟨q, us, rfl, hus⟩ := h
  exact congrArg (List.cons k) hus

/-- What is printed is read as tokens of given kinds, wherever a word may end after it. -/
def PrintsKinds (kinds : List TokenKind) (print : Text → Text) : Prop :=
  ∀ ⦃ks : List TokenKind⦄ ⦃rest : Text⦄, AtBoundary rest → Reads (HasKinds ks) rest →
    Reads (HasKinds (kinds ++ ks)) (print rest)

theorem PrintsKinds.side {t : Tree} (h : PrintsKinds t.kinds t.textBefore) (grouped : Bool) :
    PrintsKinds (sideKinds grouped t.kinds) (t.sideText grouped) := by
  intro ks rest hr hks
  cases grouped with
  | false => exact h hr hks
  | true =>
      have hclosed := Reads.imp (.closing hks) fun _ => TokenThen.hasKinds
      have hopened := Reads.imp (.opening (h (.cons _ (by decide)) hclosed)) fun _ =>
        TokenThen.hasKinds
      simpa [sideKinds, Tree.sideText, Tree.parenthesis] using hopened

theorem PrintsKinds.join {l r : Tree} (hl : PrintsKinds l.kinds l.textBefore)
    (hr : PrintsKinds r.kinds r.textBefore) (c : Connective) :
    PrintsKinds (Tree.join c.word l r).kinds (Tree.join c.word l r).textBefore := by
  intro ks rest hrest hks
  have hright := hr.side (r.groupsRight c.precedence) hrest hks
  have hword := Reads.imp (.word c.word_isWord (.cons _ (by decide))
    (.blank (c := .char ' ') (by decide) hright)) fun _ => TokenThen.hasKinds
  have hleft := hl.side (l.groupsLeft c.precedence) (.cons _ (by decide))
    (.blank (c := .char ' ') (by decide) hword)
  rw [Tree.textBefore_join, Tree.kinds_join, ← c.ofWord_word]
  simpa using hleft

theorem Tree.IsWritable.printsKinds {t : Tree} (h : t.IsWritable) :
    PrintsKinds t.kinds t.textBefore := by
  induction t with
  | leaf c =>
      intro ks rest hr hks
      obtain ⟨hc, hf, hl⟩ := h c (List.mem_singleton.mpr rfl)
      simp only [Comparison.isValid, Bool.and_eq_true] at hc
      refine (Reads.comparison hf hc.1.2 hl hr hks).imp ?_
      rintro ts ⟨q, us, rfl, q', us', rfl, q'', us'', rfl, hk⟩
      simpa [HasKinds, kinds] using hk
  | join w l r ihl ihr =>
      obtain ⟨hl, hr⟩ := List.forall_mem_append.mp h
      cases hw : Connective.ofWord? w with
      | none =>
          intro ks rest _ hks
          rw [kinds_unknown hw, textBefore, hw]
          exact hks
      | some c =>
          obtain rfl := Connective.word_of_ofWord? hw
          exact (ihl hl).join (ihr hr) c
  | hole | foreign => exact fun _ _ _ hks => hks

/-- The text of a tree is read as tokens of the kinds that the tree is printed as. -/
theorem Tree.IsWritable.exists_layout {t : Tree} (h : t.IsWritable) :
    ∃ ts, Layout 0 t.text ts ∧ HasKinds t.kinds ts := by
  obtain ⟨ts, hl, hk⟩ := h.printsKinds .nil (.nil (P := HasKinds []) rfl) 0
  rw [List.append_nil] at hk
  exact ⟨ts, hl, hk⟩

/-- The number of groups that tokens open. -/
def openings (ts : List Token) : Nat := ts.countP fun x => x.kind = .opening

theorem HasKinds.openings {kinds : List TokenKind} {ts : List Token} (h : HasKinds kinds ts) :
    openings ts = kinds.count .opening := by
  rw [← h, List.count, List.countP_map]
  rfl

theorem count_sideKinds (grouped : Bool) (kinds : List TokenKind) :
    (sideKinds grouped kinds).count .opening = kinds.count .opening + grouped.toNat := by
  cases grouped <;> simp [sideKinds]

theorem count_sideKinds_mono {a b : Nat} (hle : a ≤ b) (n : Nat) (kinds : List TokenKind) :
    (sideKinds (decide (n < a)) kinds).count .opening ≤
      (sideKinds (decide (n < b)) kinds).count .opening := by
  rw [count_sideKinds, count_sideKinds]
  apply Nat.add_le_add_left
  by_cases h : n < a
  · have hb : n < b := Nat.lt_of_lt_of_le h hle
    simp [h, hb]
  · simp [h]

/-- A join needs no groups but those of its sides, where it stands as a phrase of its own level. -/
theorem count_sideKinds_join (c : Connective) {l r : Tree} (hl : l.isWellFormed = true)
    (hr : r.isWellFormed = true) :
    (sideKinds (decide ((Tree.join c.word l r).level.least < c.level.least))
      (Tree.join c.word l r).kinds).count .opening =
    (sideKinds (decide (l.level.least < c.level.least)) l.kinds).count .opening +
      (sideKinds (decide (r.level.least < c.rightLevel.least)) r.kinds).count .opening := by
  have hc : c.kind ≠ .opening := by cases c <;> decide
  rw [Tree.kinds_join, Tree.groupsLeft_eq hl, Tree.groupsRight_eq hr, Tree.level_join,
    decide_eq_false (Nat.lt_irrefl _), count_sideKinds, List.count_append, List.count_cons_of_ne hc]
  rfl

theorem openings_append_cons {x : Token} (hx : x.kind ≠ .opening) (ls rs : List Token) :
    openings (ls ++ x :: rs) = openings ls + openings rs := by
  simp [openings, hx]

/-- A join needs no more groups than are open around a connective, if its sides need no more. -/
theorem count_sideKinds_join_le (c : Connective) {l r : Tree} {ls rs : List Token} {x : Token}
    (hwl : l.isWellFormed = true) (hwr : r.isWellFormed = true) (hx : x.kind = c.kind)
    (hl : (sideKinds (decide (l.level.least < c.level.least)) l.kinds).count .opening ≤ openings ls)
    (hr : (sideKinds (decide (r.level.least < c.rightLevel.least)) r.kinds).count .opening ≤
      openings rs) :
    (sideKinds (decide ((Tree.join c.word l r).level.least < c.level.least))
      (Tree.join c.word l r).kinds).count .opening ≤ openings (ls ++ x :: rs) := by
  have hopen : x.kind ≠ .opening := by
    rw [hx]
    cases c <;> decide
  rw [count_sideKinds_join c hwl hwr, openings_append_cons hopen]
  exact Nat.add_le_add hl hr

/-- A phrase opens at least the groups that its tree is printed with as a side at that level. -/
theorem Derives.count_sideKinds_le {ℓ : Level} {ts : List Token} {t : Tree} (h : Derives ℓ ts t)
    (hread : ∀ x ∈ ts, x.IsRead) :
    (sideKinds (decide (t.level.least < ℓ.least)) t.kinds).count .opening ≤ openings ts := by
  induction h with
  | ofTerm h ih | ofFactor h ih =>
      exact Nat.le_trans (count_sideKinds_mono (by decide) _ _) (ih hread)
  | or hl hr ihl ihr =>
      simp only [List.forall_mem_append, List.forall_mem_cons] at hread
      have hwl := (hl.isExpressible hread.1).wellFormed
      have hwr := (hr.isExpressible hread.2.2).wellFormed
      exact count_sideKinds_join_le .or hwl hwr rfl (ihl hread.1) (ihr hread.2.2)
  | and hl hr ihl ihr =>
      simp only [List.forall_mem_append, List.forall_mem_cons] at hread
      have hwl := (hl.isExpressible hread.1).wellFormed
      have hwr := (hr.isExpressible hread.2.2).wellFormed
      exact count_sideKinds_join_le .and hwl hwr rfl (ihl hread.1) (ihr hread.2.2)
  | @group ts t q q' h ih =>
      simp only [List.cons_append, List.forall_mem_cons, List.forall_mem_append] at hread
      have hinside := ih hread.2.1
      have hone := Bool.toNat_le (decide (t.level.least < Level.factor.least))
      have hopen : openings (⟨.opening, some "(", q⟩ :: ts ++ [⟨.closing, some ")", q'⟩]) =
          openings ts + 1 := by
        simp [openings]
      rw [count_sideKinds] at hinside ⊢
      omega
  | comparison hf hc hl => exact Nat.zero_le _

/-- No text that compiles to a tree opens fewer groups than the text that the tree is printed as,
and that compiles to the same tree. -/
theorem openings_text_le {text : Text} {t : Tree} (h : compile text = .ok t) :
    compile t.text = .ok t ∧ ∃ tokens printed, tokenize text = .ok tokens ∧
      tokenize t.text = .ok printed ∧ openings printed ≤ openings tokens := by
  have hexpress := isExpressible_of_compile h
  obtain ⟨ts, hl, hd⟩ := compile_eq_ok_iff.mp h
  obtain ⟨us, hl', hk⟩ := hexpress.isWritable.exists_layout
  refine ⟨hexpress.compile_text, _, _, tokenize_eq_ok_iff.mpr ⟨ts, hl, rfl⟩,
    tokenize_eq_ok_iff.mpr ⟨us, hl', rfl⟩, ?_⟩
  have hfinish (vs : List Token) (e : Int) : openings (vs ++ [.finishAt e]) = openings vs := by
    simp [openings, Token.finishAt]
  calc openings (us ++ [.finishAt t.text.length])
      = t.kinds.count .opening := by rw [hfinish, hk.openings]
    _ ≤ (sideKinds (decide (t.level.least < Level.expression.least)) t.kinds).count .opening := by
        rw [count_sideKinds]
        exact Nat.le_add_right _ _
    _ ≤ openings ts := hd.count_sideKinds_le hl.isRead
    _ = openings (ts ++ [.finishAt text.length]) := (hfinish ts _).symm

theorem openings_text_le_once :
    compile "((a = 1) OR b = '(') AND ((c > 2 AND d < 3))" =
        .ok (.join "AND" (.join "OR" (.leaf ⟨"a", "=", "1"⟩) (.leaf ⟨"b", "=", "'('"⟩))
          (.join "AND" (.leaf ⟨"c", ">", "2"⟩) (.leaf ⟨"d", "<", "3"⟩))) ∧
      compile "(a = 1 OR b = '(') AND (c > 2 AND d < 3)" =
        .ok (.join "AND" (.join "OR" (.leaf ⟨"a", "=", "1"⟩) (.leaf ⟨"b", "=", "'('"⟩))
          (.join "AND" (.leaf ⟨"c", ">", "2"⟩) (.leaf ⟨"d", "<", "3"⟩))) ∧
      ∃ tokens printed, tokenize "((a = 1) OR b = '(') AND ((c > 2 AND d < 3))" = .ok tokens ∧
        tokenize "(a = 1 OR b = '(') AND (c > 2 AND d < 3)" = .ok printed ∧
        openings printed ≤ openings tokens := by
  have h : compile "((a = 1) OR b = '(') AND ((c > 2 AND d < 3))" =
      .ok (.join "AND" (.join "OR" (.leaf ⟨"a", "=", "1"⟩) (.leaf ⟨"b", "=", "'('"⟩))
        (.join "AND" (.leaf ⟨"c", ">", "2"⟩) (.leaf ⟨"d", "<", "3"⟩))) := by decide +kernel
  exact ⟨h, openings_text_le h⟩

end Rulebook
