import Mathlib.Algebra.Ring.Parity
import Mathlib.Data.List.Infix
import Mathlib.Logic.Relation
import Rulebook.Proofs.Rule.Layout
import Rulebook.Rule.Tree

/-!
Tilings. A text falls into the tokens that cover all of it but blanks, each spelled as it stands
there; what stands in the gaps between them does not matter, as long as words stay apart.
-/

namespace Rulebook
open Comparison (mark)

/-- The spelling of a word: quotation marks come in pairs, and what would end a word stands only
behind an odd number of them. -/
structure IsSpelled (w : Text) : Prop where
  nonempty : w ≠ []
  paired : Even (w.count mark)
  quoted : ∀ before c after, w = before ++ c :: after → endsWord c = true →
    Odd (before.count mark)

theorem ne_mark_of_endsWord {c : CodePoint} (h : endsWord c = true) : c ≠ mark := by
  rintro rfl
  exact absurd h (by decide)

/-- The characters of a text, each with those before it, are its first one and those of the rest. -/
theorem forall_split_cons {α : Type} {P : List α → α → Prop} {d : α} {w : List α} :
    (∀ before c after, d :: w = before ++ c :: after → P before c) ↔
      P [] d ∧ ∀ before c after, w = before ++ c :: after → P (d :: before) c := by
  constructor
  · intro h
    exact ⟨h [] d w rfl, fun before c after he => h (d :: before) c after (congrArg _ he)⟩
  · rintro ⟨hd, hw⟩ before c after he
    cases before with
    | nil =>
        obtain ⟨rfl, -⟩ := List.cons.inj he
        exact hd
    | cons e before =>
        obtain ⟨rfl, he'⟩ := List.cons.inj he
        exact hw before c after he'

/-- Quotation marks pair off in what follows a number of them, open or not, exactly if the total is
even, and it is odd wherever a word would end. -/
theorem pairsQuotes_iff (quoted : Bool) {w : Text} : pairsQuotes quoted w = true ↔
    (quoted.toNat + w.count mark) % 2 = 0 ∧
      ∀ before c after, w = before ++ c :: after → endsWord c = true →
        (quoted.toNat + before.count mark) % 2 = 1 := by
  induction w generalizing quoted with
  | nil => cases quoted <;> simp [pairsQuotes]
  | cons d w ih =>
      rw [forall_split_cons, pairsQuotes, Bool.and_eq_true, ih]
      have hcount (n : Nat) : (quoted.toNat + (n + if d == mark then 1 else 0)) % 2 =
          ((quoted != (d == mark)).toNat + n) % 2 := by
        cases quoted <;> cases d == mark <;> simp <;> omega
      have hhead : (quoted || !endsWord d) = true ↔ (endsWord d = true → quoted.toNat % 2 = 1) := by
        cases quoted <;> cases endsWord d <;> decide
      simp only [List.count_cons, hcount, List.count_nil, Nat.add_zero, hhead]
      exact and_left_comm

theorem isWord_iff_isSpelled {w : Text} : IsWord w ↔ IsSpelled w := by
  have hpairs := pairsQuotes_iff false (w := w)
  simp only [Bool.toNat_false, Nat.zero_add, ← Nat.even_iff, ← Nat.odd_iff] at hpairs
  constructor
  · intro h
    obtain ⟨hpaired, hquoted⟩ := hpairs.mp h.pairs
    exact ⟨h.nonempty, hpaired, hquoted⟩
  · intro h
    exact ⟨h.nonempty, hpairs.mpr ⟨h.paired, h.quoted⟩⟩

namespace Token

/-- The text that a token stands for. -/
def text (x : Token) : Text := x.value.getD []

/-- The position just behind a token. -/
def stop (x : Token) : Int := x.position + x.text.length

/-- A token that is read as a word is written: a word, or a connective. -/
def isWordlike (x : Token) : Bool := x.kind = .word ∨ x.kind = .and ∨ x.kind = .or

/-- A position lies within a token. -/
def Covers (x : Token) (i : Int) : Prop := x.position ≤ i ∧ i < x.stop

/-- The kind and the text of a token, wherever it stands. -/
def content (x : Token) : TokenKind × Option Text := (x.kind, x.value)

/-- A token that can be written: a parenthesis, or a word spelled as words are, whose text tells
its kind. -/
def IsWritten (x : Token) : Prop :=
  ∃ w, x.value = some w ∧ (x.kind = .opening ∧ w = "(" ∨ x.kind = .closing ∧ w = ")" ∨
    IsSpelled w ∧ x.kind = .ofWord w)

end Token

/-- The tokens tile a text whose first character stands at `start`. Each is written where it stands,
one after the other, with nothing but blanks outside of them and with words apart. -/
structure Tiles (start : Nat) (text : Text) (ts : List Token) : Prop where
  written : ∀ x ∈ ts, x.IsWritten
  placed : ∀ x ∈ ts, ∃ before after, text = before ++ (x.text ++ after) ∧
    x.position = (start + before.length : Nat)
  ordered : ts.Pairwise fun x y => x.stop ≤ y.position
  blank : ∀ (i : Nat) c, text[i]? = some c → (∀ x ∈ ts, ¬ x.Covers (start + i : Nat)) →
    Text.isBlank c = true
  apart : ∀ x ∈ ts, ∀ y ∈ ts, x.isWordlike = true → y.isWordlike = true → x.stop ≠ y.position

section
variable {x y : Token} {c : CodePoint} {w text rest after : Text} {ts : List Token} {start : Nat}

theorem Token.isWordlike_ofWord (w : Text) (v : Option Text) (q : Int) :
    Token.isWordlike ⟨.ofWord w, v, q⟩ = true := by
  unfold TokenKind.ofWord
  split
  · rfl
  · split <;> rfl

theorem Token.IsWritten.text_ne_nil (h : x.IsWritten) : x.text ≠ [] := by
  obtain ⟨w, hw, ⟨-, rfl⟩ | ⟨-, rfl⟩ | ⟨hs, -⟩⟩ := h
  · rw [Token.text, hw]
    exact nofun
  · rw [Token.text, hw]
    exact nofun
  · rw [Token.text, hw]
    exact hs.nonempty

theorem Token.IsWritten.length_pos (h : x.IsWritten) : 0 < x.text.length :=
  List.length_pos_iff.mpr h.text_ne_nil

theorem Token.stop_eq (x : Token) : x.stop = x.position + x.text.length := rfl

theorem Token.IsWritten.cases (h : x.IsWritten) :
    x.isWordlike = false ∧ (∀ d ∈ x.text.head?, endsWord d = true) ∨
      x.isWordlike = true ∧ IsSpelled x.text := by
  obtain ⟨w, hw, ⟨hk, rfl⟩ | ⟨hk, rfl⟩ | ⟨hs, hk⟩⟩ := h
  · exact .inl ⟨by simp [Token.isWordlike, hk], by rw [Token.text, hw]; decide⟩
  · exact .inl ⟨by simp [Token.isWordlike, hk], by rw [Token.text, hw]; decide⟩
  · refine .inr ⟨?_, by rwa [Token.text, hw]⟩
    rw [Token.isWordlike, hk]
    exact Token.isWordlike_ofWord w none 0

theorem IsSpelled.endsWord_head (h : IsSpelled w) : ∀ d ∈ w.head?, endsWord d = false := by
  intro d hd
  obtain ⟨after, rfl⟩ := List.head?_eq_some_iff.mp hd
  by_contra hends
  have hodd := h.quoted [] d after rfl (by simpa using hends)
  simp at hodd

theorem Tiles.start_le (h : Tiles start text ts) (hx : x ∈ ts) : (start : Int) ≤ x.position := by
  obtain ⟨before, after, -, hpos⟩ := h.placed x hx
  omega

theorem Tiles.nil (start : Nat) : Tiles start [] [] where
  written := nofun
  placed := nofun
  ordered := .nil
  blank i c hc := by cases hc
  apart := nofun

theorem Tiles.cons_blank (hc : Text.isBlank c = true) (h : Tiles (start + 1) rest ts) :
    Tiles start (c :: rest) ts where
  written := h.written
  placed x hx := by
    obtain ⟨before, after, rfl, hpos⟩ := h.placed x hx
    exact ⟨c :: before, after, rfl, by rw [hpos, List.length_cons]; omega⟩
  ordered := h.ordered
  blank i d hd hout := by
    cases i with
    | zero => exact Option.some.inj hd ▸ hc
    | succ i => exact h.blank i d hd (by simpa only [Nat.add_assoc, Nat.add_comm 1] using hout)
  apart := h.apart

theorem Tiles.not_isWordlike_of_start (h : Tiles start after ts) (hend : AtBoundary after)
    (hy : y ∈ ts) (hpos : y.position = start) : y.isWordlike = false := by
  obtain ⟨before, rest, rfl, hpos'⟩ := h.placed y hy
  have hbefore : before = [] := List.length_eq_zero_iff.mp (by omega)
  subst hbefore
  rcases (h.written y hy).cases with ⟨hw, -⟩ | ⟨-, hs⟩
  · exact hw
  · obtain ⟨d, us, hd⟩ := List.exists_cons_of_ne_nil hs.nonempty
    have hhead := hs.endsWord_head d (by rw [hd]; rfl)
    rw [hend d (by rw [List.nil_append, hd]; rfl)] at hhead
    cases hhead

theorem Tiles.cons (hx : x.IsWritten) (hpos : x.position = start)
    (hend : x.isWordlike = true → AtBoundary after)
    (h : Tiles (start + x.text.length) after ts) : Tiles start (x.text ++ after) (x :: ts) where
  written := List.forall_mem_cons.mpr ⟨hx, h.written⟩
  placed := by
    refine List.forall_mem_cons.mpr ⟨⟨[], after, rfl, by simpa using hpos⟩, fun y hy => ?_⟩
    obtain ⟨before, rest, rfl, hpos'⟩ := h.placed y hy
    exact ⟨x.text ++ before, rest, by simp, by rw [hpos', List.length_append]; omega⟩
  ordered := by
    refine List.pairwise_cons.mpr ⟨fun y hy => ?_, h.ordered⟩
    have := h.start_le hy
    rw [x.stop_eq]
    omega
  blank i d hd hout := by
    obtain ⟨hself, hothers⟩ := List.forall_mem_cons.mp hout
    have hle : x.text.length ≤ i := by
      by_contra hlt
      exact hself ⟨by omega, by rw [x.stop_eq]; omega⟩
    rw [List.getElem?_append_right hle] at hd
    refine h.blank _ d hd fun y hy => ?_
    rw [Nat.add_assoc, Nat.add_sub_cancel' hle]
    exact hothers y hy
  apart := by
    have hlast : ∀ y ∈ ts, x.isWordlike = true → y.isWordlike = true → x.stop ≠ y.position := by
      intro y hy hxw hyw he
      have hno := h.not_isWordlike_of_start (hend hxw) hy (by rw [← he, x.stop_eq]; omega)
      rw [hyw] at hno
      cases hno
    have hpos' := hx.length_pos
    have hstop := x.stop_eq
    refine List.forall_mem_cons.mpr ⟨List.forall_mem_cons.mpr ⟨fun _ _ => ?_, hlast⟩, ?_⟩
    · omega
    · intro y hy
      refine List.forall_mem_cons.mpr ⟨fun _ _ => ?_, h.apart y hy⟩
      have := h.start_le hy
      have := (h.written y hy).length_pos
      have := y.stop_eq
      omega

theorem Tiles.of_cons_blank (h : Tiles start (c :: rest) ts)
    (hbehind : ∀ x ∈ ts, x.position ≠ start) :
    Text.isBlank c = true ∧ Tiles (start + 1) rest ts := by
  refine ⟨h.blank 0 c rfl fun x hx hcovers => ?_, h.written, fun x hx => ?_, h.ordered, ?_,
    h.apart⟩
  · have := h.start_le hx
    exact hbehind x hx (by have := hcovers.1; omega)
  · obtain ⟨before, after, he, hpos⟩ := h.placed x hx
    cases before with
    | nil => exact absurd (by simpa using hpos) (hbehind x hx)
    | cons d before =>
        obtain ⟨rfl, he'⟩ := List.cons.inj he
        exact ⟨before, after, he', by rw [hpos, List.length_cons]; omega⟩
  · intro i d hd hout
    refine h.blank (i + 1) d hd fun x hx => ?_
    have := hout x hx
    rwa [Nat.add_assoc, Nat.add_comm 1] at this

theorem Tiles.atBoundary (h : Tiles start (x.text ++ after) (x :: ts)) (hpos : x.position = start)
    (hw : x.isWordlike = true) : AtBoundary after := by
  intro d hd
  obtain ⟨rest, rfl⟩ := List.head?_eq_some_iff.mp hd
  have hfirst := (List.pairwise_cons.mp h.ordered).1
  have hstop := x.stop_eq
  by_cases hcovers : ∃ y ∈ ts, y.Covers (start + x.text.length : Nat)
  · obtain ⟨y, hy, hle, -⟩ := hcovers
    have hstart : y.position = (start + x.text.length : Nat) := by
      have := hfirst y hy
      omega
    have hmem : y ∈ x :: ts := .tail _ hy
    have hno : y.isWordlike = false := by
      by_contra hyw
      exact h.apart x (.head _) y hmem hw (by simpa using hyw) (by omega)
    obtain ⟨before, after, he, hpos'⟩ := h.placed y hmem
    obtain ⟨-, hrest⟩ := List.append_inj he (by omega)
    rcases (h.written y hmem).cases with ⟨-, hends⟩ | ⟨hyw, -⟩
    · obtain ⟨e, us, hus⟩ := List.exists_cons_of_ne_nil (h.written y hmem).text_ne_nil
      rw [hus] at hrest
      obtain ⟨rfl, -⟩ := List.cons.inj hrest
      exact hends _ (by rw [hus]; rfl)
    · rw [hno] at hyw
      cases hyw
  · have hblank := h.blank x.text.length d (by simp) fun y hy hy' => ?_
    · simp [endsWord, hblank]
    · rcases List.mem_cons.mp hy with rfl | hy
      · have := hy'.2
        omega
      · exact hcovers ⟨y, hy, hy'⟩

theorem Tiles.of_cons (h : Tiles start text (x :: ts)) (hpos : x.position = start) :
    ∃ after, text = x.text ++ after ∧ (x.isWordlike = true → AtBoundary after) ∧
      Tiles (start + x.text.length) after ts := by
  obtain ⟨before, after, rfl, hpos'⟩ := h.placed x (.head _)
  obtain rfl : before = [] := List.length_eq_zero_iff.mp (by omega)
  rw [List.nil_append] at h ⊢
  obtain ⟨hfirst, hordered⟩ := List.pairwise_cons.mp h.ordered
  refine ⟨after, rfl, h.atBoundary hpos, fun y hy => h.written y (.tail _ hy), fun y hy => ?_,
    hordered, fun i d hd hout => ?_, fun y hy z hz => h.apart y (.tail _ hy) z (.tail _ hz)⟩
  · obtain ⟨before, rest, he, hbehind⟩ := h.placed y (.tail _ hy)
    have hle : x.text.length ≤ before.length := by
      have := hfirst y hy
      have := x.stop_eq
      omega
    obtain ⟨us, rfl⟩ := List.prefix_of_prefix_length_le ⟨after, rfl⟩ ⟨_, he.symm⟩ hle
    rw [List.append_assoc] at he
    exact ⟨us, rest, List.append_cancel_left he, by rw [hbehind, List.length_append]; omega⟩
  · have hi : (x.text ++ after)[x.text.length + i]? = some d := by
      rwa [List.getElem?_append_right (Nat.le_add_right _ _), Nat.add_sub_cancel_left]
    refine h.blank _ d hi (List.forall_mem_cons.mpr ⟨fun hcovers => ?_, fun y hy => ?_⟩)
    · have := hcovers.2
      have := x.stop_eq
      omega
    · rw [← Nat.add_assoc]
      exact hout y hy

theorem Token.IsWritten.layout (hx : x.IsWritten) (hpos : x.position = start)
    (hend : x.isWordlike = true → AtBoundary after)
    (h : Layout (start + x.text.length) after ts) : Layout start (x.text ++ after) (x :: ts) := by
  obtain ⟨kind, value, position⟩ := x
  obtain rfl : position = start := hpos
  obtain ⟨w, hw, ⟨hk, rfl⟩ | ⟨hk, rfl⟩ | ⟨hs, hk⟩⟩ := hx
  · obtain rfl : value = _ := hw
    obtain rfl : kind = _ := hk
    exact .opening h
  · obtain rfl : value = _ := hw
    obtain rfl : kind = _ := hk
    exact .closing h
  · obtain rfl : value = _ := hw
    obtain rfl : kind = _ := hk
    exact .word (isWord_iff_isSpelled.mpr hs) (hend (Token.isWordlike_ofWord ..)) h

theorem Tiles.position_ne_start (h : Tiles start text (x :: ts)) (hx : x.position ≠ start) :
    ∀ y ∈ x :: ts, y.position ≠ start := by
  refine List.forall_mem_cons.mpr ⟨hx, fun y hy => ?_⟩
  have := (List.pairwise_cons.mp h.ordered).1 y hy
  have := h.start_le (.head _)
  have := (h.written x (.head _)).length_pos
  have := x.stop_eq
  omega

/-- The tokens that lie in a text are those that tile it. -/
theorem layout_iff_tiles : Layout start text ts ↔ Tiles start text ts := by
  constructor
  · intro h
    induction h with
    | nil pos => exact .nil pos
    | blank hc h ih => exact .cons_blank hc ih
    | @opening pos rest ts h ih =>
        exact .cons (x := ⟨.opening, some "(", pos⟩) ⟨_, rfl, .inl ⟨rfl, rfl⟩⟩ rfl nofun ih
    | @closing pos rest ts h ih =>
        exact .cons (x := ⟨.closing, some ")", pos⟩) ⟨_, rfl, .inr (.inl ⟨rfl, rfl⟩)⟩ rfl nofun ih
    | @word pos w rest ts hw hr h ih =>
        exact .cons (x := ⟨.ofWord w, some w, pos⟩)
          ⟨w, rfl, .inr (.inr ⟨isWord_iff_isSpelled.mp hw, rfl⟩)⟩ rfl (fun _ => hr) ih
  · intro h
    -- a token takes several characters at once, so the induction is on the length
    induction hn : text.length using Nat.strongRecOn generalizing start text ts with
    | _ n ih =>
        cases text with
        | nil =>
            cases ts with
            | nil => exact .nil start
            | cons x ts =>
                obtain ⟨before, after, he, -⟩ := h.placed x (.head _)
                have hempty := congrArg List.length he
                have := (h.written x (.head _)).length_pos
                simp only [List.length_append, List.length_nil] at hempty
                omega
        | cons c rest =>
            have hlt : rest.length < n := hn ▸ Nat.lt_succ_self _
            cases ts with
            | nil =>
                obtain ⟨hc, hrest⟩ := h.of_cons_blank nofun
                exact .blank hc (ih _ hlt hrest rfl)
            | cons x ts =>
                by_cases hpos : x.position = start
                · obtain ⟨after, he, hend, hrest⟩ := h.of_cons hpos
                  have hx := h.written x (.head _)
                  have hlen := congrArg List.length he
                  have := hx.length_pos
                  rw [List.length_append, hn] at hlen
                  rw [he]
                  exact hx.layout hpos hend (ih _ (by omega) hrest rfl)
                · obtain ⟨hc, hrest⟩ := h.of_cons_blank (h.position_ne_start hpos)
                  exact .blank hc (ih _ hlt hrest rfl)

end

/-- A gap outside of quotes is filled with other blanks. It may vanish or appear only where a text
begins or ends or next to what ends words anyway. -/
inductive Respaces : Text → Text → Prop
  | gap {before gap gap' after} : Even (before.count mark) →
      (∀ c ∈ gap, Text.isBlank c = true) → (∀ c ∈ gap', Text.isBlank c = true) →
      AtBoundary before.reverse ∨ AtBoundary after ∨ gap ≠ [] ∧ gap' ≠ [] →
      Respaces (before ++ (gap ++ after)) (before ++ (gap' ++ after))

section
variable {w before after gap gap' text : Text} {ts : List Token} {pos : Nat}

theorem IsSpelled.endsWord_eq_false {c : CodePoint} (h : IsSpelled (before ++ c :: after))
    (heven : Even (before.count mark)) : endsWord c = false := by
  by_contra hc
  have hodd := h.quoted before c after rfl (by simpa using hc)
  exact Nat.not_odd_iff_even.mpr heven hodd

/-- A word has no boundary inside, outside of quotes, nor at its end. -/
theorem IsSpelled.not_atBoundary_reverse (h : IsSpelled (before ++ after)) (hne : before ≠ [])
    (heven : Even (before.count mark)) : ¬ AtBoundary before.reverse := by
  intro hends
  obtain ⟨us, c, rfl⟩ := (List.eq_nil_or_concat' before).resolve_left hne
  have hc : endsWord c = true := hends c (by simp)
  have hmark : (c == mark) = false := by simpa using ne_mark_of_endsWord hc
  rw [List.count_append, List.count_singleton, hmark] at heven
  rw [List.append_assoc] at h
  rw [h.endsWord_eq_false (by simpa using heven)] at hc
  cases hc

/-- Tokens lie elsewhere in the same way. -/
theorem Layout.moved (h : Layout pos text ts) (pos' : Nat) :
    ∃ us, Layout pos' text us ∧ us.map Token.content = ts.map Token.content := by
  induction h generalizing pos' with
  | nil pos => exact ⟨[], .nil pos', rfl⟩
  | blank hc h ih =>
      obtain ⟨us, hl, he⟩ := ih (pos' + 1)
      exact ⟨us, .blank hc hl, he⟩
  | opening h ih =>
      obtain ⟨us, hl, he⟩ := ih (pos' + 1)
      exact ⟨_, .opening hl, congrArg (List.cons _) he⟩
  | closing h ih =>
      obtain ⟨us, hl, he⟩ := ih (pos' + 1)
      exact ⟨_, .closing hl, congrArg (List.cons _) he⟩
  | word hw hr h ih =>
      obtain ⟨us, hl, he⟩ := ih (pos' + _)
      exact ⟨_, .word hw hr hl, congrArg (List.cons _) he⟩

theorem Layout.blanks (hgap : ∀ c ∈ gap, Text.isBlank c = true)
    (h : Layout (pos + gap.length) after ts) : Layout pos (gap ++ after) ts := by
  induction gap generalizing pos with
  | nil => exact h
  | cons c gap ih =>
      obtain ⟨hc, hgap⟩ := List.forall_mem_cons.mp hgap
      refine .blank hc (ih hgap ?_)
      rwa [Nat.add_assoc, Nat.add_comm 1]

theorem IsSpelled.ne_append_cons {c : CodePoint} {us : Text} (h : IsSpelled w)
    (hc : endsWord c = true) : w ++ after ≠ c :: us := by
  intro he
  obtain ⟨d, v, rfl⟩ := List.exists_cons_of_ne_nil h.nonempty
  obtain ⟨rfl, -⟩ := List.cons.inj he
  rw [h.endsWord_head d rfl] at hc
  cases hc

theorem endsWord_of_isBlank {c : CodePoint} (h : Text.isBlank c = true) : endsWord c = true := by
  simp [endsWord, h]

theorem Layout.of_blanks (hgap : ∀ c ∈ gap, Text.isBlank c = true)
    (h : Layout pos (gap ++ after) ts) : Layout (pos + gap.length) after ts := by
  induction gap generalizing pos with
  | nil => exact h
  | cons c gap ih =>
      obtain ⟨hc, hgap⟩ := List.forall_mem_cons.mp hgap
      have hrest : Layout (pos + 1) (gap ++ after) ts := by
        rw [List.cons_append] at h
        generalize ht : c :: (gap ++ after) = t at h
        cases h with
        | nil => cases ht
        | blank _ h => exact (List.cons.inj ht).2 ▸ h
        | opening h =>
            rw [(List.cons.inj ht).1] at hc
            exact absurd hc (by decide)
        | closing h =>
            rw [(List.cons.inj ht).1] at hc
            exact absurd hc (by decide)
        | word hw hr h =>
            exact absurd ht.symm ((isWord_iff_isSpelled.mp hw).ne_append_cons (endsWord_of_isBlank hc))
      have := ih hgap hrest
      rwa [Nat.add_assoc, Nat.add_comm 1] at this

theorem AtBoundary.reverse_of_append {u v : Text} (h : AtBoundary (u ++ v).reverse) :
    AtBoundary v.reverse := by
  rcases List.eq_nil_or_concat' v with rfl | ⟨us, c, rfl⟩
  · exact .nil
  · have hc : endsWord c = true := h c (by simp)
    rw [List.reverse_append]
    exact .cons _ hc

/-- What follows a gap may follow it whatever stands before that, in the gap or not. -/
theorem AtBoundary.regapped (h : AtBoundary (before ++ (gap ++ after)))
    (hgap' : ∀ c ∈ gap', Text.isBlank c = true)
    (hedge : before = [] → gap' = [] → AtBoundary after) :
    AtBoundary (before ++ (gap' ++ after)) := by
  cases before with
  | cons c before => exact .cons _ (h c rfl)
  | nil =>
      cases gap' with
      | cons c gap' => exact .cons _ (endsWord_of_isBlank (hgap' c (.head _)))
      | nil => exact hedge rfl rfl

/-- A word that begins before a gap ends there, too. -/
theorem IsSpelled.exists_behind (h : IsSpelled w) {rest : Text} (hne : before ≠ [])
    (heven : Even (before.count mark)) (hgap : ∀ c ∈ gap, Text.isBlank c = true)
    (hedge : AtBoundary before.reverse ∨ AtBoundary after ∨ gap ≠ [])
    (he : before ++ (gap ++ after) = w ++ rest) :
    ∃ behind, before = w ++ behind ∧ rest = behind ++ (gap ++ after) := by
  rcases List.append_eq_append_iff.mp he with ⟨inside, rfl, hinside⟩ | hbehind
  · cases inside with
    | nil => exact ⟨[], by simp, by simpa using hinside.symm⟩
    | cons c inside =>
        have hc := h.endsWord_eq_false heven
        have hends : endsWord c = true := by
          cases gap with
          | cons g gap =>
              obtain ⟨rfl, -⟩ := List.cons.inj hinside
              exact endsWord_of_isBlank (hgap _ (.head _))
          | nil =>
              rcases hedge with hedge | hedge | hedge
              · exact absurd hedge (h.not_atBoundary_reverse hne heven)
              · exact hedge c (by rw [← List.nil_append after, hinside]; rfl)
              · exact absurd rfl hedge
        rw [hc] at hends
        cases hends
  · exact hbehind

/-- Other blanks in a gap leave the tokens what they are. -/
theorem Layout.respaced (h : Layout pos (before ++ (gap ++ after)) ts)
    (heven : Even (before.count mark)) (hgap : ∀ c ∈ gap, Text.isBlank c = true)
    (hgap' : ∀ c ∈ gap', Text.isBlank c = true)
    (hedge : AtBoundary before.reverse ∨ AtBoundary after ∨ gap ≠ [] ∧ gap' ≠ []) :
    ∃ us, Layout pos (before ++ (gap' ++ after)) us ∧
      us.map Token.content = ts.map Token.content := by
  -- a word may take several characters before the gap, so the induction is on their number
  induction hn : before.length using Nat.strongRecOn generalizing before pos ts with
  | _ n ih =>
      cases before with
      | nil =>
          obtain ⟨us, hl, he⟩ := (h.of_blanks hgap).moved (pos + gap'.length)
          have hl' : Layout pos (gap' ++ after) us := hl.blanks hgap'
          exact ⟨us, hl', he⟩
      | cons d before =>
          have hlt : before.length < n := hn ▸ Nat.lt_succ_self _
          have hedge' := hedge.imp_left (AtBoundary.reverse_of_append (u := [d]))
          generalize ht : d :: before ++ (gap ++ after) = text at h
          cases h with
          | nil => cases ht
          | blank hc h =>
              obtain ⟨rfl, rfl⟩ := List.cons.inj ht
              have hmark : (d == mark) = false := by
                simpa using ne_mark_of_endsWord (endsWord_of_isBlank hc)
              rw [List.count_cons, hmark] at heven
              obtain ⟨us, hl, he⟩ := ih _ hlt h (by simpa using heven) hedge' rfl
              exact ⟨us, .blank hc hl, he⟩
          | opening h =>
              obtain ⟨rfl, rfl⟩ := List.cons.inj ht
              obtain ⟨us, hl, he⟩ := ih _ hlt h (by simpa [mark] using heven) hedge' rfl
              exact ⟨_, .opening hl, congrArg (List.cons _) he⟩
          | closing h =>
              obtain ⟨rfl, rfl⟩ := List.cons.inj ht
              obtain ⟨us, hl, he⟩ := ih _ hlt h (by simpa [mark] using heven) hedge' rfl
              exact ⟨_, .closing hl, congrArg (List.cons _) he⟩
          | @word _ w rest us hw hr h =>
              have hs := isWord_iff_isSpelled.mp hw
              obtain ⟨behind, hb, rfl⟩ := hs.exists_behind (List.cons_ne_nil d before) heven hgap
                (hedge.imp_right (.imp_right And.left)) ht
              rw [hb] at heven hedge hn ⊢
              have hshort : behind.length < n := by
                have := List.length_pos_iff.mpr hs.nonempty
                rw [List.length_append] at hn
                omega
              have heven' : Even (behind.count mark) := by
                rw [List.count_append] at heven
                exact (Nat.even_add.mp heven).mp hs.paired
              obtain ⟨vs, hl, he⟩ := ih _ hshort h heven' (hedge.imp_left .reverse_of_append) rfl
              have hr' : AtBoundary (behind ++ (gap' ++ after)) := by
                refine hr.regapped hgap' fun hbehind hnone => ?_
                rw [hbehind] at hedge heven
                have hs' : IsSpelled (w ++ []) := by rwa [List.append_nil]
                rcases hedge with hedge | hedge | hedge
                · rw [List.append_nil] at hedge heven
                  exact absurd hedge (hs'.not_atBoundary_reverse hs.nonempty heven)
                · exact hedge
                · exact absurd hnone hedge.2
              rw [List.append_assoc]
              exact ⟨_, .word hw hr' hl, congrArg (List.cons _) he⟩

theorem Respaces.tokenize {text text' : Text} (h : Respaces text text') {tokens : List Token}
    (ht : tokenize text = .ok tokens) : ∃ tokens', tokenize text' = .ok tokens' ∧
      tokens'.map Token.content = tokens.map Token.content := by
  obtain ⟨ts, hl, rfl⟩ := tokenize_eq_ok_iff.mp ht
  cases h with
  | gap heven hgap hgap' hedge =>
      obtain ⟨us, hl', he⟩ := hl.respaced heven hgap hgap' hedge
      refine ⟨_, tokenize_eq_ok_iff.mpr ⟨us, hl', rfl⟩, ?_⟩
      rw [List.map_append, List.map_append, he]
      rfl

end

/-- A text is read as the tokens that tile it, closed at its end, and in no other way; and however
its gaps are filled, the tokens have the same kinds and texts. -/
theorem tokenize_iff_tiles :
    (∀ text tokens, tokenize text = .ok tokens ↔
      ∃ ts, Tiles 0 text ts ∧ tokens = ts ++ [.finishAt text.length]) ∧
    ∀ text text', Relation.ReflTransGen Respaces text text' → ∀ tokens,
      tokenize text = .ok tokens → ∃ tokens', tokenize text' = .ok tokens' ∧
        tokens'.map Token.content = tokens.map Token.content := by
  refine ⟨fun text tokens => ?_, fun text text' h tokens ht => ?_⟩
  · simp only [tokenize_eq_ok_iff, layout_iff_tiles]
  · induction h with
    | refl => exact ⟨tokens, ht, rfl⟩
    | tail _ hstep ih =>
        obtain ⟨tokens', ht', he⟩ := ih
        obtain ⟨tokens'', ht'', he'⟩ := hstep.tokenize ht'
        exact ⟨tokens'', ht'', he'.trans he⟩

end Rulebook
