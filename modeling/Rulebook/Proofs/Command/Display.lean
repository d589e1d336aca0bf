import Mathlib.Data.List.Nodup
import Rulebook.Proofs.Command.Decision
import Rulebook.Proofs.Json.Writing
import Rulebook.Proofs.Service.Showing

/-!
Showing the tree of a rule. The command writes JSON text in ASCII, and whoever reads it has the tree
again, unless the tree nests too deep to be written.
-/

namespace Rulebook

open Json (IsAscii)

namespace Value

/-- An object is textual if its names are distinct and its members are textual. -/
theorem isTextual_object {members : List (String × Value)} (hnames : (members.map Prod.fst).Nodup)
    (h : ∀ m ∈ members, m.2.IsTextual) : IsTextual (.object members) := by
  have hentries : members.map (fun m => ((.ofString m.1, m.2) : Value × Value)) =
      (members.map fun m => (Text.ofString m.1, m.2)).map entry := by
    rw [List.map_map]
    rfl
  unfold object
  rw [hentries]
  refine .dict ?_ ?_ ?_
  · rw [List.map_map]
    have hmap := List.Nodup.map (fun _ _ => Text.ofString_injective) hnames
    rwa [List.map_map] at hmap
  · intro m hm
    obtain ⟨m, -, rfl⟩ := List.mem_map.mp hm
    exact (Text.isPlain_ofString _).isUnpaired
  · intro m' hm'
    obtain ⟨m, hm, rfl⟩ := List.mem_map.mp hm'
    exact h m hm

theorem isTextual_ofString (s : String) : IsTextual (.ofString s) :=
  .text (Text.isPlain_ofString s).isUnpaired

end Value

namespace Tree

/-- The stored form of a tree has no numbers, and distinct names in each node. -/
theorem isTextual_stored {t : Tree} (h : t.HasTexts Text.IsUnpaired) : t.stored.IsTextual := by
  induction t with
  | leaf c =>
      obtain ⟨hf, hc, hl⟩ := h
      have hline : c.text.IsUnpaired := (hf.append_blank hc).append_blank hl
      rw [stored_leaf]
      refine Value.isTextual_object (by simp) ?_
      simp only [List.forall_mem_cons]
      exact ⟨Value.isTextual_ofString _, .text hline, .text hf, .text hc, .text hl, .null, .null,
        nofun⟩
  | join w l r ihl ihr =>
      obtain ⟨hw, hl, hr⟩ := h
      rw [stored_join]
      refine Value.isTextual_object (by simp) ?_
      simp only [List.forall_mem_cons]
      exact ⟨Value.isTextual_ofString _, .text hw, ihl hl, ihr hr, nofun⟩
  | hole =>
      rw [stored_hole]
      exact .null
  | foreign =>
      rw [stored_foreign]
      exact .null

theorem levels_stored {t : Tree} (h : t.isWellFormed = true) : t.stored.levels = t.height + 2 := by
  obtain ⟨entries, hstored, hlevels⟩ := exists_stored h
  rw [hstored, Value.levels, hlevels]

end Tree

namespace Invocation

theorem ofArguments?_parse (rule : Text) :
    ofArguments? ["parse", "--", rule] = some (.parse rule) := by
  have hread : Arguments.read? (optionTable []) ["--", rule] = some ⟨[], [rule]⟩ :=
    Arguments.read?_dashes _ _
  rw [ofArguments?_command (by decide) (by decide +kernel)]
  change ofCommand? [] _ ["--", rule] = _
  rw [ofCommand?, hread]
  rfl

end Invocation

namespace Report
variable {rule : Text} {tree : Tree}

theorem ofArguments_parse (environ : List (String × String)) (ids : Log.IdSource) (rule : Text) :
    ofArguments environ ids ["parse", "--", rule] = parse rule := by
  rw [ofArguments, Invocation.ofArguments?_parse]
  rfl

theorem parse_of_compile (h : compile rule = .ok tree) : parse rule =
    if mostLevels < tree.height + 2 then broken .deepTree
    else done [Json.indented tree.stored] := by
  rw [← Tree.levels_stored (isExpressible_of_compile h).wellFormed, parse, withTree, h]

/-- A report displays a tree: its output is ASCII, and a reader that lets values nest as deep as the
tree does finds the tree in it. -/
structure Displays (report : Report) (tree : Tree) : Prop where
  ending : report.ending = .done
  errors : report.errors = []
  ascii : ∀ p ∈ report.output, IsAscii p
  read : ∀ bounds : Json.ReadBounds, tree.height + 2 ≤ bounds.depth →
    (Json.read bounds report.output).map Tree.ofStored = .ok tree

theorem displays_indented (htexts : tree.HasTexts Text.IsUnpaired)
    (h : tree.isWellFormed = true) : (done [Json.indented tree.stored]).Displays tree := by
  have htextual := Tree.isTextual_stored htexts
  have houtput : (done [Json.indented tree.stored]).output = Json.indented tree.stored ++ "\n" :=
    List.append_nil _
  refine ⟨rfl, rfl, ?_, ?_⟩
  · rw [houtput]
    exact List.forall_mem_append.mpr ⟨Json.writesIn_indented htextual 0 [] nofun, by decide⟩
  · intro bounds hdepth
    have hread : Json.read bounds (Json.indented tree.stored ++ "\n") = .ok tree.stored :=
      Json.read_written Json.isSpaced_indented htextual (Tree.levels_stored h ▸ hdepth) rfl
    rw [houtput, hread]
    exact congrArg Except.ok (Tree.isReadable_of_isWellFormed h).ofStored_stored

/-- What the command reports of a rule displays its tree, unless the tree nests so deep that the
command breaks off. Left out are rules in which two halves of surrogate pairs make a pair: a reader
takes these for one character. Bytes that are no characters come as low halves, so that no argument
of a command is left out. -/
theorem parse_displays_tree (environ : List (String × String)) (ids : Log.IdSource)
    (h : compile rule = .ok tree) :
    (rule.IsUnpaired → tree.height + 2 ≤ mostLevels →
        (ofArguments environ ids ["parse", "--", rule]).Displays tree) ∧
      (mostLevels < tree.height + 2 →
        ofArguments environ ids ["parse", "--", rule] = broken .deepTree) := by
  rw [ofArguments_parse, parse_of_compile h]
  constructor
  · intro hrule hlevels
    rw [if_neg (Nat.not_lt.mpr hlevels)]
    exact displays_indented (hasTexts_of_compile h fun w hw => hrule.of_infix hw)
      (isExpressible_of_compile h).wellFormed
  · intro hlevels
    rw [if_pos hlevels]

/-- Quotation marks, a backslash, a tab and a character beyond the first plane are displayed. -/
theorem parse_displays_escapes :
    compile "note = '\"\\\t😀\"' OR size > 1" =
        .ok (.join "OR" (.leaf ⟨"note", "=", "'\"\\\t😀\"'"⟩) (.leaf ⟨"size", ">", "1"⟩)) ∧
      (ofArguments [] (.counting 0) ["parse", "--", "note = '\"\\\t😀\"' OR size > 1"]).Displays
        (.join "OR" (.leaf ⟨"note", "=", "'\"\\\t😀\"'"⟩) (.leaf ⟨"size", ">", "1"⟩)) := by
  have h : compile "note = '\"\\\t😀\"' OR size > 1" =
      .ok (.join "OR" (.leaf ⟨"note", "=", "'\"\\\t😀\"'"⟩) (.leaf ⟨"size", ">", "1"⟩)) := by
    decide +kernel
  exact ⟨h, (parse_displays_tree [] (.counting 0) h).1 (Text.isPlain_ofString _).isUnpaired
    (by decide)⟩

end Report

/-- A long rule: a comparison with more of them joined to it, one after the other. -/
def chainText : Nat → String
  | 0 => "a = 1"
  | n + 1 => chainText n ++ " AND a = 1"

def Tree.chain : Nat → Tree
  | 0 => .leaf ⟨"a", "=", "1"⟩
  | n + 1 => .join "AND" (chain n) (.leaf ⟨"a", "=", "1"⟩)

theorem Tree.height_chain (n : Nat) : (chain n).height = n := by
  induction n with
  | zero => rfl
  | succ n ih => simp [chain, height, ih]

theorem prints_chain (n : Nat) :
    Prints .term (.chain n) fun rest => Text.ofString (chainText n) ++ rest := by
  have hleaf : Prints .factor (.leaf ⟨"a", "=", "1"⟩) (Tree.leaf ⟨"a", "=", "1"⟩).textBefore :=
    .comparison (isRenderable_iff.mpr ⟨⟨by decide, by decide⟩, by decide, by decide⟩) (by decide)
      (isRenderable_iff.mpr ⟨⟨by decide, by decide⟩, by decide, by decide⟩)
  induction n with
  | zero => exact hleaf.widen (by decide)
  | succ n ih =>
      have hjoined := Prints.joined (c := .and) ih hleaf
      simp only [chainText, Text.ofString_append, List.append_assoc]
      exact hjoined

/-- However long a chain is, it is a rule. -/
theorem compile_chain (n : Nat) : compile (chainText n) = .ok (.chain n) := by
  have h := (prints_chain n).compile
  rwa [List.append_nil] at h

/-- On 975 comparisons in a row the command breaks off. -/
theorem Report.parse_breaks_off_on_chain :
    compile (chainText 974) = .ok (.chain 974) ∧
      ofArguments [] (.counting 0) ["parse", "--", chainText 974] = broken .deepTree := by
  have hdeep : mostLevels < (Tree.chain 974).height + 2 := by
    rw [Tree.height_chain]
    decide
  rw [ofArguments_parse, parse_of_compile (compile_chain 974), if_pos hdeep]
  exact ⟨compile_chain 974, rfl⟩

end Rulebook
