import Rulebook.Rule.Walk

/-!
Walks as recursions. Doing a node leaves its result on the stack and nothing else changed, so the
result at a node is made from the results of its sides.
-/

namespace Rulebook.Walk

variable {α β : Type}

/-- The result at a node by recursion. -/
def value (w : Walk α β) (a : α) : β :=
  match h : w.visit a with
  | .done result => result
  | .sides l r join =>
    have := w.left_lt h
    have := w.right_lt h
    join (w.value l) (w.value r)
termination_by w.height a

theorem value_eq (w : Walk α β) (a : α) : w.value a =
    match w.visit a with
    | .done result => result
    | .sides l r join => join (w.value l) (w.value r) := by
  rw [value]
  split
  · rename_i h
    simp only [h]
  · rename_i h
    simp only [h]

theorem run_visit_eq (w : Walk α β) (a : α) (tasks : List (WalkTask α β)) (built : List β) :
    w.run (.visit a :: tasks) built =
      match w.visit a with
      | .done result => w.run tasks (result :: built)
      | .sides l r join => w.run (.visit l :: .visit r :: .join join :: tasks) built := by
  rw [run]
  split
  · rename_i h
    simp only [h]
  · rename_i h
    simp only [h]

theorem run_join (w : Walk α β) (join : β → β → β) (l r : β) (tasks : List (WalkTask α β))
    (built : List β) :
    w.run (.join join :: tasks) (r :: l :: built) = w.run tasks (join l r :: built) := by
  rw [run]

/-- Doing a node is putting its result on the others. -/
theorem run_visit (w : Walk α β) (a : α) (tasks : List (WalkTask α β)) (built : List β) :
    w.run (.visit a :: tasks) built = w.run tasks (w.value a :: built) := by
  -- on the height of the node, for whatever tasks come after it
  induction hn : w.height a using Nat.strongRecOn generalizing a tasks built with
  | _ n ih =>
      rw [run_visit_eq, value_eq]
      cases h : w.visit a with
      | done b => rfl
      | sides l r join =>
          have hl := ih _ (hn ▸ w.left_lt h) l (.visit r :: .join join :: tasks) built rfl
          have hr := ih _ (hn ▸ w.right_lt h) r (.join join :: tasks) (w.value l :: built) rfl
          simp only [hl, hr, run_join]

theorem result_eq_value (w : Walk α β) (otherwise : β) (a : α) :
    w.result otherwise a = w.value a := by
  rw [result, run_visit, run]
  rfl

/-- The result at a node is made from those of its sides. -/
theorem result_eq (w : Walk α β) (otherwise : β) (a : α) : w.result otherwise a =
    match w.visit a with
    | .done result => result
    | .sides l r join => join (w.result otherwise l) (w.result otherwise r) := by
  simp only [result_eq_value]
  exact w.value_eq a

end Rulebook.Walk
