/-!
Walks over trees from the leaves up. The nodes to come stand on one stack, the results for those
that are done on another, so that depth costs no more than memory.
-/

namespace Rulebook

/-- What there is at a node: a result, or two sides and what joins their results. -/
inductive Visit (α β : Type) where
  | done (result : β)
  | sides (left right : α) (join : β → β → β)

/-- A walk: what there is at each node. Sides lie deeper than their node. -/
structure Walk (α β : Type) where
  visit : α → Visit α β
  height : α → Nat
  left_lt : ∀ {a l r join}, visit a = .sides l r join → height l < height a
  right_lt : ∀ {a l r join}, visit a = .sides l r join → height r < height a

/-- What is to be done: a node is visited, or the last two results are joined. -/
inductive WalkTask (α β : Type) where
  | visit (node : α)
  | join (join : β → β → β)

namespace Walk

variable {α β : Type}

/-- A bound on the work of a task. That of a node is above that of its sides and their join. -/
def taskWeight (w : Walk α β) : WalkTask α β → Nat
  | .visit a => Nat.pow 4 (w.height a)
  | .join _ => 1

def weight (w : Walk α β) (tasks : List (WalkTask α β)) : Nat :=
  tasks.foldr (fun task rest => w.taskWeight task + rest) 0

theorem weight_cons (w : Walk α β) (task : WalkTask α β) (tasks : List (WalkTask α β)) :
    w.weight (task :: tasks) = w.taskWeight task + w.weight tasks := rfl

theorem taskWeight_pos (w : Walk α β) (task : WalkTask α β) : 0 < w.taskWeight task := by
  cases task with
  | visit a => exact Nat.pow_pos (by decide)
  | join f => exact Nat.one_pos

/-- Sides in place of their node leave less work. -/
theorem weight_sides_lt (w : Walk α β) {a l r : α} {join : β → β → β}
    (h : w.visit a = .sides l r join) (tasks : List (WalkTask α β)) :
    w.weight (.visit l :: .visit r :: .join join :: tasks) < w.weight (.visit a :: tasks) := by
  obtain ⟨k, hk⟩ := Nat.exists_eq_add_of_lt (w.left_lt h)
  have hl : Nat.pow 4 (w.height l) ≤ Nat.pow 4 (w.height l + k) :=
    Nat.pow_le_pow_right (by decide) (Nat.le_add_right _ _)
  have hr : Nat.pow 4 (w.height r) ≤ Nat.pow 4 (w.height l + k) :=
    Nat.pow_le_pow_right (by decide) (by have := w.right_lt h; omega)
  have hone : 0 < Nat.pow 4 (w.height l + k) := Nat.pow_pos (by decide)
  have htop : Nat.pow 4 (w.height a) = Nat.pow 4 (w.height l + k) * 4 := by
    rw [hk]
    rfl
  simp only [weight_cons, taskWeight]
  omega

/-- Does all tasks, the first one first, and puts their results on those there are, the latest
first. -/
def run (w : Walk α β) : List (WalkTask α β) → List β → List β
  | [], built => built
  | .visit a :: tasks, built =>
    match h : w.visit a with
    | .done result => w.run tasks (result :: built)
    | .sides l r join =>
      have := w.weight_sides_lt h tasks
      w.run (.visit l :: .visit r :: .join join :: tasks) built
  | .join join :: tasks, right :: left :: built => w.run tasks (join left right :: built)
  | .join _ :: tasks, built => w.run tasks built
termination_by tasks => w.weight tasks
decreasing_by
  · have := w.taskWeight_pos (.visit a)
    rw [weight_cons]
    omega
  · assumption
  · rw [weight_cons]
    exact Nat.lt_add_of_pos_left (w.taskWeight_pos _)
  · rw [weight_cons]
    exact Nat.lt_add_of_pos_left (w.taskWeight_pos _)

/-- The result of a walk from a node; `otherwise` if there were none. -/
def result (w : Walk α β) (otherwise : β) (a : α) : β := (w.run [.visit a] []).headD otherwise

end Walk

end Rulebook
