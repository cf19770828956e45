/-
  File:      Veesker/Run/LastWord.lean
  Subject:   WHAT A SEQUENCE OF OPERATIONS HAS LAST SAID about something.

  An operation may have a word on one thing and be silent on the rest. `view_foldl`: a state that an
  operation changes only where it speaks shows the last word.

  Nothing here names the repository.
-/
import Mathlib.Data.List.Induction

namespace Veesker.Run

variable {Op State β : Type}

/-- The last word of the operations. -/
def lastSaid (word : Op → Option β) (ops : List Op) : Option β := (ops.filterMap word).getLast?

@[simp] theorem lastSaid_nil (word : Op → Option β) : lastSaid word [] = none := rfl

theorem lastSaid_concat (word : Op → Option β) (ops : List Op) (o : Op) :
    lastSaid word (ops ++ [o]) = (word o).or (lastSaid word ops) := by
  rw [lastSaid, List.filterMap_append, List.getLast?_append]
  cases h : word o with
  | none => simp [h, lastSaid]
  | some b => simp [h]

/-- **A view that only changes where an operation speaks** shows what has last been said. -/
theorem view_foldl (view : State → β) (word : Op → Option β) (apply : State → Op → State)
    (h : ∀ s o, view (apply s o) = (word o).getD (view s)) (init : State) (ops : List Op) :
    view (ops.foldl apply init) = (lastSaid word ops).getD (view init) := by
  induction ops using List.reverseRecOn with
  | nil => rfl
  | append_singleton ops o ih =>
    rw [List.foldl_append, List.foldl_cons, List.foldl_nil, h, ih, lastSaid_concat]
    cases word o <;> rfl

end Veesker.Run
