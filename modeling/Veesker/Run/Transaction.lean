/-
  File:      Veesker/Run/Transaction.lean
  Subject:   ONE TRANSACTION AND WHAT COMMITS IT.

  A history is a list of effects, each with what caused it. `pending` is what made the changes that
  are neither permanent nor undone yet, `commits` the commits of a history, each with the changes it
  makes permanent. Two rules carry the statements about them: a commit has what every committing
  cause has, and it makes permanent only what was pending before or what the history itself changed.

  Nothing here names the repository.
-/
import Mathlib.Data.List.Basic

namespace Veesker.Run

/-- What a statement does to the transaction it runs in. -/
inductive Effect where
  | change | commit | rollback
  deriving DecidableEq

section
variable {E : Type}

/-- The causes of what is pending after a history, given those of what was pending before. -/
def pending : List E → List (E × Effect) → List E
  | p, [] => p
  | p, (e, .change) :: l => pending (p ++ [e]) l
  | _, (_, .commit) :: l => pending [] l
  | _, (_, .rollback) :: l => pending [] l

/-- The commits of a history, each with the causes of what it makes permanent. -/
def commits : List E → List (E × Effect) → List (E × List E)
  | _, [] => []
  | p, (e, .change) :: l => commits (p ++ [e]) l
  | p, (e, .commit) :: l => (e, p) :: commits [] l
  | _, (_, .rollback) :: l => commits [] l

theorem pending_append (p : List E) (l l' : List (E × Effect)) :
    pending p (l ++ l') = pending (pending p l) l' := by
  induction l generalizing p with
  | nil => rfl
  | cons x l ih =>
    obtain ⟨e, x⟩ := x
    cases x <;> exact ih _

theorem commits_append (p : List E) (l l' : List (E × Effect)) :
    commits p (l ++ l') = commits p l ++ commits (pending p l) l' := by
  induction l generalizing p with
  | nil => rfl
  | cons x l ih =>
    obtain ⟨e, x⟩ := x
    cases x with
    | change => exact ih _
    | commit => exact congrArg ((e, p) :: ·) (ih _)
    | rollback => exact ih _

/-- **What every cause of a commit has, every commit has.** -/
theorem commits_cause {A : E → Prop} {p : List E} {l : List (E × Effect)}
    (h : ∀ e, (e, Effect.commit) ∈ l → A e) : ∀ c ∈ commits p l, A c.1 := by
  induction l generalizing p with
  | nil => simp [commits]
  | cons x l ih =>
    obtain ⟨e, x⟩ := x
    have hl : ∀ e, (e, Effect.commit) ∈ l → A e := fun e he => h e (List.mem_cons_of_mem _ he)
    cases x with
    | change => exact ih hl
    | commit =>
      intro c hc
      rcases List.mem_cons.mp hc with rfl | hc
      · exact h e List.mem_cons_self
      · exact ih hl c hc
    | rollback => exact ih hl

/-- **What is made permanent** has what everything pending before has, and every cause in the
    history. -/
theorem commits_made {N : E → Prop} {p : List E} {l : List (E × Effect)} (hp : ∀ u ∈ p, N u)
    (h : ∀ x ∈ l, N x.1) : ∀ c ∈ commits p l, ∀ u ∈ c.2, N u := by
  induction l generalizing p with
  | nil => simp [commits]
  | cons x l ih =>
    obtain ⟨e, x⟩ := x
    have hl : ∀ x ∈ l, N x.1 := fun x hx => h x (List.mem_cons_of_mem _ hx)
    have he : N e := h _ List.mem_cons_self
    cases x with
    | change =>
      refine ih (fun u hu => ?_) hl
      rcases List.mem_append.mp hu with hu | hu
      · exact hp u hu
      · exact List.mem_singleton.mp hu ▸ he
    | commit =>
      intro c hc
      rcases List.mem_cons.mp hc with rfl | hc
      · exact hp
      · exact ih (by simp) hl c hc
    | rollback => exact ih (by simp) hl

end

end Veesker.Run
