/-
  File:      Veesker/Run/Hops.lean
  Subject:   DISTANCE BY HOPS, and walks that go out level by level.

  * `Hops start next n x` -- `x` is `n` steps of `next` away from a place of `start`;
  * `Nearer` -- in fewer than `n`; `Distance` -- in `n`, and in no fewer.

  A walk by levels asks, in round `n`, about a frontier: everything that is `n` hops away and no
  nearer, and nothing farther. `Frontier.step` is the step from one round to the next,
  `Frontier.nearer_succ` what has been asked about by then.

  Nothing here names the repository.
-/
import Mathlib.Data.Nat.Find

namespace Veesker.Run

section Hops
variable {α : Type} {start : α → Prop} {next : α → α → Prop} {n : Nat} {x y : α}

inductive Hops (start : α → Prop) (next : α → α → Prop) : Nat → α → Prop where
  | start {x : α} (h : start x) : Hops start next 0 x
  | next {n : Nat} {x y : α} (h : Hops start next n x) (hxy : next x y) : Hops start next (n + 1) y

/-- In fewer than `n` hops. -/
def Nearer (start : α → Prop) (next : α → α → Prop) (n : Nat) (x : α) : Prop :=
  ∃ m < n, Hops start next m x

/-- In `n` hops and no fewer. -/
def Distance (start : α → Prop) (next : α → α → Prop) (n : Nat) (x : α) : Prop :=
  Hops start next n x ∧ ¬ Nearer start next n x

theorem Nearer.mono {m : Nat} (h : Nearer start next m x) (hmn : m ≤ n) : Nearer start next n x := by
  obtain ⟨k, hk, hx⟩ := h
  exact ⟨k, by omega, hx⟩

theorem Nearer.onward (h : Nearer start next n x) (hxy : next x y) : Nearer start next (n + 1) y := by
  obtain ⟨k, hk, hx⟩ := h
  exact ⟨k + 1, by omega, hx.next hxy⟩

theorem not_nearer_zero : ¬ Nearer start next 0 x := by
  intro h
  obtain ⟨k, hk, -⟩ := h
  omega

theorem nearer_succ : Nearer start next (n + 1) x ↔ Nearer start next n x ∨ Distance start next n x := by
  constructor
  · intro h
    by_cases hn : Nearer start next n x
    · exact .inl hn
    · obtain ⟨k, hk, hx⟩ := h
      have hkn : k = n := by
        by_contra hne
        exact hn ⟨k, by omega, hx⟩
      exact .inr ⟨hkn ▸ hx, hn⟩
  · intro h
    rcases h with h | h
    · exact h.mono (Nat.le_succ n)
    · exact ⟨n, Nat.lt_succ_self n, h.1⟩

/-- Whatever is reached has a distance. -/
theorem Hops.distance (h : Hops start next n x) : ∃ m ≤ n, Distance start next m x := by
  classical
  have hex : ∃ m, Hops start next m x := ⟨n, h⟩
  refine ⟨Nat.find hex, Nat.find_le h, Nat.find_spec hex, ?_⟩
  intro hnear
  obtain ⟨k, hk, hx⟩ := hnear
  exact Nat.find_min hex hk hx

theorem Distance.unique {m : Nat} (hm : Distance start next m x) (hn : Distance start next n x) :
    m = n := by
  rcases Nat.lt_trichotomy m n with h | h | h
  · exact absurd ⟨m, h, hm.1⟩ hn.2
  · exact h
  · exact absurd ⟨n, h, hn.1⟩ hm.2

/-- What is `n + 1` hops away has a place that is `n` away in front of it. -/
theorem Distance.pred (h : Distance start next (n + 1) y) :
    ∃ x, Distance start next n x ∧ next x y := by
  obtain ⟨hy, hfar⟩ := h
  cases hy with
  | next hx hxy => exact ⟨_, ⟨hx, fun hnear => hfar (hnear.onward hxy)⟩, hxy⟩

end Hops

/-! ## 2. The frontiers -/

section Frontiers
variable {α : Type} {start : α → Prop} {next : α → α → Prop} {n : Nat} {F F' : α → Prop}

/-- **What a walk asks about in round `n`.** -/
structure Frontier (start : α → Prop) (next : α → α → Prop) (n : Nat) (F : α → Prop) : Prop where
  near : ∀ x, F x → Nearer start next (n + 1) x
  complete : ∀ x, Distance start next n x → F x

theorem Frontier.first (hF : ∀ x, F x ↔ start x) : Frontier start next 0 F where
  near x hx := ⟨0, Nat.one_pos, .start ((hF x).mp hx)⟩
  complete x hx := by
    obtain ⟨h0, -⟩ := hx
    cases h0 with
    | start h => exact (hF x).mpr h

/-- **What has been asked about** after that round. -/
theorem Frontier.nearer_succ (h : Frontier start next n F) {x : α} :
    Nearer start next (n + 1) x ↔ Nearer start next n x ∨ F x := by
  rw [Run.nearer_succ]
  constructor
  · intro hx
    exact hx.imp_right (h.complete x)
  · intro hx
    rcases hx with hx | hx
    · exact .inl hx
    · exact Run.nearer_succ.mp (h.near x hx)

/-- **The step**: the next frontier is made of what is next to this one, and nothing that was not
    asked about is left out. -/
theorem Frontier.step (h : Frontier start next n F) (hsub : ∀ y, F' y → ∃ x, F x ∧ next x y)
    (hsup : ∀ x y, F x → next x y → ¬ Nearer start next (n + 1) y → F' y) :
    Frontier start next (n + 1) F' where
  near y hy := by
    obtain ⟨x, hx, hxy⟩ := hsub y hy
    exact (h.near x hx).onward hxy
  complete y hy := by
    obtain ⟨x, hx, hxy⟩ := hy.pred
    exact hsup x y (h.complete x hx) hxy hy.2

/-- Where a frontier is empty nothing is farther away. -/
theorem Frontier.stop (h : Frontier start next n F) (hF : ∀ x, ¬ F x) {m : Nat} {x : α}
    (hx : Hops start next m x) : Nearer start next n x := by
  have hstay : ∀ y, Nearer start next (n + 1) y → Nearer start next n y :=
    fun y hy => (h.nearer_succ.mp hy).resolve_right (hF y)
  induction hx with
  | start hs => exact hstay _ ⟨0, Nat.succ_pos n, .start hs⟩
  | next _ hxy ih => exact hstay _ (ih.onward hxy)

/-- And so it stays empty. -/
theorem Frontier.idle (h : Frontier start next n F) (hF : ∀ x, ¬ F x) :
    Frontier start next (n + 1) F where
  near _ hx := absurd hx (hF _)
  complete _ hx := absurd ((h.stop hF hx.1).mono (Nat.le_succ n)) hx.2

end Frontiers

end Veesker.Run
