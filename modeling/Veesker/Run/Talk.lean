/-
  File:      Veesker/Run/Talk.lean
  Subject:   A CALL THAT TALKS TO A SERVER: what it asks, whatever it is answered.

  A call is a tree: it is over, or it asks a question and goes on with whatever answer comes.
  `said` is what it asks when the answers come in this order; the last question may be left
  without an answer, so every prefix of a conversation is one too. `Asks P` says of the tree alone
  that every question it can ever come to has `P`, and `asks_iff` that this is the same thing as
  every conversation asking nothing else.

  Nothing here names the repository.
-/
import Mathlib.Data.List.Basic

namespace Veesker.Run

/-- A call with questions `Q`, answers `A` and the result `R`. -/
inductive Talk (Q A R : Type) where
  | done (r : R)
  | ask (q : Q) (k : A → Talk Q A R)

namespace Talk

variable {Q A R : Type}

/-- The questions asked, with these answers. -/
def said : Talk Q A R → List A → List Q
  | done _, _ => []
  | ask q _, [] => [q]
  | ask q k, a :: as => q :: (k a).said as

/-- The result, where the answers lead to one. -/
def result : Talk Q A R → List A → Option R
  | done r, _ => some r
  | ask _ _, [] => none
  | ask _ k, a :: as => (k a).result as

/-- Every question that can be asked has `P`. -/
def Asks (P : Q → Prop) : Talk Q A R → Prop
  | done _ => True
  | ask q k => P q ∧ ∀ a, (k a).Asks P

/-- A question with `P` can be asked. -/
def CanAsk (P : Q → Prop) (t : Talk Q A R) : Prop := ∃ answers, ∃ q ∈ t.said answers, P q

theorem Asks.said {P : Q → Prop} {t : Talk Q A R} (h : t.Asks P) (answers : List A) :
    ∀ q ∈ t.said answers, P q := by
  induction t generalizing answers with
  | done r =>
    intro q hq
    cases hq
  | ask q k ih =>
    intro q' hq
    cases answers with
    | nil =>
      cases List.mem_singleton.mp hq
      exact h.1
    | cons a as =>
      rcases List.mem_cons.mp hq with rfl | hq
      · exact h.1
      · exact ih a (h.2 a) as q' hq

/-- **The tree's questions are the conversations' questions.** -/
theorem asks_iff {P : Q → Prop} {t : Talk Q A R} :
    t.Asks P ↔ ∀ answers, ∀ q ∈ t.said answers, P q := by
  refine ⟨fun h => h.said, fun h => ?_⟩
  induction t with
  | done r => trivial
  | ask q k ih =>
    exact ⟨h [] q (List.mem_singleton_self q),
      fun a => ih a fun as q' hq => h (a :: as) q' (List.mem_cons_of_mem _ hq)⟩

theorem not_asks_iff {P : Q → Prop} {t : Talk Q A R} :
    ¬ t.Asks (fun q => ¬ P q) ↔ t.CanAsk P := by
  rw [asks_iff]
  unfold CanAsk
  constructor
  · intro h
    by_contra hno
    exact h fun answers q hq hP => hno ⟨answers, q, hq, hP⟩
  · rintro ⟨answers, q, hq, hP⟩ h
    exact h answers q hq hP

end Talk

end Veesker.Run
