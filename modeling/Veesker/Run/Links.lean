/-
  File:      Veesker/Run/Links.lean
  Subject:   SEQUENCES IN WHICH EVERY ENTRY NAMES THE ONE BEFORE IT.

  An entry has a tag of its own and names a tag, `prev`; it may also name a fixed value and so start
  afresh. A reader that checks these names one after the other (`Accepted`) accepts exactly the
  sequences put together of pieces in which every entry names the one before it (`accepted_iff`).

  Nothing here names the repository.
-/
import Mathlib.Data.List.Chain

namespace Veesker.Run

section Links
variable {E T : Type} (prev tag : E → T) (genesis : T)

/-- `b` names `a`. -/
def Follows (a b : E) : Prop := prev b = tag a

/-- What the reader accepts when it expects this name first. -/
def Accepted : T → List E → Prop
  | _, [] => True
  | expected, e :: es => (prev e = genesis ∨ prev e = expected) ∧ Accepted (tag e) es

/-- A piece: it starts with a name that is `ok`, and every further entry names the one before it. -/
def Piece (ok : T → Prop) (p : List E) : Prop :=
  ∃ e r, p = e :: r ∧ ok (prev e) ∧ p.IsChain (Follows prev tag)

/-- Pieces that start afresh; the first one may also start with the name expected. -/
def Assembled (expected : T) : List (List E) → Prop
  | [] => True
  | p :: ps => Piece prev tag (fun t => t = genesis ∨ t = expected) p ∧
      ∀ q ∈ ps, Piece prev tag (· = genesis) q

variable {prev tag genesis}

/-- What is accepted after an entry: what goes on from it, and then pieces. -/
theorem accepted_after {a : E} {es : List E} (h : Accepted prev tag genesis (tag a) es) :
    ∃ (r : List E) (ps : List (List E)), es = r ++ ps.flatten ∧ (a :: r).IsChain (Follows prev tag) ∧
      ∀ q ∈ ps, Piece prev tag (· = genesis) q := by
  induction es generalizing a with
  | nil => exact ⟨[], [], rfl, .singleton a, by simp⟩
  | cons e es ih =>
    obtain ⟨he, hes⟩ := h
    obtain ⟨r, ps, hes', hr, hps⟩ := ih hes
    rcases he with he | he
    · refine ⟨[], (e :: r) :: ps, by simp [hes'], .singleton a, fun q hq => ?_⟩
      rcases List.mem_cons.mp hq with rfl | hq
      · exact ⟨e, r, rfl, he, hr⟩
      · exact hps q hq
    · exact ⟨e :: r, ps, by simp [hes'], .cons_cons he hr, hps⟩

theorem accepted_of_chain {e : E} {r rest : List E} {expected : T}
    (he : prev e = genesis ∨ prev e = expected) (hr : (e :: r).IsChain (Follows prev tag))
    (hrest : ∀ t, Accepted prev tag genesis t rest) :
    Accepted prev tag genesis expected (e :: r ++ rest) := by
  induction r generalizing e expected with
  | nil => exact ⟨he, hrest _⟩
  | cons b r ih =>
    rw [List.isChain_cons_cons] at hr
    exact ⟨he, ih (.inr hr.1) hr.2⟩

theorem accepted_flatten {ps : List (List E)} (h : ∀ q ∈ ps, Piece prev tag (· = genesis) q) (t : T) :
    Accepted prev tag genesis t ps.flatten := by
  induction ps generalizing t with
  | nil => trivial
  | cons p ps ih =>
    obtain ⟨e, r, rfl, he, hr⟩ := h p (List.mem_cons_self ..)
    rw [List.flatten_cons]
    exact accepted_of_chain (.inl he) hr fun t => ih (fun q hq => h q (List.mem_cons_of_mem _ hq)) t

/-- **What is accepted is what is put together of pieces.** -/
theorem accepted_iff {expected : T} {l : List E} : Accepted prev tag genesis expected l ↔
    ∃ ps : List (List E), l = ps.flatten ∧ Assembled prev tag genesis expected ps := by
  constructor
  · intro h
    cases l with
    | nil => exact ⟨[], rfl, trivial⟩
    | cons e es =>
      obtain ⟨r, ps, hes, hr, hps⟩ := accepted_after h.2
      exact ⟨(e :: r) :: ps, by simp [hes], ⟨e, r, rfl, h.1, hr⟩, hps⟩
  · rintro ⟨ps, rfl, h⟩
    cases ps with
    | nil => trivial
    | cons p ps =>
      obtain ⟨⟨e, r, rfl, he, hr⟩, hps⟩ := h
      rw [List.flatten_cons]
      exact accepted_of_chain he hr (accepted_flatten hps)

variable (tag) in
/-- The tag to be named after a sequence. -/
def lastTag (expected : T) (l : List E) : T := (l.getLast?.map tag).getD expected

theorem lastTag_cons (expected : T) (e : E) (es : List E) :
    lastTag tag expected (e :: es) = lastTag tag (tag e) es := by
  cases es with
  | nil => rfl
  | cons b es => simp [lastTag, List.getLast?_eq_some_getLast]

/-- **One entry more**: it starts afresh or names the last tag. -/
theorem accepted_concat {expected : T} {l : List E} {e : E} :
    Accepted prev tag genesis expected (l ++ [e]) ↔ Accepted prev tag genesis expected l ∧
      (prev e = genesis ∨ prev e = lastTag tag expected l) := by
  induction l generalizing expected with
  | nil => simp [Accepted, lastTag]
  | cons a l ih => rw [List.cons_append, Accepted, Accepted, ih, lastTag_cons, and_assoc]

end Links

end Veesker.Run
