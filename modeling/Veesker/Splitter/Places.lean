/-
  File:      Veesker/Splitter/Places.lean
  Subject:   WHERE THE SPLITTER'S STATEMENTS STAND in the text they were cut from.

  The scan again, with the number of characters it has read: the buffer is the text right in front
  of the scan, so a statement stands where the buffer it is trimmed from does.

  * `map_placesFrom` -- the statements are those of the scan;
  * `apart_placesFrom` -- **each stands at its place**, in order, with at least one character between
    two of them.
-/
import Veesker.Splitter.Stable

namespace Veesker.Splitter

open List

/-! ## 1. Places -/

/-- What `flush` emits of a buffer that ends in front of character `read`, and where it stands. -/
def placed (read : Nat) (buf : Text) : List (Nat × Text) :=
  if isCommentsOnly buf then []
  else [(read - buf.length + (buf.takeWhile isSpace).length, trim buf)]

/-- The statements of the scan from here on. -/
def placesFrom : Scan → Nat → Nat → Nat → Text → List (Nat × Text)
  | s, read, _, _, [] => placed read s.buf
  | s, read, keep + 1, drop, c :: cs => placesFrom (s.push c) (read + 1) keep drop cs
  | s, read, 0, drop + 1, _ :: cs => placesFrom s (read + 1) 0 drop cs
  | s, read, 0, 0, c :: cs =>
    let r := (s.counted c).step c cs
    (if r.1.buf = [] then placed read s.buf else []) ++ placesFrom r.1 (read + 1) r.2.1 r.2.2 cs

def statementPlaces (input : Text) : List (Nat × Text) := placesFrom {} 0 0 0 input

theorem flush_placed (s : Scan) (read : Nat) :
    s.flush.statements = s.statements ++ (placed read s.buf).map Prod.snd := by
  rw [s.flush_statements, placed]
  split
  · exact (append_nil _).symm
  · rfl

/-- A round of the loop keeps its character, or empties the buffer into the statements. -/
theorem Scan.step_places (s : Scan) (c : Char) (rest : Text) (read : Nat) :
    (((s.counted c).step c rest).1.buf = s.buf ++ [c] ∧
        ((s.counted c).step c rest).1.statements = s.statements ∧
        ((s.counted c).step c rest).2.2 = 0) ∨
      (((s.counted c).step c rest).1.buf = [] ∧ ((s.counted c).step c rest).2.1 = 0 ∧
        ((s.counted c).step c rest).1.statements =
          s.statements ++ (placed read s.buf).map Prod.snd) := by
  by_cases hk : (s.counted c).Keeps c rest
  · rw [Scan.step_take hk]
    refine .inl ⟨?_, ?_, rfl⟩
    · rw [Scan.take_buf, Scan.counted_buf]
    · rw [Scan.take_statements, Scan.counted_statements]
  · obtain ⟨-, s₁, n, d, hbuf, hstatements, -, hstep, -⟩ := Scan.step_cuts hk
    rw [hstep]
    refine .inr ⟨rfl, rfl, ?_⟩
    change s₁.flush.statements = _
    rw [flush_placed s₁ read, hbuf, hstatements, Scan.counted_buf, Scan.counted_statements]

/-- **The statements of the places are those of the scan.** -/
theorem map_placesFrom (rest : Text) (s : Scan) (read keep drop : Nat) :
    (scanFrom s keep drop rest).flush.statements =
      s.statements ++ (placesFrom s read keep drop rest).map Prod.snd := by
  induction rest generalizing s read keep drop with
  | nil => exact flush_placed s read
  | cons c cs ih =>
    cases keep with
    | succ keep => exact ih (s.push c) (read + 1) keep drop
    | zero =>
      cases drop with
      | succ drop => exact ih s (read + 1) 0 drop
      | zero =>
        rw [placesFrom]
        change (scanFrom ((s.counted c).step c cs).1 ((s.counted c).step c cs).2.1
          ((s.counted c).step c cs).2.2 cs).flush.statements = _
        rw [ih _ (read + 1)]
        rcases s.step_places c cs read with ⟨hbuf, hstatements, -⟩ | ⟨hbuf, -, hstatements⟩
        · rw [hstatements, hbuf, if_neg (append_ne_nil_of_right_ne_nil _ (cons_ne_nil _ _)),
            nil_append]
        · rw [hstatements, hbuf, if_pos rfl, map_append, append_assoc]

theorem statementPlaces_statements {input : Text} (he : (splitSql input).errors = []) :
    (statementPlaces input).map Prod.snd = (splitSql input).statements := by
  rw [splitSql_eq, Scan.finish_closed (closed_of_noErrors he), map_placesFrom input {} 0 0 0]
  rfl

/-! ## 2. A statement stands at its place -/

/-- The text `w` stands in `s` at place `i`. -/
def StandsAt (s w : Text) (i : Nat) : Prop :=
  ∃ before after, s = before ++ w ++ after ∧ before.length = i

/-- The texts stand at their places, from place `a` on, with a character between two of them. -/
inductive Apart (s : Text) : Nat → List (Nat × Text) → Prop where
  | nil (a : Nat) : Apart s a []
  | cons {a o : Nat} {t : Text} {ps : List (Nat × Text)} (ha : a ≤ o) (ht : StandsAt s t o)
      (hps : Apart s (o + t.length + 1) ps) : Apart s a ((o, t) :: ps)

theorem Apart.mono {s : Text} {a b : Nat} {ps : List (Nat × Text)} (h : Apart s a ps) (hb : b ≤ a) :
    Apart s b ps := by
  cases h with
  | nil => exact .nil b
  | cons ha ht hps => exact .cons (hb.trans ha) ht hps

/-- What is trimmed of a buffer, and what around it. -/
theorem trim_split (buf : Text) :
    ∃ v, buf = buf.takeWhile isSpace ++ (trim buf ++ v) := by
  obtain ⟨v, hv, -⟩ := rdropWhile_split isSpace (trimStart buf)
  refine ⟨v, ?_⟩
  have hstart : buf = buf.takeWhile isSpace ++ trimStart buf := takeWhile_append_dropWhile.symm
  exact hstart.trans (congrArg (buf.takeWhile isSpace ++ ·) hv)

/-- What `flush` emits, in front of places that begin behind the character that ends it. -/
theorem apart_placed {s pre buf rest : Text} {ps : List (Nat × Text)} (hs : s = pre ++ buf ++ rest)
    (hps : Apart s (pre.length + buf.length + 1) ps) :
    Apart s pre.length (placed (pre.length + buf.length) buf ++ ps) := by
  obtain ⟨v, hv⟩ := trim_split buf
  have hlength := congrArg List.length hv
  rw [length_append, length_append] at hlength
  rw [placed]
  split
  · exact hps.mono (by omega)
  · refine .cons (by omega) ⟨pre ++ buf.takeWhile isSpace, v ++ rest, ?_, ?_⟩ (hps.mono (by omega))
    · rw [hs]
      nth_rewrite 1 [hv]
      simp only [append_assoc]
    · rw [length_append]
      omega

/-- **The statements from here on stand at their places.** -/
theorem apart_placesFrom {input : Text} (rest : Text) {s : Scan} {pre : Text} {keep drop : Nat}
    (hs : input = pre ++ s.buf ++ rest) (hdrop : drop ≠ 0 → keep = 0 ∧ s.buf = []) :
    Apart input pre.length (placesFrom s (pre.length + s.buf.length) keep drop rest) := by
  induction rest generalizing s pre keep drop with
  | nil =>
    have h := apart_placed hs (.nil _)
    rwa [append_nil] at h
  | cons c cs ih =>
    have hkept : input = pre ++ (s.buf ++ [c]) ++ cs := by
      rw [hs]
      simp only [append_assoc, cons_append, nil_append]
    have hlength : (s.buf ++ [c]).length = s.buf.length + 1 := length_append
    cases keep with
    | succ keep =>
      have h : Apart input pre.length
          (placesFrom (s.push c) (pre.length + (s.buf ++ [c]).length) keep drop cs) :=
        ih hkept (fun hd => absurd (hdrop hd).1 (Nat.succ_ne_zero keep))
      rwa [hlength, ← Nat.add_assoc] at h
    | zero =>
      cases drop with
      | succ drop =>
        have hbuf : s.buf = [] := (hdrop (Nat.succ_ne_zero drop)).2
        have h : Apart input (pre ++ [c]).length
            (placesFrom s ((pre ++ [c]).length + s.buf.length) 0 drop cs) := by
          refine ih ?_ (fun _ => ⟨rfl, hbuf⟩)
          rw [hs, hbuf]
          simp only [append_assoc, cons_append, nil_append]
        rw [length_append, length_singleton, Nat.add_right_comm] at h
        exact h.mono (Nat.le_succ _)
      | zero =>
        rw [placesFrom]
        generalize hr : (s.counted c).step c cs = r
        have hround := s.step_places c cs (pre.length + s.buf.length)
        rw [hr] at hround
        rcases hround with ⟨hbuf, -, hd⟩ | ⟨hbuf, hk, -⟩
        · -- the character is kept: the buffer grows, the place does not move
          have h : Apart input pre.length
              (placesFrom r.1 (pre.length + r.1.buf.length) r.2.1 r.2.2 cs) := by
            refine ih ?_ (fun h => absurd hd h)
            rw [hbuf]
            exact hkept
          rw [if_neg (by rw [hbuf]; exact append_ne_nil_of_right_ne_nil _ (cons_ne_nil _ _)),
            nil_append]
          rwa [hbuf, hlength, ← Nat.add_assoc] at h
        · -- the character ends the statement: the next begins behind it
          have h : Apart input (pre ++ s.buf ++ [c]).length
              (placesFrom r.1 ((pre ++ s.buf ++ [c]).length + r.1.buf.length) r.2.1 r.2.2 cs) := by
            refine ih ?_ (fun _ => ⟨hk, hbuf⟩)
            rw [hs, hbuf]
            simp only [append_assoc, cons_append, nil_append]
          rw [hbuf, length_append, length_append, length_singleton] at h
          rw [if_pos hbuf]
          exact apart_placed hs h

theorem statementPlaces_apart (input : Text) : Apart input 0 (statementPlaces input) := by
  have hs : input = [] ++ Scan.buf {} ++ input := rfl
  have hdrop : 0 ≠ 0 → 0 = 0 ∧ Scan.buf {} = [] := fun _ => ⟨rfl, rfl⟩
  exact apart_placesFrom input hs hdrop

end Veesker.Splitter
