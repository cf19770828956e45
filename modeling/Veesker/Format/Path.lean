/-
  File:      Veesker/Format/Path.lean
  Subject:   PATHS: joining a text to a directory, and what lies inside a directory.

  A path is the list of its names, from the root of its volume on. A text joined to a directory
  is read name by name: an empty name and `.` stay, `..` goes up (and stays at the root).

  * `join_inside` -- a text that never goes above its start and ends below it leads inside the
    directory, whichever that is.
  * `ups_of_inside` -- **a text that leads inside two directories side by side**, once as it is and
    once with an extension, never goes above its start.

  Nothing here names the repository.
-/
import Veesker.Format.Bytes

namespace Veesker.Format

open List

/-! ## 1. Names -/

abbrev Path := List Text

inductive Platform where
  | posix
  | win32
  deriving DecidableEq

def Platform.isSep : Platform → Char → Bool
  | .posix, c => c == '/'
  | .win32, c => c == '/' || c == '\\'

/-- The names of a text, between its separators; never none. -/
def segments (p : Platform) : Text → List Text
  | [] => [[]]
  | c :: t =>
    if p.isSep c then [] :: segments p t
    else match segments p t with
      | [] => [[c]]
      | s :: ss => (c :: s) :: ss

/-- What the names read so far do: how far above the start they lead, and the names below. -/
structure Descent where
  ups : Nat := 0
  downs : List Text := []
  deriving DecidableEq

def Descent.step (r : Descent) (name : Text) : Descent :=
  if name = [] ∨ name = ".".toList then r
  else if name = "..".toList then
    if r.downs = [] then { r with ups := r.ups + 1 } else { r with downs := r.downs.dropLast }
  else { r with downs := r.downs ++ [name] }

def descent (p : Platform) (t : Text) : Descent := (segments p t).foldl Descent.step {}

/-- `join(dir, text)`, as the file system resolves it. -/
def join (p : Platform) (dir : Path) (t : Text) : Path :=
  dir.take (dir.length - (descent p t).ups) ++ (descent p t).downs

/-- Below a directory, and not the directory itself. -/
def StrictlyInside (dir path : Path) : Prop := dir <+: path ∧ dir.length < path.length

instance (dir path : Path) : Decidable (StrictlyInside dir path) :=
  inferInstanceAs (Decidable (_ ∧ _))

/-! ## 2. What leads inside -/

theorem StrictlyInside.trans {dir path path' : Path} (h : StrictlyInside dir path)
    (h' : path <+: path') : StrictlyInside dir path' :=
  ⟨h.1.trans h', Nat.lt_of_lt_of_le h.2 h'.length_le⟩

/-- **A text that ends below its start without going above it leads inside.** -/
theorem join_inside {p : Platform} {t : Text} (hu : (descent p t).ups = 0)
    (hd : (descent p t).downs ≠ []) (dir : Path) : StrictlyInside dir (join p dir t) := by
  have hlen := length_pos_iff.mpr hd
  rw [join, hu, Nat.sub_zero, take_length]
  refine ⟨prefix_append _ _, ?_⟩
  rw [length_append]
  omega

/-! ## 3. An extension -/

theorem segments_ext (p : Platform) {ext : Text} (hext : ∀ c ∈ ext, p.isSep c = false) (t : Text) :
    ∃ front last, segments p t = front ++ [last] ∧ segments p (t ++ ext) = front ++ [last ++ ext] := by
  have hself : segments p ext = [ext] := by
    induction ext with
    | nil => rfl
    | cons c ext ih =>
      rw [segments, hext c mem_cons_self, if_neg Bool.false_ne_true,
        ih fun c hc => hext c (mem_cons_of_mem _ hc)]
  induction t with
  | nil => exact ⟨[], [], rfl, hself⟩
  | cons c t ih =>
    obtain ⟨front, last, h1, h2⟩ := ih
    rw [cons_append, segments, segments, h1, h2]
    split
    · exact ⟨[] :: front, last, rfl, rfl⟩
    · cases front with
      | nil => exact ⟨[], c :: last, rfl, rfl⟩
      | cons s ss => exact ⟨(c :: s) :: ss, last, rfl, rfl⟩

/-- An extension that is more than dots makes the last name a name. -/
def IsExtension (p : Platform) (ext : Text) : Prop :=
  (∀ c ∈ ext, p.isSep c = false) ∧ 2 < ext.length

theorem Descent.step_ext (r : Descent) (last : Text) {ext : Text} (h : 2 < ext.length) :
    r.step (last ++ ext) = { r with downs := r.downs ++ [last ++ ext] } := by
  have hlen : 2 < (last ++ ext).length := by
    rw [length_append]
    omega
  have h0 : last ++ ext ≠ [] := by
    intro e
    rw [e] at hlen
    exact absurd hlen (by decide)
  have h1 : last ++ ext ≠ ".".toList := by
    intro e
    rw [e] at hlen
    exact absurd hlen (by decide)
  have h2 : last ++ ext ≠ "..".toList := by
    intro e
    rw [e] at hlen
    exact absurd hlen (by decide)
  rw [Descent.step, if_neg (not_or.mpr ⟨h0, h1⟩), if_neg h2]

/-- How the descents of a text and of the text with an extension hang together. -/
theorem descent_ext {p : Platform} {ext : Text} (h : IsExtension p ext) (t : Text) :
    ∃ (r : Descent) (last : Text), descent p t = r.step last ∧
      descent p (t ++ ext) = { r with downs := r.downs ++ [last ++ ext] } := by
  obtain ⟨front, last, h1, h2⟩ := segments_ext p h.1 t
  refine ⟨front.foldl Descent.step {}, last, ?_, ?_⟩
  · rw [descent, h1, foldl_append]
    rfl
  · rw [descent, h2, foldl_append, ← Descent.step_ext _ _ h.2]
    rfl

theorem Descent.ups_le_step (r : Descent) (name : Text) : r.ups ≤ (r.step name).ups := by
  rw [Descent.step]
  split_ifs
  · exact Nat.le_refl _
  · exact Nat.le_succ _
  · exact Nat.le_refl _
  · exact Nat.le_refl _

/-- With an extension a text that never goes above its start leads inside. -/
theorem join_ext_inside {p : Platform} {ext : Text} (h : IsExtension p ext) {t : Text}
    (hu : (descent p t).ups = 0) (dir : Path) : StrictlyInside dir (join p dir (t ++ ext)) := by
  obtain ⟨r, last, h1, h2⟩ := descent_ext h t
  have hr : r.ups = 0 := Nat.le_zero.mp (hu ▸ h1 ▸ r.ups_le_step last)
  refine join_inside (by rw [h2]; exact hr) ?_ dir
  rw [h2]
  exact append_ne_nil_of_right_ne_nil _ (cons_ne_nil _ _)

/-! ## 4. Two directories side by side -/

theorem getElem?_of_inside {base : Path} {a : Text} {path : Path}
    (h : StrictlyInside (base ++ [a]) path) : path[base.length]? = some a := by
  obtain ⟨rest, rfl⟩ := h.1
  rw [append_assoc, List.getElem?_append_right (Nat.le_refl _), Nat.sub_self]
  rfl

/-- Where a text went up, the name of the directory is one it names itself. -/
theorem downs_of_inside {base : Path} {a : Text} {ups : Nat} {downs : List Text} (hu : 0 < ups)
    (h : StrictlyInside (base ++ [a]) ((base ++ [a]).take ((base ++ [a]).length - ups) ++ downs)) :
    downs[base.length - (base.length + 1 - ups)]? = some a := by
  have hget := getElem?_of_inside h
  have hlen : (base ++ [a]).length = base.length + 1 := by rw [length_append]; rfl
  have htake : ((base ++ [a]).take (base.length + 1 - ups)).length = base.length + 1 - ups := by
    rw [length_take, hlen]
    omega
  rwa [hlen, List.getElem?_append_right (by omega), htake] at hget

/-- **A text that leads inside both of two directories side by side**, into one as it is and into
    the other with an extension, never goes above its start and ends below it. -/
theorem ups_of_inside {p : Platform} {ext : Text} (hext : IsExtension p ext) {base : Path}
    {a b : Text} (hab : a ≠ b) (hb : ∀ last, last ++ ext ≠ b) {t : Text}
    (h1 : StrictlyInside (base ++ [a]) (join p (base ++ [a]) t))
    (h2 : StrictlyInside (base ++ [b]) (join p (base ++ [b]) (t ++ ext))) :
    (descent p t).ups = 0 ∧ (descent p t).downs ≠ [] := by
  obtain ⟨r, last, e1, e2⟩ := descent_ext hext t
  rw [join] at h1 h2
  by_cases hu : (descent p t).ups = 0
  · refine ⟨hu, fun hd => ?_⟩
    rw [hu, hd, Nat.sub_zero, take_length, append_nil] at h1
    exact absurd h1.2 (lt_irrefl _)
  exfalso
  have hda := downs_of_inside (Nat.pos_of_ne_zero hu) h1
  by_cases hr : r.ups = 0
  · -- the last name is a `..` at the start
    rw [e1, Descent.step] at hu hda
    split_ifs at hu hda with _ _ hd
    · exact hu hr
    · rw [hd] at hda
      exact absurd hda (by simp)
    · exact hu hr
    · exact hu hr
  have hdb := @downs_of_inside _ _ r.ups (r.downs ++ [last ++ ext])
    (Nat.pos_of_ne_zero hr) (by rwa [e2] at h2)
  -- inside the names of both, the two directories would be one
  have hboth : ∀ j : Nat, r.downs[j]? = some a → (r.downs ++ [last ++ ext])[j]? = some b → False := by
    intro j ha' hb'
    obtain ⟨hj, -⟩ := List.getElem?_eq_some_iff.mp ha'
    rw [List.getElem?_append_left hj, ha'] at hb'
    exact hab (Option.some.inj hb')
  rw [e1, Descent.step] at hda
  split_ifs at hda with _ _ hd
  · exact hboth _ hda hdb
  · rw [hd] at hda
    exact absurd hda (by simp)
  · refine hboth _ ?_ hdb
    obtain ⟨hj, e⟩ := List.getElem?_eq_some_iff.mp hda
    simp only [getElem_dropLast] at e
    simp only [length_dropLast] at hj
    exact List.getElem?_eq_some_iff.mpr ⟨by omega, e⟩
  · generalize hj : base.length - (base.length + 1 - r.ups) = j at hda hdb
    by_cases hlt : j < r.downs.length
    · rw [List.getElem?_append_left hlt] at hda
      exact hboth j hda hdb
    · rw [List.getElem?_append_right (by omega)] at hdb
      rw [List.getElem?_append_right (by omega)] at hda
      obtain ⟨h0, -⟩ := List.getElem?_eq_some_iff.mp hda
      have h0 : j - r.downs.length = 0 := by
        rw [length_singleton] at h0
        omega
      rw [h0] at hdb
      exact hb last (Option.some.inj hdb)

end Veesker.Format
