/-
  File:      Veesker/Format/Repo.lean
  Subject:   A CONTENT-ADDRESSED REPOSITORY: trees of files, commits under their own ids, an index, a
             head and tags.

  A commit is stored under the id that is computed of it, and a stored one is never replaced. How ids
  are computed is a parameter; that different commits have different ids is a hypothesis.

  Nothing here names the repository.

  * `find_put` -- a commit that is put into the store is found under its id;
  * `Grows` -- what is stored stays.
-/
import Mathlib.Logic.Function.Basic
import Veesker.Text.Js

namespace Veesker.Git

/-! ## 1. Trees -/

/-- The files of a tree, by their paths. -/
abbrev Tree := List (Text × Text)

def Tree.get (t : Tree) (path : Text) : Option Text := t.lookup path

def Tree.set (t : Tree) (path blob : Text) : Tree := (path, blob) :: t.filter (·.1 != path)

@[simp] theorem Tree.get_set (t : Tree) (path blob : Text) :
    (t.set path blob).get path = some blob := List.lookup_cons_self

/-! ## 2. Repositories -/

structure Commit (S : Type) where
  tree : Tree
  parent : Option S
  message : Text
  time : Nat
  deriving DecidableEq

structure Repo (S : Type) where
  store : S → Option (Commit S)
  index : Tree
  head : Option S
  tags : Text → Option S

variable {S : Type} {oid : Commit S → S} {r r' r'' : Repo S}

/-- A repository as `init` leaves it. -/
def Repo.empty : Repo S := ⟨fun _ => none, [], none, fun _ => none⟩

/-- What every store keeps: a commit lies under its own id. -/
def Repo.Intact (oid : Commit S → S) (r : Repo S) : Prop :=
  ∀ s c, r.store s = some c → oid c = s

/-- The second repository has what the first one has, under the same ids and tags. -/
structure Grows (r r' : Repo S) : Prop where
  store : ∀ s c, r.store s = some c → r'.store s = some c
  tags : r'.tags = r.tags

theorem Grows.refl (r : Repo S) : Grows r r := ⟨fun _ _ h => h, rfl⟩

theorem Grows.trans (h : Grows r r') (h' : Grows r' r'') : Grows r r'' :=
  ⟨fun s c hs => h'.store s c (h.store s c hs), h'.tags.trans h.tags⟩

def Repo.deleteTag (r : Repo S) (tag : Text) : Repo S :=
  { r with tags := Function.update r.tags tag none }

/-- `tag_lightweight` without force, on a tag that is not there. -/
def Repo.addTag (r : Repo S) (tag : Text) (s : S) : Repo S :=
  { r with tags := Function.update r.tags tag (some s) }

theorem intact_empty : (Repo.empty : Repo S).Intact oid := fun _ _ h => nomatch h

variable [DecidableEq S]

/-- Put a commit into the store; one that is there is left alone. -/
def Repo.put (oid : Commit S → S) (r : Repo S) (c : Commit S) : Repo S :=
  if (r.store (oid c)).isSome then r
  else { r with store := Function.update r.store (oid c) (some c) }

theorem grows_put (c : Commit S) : Grows r (r.put oid c) := by
  unfold Repo.put
  split
  · exact .refl r
  · next hnew =>
    refine ⟨fun s c' hs => ?_, rfl⟩
    have hne : s ≠ oid c := fun e => hnew (by rw [← e, hs]; rfl)
    exact (Function.update_of_ne hne _ _).trans hs

theorem Repo.Intact.put (h : r.Intact oid) (c : Commit S) : (r.put oid c).Intact oid := by
  unfold Repo.put
  split
  · exact h
  · intro s c' hs
    change Function.update r.store (oid c) (some c) s = some c' at hs
    by_cases he : s = oid c
    · subst he
      rw [Function.update_self] at hs
      rw [Option.some.inj hs]
    · rw [Function.update_of_ne he] at hs
      exact h s c' hs

/-- **A commit is found under its id.** -/
theorem find_put (hoid : Function.Injective oid) (h : r.Intact oid) (c : Commit S) :
    (r.put oid c).store (oid c) = some c := by
  unfold Repo.put
  split
  · next hthere =>
    obtain ⟨c', hc'⟩ := Option.isSome_iff_exists.mp hthere
    rw [hc', hoid (h _ _ hc')]
  · exact Function.update_self ..

end Veesker.Git
