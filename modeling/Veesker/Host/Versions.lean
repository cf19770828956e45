/-
  File:      Veesker/Host/Versions.lean
  Subject:   THE HISTORY OF AN OBJECT'S DDL (capture, git_commit and load_at_commit,
             src-tauri/src/persistence/object_versions.rs): a git repository for each connection, and a
             row for each version.

  A call may fail at every step; what it did before stays: a file, an entry of the index, a commit.
  The objects of a connection share the repository, its index and its branch. Ids and digests are
  parameters, and so is the file system's way of telling paths apart; git's is letter by letter.

  * `capture_cases` -- what a call leaves: no row, or one row whose commit has the object's text;
  * **`captures_kept`** -- every row gives back the text that was captured with it, and two rows of
    an object that follow each other differ in their digests.
-/
import Veesker.Format.Repo

namespace Veesker.Host.Versions

open Git

/-! ## 1. The state -/

structure Object where
  connection_id : Text
  owner : Text
  object_type : Text
  object_name : Text
  deriving DecidableEq

/-- A row of `object_versions`. -/
structure VersionRow (S H : Type) where
  id : Nat
  object : Object
  commit_sha : S
  ddl_hash : H
  capture_reason : Text
  label : Option Text := none
  deriving DecidableEq

/-- What is computed elsewhere: a commit's id, a text's digest, and which file a path of a
connection's work directory is. -/
structure Env (S H : Type) where
  oid : Commit S → S
  sha256_hex : Text → H
  file : Text → Text → Text

structure World (S H : Type) where
  files : Text → Option Text
  /-- the repositories, by connection -/
  repos : Text → Option (Repo S)
  /-- in the order of their ids -/
  rows : List (VersionRow S H)
  /-- the next id -/
  next : Nat

variable {S H : Type}

def World.empty : World S H := ⟨fun _ => none, fun _ => none, [], 1⟩

/-- The tags of a connection's repository. -/
def tagsOf (w : World S H) (connection tag : Text) : Option S :=
  (w.repos connection).bind fun repo => repo.tags tag

/-! ## 2. A capture -/

def object_type_dir (object_type : Text) : Text :=
  object_type.map fun c => if c = ' ' then '_' else c

/-- `Path::join`. -/
def join (dir path : Text) : Text :=
  if path.head? = some '/' then path
  else if dir.isEmpty || dir.getLast? == some '/' then dir ++ path
  else dir ++ '/' :: path

def file_rel_path (o : Object) : Text :=
  join (join o.owner (object_type_dir o.object_type)) (o.object_name ++ ".sql".toList)

/-- The hash of the object's last row. -/
def last_ddl_hash (rows : List (VersionRow S H)) (o : Object) : Option H :=
  ((rows.filter fun r => r.object = o).map VersionRow.ddl_hash).getLast?

/-- The step that fails. -/
inductive Fault where
  | init
  | mkdir
  /-- what the file is then -/
  | write (left : Option Text)
  /-- the index, or `add_path` -/
  | addPath
  | writeIndex
  /-- the tree, the signature, the head, or the commit itself -/
  | tree
  /-- the commit is there, and the branch cannot be moved to it -/
  | head
  | insert
  deriving DecidableEq

structure Capture where
  object : Object
  ddl : Text
  reason : Text
  time : Nat
  fault : Option Fault := none
  deriving DecidableEq

def Capture.message (c : Capture) : Text :=
  "[".toList ++ c.reason ++ "] ".toList ++ c.object.owner ++ ".".toList ++
    object_type_dir c.object.object_type ++ ".".toList ++ c.object.object_name

def World.insertVersion (w : World S H) (env : Env S H) (c : Capture) (sha : S) : World S H :=
  { w with
    rows := w.rows ++ [⟨w.next, c.object, sha, env.sha256_hex c.ddl, c.reason, none⟩]
    next := w.next + 1 }

def load_at_commit (w : World S H) (connection : Text) (sha : S) (path : Text) : Option Text := do
  let repo ← w.repos connection
  let commit ← repo.store sha
  commit.tree.get path

section

variable [DecidableEq S]

def git_commit (env : Env S H) (repo : Repo S) (c : Capture) (content : Option Text) :
    Repo S × Option S :=
  match content with
  | none => (repo, none)
  | some blob =>
    if c.fault = some .addPath ∨ c.fault = some .writeIndex then (repo, none)
    else
      let indexed := { repo with index := repo.index.set (file_rel_path c.object) blob }
      if c.fault = some .tree then (indexed, none)
      else
        let commit := ⟨indexed.index, indexed.head, c.message, c.time⟩
        let stored := indexed.put env.oid commit
        if c.fault = some .head then (stored, none)
        else ({ stored with head := some (env.oid commit) }, some (env.oid commit))

/-- What is done once the repository is open. -/
def captureIn (env : Env S H) (w : World S H) (repo : Repo S) (c : Capture) :
    World S H × Except Unit Bool :=
  let conn := c.object.connection_id
  let file := env.file conn (file_rel_path c.object)
  match c.fault with
  | some .mkdir => (w, .ok false)
  | some (.write left) => ({ w with files := Function.update w.files file left }, .ok false)
  | _ =>
    let files := Function.update w.files file (some c.ddl)
    let (repo', sha) := git_commit env repo c (files file)
    let w := { w with files := files, repos := Function.update w.repos conn (some repo') }
    match sha with
    | none => (w, .ok false)
    | some sha =>
      if c.fault = some .insert then (w, .error ()) else (w.insertVersion env c sha, .ok true)

variable [DecidableEq H]

def capture (env : Env S H) (w : World S H) (c : Capture) : World S H × Except Unit Bool :=
  if last_ddl_hash w.rows c.object = some (env.sha256_hex c.ddl) then (w, .ok false)
  else if c.fault = some .init then (w, .ok false)
  else
    -- `open_or_init_repo`
    let repo := (w.repos c.object.connection_id).getD .empty
    captureIn env { w with repos := Function.update w.repos c.object.connection_id (some repo) }
      repo c

end

/-! ## 3. What a capture leaves -/

section

variable {env : Env S H} {w w' w'' : World S H} {c : Capture} {repo : Repo S}

/-- Every repository is intact. -/
def World.Intact (env : Env S H) (w : World S H) : Prop :=
  ∀ conn repo, w.repos conn = some repo → repo.Intact env.oid

/-- The repositories have what they had. -/
def World.Extends (w w' : World S H) : Prop :=
  ∀ conn repo, w.repos conn = some repo → ∃ repo', w'.repos conn = some repo' ∧ Grows repo repo'

theorem World.Extends.refl (w : World S H) : w.Extends w :=
  fun _ repo h => ⟨repo, h, .refl repo⟩

theorem World.Extends.trans (h : w.Extends w') (h' : w'.Extends w'') : w.Extends w'' := by
  intro conn repo hrepo
  obtain ⟨repo', hrepo', hg⟩ := h conn repo hrepo
  obtain ⟨repo'', hrepo'', hg'⟩ := h' conn repo' hrepo'
  exact ⟨repo'', hrepo'', hg.trans hg'⟩

/-- What can be loaded stays. -/
theorem World.Extends.load (h : w.Extends w') {conn : Text} {sha : S} {path ddl : Text}
    (hl : load_at_commit w conn sha path = some ddl) :
    load_at_commit w' conn sha path = some ddl := by
  unfold load_at_commit at hl ⊢
  obtain ⟨repo, hrepo, hl⟩ := Option.bind_eq_some_iff.mp hl
  obtain ⟨commit, hcommit, hl⟩ := Option.bind_eq_some_iff.mp hl
  obtain ⟨repo', hrepo', hg⟩ := h conn repo hrepo
  exact Option.bind_eq_some_iff.mpr ⟨repo', hrepo', Option.bind_eq_some_iff.mpr
    ⟨commit, hg.store sha commit hcommit, hl⟩⟩

/-- A repository is put in the place of one that it extends. -/
theorem extends_update {repo' : Repo S} {conn : Text}
    (h : ∀ repo, w.repos conn = some repo → Grows repo repo')
    (hrepos : w'.repos = Function.update w.repos conn (some repo')) : w.Extends w' := by
  intro conn' r hr
  rw [hrepos]
  by_cases he : conn' = conn
  · subst he
    exact ⟨repo', Function.update_self .., h r hr⟩
  · exact ⟨r, (Function.update_of_ne he _ _).trans hr, .refl r⟩

theorem intact_update {repo' : Repo S} {conn : Text} (hw : w.Intact env)
    (h : repo'.Intact env.oid)
    (hrepos : w'.repos = Function.update w.repos conn (some repo')) : w'.Intact env := by
  intro conn' r hr
  rw [hrepos] at hr
  by_cases he : conn' = conn
  · subst he
    rw [Function.update_self] at hr
    cases hr
    exact h
  · rw [Function.update_of_ne he] at hr
    exact hw conn' r hr

theorem tags_update {repo' : Repo S} {conn : Text} (h : ∀ t, repo'.tags t = tagsOf w conn t)
    (hrepos : w'.repos = Function.update w.repos conn (some repo')) (conn' t : Text) :
    tagsOf w' conn' t = tagsOf w conn' t := by
  unfold tagsOf
  rw [hrepos]
  by_cases he : conn' = conn
  · subst he
    rw [Function.update_self]
    exact h t
  · rw [Function.update_of_ne he]

/-- What a call leaves when it starts in `w`. -/
structure Leaves (env : Env S H) (w : World S H) (c : Capture) (w' : World S H) : Prop where
  intact : w'.Intact env
  grown : w.Extends w'
  tags : ∀ conn t, tagsOf w' conn t = tagsOf w conn t
  rows : w'.rows = w.rows ∧ w'.next = w.next ∨
    ∃ sha, w'.rows = w.rows ++ [⟨w.next, c.object, sha, env.sha256_hex c.ddl, c.reason, none⟩] ∧
      w'.next = w.next + 1 ∧
      load_at_commit w' c.object.connection_id sha (file_rel_path c.object) = some c.ddl

variable [DecidableEq S]

/-- A commit that is made has the text at the object's path, and nothing stored is lost. -/
theorem git_commit_spec (hoid : Function.Injective env.oid) (h : repo.Intact env.oid)
    (ddl : Text) :
    Grows repo (git_commit env repo c (some ddl)).1 ∧
      (git_commit env repo c (some ddl)).1.Intact env.oid ∧
      ∀ sha, (git_commit env repo c (some ddl)).2 = some sha →
        ∃ commit, (git_commit env repo c (some ddl)).1.store sha = some commit ∧
          commit.tree.get (file_rel_path c.object) = some ddl := by
  let indexed : Repo S := { repo with index := repo.index.set (file_rel_path c.object) ddl }
  let commit : Commit S := ⟨indexed.index, indexed.head, c.message, c.time⟩
  have hindexed : Grows repo indexed := ⟨fun _ _ h => h, rfl⟩
  have hput : Grows repo (indexed.put env.oid commit) := hindexed.trans (grows_put commit)
  have hintact : (indexed.put env.oid commit).Intact env.oid :=
    Repo.Intact.put (r := indexed) h commit
  unfold git_commit
  dsimp only
  split
  · exact ⟨.refl repo, h, fun _ hs => (nomatch hs)⟩
  split
  · exact ⟨hindexed, h, fun _ hs => (nomatch hs)⟩
  split
  · exact ⟨hput, hintact, fun _ hs => (nomatch hs)⟩
  · refine ⟨⟨hput.store, hput.tags⟩, hintact, fun sha hs => ?_⟩
    cases hs
    exact ⟨commit, find_put (r := indexed) hoid h commit, Tree.get_set ..⟩

theorem captureIn_leaves (hoid : Function.Injective env.oid) (hw : w.Intact env)
    (hrepo : w.repos c.object.connection_id = some repo) :
    Leaves env w c (captureIn env w repo c).1 := by
  obtain ⟨hg, hintact, hmade⟩ := git_commit_spec (c := c) hoid (hw _ repo hrepo) c.ddl
  have hgrown : ∀ r, w.repos c.object.connection_id = some r →
      Grows r (git_commit env repo c (some c.ddl)).1 := by
    intro r hr
    obtain rfl := Option.some.inj (hrepo.symm.trans hr)
    exact hg
  have htags : ∀ t, (git_commit env repo c (some c.ddl)).1.tags t =
      tagsOf w c.object.connection_id t := by
    intro t
    unfold tagsOf
    rw [hg.tags, hrepo]
    rfl
  unfold captureIn
  dsimp only
  split
  · exact ⟨hw, .refl w, fun _ _ => rfl, .inl ⟨rfl, rfl⟩⟩
  · exact ⟨hw, .refl w, fun _ _ => rfl, .inl ⟨rfl, rfl⟩⟩
  · rw [Function.update_self]
    split
    · exact ⟨intact_update hw hintact rfl, extends_update hgrown rfl, tags_update htags rfl,
        .inl ⟨rfl, rfl⟩⟩
    · next sha hsha =>
      split
      · exact ⟨intact_update hw hintact rfl, extends_update hgrown rfl, tags_update htags rfl,
          .inl ⟨rfl, rfl⟩⟩
      · obtain ⟨commit, hstore, htree⟩ := hmade sha hsha
        refine ⟨intact_update hw hintact rfl, extends_update hgrown rfl, tags_update htags rfl,
          .inr ⟨sha, rfl, rfl, ?_⟩⟩
        exact Option.bind_eq_some_iff.mpr ⟨_, Function.update_self .., Option.bind_eq_some_iff.mpr
          ⟨commit, hstore, htree⟩⟩

variable [DecidableEq H]

/-- **What a call leaves**: no row, or one row, of another digest than the object's last, whose
commit has the object's text. -/
theorem capture_cases (hoid : Function.Injective env.oid) (hw : w.Intact env) (c : Capture) :
    Leaves env w c (capture env w c).1 ∧
      (last_ddl_hash w.rows c.object = some (env.sha256_hex c.ddl) →
        (capture env w c).1.rows = w.rows) := by
  unfold capture
  split
  · exact ⟨⟨hw, .refl w, fun _ _ => rfl, .inl ⟨rfl, rfl⟩⟩, fun _ => rfl⟩
  next hne =>
  refine ⟨?_, fun h => absurd h hne⟩
  split
  · exact ⟨hw, .refl w, fun _ _ => rfl, .inl ⟨rfl, rfl⟩⟩
  -- the repository is there, or made
  obtain ⟨repo, hopen⟩ : ∃ repo, (w.repos c.object.connection_id).getD .empty = repo := ⟨_, rfl⟩
  have hsame : ∀ r, w.repos c.object.connection_id = some r → Grows r repo := by
    intro r hr
    rw [← hopen, hr]
    exact .refl r
  have hrepo : repo.Intact env.oid := by
    cases hr : w.repos c.object.connection_id with
    | none =>
      rw [← hopen, hr]
      exact intact_empty
    | some r =>
      rw [← hopen, hr]
      exact hw _ r hr
  rw [hopen]
  let opened : World S H :=
    { w with repos := Function.update w.repos c.object.connection_id (some repo) }
  have hin : Leaves env opened c (captureIn env opened repo c).1 :=
    captureIn_leaves hoid (intact_update hw hrepo rfl) (Function.update_self ..)
  have hopened : w.Extends opened := extends_update hsame rfl
  have htags : ∀ conn t, tagsOf opened conn t = tagsOf w conn t := by
    refine tags_update (fun t => ?_) rfl
    unfold tagsOf
    rw [← hopen]
    cases w.repos c.object.connection_id <;> rfl
  exact ⟨hin.intact, hopened.trans hin.grown, fun conn t => (hin.tags conn t).trans (htags conn t),
    hin.rows⟩

end

/-! ## 4. Runs -/

section

variable [DecidableEq S] [DecidableEq H] {env : Env S H}

/-- One call after the other, from the empty database. -/
def run (env : Env S H) (calls : List Capture) : World S H :=
  calls.foldl (fun w c => (capture env w c).1) .empty

theorem run_concat (calls : List Capture) (c : Capture) :
    run env (calls ++ [c]) = (capture env (run env calls) c).1 := by
  unfold run
  rw [List.foldl_append]
  rfl

theorem run_intact (hoid : Function.Injective env.oid) (calls : List Capture) :
    (run env calls).Intact env := by
  induction calls using List.reverseRecOn with
  | nil =>
    intro _ _ h
    cases h
  | append_singleton calls c ih =>
    rw [run_concat]
    exact (capture_cases hoid ih c).1.intact

/-- The row was written by one of the calls, and its commit gives back that call's text. -/
def Kept (env : Env S H) (calls : List Capture) (row : VersionRow S H) : Prop :=
  ∃ before c after, calls = before ++ c :: after ∧
    (run env (before ++ [c])).rows = (run env before).rows ++ [row] ∧
    row.object = c.object ∧ row.ddl_hash = env.sha256_hex c.ddl ∧
    load_at_commit (run env calls) row.object.connection_id row.commit_sha
      (file_rel_path row.object) = some c.ddl

/-- A further call loses no row's text. -/
theorem Kept.concat (hoid : Function.Injective env.oid) {calls : List Capture}
    {row : VersionRow S H} (h : Kept env calls row) (d : Capture) :
    Kept env (calls ++ [d]) row := by
  obtain ⟨before, c, after, rfl, hrows, hobject, hhash, hload⟩ := h
  refine ⟨before, c, after ++ [d], by simp, hrows, hobject, hhash, ?_⟩
  rw [run_concat]
  exact (capture_cases hoid (run_intact hoid _) d).1.grown.load hload

theorem run_kept (hoid : Function.Injective env.oid) (calls : List Capture) :
    ∀ row ∈ (run env calls).rows, Kept env calls row := by
  induction calls using List.reverseRecOn with
  | nil =>
    intro row hrow
    cases hrow
  | append_singleton calls c ih =>
    intro row hrow
    have hleaves := (capture_cases hoid (run_intact hoid calls) c).1
    rw [run_concat] at hrow
    rcases hleaves.rows with ⟨hrows, -⟩ | ⟨sha, hrows, -, hload⟩
    · rw [hrows] at hrow
      exact (ih row hrow).concat hoid c
    · rw [hrows] at hrow
      rcases List.mem_append.mp hrow with hrow | hrow
      · exact (ih row hrow).concat hoid c
      · obtain rfl := List.mem_singleton.mp hrow
        refine ⟨calls, c, [], rfl, ?_, rfl, rfl, ?_⟩
        · rw [run_concat, hrows]
        · rw [run_concat]
          exact hload

/-- The digests of an object's rows, in their order. -/
def hashesOf (w : World S H) (o : Object) : List H :=
  (w.rows.filter fun r => r.object = o).map VersionRow.ddl_hash

theorem run_hashes (hoid : Function.Injective env.oid) (calls : List Capture) (o : Object) :
    (hashesOf (run env calls) o).IsChain (· ≠ ·) := by
  induction calls using List.reverseRecOn with
  | nil => exact .nil
  | append_singleton calls c ih =>
    obtain ⟨hleaves, hskip⟩ := capture_cases hoid (run_intact hoid calls) c
    rw [run_concat]
    rcases hleaves.rows with ⟨hrows, -⟩ | ⟨sha, hrows, -, -⟩
    · unfold hashesOf
      rw [hrows]
      exact ih
    · by_cases ho : c.object = o
      · -- the new row's digest is not the last one's
        have hnew : hashesOf (capture env (run env calls) c).1 o =
            hashesOf (run env calls) o ++ [env.sha256_hex c.ddl] := by
          unfold hashesOf
          rw [hrows, List.filter_append, List.map_append]
          simp [ho]
        rw [hnew, List.isChain_append]
        refine ⟨ih, .singleton _, fun x hx y hy => ?_⟩
        cases hy
        intro he
        subst he
        have hsame := hskip (by rw [ho]; exact hx)
        rw [hrows] at hsame
        exact absurd hsame (by simp)
      · have hsame : hashesOf (capture env (run env calls) c).1 o =
            hashesOf (run env calls) o := by
          unfold hashesOf
          rw [hrows, List.filter_append]
          simp [ho]
        rw [hsame]
        exact ih

end

/-- A commit's own content, and whether it has a parent. -/
structure Link where
  tree : Tree
  message : Text
  time : Nat
  hasParent : Bool
  deriving DecidableEq

/-- Ids that are the history itself: a commit's content and its parent's, down to the first. -/
abbrev Chain := List Link

def chainOid (c : Commit Chain) : Chain :=
  ⟨c.tree, c.message, c.time, c.parent.isSome⟩ :: c.parent.getD []

theorem chainOid_injective : Function.Injective chainOid := by
  intro c d h
  cases c with
  | mk tree parent message time =>
    cases d with
    | mk tree' parent' message' time' =>
      obtain ⟨hhead, htail⟩ := List.cons.inj h
      simp only [Link.mk.injEq] at hhead
      obtain ⟨rfl, rfl, rfl, hsome⟩ := hhead
      cases parent <;> cases parent' <;> simp_all

def chainEnv : Env Chain Text := ⟨chainOid, id, fun conn path => conn ++ '/' :: path⟩

def tableA : Object := ⟨"c".toList, "HR".toList, "TABLE".toList, "A".toList⟩
def bodyB : Object := ⟨"c".toList, "HR".toList, "PACKAGE BODY".toList, "B".toList⟩

/-- Two objects of a connection, with calls that fail on the way. -/
def mixedCalls : List Capture :=
  [⟨tableA, "one".toList, "baseline".toList, 1, none⟩,
    ⟨bodyB, "two".toList, "baseline".toList, 2, some .tree⟩,
    ⟨tableA, "three".toList, "compile".toList, 3, some .head⟩,
    ⟨tableA, "three".toList, "compile".toList, 4, none⟩,
    ⟨bodyB, "four".toList, "compile".toList, 5, some (.write none)⟩,
    ⟨bodyB, "two".toList, "compile".toList, 6, none⟩]

end Veesker.Host.Versions
