/-
  File:      Veesker/Host/Labels.lean
  Subject:   LABELS OF VERSIONS (set_label and tag_name,
             src-tauri/src/persistence/object_versions.rs): a label is stored in the version's row, and
             a tag of the connection's repository points at the row's commit.

  The old tag is deleted first, and an error there is dropped; then the row is changed, and then the
  new tag is made, which fails where the tag exists or its name is none that git takes.

  * `Synced` -- the tags are the labels of the rows;
  * `Orderly` -- the calls that nothing stops between the steps;
  * **`orderly_synced`** -- runs of them keep the tags and the labels together, and a call that fails
    leaves both alone.
-/
import Veesker.Host.Versions

namespace Veesker.Host.Versions

open Git List

/-! ## 1. A call -/

/-- `veesker/OWNER.TYPE_DIR.NAME/label`. -/
def tag_name (o : Object) (label : Text) : Text :=
  "veesker/".toList ++ o.owner ++ ".".toList ++ object_type_dir o.object_type ++ ".".toList ++
    o.object_name ++ "/".toList ++ label

inductive LabelStep where
  /-- `get_commit_sha` -/
  | lookup
  /-- `Repository::open` -/
  | open
  /-- `list_versions` -/
  | list
  /-- `tag_delete`, whose error is dropped -/
  | deleteTag
  /-- `update_label` -/
  | update
  /-- the commit that is to be tagged -/
  | find
  /-- `tag_lightweight`, on a name that is free and that git takes -/
  | tag
  deriving DecidableEq

structure SetLabel where
  version_id : Nat
  object : Object
  label : Option Text
  /-- the steps that fail -/
  fails : LabelStep → Bool := fun _ => false

variable {S H : Type}

def World.setRepo (w : World S H) (connection : Text) (repo : Repo S) : World S H :=
  { w with repos := Function.update w.repos connection (some repo) }

/-- `update_label`. -/
def World.updateLabel (w : World S H) (version_id : Nat) (label : Option Text) : World S H :=
  { w with rows := w.rows.map fun r => if r.id = version_id then { r with label := label } else r }

/-- `list_versions`: the object's rows, the newest first. -/
def list_versions (rows : List (VersionRow S H)) (o : Object) : List (VersionRow S H) :=
  (rows.filter fun r => r.object = o).reverse

/-- Remove the old tag if there was one. -/
def dropOldTag (repo : Repo S) (rows : List (VersionRow S H)) (c : SetLabel) : Repo S :=
  match (list_versions rows c.object).find? (·.id = c.version_id) with
  | some ⟨_, _, _, _, _, some old⟩ =>
    if c.fails .deleteTag then repo else repo.deleteTag (tag_name c.object old)
  | _ => repo

/-- What is done once the row is changed. -/
def createTag (validTag : Text → Bool) (w : World S H) (repo : Repo S) (sha : S) (c : SetLabel) :
    World S H × Except Unit Unit :=
  match c.label with
  | none | some [] => (w, .ok ())
  | some (ch :: rest) =>
    let tag := tag_name c.object (ch :: rest)
    if c.fails .find || (repo.store sha).isNone then (w, .error ())
    else if c.fails .tag || !validTag tag || (repo.tags tag).isSome then (w, .error ())
    else (w.setRepo c.object.connection_id (repo.addTag tag sha), .ok ())

/-- `set_label`; git's rule for the names of tags is a parameter. -/
def set_label (validTag : Text → Bool) (w : World S H) (c : SetLabel) :
    World S H × Except Unit Unit :=
  match w.rows.find? (·.id = c.version_id), w.repos c.object.connection_id with
  | some row, some repo =>
    if c.fails .lookup || c.fails .open || c.fails .list then (w, .error ())
    else
      let repo := dropOldTag repo w.rows c
      let w := w.setRepo c.object.connection_id repo
      if c.fails .update then (w, .error ())
      else createTag validTag (w.updateLabel c.version_id c.label) repo row.commit_sha c
  | _, _ => (w, .error ())

/-! ## 2. What is asked of the calls -/

/-- The tag that stands for a row's label. -/
def VersionRow.tag (row : VersionRow S H) : Option Text := row.label.map (tag_name row.object)

/-- The row bears the label that the tag of a connection's repository stands for. -/
structure Bears (w : World S H) (conn tag : Text) (row : VersionRow S H) : Prop where
  mem : row ∈ w.rows
  conn : row.object.connection_id = conn
  tag : row.tag = some tag

/-- The tags are the labels of the rows, and each points at its row's commit. -/
def Synced (w : World S H) : Prop :=
  ∀ conn tag sha, tagsOf w conn tag = some sha ↔ ∃ row, Bears w conn tag row ∧ row.commit_sha = sha

/-- The rows and the tags are as they were. -/
def Untouched (w w' : World S H) : Prop :=
  w'.rows = w.rows ∧ ∀ conn tag, tagsOf w' conn tag = tagsOf w conn tag

inductive Call where
  | capture (c : Capture)
  | setLabel (c : SetLabel)

/-- The call gets to the first step that changes anything. -/
structure Begins (w : World S H) (c : SetLabel) : Prop where
  row : (w.rows.find? (·.id = c.version_id)).isSome
  repo : (w.repos c.object.connection_id).isSome
  lookup : c.fails .lookup = false
  opened : c.fails .open = false
  listed : c.fails .list = false

/-- A call on a version of its own object, in which nothing fails once something has changed. -/
structure OrderlyLabel (validTag : Text → Bool) (w : World S H) (c : SetLabel)
    (row : VersionRow S H) : Prop where
  own : row.object = c.object
  deletes : row.label ≠ none → c.fails .deleteTag = false
  updates : row.label ≠ none → c.fails .update = false
  finds : c.fails .update = false → c.label ≠ none → c.fails .find = false
  tags : c.fails .update = false → c.label ≠ none → c.fails .tag = false
  /-- the new label is not empty, and makes a name for a tag -/
  valid : c.fails .update = false → ∀ l, c.label = some l →
    l ≠ [] ∧ validTag (tag_name c.object l) = true
  /-- no other version of the connection has the new tag -/
  free : c.fails .update = false → ∀ l, c.label = some l → ∀ other ∈ w.rows,
    other.id ≠ c.version_id → other.object.connection_id = c.object.connection_id →
    other.tag ≠ some (tag_name c.object l)

def Orderly (validTag : Text → Bool) (w : World S H) : Call → Prop
  | .capture _ => True
  | .setLabel c =>
    Begins w c → ∀ row ∈ w.rows, row.id = c.version_id → OrderlyLabel validTag w c row

section

variable [DecidableEq S] [DecidableEq H]

def perform (env : Env S H) (validTag : Text → Bool) (w : World S H) : Call → World S H
  | .capture c => (capture env w c).1
  | .setLabel c => (set_label validTag w c).1

/-- What the runs reach from the empty database, when every call meets a condition. -/
inductive Reached (env : Env S H) (validTag : Text → Bool) (ok : World S H → Call → Prop) :
    World S H → Prop where
  | start : Reached env validTag ok .empty
  | call {w : World S H} (c : Call) (h : Reached env validTag ok w) (hok : ok w c) :
    Reached env validTag ok (perform env validTag w c)

end

/-! ## 3. What every orderly run keeps -/

structure World.Inv (env : Env S H) (w : World S H) : Prop where
  synced : Synced w
  /-- no tag stands for two rows -/
  unique : ∀ conn tag row row', Bears w conn tag row → Bears w conn tag row' → row = row'
  ids : (w.rows.map VersionRow.id).Nodup
  below : ∀ row ∈ w.rows, row.id < w.next
  /-- the rows' commits are in the repositories -/
  stored : ∀ row ∈ w.rows, ∃ repo, w.repos row.object.connection_id = some repo ∧
    (repo.store row.commit_sha).isSome = true
  intact : w.Intact env

section

variable {env : Env S H} {validTag : Text → Bool} {w w' : World S H}

theorem inv_empty : (World.empty : World S H).Inv env where
  synced := by
    intro conn tag sha
    constructor
    · intro h
      cases h
    · intro h
      obtain ⟨row, hb, -⟩ := h
      exact absurd hb.mem not_mem_nil
  unique := fun _ _ _ _ h => absurd h.mem not_mem_nil
  ids := nodup_nil
  below := fun _ h => absurd h not_mem_nil
  stored := fun _ h => absurd h not_mem_nil
  intact := fun _ _ h => nomatch h

theorem World.Inv.row_eq (h : w.Inv env) {row row' : VersionRow S H} (hr : row ∈ w.rows)
    (hr' : row' ∈ w.rows) (he : row.id = row'.id) : row = row' :=
  inj_on_of_nodup_map h.ids hr hr' he

variable [DecidableEq S] [DecidableEq H]

/-- A capture adds a row without a label, if any. -/
theorem inv_capture (hoid : Function.Injective env.oid) (h : w.Inv env) (c : Capture) :
    (capture env w c).1.Inv env := by
  obtain ⟨hleaves, -⟩ := capture_cases hoid h.intact c
  generalize (capture env w c).1 = w' at hleaves
  have hstored : ∀ row ∈ w.rows, ∃ repo, w'.repos row.object.connection_id = some repo ∧
      (repo.store row.commit_sha).isSome = true := by
    intro row hr
    obtain ⟨repo, hrepo, hs⟩ := h.stored row hr
    obtain ⟨repo', hrepo', hg⟩ := hleaves.grown _ repo hrepo
    obtain ⟨commit, hcommit⟩ := Option.isSome_iff_exists.mp hs
    exact ⟨repo', hrepo', by rw [hg.store _ _ hcommit]; rfl⟩
  rcases hleaves.rows with ⟨hrows, hnext⟩ | ⟨sha, hrows, hnext, hload⟩
  · have hbears : ∀ conn tag row, Bears w' conn tag row ↔ Bears w conn tag row := by
      intro conn tag row
      exact ⟨fun hb => ⟨hrows ▸ hb.mem, hb.conn, hb.tag⟩, fun hb => ⟨hrows ▸ hb.mem, hb.conn, hb.tag⟩⟩
    exact {
      synced := by
        intro conn tag sha
        rw [hleaves.tags, h.synced]
        simp only [hbears]
      unique := fun conn tag row row' hb hb' =>
        h.unique conn tag row row' ((hbears ..).mp hb) ((hbears ..).mp hb')
      ids := hrows ▸ h.ids
      below := by
        rw [hrows, hnext]
        exact h.below
      stored := by
        rw [hrows]
        exact hstored
      intact := hleaves.intact }
  · have hbears : ∀ conn tag row, Bears w' conn tag row ↔ Bears w conn tag row := by
      intro conn tag row
      constructor
      · intro hb
        have hm := hb.mem
        rw [hrows, mem_append] at hm
        rcases hm with hm | hm
        · exact ⟨hm, hb.conn, hb.tag⟩
        · obtain rfl := mem_singleton.mp hm
          exact nomatch hb.tag
      · intro hb
        exact ⟨by rw [hrows]; exact mem_append_left _ hb.mem, hb.conn, hb.tag⟩
    exact {
      synced := by
        intro conn tag sha
        rw [hleaves.tags, h.synced]
        simp only [hbears]
      unique := fun conn tag row row' hb hb' =>
        h.unique conn tag row row' ((hbears ..).mp hb) ((hbears ..).mp hb')
      ids := by
        rw [hrows, map_append, nodup_append]
        refine ⟨h.ids, nodup_singleton _, fun n hn m hm => ?_⟩
        obtain ⟨row, hr, rfl⟩ := mem_map.mp hn
        obtain rfl := mem_singleton.mp hm
        exact Nat.ne_of_lt (h.below row hr)
      below := by
        intro row hr
        rw [hrows, mem_append] at hr
        rw [hnext]
        rcases hr with hr | hr
        · exact Nat.lt_succ_of_lt (h.below row hr)
        · obtain rfl := mem_singleton.mp hr
          exact Nat.lt_succ_self _
      stored := by
        intro row hr
        rw [hrows, mem_append] at hr
        rcases hr with hr | hr
        · exact hstored row hr
        · obtain rfl := mem_singleton.mp hr
          obtain ⟨repo, hrepo, hl⟩ := Option.bind_eq_some_iff.mp hload
          obtain ⟨commit, hcommit, -⟩ := Option.bind_eq_some_iff.mp hl
          exact ⟨repo, hrepo, by rw [hcommit]; rfl⟩
      intact := hleaves.intact }

end

/-! ## 4. A label that is set -/

section

variable {env : Env S H} {validTag : Text → Bool} {w w' : World S H} {row₀ row : VersionRow S H}
  {label : Option Text}

/-- The rows once one of them has another label. -/
theorem mem_updateLabel (hi : w.Inv env) (h₀ : row₀ ∈ w.rows) :
    row ∈ (w.updateLabel row₀.id label).rows ↔
      row ∈ w.rows ∧ row.id ≠ row₀.id ∨ row = { row₀ with label := label } := by
  constructor
  · intro hr
    obtain ⟨r, hmem, rfl⟩ := mem_map.mp hr
    split
    · next he => exact .inr (by rw [hi.row_eq hmem h₀ he])
    · next he => exact .inl ⟨hmem, he⟩
  · intro hr
    rcases hr with ⟨hr, he⟩ | rfl
    · exact mem_map.mpr ⟨row, hr, if_neg he⟩
    · exact mem_map.mpr ⟨row₀, h₀, if_pos rfl⟩

/-- The world once a version has another label, and its connection's repository other tags. -/
structure Relabelled (w : World S H) (row₀ : VersionRow S H) (label : Option Text)
    (w' : World S H) : Prop where
  rows : w'.rows = (w.updateLabel row₀.id label).rows
  next : w'.next = w.next
  repos : ∃ repo repo', w.repos row₀.object.connection_id = some repo ∧
    w'.repos = Function.update w.repos row₀.object.connection_id (some repo') ∧
    repo'.store = repo.store
  /-- the tag of the new label points at the version's commit, that of the old one is gone -/
  tags : ∀ t, tagsOf w' row₀.object.connection_id t =
    if label.map (tag_name row₀.object) = some t then some row₀.commit_sha
    else if row₀.tag = some t then none
    else tagsOf w row₀.object.connection_id t
  /-- no other version has the new tag -/
  free : ∀ other ∈ w.rows, other.id ≠ row₀.id →
    other.object.connection_id = row₀.object.connection_id →
    ∀ t, label.map (tag_name row₀.object) = some t → other.tag ≠ some t

/-- Who bears a tag then. -/
theorem bears_relabelled (hi : w.Inv env) (h₀ : row₀ ∈ w.rows) (h : Relabelled w row₀ label w')
    {conn tag : Text} :
    Bears w' conn tag row ↔ Bears w conn tag row ∧ row.id ≠ row₀.id ∨
      row = { row₀ with label := label } ∧ row₀.object.connection_id = conn ∧
        label.map (tag_name row₀.object) = some tag := by
  constructor
  · intro hb
    have hm := hb.mem
    rw [h.rows, mem_updateLabel hi h₀] at hm
    rcases hm with ⟨hm, hne⟩ | rfl
    · exact .inl ⟨⟨hm, hb.conn, hb.tag⟩, hne⟩
    · exact .inr ⟨rfl, hb.conn, hb.tag⟩
  · intro hb
    rcases hb with ⟨hb, hne⟩ | ⟨rfl, hconn, htag⟩
    · exact ⟨by rw [h.rows, mem_updateLabel hi h₀]; exact .inl ⟨hb.mem, hne⟩, hb.conn, hb.tag⟩
    · exact ⟨by rw [h.rows, mem_updateLabel hi h₀]; exact .inr rfl, hconn, htag⟩

theorem Relabelled.synced (hi : w.Inv env) (h₀ : row₀ ∈ w.rows)
    (h : Relabelled w row₀ label w') : Synced w' := by
  intro conn tag sha
  simp only [bears_relabelled hi h₀ h]
  by_cases hconn : row₀.object.connection_id = conn
  · subst hconn
    rw [h.tags]
    by_cases hnew : label.map (tag_name row₀.object) = some tag
    · -- the new tag: only this version bears it
      rw [if_pos hnew]
      constructor
      · intro hs
        exact ⟨_, .inr ⟨rfl, rfl, hnew⟩, Option.some.inj hs⟩
      · intro hs
        obtain ⟨row, ⟨hb, hne⟩ | ⟨rfl, -, -⟩, rfl⟩ := hs
        · exact absurd hb.tag (h.free row hb.mem hne hb.conn tag hnew)
        · rfl
    · rw [if_neg hnew]
      by_cases hold : row₀.tag = some tag
      · -- the old tag: nobody else bore it
        rw [if_pos hold]
        constructor
        · intro hs
          cases hs
        · intro hs
          obtain ⟨row, ⟨hb, hne⟩ | ⟨-, -, hnew'⟩, -⟩ := hs
          · exact absurd (congrArg _ (hi.unique _ _ _ _ hb ⟨h₀, rfl, hold⟩)) hne
          · exact absurd hnew' hnew
      · rw [if_neg hold, hi.synced]
        constructor
        · intro hs
          obtain ⟨row, hb, hsha⟩ := hs
          refine ⟨row, .inl ⟨hb, fun he => ?_⟩, hsha⟩
          exact hold (hi.row_eq hb.mem h₀ he ▸ hb.tag)
        · intro hs
          obtain ⟨row, ⟨hb, -⟩ | ⟨-, -, hnew'⟩, hsha⟩ := hs
          · exact ⟨row, hb, hsha⟩
          · exact absurd hnew' hnew
  · -- another connection's repository
    obtain ⟨repo, repo', -, hrepos, -⟩ := h.repos
    have hsame : tagsOf w' conn tag = tagsOf w conn tag := by
      unfold tagsOf
      rw [hrepos, Function.update_of_ne (Ne.symm hconn)]
    rw [hsame, hi.synced]
    constructor
    · intro hs
      obtain ⟨row, hb, hsha⟩ := hs
      refine ⟨row, .inl ⟨hb, fun he => ?_⟩, hsha⟩
      exact hconn (hi.row_eq hb.mem h₀ he ▸ hb.conn)
    · intro hs
      obtain ⟨row, ⟨hb, -⟩ | ⟨-, hc, -⟩, hsha⟩ := hs
      · exact ⟨row, hb, hsha⟩
      · exact absurd hc hconn

theorem Relabelled.unique (hi : w.Inv env) (h₀ : row₀ ∈ w.rows)
    (h : Relabelled w row₀ label w') (conn tag : Text) (row row' : VersionRow S H)
    (hb : Bears w' conn tag row) (hb' : Bears w' conn tag row') : row = row' := by
  rw [bears_relabelled hi h₀ h] at hb hb'
  rcases hb with ⟨hb, hne⟩ | ⟨rfl, hconn, hnew⟩ <;> rcases hb' with ⟨hb', hne'⟩ | ⟨rfl, hconn', hnew'⟩
  · exact hi.unique _ _ _ _ hb hb'
  · exact absurd hb.tag (h.free row hb.mem hne (hb.conn.trans hconn'.symm) tag hnew')
  · exact absurd hb'.tag (h.free row' hb'.mem hne' (hb'.conn.trans hconn.symm) tag hnew)
  · rfl

theorem Relabelled.inv (hi : w.Inv env) (h₀ : row₀ ∈ w.rows)
    (h : Relabelled w row₀ label w') : w'.Inv env := by
  obtain ⟨repo, repo', hrepo, hrepos, hstore⟩ := h.repos
  exact {
    synced := h.synced hi h₀
    unique := h.unique hi h₀
    ids := by
      have hids : w'.rows.map VersionRow.id = w.rows.map VersionRow.id := by
        rw [h.rows]
        show (w.rows.map _).map _ = _
        rw [map_map]
        refine map_congr_left fun r _ => ?_
        show (if r.id = row₀.id then { r with label := label } else r).id = r.id
        split <;> rfl
      rw [hids]
      exact hi.ids
    below := by
      intro row hr
      rw [h.rows, mem_updateLabel hi h₀] at hr
      rw [h.next]
      rcases hr with ⟨hr, -⟩ | rfl
      · exact hi.below row hr
      · exact hi.below row₀ h₀
    stored := by
      have hkept : ∀ row ∈ w.rows, ∃ repo, w'.repos row.object.connection_id = some repo ∧
          (repo.store row.commit_sha).isSome = true := by
        intro row hr
        obtain ⟨r, hr', hs⟩ := hi.stored row hr
        rw [hrepos]
        by_cases he : row.object.connection_id = row₀.object.connection_id
        · rw [he] at hr' ⊢
          obtain rfl := Option.some.inj (hrepo.symm.trans hr')
          exact ⟨repo', Function.update_self .., by rw [hstore]; exact hs⟩
        · exact ⟨r, (Function.update_of_ne he _ _).trans hr', hs⟩
      intro row hr
      rw [h.rows, mem_updateLabel hi h₀] at hr
      rcases hr with ⟨hr, -⟩ | rfl
      · exact hkept row hr
      · exact hkept row₀ h₀
    intact := by
      refine intact_update hi.intact (fun s c hs => ?_) hrepos
      rw [hstore] at hs
      exact hi.intact _ repo hrepo s c hs }

/-! ### The steps of the call -/

variable {c : SetLabel} {repo : Repo S}

theorem setRepo_same (h : w.repos c.object.connection_id = some repo) :
    w.setRepo c.object.connection_id repo = w := by
  unfold World.setRepo
  rw [← h, Function.update_eq_self]

/-- The call's own list has the version. -/
theorem find_own (hi : w.Inv env) (h₀ : row₀ ∈ w.rows) (hid : row₀.id = c.version_id)
    (hown : row₀.object = c.object) :
    (list_versions w.rows c.object).find? (·.id = c.version_id) = some row₀ := by
  have hmem : row₀ ∈ list_versions w.rows c.object :=
    mem_reverse.mpr (mem_filter.mpr ⟨h₀, by simpa using hown⟩)
  cases hfind : (list_versions w.rows c.object).find? (·.id = c.version_id) with
  | none => exact absurd hid (by simpa using List.find?_eq_none.mp hfind row₀ hmem)
  | some r =>
    have hr : r ∈ w.rows :=
      (mem_filter.mp (mem_reverse.mp (mem_of_find?_eq_some hfind))).1
    have hrid : r.id = c.version_id := by simpa using List.find?_some hfind
    rw [hi.row_eq hr h₀ (hrid.trans hid.symm)]

/-- Once the old tag is dropped. -/
theorem dropOldTag_spec (repo : Repo S) (hi : w.Inv env) (h₀ : row₀ ∈ w.rows) (hid : row₀.id = c.version_id)
    (ho : OrderlyLabel validTag w c row₀) :
    (dropOldTag repo w.rows c).store = repo.store ∧
      (∀ t, (dropOldTag repo w.rows c).tags t =
        if row₀.tag = some t then none else repo.tags t) ∧
      (row₀.label = none → dropOldTag repo w.rows c = repo) := by
  unfold dropOldTag VersionRow.tag
  rw [find_own hi h₀ hid ho.own]
  have hdeletes := ho.deletes
  have hown := ho.own
  obtain ⟨id, object, sha, hash, reason, label⟩ := row₀
  cases label with
  | none => exact ⟨rfl, fun t => rfl, fun _ => rfl⟩
  | some old =>
    have hdel : c.fails .deleteTag = false := hdeletes nofun
    dsimp only
    rw [hdel]
    refine ⟨rfl, fun t => ?_, nofun⟩
    show Function.update repo.tags (tag_name c.object old) none t = _
    dsimp only at hown
    rw [hown, Option.map_some, Function.update_apply]
    simp only [Option.some.injEq, eq_comm]

/-- A call that gets to no step that changes anything. -/
theorem set_label_of_not_begins (h : ¬ Begins w c) : set_label validTag w c = (w, .error ()) := by
  unfold set_label
  split
  · next row repo hrow hrepo =>
    split
    · rfl
    · next hearly =>
      simp only [Bool.or_eq_true, not_or, Bool.not_eq_true] at hearly
      exact absurd ⟨by rw [hrow]; rfl, by rw [hrepo]; rfl, hearly.1.1, hearly.1.2, hearly.2⟩ h
  · rfl

/-- The tag of the new label is free once the old one is dropped. -/
theorem tag_free (hi : w.Inv env) (h₀ : row₀ ∈ w.rows) (hid : row₀.id = c.version_id)
    (ho : OrderlyLabel validTag w c row₀) (hu : c.fails .update = false)
    (hrepo : w.repos c.object.connection_id = some repo) {l : Text} (hl : c.label = some l) :
    ((dropOldTag repo w.rows c).tags (tag_name c.object l)).isSome = false := by
  rw [(dropOldTag_spec repo hi h₀ hid ho).2.1]
  split
  · rfl
  · next hold =>
    cases ht : repo.tags (tag_name c.object l) with
    | none => rfl
    | some sha =>
      have htags : tagsOf w c.object.connection_id (tag_name c.object l) = some sha := by
        unfold tagsOf
        rw [hrepo]
        exact ht
      obtain ⟨row, hb, -⟩ := (hi.synced ..).mp htags
      by_cases he : row.id = c.version_id
      · rw [hi.row_eq hb.mem h₀ (he.trans hid.symm)] at hb
        exact absurd hb.tag hold
      · exact absurd hb.tag (ho.free hu l hl row hb.mem he hb.conn)

/-- The world that an orderly call makes, by the repository it ends with. -/
theorem relabelled_of {repo' : Repo S} (hid : row₀.id = c.version_id)
    (ho : OrderlyLabel validTag w c row₀) (hu : c.fails .update = false)
    (hrepo : w.repos c.object.connection_id = some repo) (hstore : repo'.store = repo.store)
    (htags : ∀ t, repo'.tags t =
      if c.label.map (tag_name c.object) = some t then some row₀.commit_sha
      else if row₀.tag = some t then none else repo.tags t)
    (hrows : w'.rows = (w.updateLabel c.version_id c.label).rows) (hnext : w'.next = w.next)
    (hrepos : w'.repos = Function.update w.repos c.object.connection_id (some repo')) :
    Relabelled w row₀ c.label w' := by
  refine ⟨by rw [hid]; exact hrows, hnext, ⟨repo, repo', ?_, ?_, hstore⟩, fun t => ?_, ?_⟩
  · rw [ho.own]
    exact hrepo
  · rw [ho.own]
    exact hrepos
  · rw [ho.own]
    unfold tagsOf
    rw [hrepos, Function.update_self, hrepo]
    exact htags t
  · intro other hother hne hconn t ht
    rw [hid] at hne
    rw [ho.own] at hconn ht
    obtain ⟨l, hl, rfl⟩ := Option.map_eq_some_iff.mp ht
    exact ho.free hu l hl other hother hne hconn

/-- **An orderly call** keeps the tags and the labels together; where it fails, both are as they
were. -/
theorem set_label_spec (hi : w.Inv env) (ho : Orderly validTag w (.setLabel c)) :
    (set_label validTag w c).1.Inv env ∧
      ((set_label validTag w c).2 = .error () → Untouched w (set_label validTag w c).1) := by
  by_cases hb : Begins w c
  swap
  · rw [set_label_of_not_begins hb]
    exact ⟨hi, fun _ => ⟨rfl, fun _ _ => rfl⟩⟩
  obtain ⟨row₀, hfind⟩ := Option.isSome_iff_exists.mp hb.row
  obtain ⟨repo, hrepo⟩ := Option.isSome_iff_exists.mp hb.repo
  have h₀ : row₀ ∈ w.rows := mem_of_find?_eq_some hfind
  have hid : row₀.id = c.version_id := by simpa using List.find?_some hfind
  have hrow := ho hb row₀ h₀ hid
  obtain ⟨hstore, htags, hnone⟩ := dropOldTag_spec repo hi h₀ hid hrow
  unfold set_label
  rw [hfind, hrepo]
  dsimp only
  rw [hb.lookup, hb.opened, hb.listed, if_neg (by decide)]
  cases hu : c.fails .update with
  | true =>
    -- only a version without a label may get here, so no tag was dropped
    have hlabel : row₀.label = none := by
      by_contra hne
      rw [hrow.updates hne] at hu
      cases hu
    rw [hnone hlabel, setRepo_same hrepo]
    exact ⟨hi, fun _ => ⟨rfl, fun _ _ => rfl⟩⟩
  | false =>
    rw [if_neg (by decide)]
    unfold createTag
    cases hl : c.label with
    | none =>
      refine ⟨Relabelled.inv hi h₀
        (relabelled_of hid hrow hu hrepo hstore (fun t => ?_) ?_ rfl rfl), nofun⟩
      · rw [hl, htags t]
        rfl
      · rw [hl]
        rfl
    | some l =>
      obtain ⟨hne, hvalid⟩ := hrow.valid hu l hl
      have hsome : c.label ≠ none := by rw [hl]; exact nofun
      obtain ⟨r, hr, hs⟩ := hi.stored row₀ h₀
      rw [hrow.own, hrepo] at hr
      cases hr
      cases l with
      | nil => exact absurd rfl hne
      | cons ch rest =>
        dsimp only
        have hthere : ((dropOldTag repo w.rows c).store row₀.commit_sha).isNone = false := by
          rw [hstore, ← Option.not_isSome, hs]
          rfl
        rw [hrow.finds hu hsome, hthere, hrow.tags hu hsome, hvalid,
          tag_free hi h₀ hid hrow hu hrepo hl]
        have hadded : ((dropOldTag repo w.rows c).addTag (tag_name c.object (ch :: rest))
            row₀.commit_sha).store = repo.store := hstore
        refine ⟨Relabelled.inv hi h₀
          (relabelled_of hid hrow hu hrepo hadded (fun t => ?_) ?_ rfl ?_), nofun⟩
        · show Function.update (dropOldTag repo w.rows c).tags _ (some row₀.commit_sha) t = _
          rw [hl, Function.update_apply, htags t, Option.map_some]
          simp only [Option.some.injEq, eq_comm]
        · rw [hl]
          rfl
        · show Function.update (Function.update w.repos c.object.connection_id _)
            c.object.connection_id _ = _
          exact Function.update_idem ..

end

/-! ## 5. Runs -/

section

variable [DecidableEq S] [DecidableEq H] {env : Env S H} {validTag : Text → Bool}
  {w : World S H}

theorem Reached.inv (hoid : Function.Injective env.oid)
    (h : Reached env validTag (Orderly validTag) w) : w.Inv env := by
  induction h with
  | start => exact inv_empty
  | call c _ hok ih =>
    cases c with
    | capture c => exact inv_capture hoid ih c
    | setLabel c => exact (set_label_spec ih hok).1

/-- **Runs of orderly calls keep the tags and the labels together**: after each call the tags are the
labels of the rows, and a call that fails leaves rows and tags as they were. -/
theorem orderly_synced (env : Env S H) (hoid : Function.Injective env.oid)
    (h : Reached env validTag (Orderly validTag) w) :
    Synced w ∧ ∀ c, Orderly validTag w (.setLabel c) →
      (set_label validTag w c).2 = .error () → Untouched w (set_label validTag w c).1 :=
  ⟨(h.inv hoid).synced, fun _ ho => (set_label_spec (h.inv hoid) ho).2⟩

end

/-- Names of letters, digits and the signs of paths. -/
def plainTag (tag : Text) : Bool :=
  tag.all fun c => c.isAlphanum || c == '/' || c == '.' || c == '_' || c == '-'

def labelledV1 (version_id : Nat) : SetLabel where
  version_id := version_id
  object := tableA
  label := some "v1".toList

def firstVersion : World Chain Text :=
  perform chainEnv plainTag .empty (.capture ⟨tableA, "one".toList, "baseline".toList, 1, none⟩)

theorem firstVersion_orderly : Orderly plainTag firstVersion (.setLabel (labelledV1 1)) := by
  intro _ row hrow _
  have hrows : firstVersion.rows = [⟨1, tableA,
      [⟨[("HR/TABLE/A.sql".toList, "one".toList)], "[baseline] HR.TABLE.A".toList, 1, false⟩],
      "one".toList, "baseline".toList, none⟩] := by decide +kernel
  rw [hrows] at hrow
  obtain rfl := mem_singleton.mp hrow
  exact {
    own := rfl
    deletes := fun _ => rfl
    updates := fun _ => rfl
    finds := fun _ _ => rfl
    tags := fun _ _ => rfl
    valid := by
      intro _ l hl
      cases hl
      exact ⟨nofun, by decide +kernel⟩
    free := by
      intro _ l _ other hother hne
      rw [hrows] at hother
      obtain rfl := mem_singleton.mp hother
      exact absurd rfl hne }

def firstLabelled : World Chain Text :=
  perform chainEnv plainTag firstVersion (.setLabel (labelledV1 1))

/-- A version that is captured and labelled. -/
theorem orderly_synced_once :
    Synced firstLabelled ∧ ∀ c, Orderly plainTag firstLabelled (.setLabel c) →
      (set_label plainTag firstLabelled c).2 = .error () →
        Untouched firstLabelled (set_label plainTag firstLabelled c).1 :=
  orderly_synced chainEnv chainOid_injective
    (.call (.setLabel (labelledV1 1))
      (.call (.capture ⟨tableA, "one".toList, "baseline".toList, 1, none⟩) .start trivial)
      firstVersion_orderly)

/-- Two versions, the first one labelled. -/
def secondVersion : World Chain Text :=
  perform chainEnv plainTag firstLabelled
    (.capture ⟨tableA, "two".toList, "compile".toList, 2, none⟩)

/-- The same label for the second version: the tag exists, so the call fails, but the row has the
label by then, and the tag points at the other version. -/
theorem set_label_taken :
    ∃ w : World Chain Text, Reached chainEnv plainTag (fun _ _ => True) w ∧
      (set_label plainTag w (labelledV1 2)).2 = .error () ∧
      ¬ Untouched w (set_label plainTag w (labelledV1 2)).1 ∧
      ¬ Synced (set_label plainTag w (labelledV1 2)).1 := by
  refine ⟨secondVersion, .call _ (.call _ (.call _ .start trivial) trivial) trivial,
    by decide +kernel, fun h => ?_, fun h => ?_⟩
  · have hrows : (set_label plainTag secondVersion (labelledV1 2)).1.rows ≠
        secondVersion.rows := by decide +kernel
    exact hrows h.1
  · obtain ⟨row, hrow, htag, hsha⟩ : ∃ row ∈
        (set_label plainTag secondVersion (labelledV1 2)).1.rows,
        (row.object.connection_id = "c".toList ∧
          row.tag = some "veesker/HR.TABLE.A/v1".toList) ∧
        tagsOf (set_label plainTag secondVersion (labelledV1 2)).1 "c".toList
          "veesker/HR.TABLE.A/v1".toList ≠ some row.commit_sha := by decide +kernel
    exact hsha ((h ..).mpr ⟨row, ⟨hrow, htag.1, htag.2⟩, rfl⟩)

end Veesker.Host.Versions
