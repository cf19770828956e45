/-
  File:      Veesker/Cloud/StaleCache.lean
  Subject:   WHICH LOCAL COPIES ARE SHOWN AS OUTDATED (src/lib/stores/sandboxes.svelte.ts
             `detectStaleCache` and `load`, src/lib/sandbox.ts `listSandboxes`,
             sidecar/src/sandbox-cloud/list-cached.ts).

  * `mem_detectStaleCache` -- the comparison itself: the copies with another hash;
  * **`stale_iff`** -- so what a completed load shows is right if and only if no copy is outdated;
  * `republished_unseen` -- a copy that is outdated and not shown.
-/
import Veesker.Cloud.Cache

namespace Veesker.Cloud

/-! ## 1. The rows -/

inductive SandboxStatus where
  | ready | expired | deleted
  deriving DecidableEq

inductive SandboxRole where
  | owner | member
  deriving DecidableEq

/-- `CachedSandboxSummary`, and its role. -/
structure CachedRow where
  sandbox_id : Text
  name : Text
  owner_user_id : Text
  blob_size_bytes : Nat
  pulled_at : Text
  expires_at : Text
  role : SandboxRole
  deriving DecidableEq

/-- A sandbox as the service lists it. -/
structure RemoteRow where
  id : Text
  name : Text
  status : SandboxStatus
  role : SandboxRole
  owner_user_id : Text
  expires_at : Text
  blob_size_bytes : Option Nat
  blob_sha256 : Option Text
  deriving DecidableEq

structure SandboxSummary where
  sandbox_id : Text
  name : Text
  owner_user_id : Text
  blob_size_bytes : Nat
  pulled_at : Option Text
  expires_at : Text
  status : SandboxStatus
  cached : Bool
  role : SandboxRole
  blob_sha256 : Option Text := none
  deriving DecidableEq

section Rows
variable {ν : Type}

/-- `listCachedSandboxes` and `handleSandboxListCached`. -/
def listCachedSandboxes (entries : List (CacheMeta ν)) (ownerUserId : Option Text) :
    List CachedRow :=
  entries.map fun m => {
    sandbox_id := m.sandbox_id
    name := m.name
    owner_user_id := m.owner_user_id
    blob_size_bytes := m.blob_size_bytes
    pulled_at := m.pulled_at
    expires_at := m.expires_at
    role := if ownerUserId = some m.owner_user_id then .owner else .member }

/-- What `listSandboxes` makes of a local copy. -/
def CachedRow.summary (s : CachedRow) : SandboxSummary where
  sandbox_id := s.sandbox_id
  name := s.name
  owner_user_id := s.owner_user_id
  blob_size_bytes := s.blob_size_bytes
  pulled_at := some s.pulled_at
  expires_at := s.expires_at
  status := .ready
  cached := true
  role := s.role

/-- What it makes of a sandbox that the service lists. -/
def RemoteRow.summary (s : RemoteRow) : SandboxSummary where
  sandbox_id := s.id
  name := s.name
  owner_user_id := s.owner_user_id
  blob_size_bytes := s.blob_size_bytes.getD 0
  pulled_at := none
  expires_at := s.expires_at
  status := s.status
  cached := false
  role := s.role

/-! ## 2. The lists -/

/-- The answer of `sandbox_list`. -/
structure RemoteList where
  sandboxes : List RemoteRow
  lastSeenIds : List Text
  deriving DecidableEq

structure SandboxLists where
  cached : List SandboxSummary
  remote : List SandboxSummary
  lastSeenIds : List Text
  deriving DecidableEq

/-- `listSandboxes`: that the first call fails is an error, that the second does is not. -/
def listSandboxes (cachedResp : Except Text (List CachedRow))
    (remoteResp : Except Text RemoteList) : Except Text SandboxLists :=
  match cachedResp with
  | .error e => .error e
  | .ok cachedRows =>
    let cached := cachedRows.map CachedRow.summary
    let cachedIds := cached.map (·.sandbox_id)
    let remote := match remoteResp with
      | .ok resp => resp
      | .error _ => ⟨[], []⟩
    .ok ⟨cached, (remote.sandboxes.filter (·.id ∉ cachedIds)).map RemoteRow.summary,
      remote.lastSeenIds⟩

/-- The value of a JavaScript string in a condition. -/
def truthy (s : Option Text) : Option Text := s.filter (· ≠ [])

/-- The hash of a local copy: of two entries with one id the last counts. -/
def cachedSha (cached : List SandboxSummary) (id : Text) : Option Text :=
  (cached.reverse.find? (·.sandbox_id = id)).bind (truthy ·.blob_sha256)

def detectStaleCache (remote cached : List SandboxSummary) : List Text :=
  remote.filterMap fun r =>
    match truthy r.blob_sha256, cachedSha cached r.sandbox_id with
    | some remoteSha, some sha => if sha ≠ remoteSha then some r.sandbox_id else none
    | _, _ => none

/-- `SandboxesStore`, as far as `load` goes. -/
structure SandboxesStore where
  cached : List SandboxSummary := []
  remote : List SandboxSummary := []
  loading : Bool := false
  error : Option Text := none
  lastSeenIds : List Text := []
  staleVersionIds : List Text := []
  deriving DecidableEq

def SandboxesStore.isStaleVersion (s : SandboxesStore) (sandboxId : Text) : Prop :=
  sandboxId ∈ s.staleVersionIds

/-- `load`, with the answers of its calls. -/
def SandboxesStore.load (s : SandboxesStore) (cachedResp : Except Text (List CachedRow))
    (remoteResp : Except Text RemoteList) : SandboxesStore :=
  match listSandboxes cachedResp remoteResp with
  | .ok lists => { s with
      cached := lists.cached
      remote := lists.remote
      loading := false
      error := none
      lastSeenIds := lists.lastSeenIds
      staleVersionIds := detectStaleCache lists.remote lists.cached }
  | .error e => { s with loading := false, error := some e }

/-! ## 3. The comparison -/

/-- **`detectStaleCache` finds the copies with another hash than the service's.** -/
theorem mem_detectStaleCache {remote cached : List SandboxSummary} {id : Text} :
    id ∈ detectStaleCache remote cached ↔ ∃ r ∈ remote, r.sandbox_id = id ∧
      ∃ remoteSha sha, truthy r.blob_sha256 = some remoteSha ∧ cachedSha cached id = some sha ∧
        sha ≠ remoteSha := by
  rw [detectStaleCache, List.mem_filterMap]
  constructor
  · rintro ⟨r, hr, h⟩
    split at h
    · rename_i remoteSha sha hremote hsha
      split at h
      · rename_i hne
        cases h
        exact ⟨r, hr, rfl, remoteSha, sha, hremote, hsha, hne⟩
      · cases h
    · cases h
  · rintro ⟨r, hr, rfl, remoteSha, sha, hremote, hsha, hne⟩
    exact ⟨r, hr, by rw [hremote, hsha]; exact if_pos hne⟩

theorem cachedSha_of_not_mem {cached : List SandboxSummary} {id : Text}
    (h : ∀ c ∈ cached, c.sandbox_id ≠ id) : cachedSha cached id = none := by
  rw [cachedSha, List.find?_eq_none.mpr]
  · rfl
  · intro c hc
    simpa using h c (List.mem_reverse.mp hc)

/-- Without a sandbox in both lists nothing is found, whatever their hashes. -/
theorem detectStaleCache_disjoint {remote cached : List SandboxSummary}
    (h : ∀ r ∈ remote, ∀ c ∈ cached, c.sandbox_id ≠ r.sandbox_id) :
    detectStaleCache remote cached = [] := by
  refine List.eq_nil_iff_forall_not_mem.mpr fun id hid => ?_
  obtain ⟨r, hr, rfl, _, sha, -, hsha, -⟩ := mem_detectStaleCache.mp hid
  rw [cachedSha_of_not_mem (h r hr)] at hsha
  cases hsha

/-! ## 4. What a load shows -/

theorem listSandboxes_disjoint {cachedResp : Except Text (List CachedRow)}
    {remoteResp : Except Text RemoteList} {lists : SandboxLists}
    (h : listSandboxes cachedResp remoteResp = .ok lists) :
    ∀ r ∈ lists.remote, ∀ c ∈ lists.cached, c.sandbox_id ≠ r.sandbox_id := by
  cases cachedResp with
  | error e => cases h
  | ok cachedRows =>
    cases h
    intro r hr c hc heq
    obtain ⟨row, hrow, rfl⟩ := List.mem_map.mp hr
    have hnot := of_decide_eq_true (List.mem_filter.mp hrow).2
    exact hnot (List.mem_map.mpr ⟨c, hc, heq⟩)

/-- A completed load marks nothing. -/
theorem load_marks_nothing {s : SandboxesStore} {cachedRows : List CachedRow}
    {remoteResp : Except Text RemoteList} :
    (s.load (.ok cachedRows) remoteResp).staleVersionIds = [] := by
  have hlists : listSandboxes (.ok cachedRows) remoteResp = .ok _ := rfl
  exact detectStaleCache_disjoint (listSandboxes_disjoint hlists)

/-- The sandbox is in the cache, and the service has another blob. -/
def Outdated (entries : List (CacheMeta ν)) (rows : List RemoteRow) (id : Text) : Prop :=
  ∃ m ∈ entries, ∃ r ∈ rows, m.sandbox_id = id ∧ r.id = id ∧
    ∃ sha, r.blob_sha256 = some sha ∧ sha ≠ m.blob_sha256_hex

/-- **What a completed load shows is right if and only if there is nothing to show.** -/
theorem stale_iff (s : SandboxesStore) (entries : List (CacheMeta ν)) (ownerUserId : Option Text)
    (remote : RemoteList) :
    (∀ id, (s.load (.ok (listCachedSandboxes entries ownerUserId)) (.ok remote)).isStaleVersion id ↔
        Outdated entries remote.sandboxes id) ↔
      ∀ id, ¬ Outdated entries remote.sandboxes id := by
  refine forall_congr' fun id => ?_
  rw [SandboxesStore.isStaleVersion, load_marks_nothing]
  simp only [List.not_mem_nil, false_iff]

end Rows

/-- A sandbox that was pulled before its owner published it again. -/
def pulledEntry : CacheMeta Nat where
  sandbox_id := "a".toList
  name := "x".toList
  description := none
  owner_user_id := "o".toList
  owner_x25519_pubkey_b64 := []
  blob_sha256_hex := "v1".toList
  blob_size_bytes := 1
  expires_at := []
  ttl_days := 1
  spec_json := .null
  sealed_content_key_b64 := []
  envelope_nonce_b64 := []
  pulled_at := []

def republishedRow : RemoteRow :=
  ⟨"a".toList, "x".toList, .ready, .member, "o".toList, [], some 1, some "v2".toList⟩

theorem republished_unseen :
    ¬ ∀ id, (SandboxesStore.load {} (.ok (listCachedSandboxes [pulledEntry] none))
        (.ok ⟨[republishedRow], []⟩)).isStaleVersion id ↔
      Outdated [pulledEntry] [republishedRow] id := by
  intro h
  have houtdated : Outdated [pulledEntry] [republishedRow] "a".toList :=
    ⟨pulledEntry, List.mem_singleton_self _, republishedRow, List.mem_singleton_self _, rfl, rfl,
      "v2".toList, rfl, by decide⟩
  have hmarked := (h _).mpr houtdated
  rw [SandboxesStore.isStaleVersion, load_marks_nothing] at hmarked
  exact absurd hmarked List.not_mem_nil

end Veesker.Cloud
