/-
  File:      Veesker/Cloud/CacheFiles.lean
  Subject:   THE FILES OF A CACHE ENTRY (sidecar/src/sandbox-cloud/cache.ts): calls of
             `writeCacheEntry` and `readCacheEntry` for one sandbox, from any number of processes.

  A call of `writeCacheEntry` is the list of its file operations, a call of `readCacheEntry` the
  state it is in; a run takes one operation of one call after the other, and a call may crash
  after any of them. `writeFileSync` is two operations: the file is emptied, then the bytes are
  laid over what stands there by then.

  * `readCacheEntry_single` -- **what a reader returns was written by one single call**, the blob
    and the metadata both.
  * `read_after_write` -- and with nobody in between a reader returns what was written.
-/
import Veesker.Format.JsonIndent
import Veesker.Run.Flight
import Veesker.Vsk.Crypto

namespace Veesker.Cloud.CacheFiles

open Format Run Vsk List

variable {ν : Type} (N : Runtime ν) (sha256Hex : Bytes → Text) (syntaxMessage : Bytes → Text)
  (notFound : Text) (sandboxId : Text)

/-! ## 1. Files -/

inductive File where
  | blob
  | metaJson
  deriving DecidableEq

/-- The directory of the sandbox: what stands in each file; none where there is no such file. -/
abbrev Dir := File → Option Bytes

inductive FileOp where
  | makeRoot
  | makeDir
  | truncate (file : File)
  | write (file : File) (bytes : Bytes)

/-- Bytes written from the start of a file. -/
def overlay (bytes old : Bytes) : Bytes := bytes ++ old.drop bytes.length

def FileOp.run : FileOp → Dir → Dir
  | .makeRoot, d => d
  | .makeDir, d => d
  | .truncate f, d => Function.update d f (some [])
  | .write f bytes, d => Function.update d f (some (overlay bytes ((d f).getD [])))

def writeFileSync (f : File) (bytes : Bytes) : List FileOp := [.truncate f, .write f bytes]

/-! ## 2. Writing an entry -/

/-- What a call of `writeCacheEntry` is given: the blob and the members of the metadata. -/
structure Entry (ν : Type) where
  blob : Bytes
  members : List (Text × Json ν)
  distinct : (Json.obj members).DistinctKeys

/-- `{ ...meta, sandbox_id, blob_sha256_hex, blob_size_bytes }`. -/
def Entry.finalMeta (e : Entry ν) : List (Text × Json ν) :=
  putMember (putMember (putMember e.members "sandbox_id".toList (.str sandboxId))
    "blob_sha256_hex".toList (.str (sha256Hex e.blob)))
    "blob_size_bytes".toList (.num (N.ofNat e.blob.length))

def Entry.metaText (e : Entry ν) : Text :=
  indented N.toNumbers 2 0 (.obj (e.finalMeta N sha256Hex sandboxId))

def writeCacheEntry (e : Entry ν) : List FileOp :=
  [.makeRoot, .makeDir] ++ writeFileSync .blob e.blob ++
    writeFileSync .metaJson (utf8Bytes (e.metaText N sha256Hex sandboxId))

/-- The metadata that a call wrote, as its text says them. -/
def Entry.written (e : Entry ν) : Json ν :=
  (Json.obj (e.finalMeta N sha256Hex sandboxId)).printed N.toNumbers

/-! ## 3. Reading an entry -/

def cacheMissing : Failure := .error ("Sandbox ".toList ++ sandboxId ++ " not in cache".toList)

def cacheCorrupt (detail : Text) : Failure :=
  .error ("Sandbox ".toList ++ sandboxId ++ " cache corrupt: ".toList ++ detail)

/-- `${value}` of what may be undefined. -/
def shown : Option (Json ν) → Except Failure Text
  | none => .ok "undefined".toList
  | some v => jsString N v

/-- What the hash says of a blob and its metadata. -/
def checkHash (blob : Bytes) (m : Json ν) : Except Failure (Bytes × Json ν) :=
  match m with
  | .null => .error typeError
  | m =>
    let computed := sha256Hex blob
    let stored := member m "blob_sha256_hex".toList
    if stored.bind asString = some computed then .ok (blob, m)
    else do
      let text ← shown N stored
      .error (cacheCorrupt sandboxId ("sha256 mismatch (file=".toList ++ computed ++
        " meta=".toList ++ text ++ ")".toList))

/-- A call of `readCacheEntry`, between two of its file operations. -/
inductive Reader (ν : Type) where
  | start
  | blobExists
  | bothExist
  | parsed (m : Json ν)
  | done (result : Except Failure (Bytes × Json ν))

/-- The next file operation of a call, and what is computed from it. -/
def Reader.next (d : Dir) : Reader ν → Reader ν
  | .start => if (d .blob).isSome then .blobExists else .done (.error (cacheMissing sandboxId))
  | .blobExists =>
    if (d .metaJson).isSome then .bothExist else .done (.error (cacheMissing sandboxId))
  | .bothExist =>
    match d .metaJson with
    | none => .done (.error (cacheCorrupt sandboxId ("meta.json parse failed: ".toList ++ notFound)))
    | some bytes =>
      match parse N.toNumbers (utf8Text bytes) with
      | none => .done (.error (cacheCorrupt sandboxId
          ("meta.json parse failed: ".toList ++ syntaxMessage bytes)))
      | some m => .parsed m
  | .parsed m =>
    match d .blob with
    | none => .done (.error (.error notFound))
    | some blob => .done (checkHash N sha256Hex sandboxId blob m)
  | .done result => .done result

/-! ## 4. Runs -/

structure World (ν : Type) where
  dir : Dir := fun _ => none
  /-- The calls of `writeCacheEntry`, each with the operations it has left. -/
  writers : List (Entry ν × List FileOp) := []
  readers : List (Reader ν) := []

inductive Step : World ν → World ν → Prop where
  | startWrite (w : World ν) (e : Entry ν) :
      Step w { w with writers := w.writers ++ [(e, writeCacheEntry N sha256Hex sandboxId e)] }
  | write (w : World ν) (ws ws' : List (Entry ν × List FileOp)) (e : Entry ν) (op : FileOp)
      (ops : List FileOp) (h : w.writers = ws ++ (e, op :: ops) :: ws') :
      Step w { w with dir := op.run w.dir, writers := ws ++ (e, ops) :: ws' }
  | crash (w : World ν) (ws ws' : List (Entry ν × List FileOp)) (e : Entry ν) (ops : List FileOp)
      (h : w.writers = ws ++ (e, ops) :: ws') :
      Step w { w with writers := ws ++ (e, []) :: ws' }
  | startRead (w : World ν) : Step w { w with readers := w.readers ++ [.start] }
  | read (w : World ν) (rs rs' : List (Reader ν)) (r : Reader ν) (h : w.readers = rs ++ r :: rs') :
      Step w { w with
        readers := rs ++ r.next N sha256Hex syntaxMessage notFound sandboxId w.dir :: rs' }

inductive Reachable : World ν → Prop where
  | start : Reachable {}
  | step (w w' : World ν) (h : Reachable w)
      (hs : Step N sha256Hex syntaxMessage notFound sandboxId w w') : Reachable w'

/-- The calls of `writeCacheEntry` so far. -/
def World.entries (w : World ν) : List (Entry ν) := w.writers.map Prod.fst

/-! ## 5. Members that are put last -/

section

variable {α : Type}

theorem keys_putMember_subset (ms : List (Text × α)) (k : Text) (v : α) :
    ∀ k' ∈ (putMember ms k v).map Prod.fst, k' = k ∨ k' ∈ ms.map Prod.fst := by
  induction ms with
  | nil => exact fun k' h => Or.inl (mem_singleton.mp h)
  | cons m ms ih =>
    intro k' h
    rw [putMember] at h
    split at h
    · exact Or.inr h
    · rcases mem_cons.mp h with h | h
      · exact Or.inr (mem_cons.mpr (Or.inl h))
      · exact (ih k' h).imp_right (mem_cons_of_mem _)

theorem nodup_putMember {ms : List (Text × α)} (h : (ms.map Prod.fst).Nodup) (k : Text) (v : α) :
    ((putMember ms k v).map Prod.fst).Nodup := by
  induction ms with
  | nil => exact nodup_singleton _
  | cons m ms ih =>
    obtain ⟨hm, hms⟩ := nodup_cons.mp h
    rw [putMember]
    split
    · exact h
    · rename_i hne
      refine nodup_cons.mpr ⟨fun hin => ?_, ih hms⟩
      exact (keys_putMember_subset ms k v _ hin).elim hne hm

theorem lookup_putMember (ms : List (Text × α)) (k : Text) (v : α) :
    (putMember ms k v).lookup k = some v := by
  induction ms with
  | nil => rw [putMember, lookup_cons_self]
  | cons m ms ih =>
    rw [putMember]
    split
    · rename_i h
      rw [h, lookup_cons_self]
    · rename_i h
      rw [lookup_cons, beq_eq_false_iff_ne.mpr (Ne.symm h)]
      exact ih

theorem lookup_putMember_ne {k k' : Text} (h : k' ≠ k) (ms : List (Text × α)) (v : α) :
    (putMember ms k v).lookup k' = ms.lookup k' := by
  induction ms with
  | nil => rw [putMember, lookup_cons, beq_eq_false_iff_ne.mpr h]
  | cons m ms ih =>
    obtain ⟨km, vm⟩ := m
    rw [putMember]
    split
    · rename_i e
      rw [lookup_cons, lookup_cons, beq_eq_false_iff_ne.mpr (e ▸ h)]
    · rw [lookup_cons, lookup_cons, ih]

theorem putMember_cons (ms : List (Text × α)) (k : Text) (v : α) :
    ∃ m ms', putMember ms k v = m :: ms' := by
  cases ms with
  | nil => exact ⟨_, _, rfl⟩
  | cons m ms =>
    rw [putMember]
    split
    · exact ⟨_, _, rfl⟩
    · exact ⟨_, _, rfl⟩

end

theorem distinct_putMember {ms : List (Text × Json ν)} (h : (Json.obj ms).DistinctKeys) (k : Text)
    {v : Json ν} (hv : v.DistinctKeys) : (Json.obj (putMember ms k v)).DistinctKeys := by
  rw [Json.DistinctKeys] at h ⊢
  refine ⟨nodup_putMember h.1 k v, ?_⟩
  have hms := h.2
  clear h
  induction ms with
  | nil => exact ⟨hv, trivial⟩
  | cons m ms ih =>
    obtain ⟨km, vm⟩ := m
    rw [DistinctMembers] at hms
    rw [putMember]
    split
    · exact ⟨hv, hms.2⟩
    · exact ⟨hms.1, ih hms.2⟩

theorem lookup_printedMembers (ms : List (Text × Json ν)) (k : Text) :
    (printedMembers N.toNumbers ms).lookup k = (ms.lookup k).map (Json.printed N.toNumbers) := by
  induction ms with
  | nil => rfl
  | cons m ms ih =>
    obtain ⟨km, vm⟩ := m
    rw [printedMembers, lookup_cons, lookup_cons]
    split
    · rfl
    · exact ih

/-! ## 6. What stands in `meta.json` -/

section

variable {N sha256Hex syntaxMessage notFound sandboxId}

theorem distinct_finalMeta (e : Entry ν) :
    (Json.obj (e.finalMeta N sha256Hex sandboxId)).DistinctKeys :=
  have hs : ∀ t : Text, (Json.str t : Json ν).DistinctKeys := fun _ => trivial
  have hn : ∀ n : ν, (Json.num n).DistinctKeys := fun _ => trivial
  distinct_putMember (distinct_putMember (distinct_putMember e.distinct _ (hs _)) _ (hs _)) _ (hn _)

/-- The hash that a reader finds in what a call wrote. -/
theorem written_hash (e : Entry ν) :
    (member (e.written N sha256Hex sandboxId) "blob_sha256_hex".toList).bind asString =
      some (sha256Hex e.blob) := by
  rw [Entry.written, Json.printed, member, lookup_printedMembers, Entry.finalMeta,
    lookup_putMember_ne (by decide), lookup_putMember]
  rfl

/-- A `}` as a byte. -/
def closingBrace : UInt8 := 0x7D

theorem lower_step (st : Utf8) (b : UInt8) : 0x80 ≤ (st.step b).1.lower := by
  have hlead : ∀ n, 0x80 ≤ (Utf8.lead n).1.lower := by
    intro n
    unfold Utf8.lead
    split_ifs <;> simp only <;> omega
  unfold Utf8.step
  simp only
  split_ifs
  · exact hlead _
  · exact hlead _
  · exact Nat.le_refl _
  · exact Nat.le_refl _

/-- Bytes that end with a `}` are read as a text that has one. -/
theorem mem_utf8From {st : Utf8} (hst : 0x80 ≤ st.lower) {bs : Bytes}
    (h : bs.getLast? = some closingBrace) : '\x7d' ∈ utf8From st bs := by
  induction bs generalizing st with
  | nil => cases h
  | cons b bs ih =>
    rw [utf8From]
    cases bs with
    | cons c bs =>
      rw [List.getLast?_cons_cons] at h
      exact mem_append_right _ (ih (lower_step st b) h)
    | nil =>
      obtain rfl : b = closingBrace := Option.some.inj h
      refine mem_append_left _ ?_
      have hn : closingBrace.toNat = 0x7D := by decide
      have hlead : (Utf8.lead 0x7D).2 = ['\x7d'] := by decide
      rw [Utf8.step, hn]
      split_ifs
      · rw [hlead]
        exact mem_singleton_self _
      · rw [hlead]
        exact mem_cons_of_mem _ (mem_singleton_self _)
      · omega
      · omega

/-- The metadata texts of the calls `es`, each with what it did not cover of an older one. -/
def Left (N : Runtime ν) (sha256Hex : Bytes → Text) (sandboxId : Text) (es : List (Entry ν))
    (content : Option Bytes) : Prop :=
  ∀ bytes, content = some bytes → bytes = [] ∨
    ∃ e ∈ es, ∃ tail, bytes = utf8Bytes (e.metaText N sha256Hex sandboxId) ++ tail ∧
      (tail = [] ∨ tail.getLast? = some closingBrace)

/-- The text of an object ends with its brace. -/
theorem metaText_getLast (e : Entry ν) :
    (utf8Bytes (e.metaText N sha256Hex sandboxId)).getLast? = some closingBrace := by
  obtain ⟨m, ms, hm⟩ := putMember_cons (putMember (putMember e.members "sandbox_id".toList
    (.str sandboxId)) "blob_sha256_hex".toList (.str (sha256Hex e.blob)))
    "blob_size_bytes".toList (.num (N.ofNat e.blob.length))
  rw [Entry.metaText, Entry.finalMeta, hm, indented, isEmpty_cons, if_neg Bool.false_ne_true,
    ← append_assoc, ← append_assoc, ← cons_append, utf8Bytes_append]
  exact List.getLast?_append_of_ne_nil _ (by decide)

variable {es : List (Entry ν)}

theorem overlay_left {content : Option Bytes}
    (h : Left N sha256Hex sandboxId es content) {e : Entry ν} (he : e ∈ es) :
    Left N sha256Hex sandboxId es
      (some (overlay (utf8Bytes (e.metaText N sha256Hex sandboxId)) (content.getD []))) := by
  rintro bytes ⟨⟩
  refine Or.inr ⟨e, he, _, rfl, ?_⟩
  -- what is left of the older bytes ends as they do
  have hold : content.getD [] = [] ∨ (content.getD []).getLast? = some closingBrace := by
    cases hc : content with
    | none => exact Or.inl rfl
    | some old =>
      rcases h old hc with rfl | ⟨e', -, tail, rfl, rfl | ht⟩
      · exact Or.inl rfl
      · rw [Option.getD_some, append_nil]
        exact Or.inr (metaText_getLast e')
      · refine Or.inr ?_
        rw [Option.getD_some, List.getLast?_append, ht]
        rfl
  generalize content.getD [] = old at hold ⊢
  rcases hold with rfl | hold
  · exact Or.inl (drop_nil)
  · by_cases hlen : old.length ≤ (utf8Bytes (e.metaText N sha256Hex sandboxId)).length
    · exact Or.inl (drop_eq_nil_of_le hlen)
    · refine Or.inr ?_
      rw [List.getLast?_drop, if_neg hlen]
      exact hold

/-- **What can be read in the metadata file was written by one call.** -/
theorem parse_left {bytes : Bytes} (h : Left N sha256Hex sandboxId es (some bytes))
    {m : Json ν} (hm : parse N.toNumbers (utf8Text bytes) = some m) :
    ∃ e ∈ es, m = e.written N sha256Hex sandboxId := by
  rcases h bytes rfl with rfl | ⟨e, he, tail, rfl, ht⟩
  · cases hm
  · refine ⟨e, he, ?_⟩
    rw [utf8Text_append] at hm
    rcases ht with rfl | ht
    · rw [show utf8Text [] = [] from rfl, append_nil, Entry.metaText,
        parse_indented 2 (distinct_finalMeta e)] at hm
      exact (Option.some.inj hm).symm
    · obtain ⟨m', ms, hms⟩ := putMember_cons (putMember (putMember e.members "sandbox_id".toList
        (.str sandboxId)) "blob_sha256_hex".toList (.str (sha256Hex e.blob)))
        "blob_size_bytes".toList (.num (N.ofNat e.blob.length))
      have hd : (Json.obj (e.finalMeta N sha256Hex sandboxId)).DistinctKeys := distinct_finalMeta e
      have hr : (utf8Text tail).all isJsonSpace = false := by
        rw [all_eq_false]
        exact ⟨'\x7d', mem_utf8From (Nat.le_refl _) ht, by decide⟩
      rw [Entry.finalMeta, hms] at hd
      rw [Entry.metaText, Entry.finalMeta, hms, parse_indented_append 2 hd hr] at hm
      cases hm

/-! ## 7. Every run -/

/-- What a reader has seen is what one call wrote. -/
def Reader.Sees (N : Runtime ν) (sha256Hex : Bytes → Text) (sandboxId : Text) (es : List (Entry ν)) :
    Reader ν → Prop
  | .parsed m => ∃ e ∈ es, m = e.written N sha256Hex sandboxId
  | .done (.ok (blob, m)) => ∃ e ∈ es, blob = e.blob ∧ m = e.written N sha256Hex sandboxId
  | _ => True

structure Inv (N : Runtime ν) (sha256Hex : Bytes → Text) (sandboxId : Text) (w : World ν) : Prop where
  metaJson : Left N sha256Hex sandboxId w.entries (w.dir .metaJson)
  writers : ∀ p ∈ w.writers, p.2 <:+ writeCacheEntry N sha256Hex sandboxId p.1
  readers : ∀ r ∈ w.readers, r.Sees N sha256Hex sandboxId w.entries

theorem Left.mono {es es' : List (Entry ν)} (hes : ∀ e ∈ es, e ∈ es') {content : Option Bytes}
    (h : Left N sha256Hex sandboxId es content) : Left N sha256Hex sandboxId es' content := by
  intro bytes hb
  rcases h bytes hb with rfl | ⟨e, he, tail, hbytes, ht⟩
  · exact Or.inl rfl
  · exact Or.inr ⟨e, hes e he, tail, hbytes, ht⟩

theorem Reader.Sees.mono {es es' : List (Entry ν)} (hes : ∀ e ∈ es, e ∈ es') {r : Reader ν}
    (h : r.Sees N sha256Hex sandboxId es) : r.Sees N sha256Hex sandboxId es' := by
  match r, h with
  | .parsed m, ⟨e, he, hm⟩ => exact ⟨e, hes e he, hm⟩
  | .done (.ok (blob, m)), ⟨e, he, hm⟩ => exact ⟨e, hes e he, hm⟩
  | .done (.error _), _ => trivial
  | .start, _ => trivial
  | .blobExists, _ => trivial
  | .bothExist, _ => trivial

theorem checkHash_ok {blob : Bytes} {m : Json ν} {result : Bytes × Json ν}
    (h : checkHash N sha256Hex sandboxId blob m = .ok result) :
    result = (blob, m) ∧
      (member m "blob_sha256_hex".toList).bind asString = some (sha256Hex blob) := by
  unfold checkHash at h
  split at h
  · cases h
  · simp only at h
    split at h
    · rename_i hh
      exact ⟨(Except.ok.inj h).symm, hh⟩
    · obtain ⟨_, -, h⟩ := bind_ok.mp h
      cases h

/-- **The next operation of a reader keeps to one call.** -/
theorem Reader.Sees.next (hsha : Function.Injective sha256Hex) {d : Dir}
    (hd : Left N sha256Hex sandboxId es (d .metaJson)) {r : Reader ν}
    (h : r.Sees N sha256Hex sandboxId es) :
    (r.next N sha256Hex syntaxMessage notFound sandboxId d).Sees N sha256Hex sandboxId es := by
  cases r with
  | start =>
    rw [Reader.next]
    split <;> trivial
  | blobExists =>
    rw [Reader.next]
    split <;> trivial
  | bothExist =>
    rw [Reader.next]
    split
    · trivial
    · rename_i bytes hbytes
      split
      · trivial
      · rename_i m hm
        exact parse_left (hbytes ▸ hd) hm
  | parsed m =>
    obtain ⟨e, he, rfl⟩ := h
    rw [Reader.next]
    split
    · trivial
    · rename_i blob _
      cases hc : checkHash N sha256Hex sandboxId blob (e.written N sha256Hex sandboxId) with
      | error _ => trivial
      | ok result =>
        obtain ⟨rfl, hhash⟩ := checkHash_ok hc
        rw [written_hash] at hhash
        exact ⟨e, he, (hsha (Option.some.inj hhash)).symm, rfl⟩
  | done result => exact h

/-- An operation of `writeCacheEntry` leaves texts of calls in the metadata file. -/
theorem FileOp.left {d : Dir}
    (hd : Left N sha256Hex sandboxId es (d .metaJson)) {e : Entry ν} (he : e ∈ es) {op : FileOp}
    (hop : op ∈ writeCacheEntry N sha256Hex sandboxId e) :
    Left N sha256Hex sandboxId es (op.run d .metaJson) := by
  simp only [writeCacheEntry, writeFileSync, cons_append, nil_append, mem_cons,
    not_mem_nil, or_false] at hop
  rcases hop with rfl | rfl | rfl | rfl | rfl | rfl
  · exact hd
  · exact hd
  · exact hd
  · exact hd
  · rintro bytes h
    rw [FileOp.run, Function.update_self] at h
    exact Or.inl (Option.some.inj h).symm
  · rw [FileOp.run, Function.update_self]
    exact overlay_left hd he

/-- **One step of a run.** -/
theorem Inv.step (hsha : Function.Injective sha256Hex) {w w' : World ν}
    (h : Inv N sha256Hex sandboxId w)
    (hs : Step N sha256Hex syntaxMessage notFound sandboxId w w') : Inv N sha256Hex sandboxId w' := by
  cases hs with
  | startWrite e =>
    have hes : ∀ e' ∈ w.entries, e' ∈ (World.mk w.dir
        (w.writers ++ [(e, writeCacheEntry N sha256Hex sandboxId e)]) w.readers).entries := by
      intro e' he'
      rw [World.entries, map_append]
      exact mem_append_left _ he'
    refine ⟨h.metaJson.mono hes, fun p hp => ?_, fun r hr => (h.readers r hr).mono hes⟩
    rcases mem_append.mp hp with hp | hp
    · exact h.writers p hp
    · rw [mem_singleton.mp hp]
  | write ws ws' e op ops hw =>
    have hent : (World.mk (op.run w.dir) (ws ++ (e, ops) :: ws') w.readers).entries = w.entries := by
      simp only [World.entries, hw, map_append, map_cons]
    have hmem : (e, op :: ops) ∈ w.writers := by
      rw [hw]
      exact mem_append_right _ mem_cons_self
    have hsuf := h.writers _ hmem
    refine ⟨?_, fun p hp => ?_, fun r hr => hent ▸ h.readers r hr⟩
    · rw [hent]
      exact FileOp.left h.metaJson (mem_map_of_mem hmem) (hsuf.subset mem_cons_self)
    · rcases mem_replaced hp with rfl | hp
      · exact (suffix_cons _ _).trans hsuf
      · exact h.writers p (hw ▸ hp)
  | crash ws ws' e ops hw =>
    have hent : (World.mk w.dir (ws ++ (e, []) :: ws') w.readers).entries = w.entries := by
      simp only [World.entries, hw, map_append, map_cons]
    refine ⟨hent ▸ h.metaJson, fun p hp => ?_, fun r hr => hent ▸ h.readers r hr⟩
    rcases mem_replaced hp with rfl | hp
    · exact nil_suffix
    · exact h.writers p (hw ▸ hp)
  | startRead =>
    refine ⟨h.metaJson, h.writers, fun r hr => ?_⟩
    rcases mem_append.mp hr with hr | hr
    · exact h.readers r hr
    · rw [mem_singleton.mp hr]
      trivial
  | read rs rs' r hr =>
    have hmem : r ∈ w.readers := by
      rw [hr]
      exact mem_append_right _ mem_cons_self
    refine ⟨h.metaJson, h.writers, fun r' hr' => ?_⟩
    rcases mem_replaced hr' with rfl | hr'
    · exact (h.readers r hmem).next hsha h.metaJson
    · exact h.readers r' (hr ▸ hr')

theorem Reachable.inv (hsha : Function.Injective sha256Hex) {w : World ν}
    (h : Reachable N sha256Hex syntaxMessage notFound sandboxId w) : Inv N sha256Hex sandboxId w := by
  induction h with
  | start =>
    exact ⟨nofun, fun p hp => absurd hp not_mem_nil, fun r hr => absurd hr not_mem_nil⟩
  | step w w' _ hs ih => exact ih.step hsha hs

/-- **What a reader returns was written by one single call of `writeCacheEntry`**: in every run, with
    every order of the operations and every crash. -/
theorem readCacheEntry_single (hsha : Function.Injective sha256Hex) {w : World ν}
    (h : Reachable N sha256Hex syntaxMessage notFound sandboxId w) {blob : Bytes} {m : Json ν}
    (hr : .done (.ok (blob, m)) ∈ w.readers) :
    ∃ e ∈ w.entries, blob = e.blob ∧ m = e.written N sha256Hex sandboxId :=
  (h.inv hsha).readers _ hr

/-! ## 8. A call with nobody in between -/

def runAll (ops : List FileOp) (d : Dir) : Dir := ops.foldl (fun d op => op.run d) d

theorem runAll_writeCacheEntry (e : Entry ν) (d : Dir) :
    runAll (writeCacheEntry N sha256Hex sandboxId e) d .blob = some e.blob ∧
      runAll (writeCacheEntry N sha256Hex sandboxId e) d .metaJson =
        some (utf8Bytes (e.metaText N sha256Hex sandboxId)) := by
  simp only [runAll, writeCacheEntry, writeFileSync, cons_append, nil_append,
    foldl_cons, foldl_nil, FileOp.run, overlay]
  constructor
  · simp
  · simp

theorem parse_metaText (e : Entry ν) :
    parse N.toNumbers (utf8Text (utf8Bytes (e.metaText N sha256Hex sandboxId))) =
      some (e.written N sha256Hex sandboxId) := by
  rw [utf8Text_utf8Bytes, Entry.metaText, parse_indented 2 (distinct_finalMeta e)]
  rfl

theorem checkHash_written (e : Entry ν) :
    checkHash N sha256Hex sandboxId e.blob (e.written N sha256Hex sandboxId) =
      .ok (e.blob, e.written N sha256Hex sandboxId) := by
  have hhash : (member (e.written N sha256Hex sandboxId) "blob_sha256_hex".toList).bind asString =
      some (sha256Hex e.blob) := written_hash e
  rw [checkHash]
  · simp only [hhash, ↓reduceIte]
  · intro hnull
    rw [hnull] at hhash
    cases hhash

/-- **A reader alone returns what a whole call wrote**, whatever stood in the files before. -/
theorem read_after_write (e : Entry ν) (d : Dir) :
    (Reader.next N sha256Hex syntaxMessage notFound sandboxId
      (runAll (writeCacheEntry N sha256Hex sandboxId e) d))^[4] .start =
        .done (.ok (e.blob, e.written N sha256Hex sandboxId)) := by
  obtain ⟨hblob, hmeta⟩ : runAll (writeCacheEntry N sha256Hex sandboxId e) d .blob = some e.blob ∧
      runAll (writeCacheEntry N sha256Hex sandboxId e) d .metaJson =
        some (utf8Bytes (e.metaText N sha256Hex sandboxId)) := runAll_writeCacheEntry e d
  simp only [Function.iterate_succ, Function.iterate_zero, Function.comp_apply, id_eq, Reader.next,
    hblob, hmeta, Option.isSome_some, ↓reduceIte, parse_metaText, checkHash_written]

theorem Reachable.writes {d : Dir} {e : Entry ν} {ops : List FileOp} {rs : List (Reader ν)}
    (h : Reachable N sha256Hex syntaxMessage notFound sandboxId ⟨d, [(e, ops)], rs⟩) :
    Reachable N sha256Hex syntaxMessage notFound sandboxId ⟨runAll ops d, [(e, [])], rs⟩ := by
  induction ops generalizing d with
  | nil => exact h
  | cons op ops ih => exact ih (.step _ _ h (.write _ [] [] e op ops rfl))

theorem Reachable.reads {d : Dir} {ws : List (Entry ν × List FileOp)} {r : Reader ν} (n : Nat)
    (h : Reachable N sha256Hex syntaxMessage notFound sandboxId ⟨d, ws, [r]⟩) :
    Reachable N sha256Hex syntaxMessage notFound sandboxId
      ⟨d, ws, [(Reader.next N sha256Hex syntaxMessage notFound sandboxId d)^[n] r]⟩ := by
  induction n generalizing r with
  | zero => exact h
  | succ n ih => exact ih (.step _ _ h (.read _ [] [] r rfl))

/-- The run of one call of `writeCacheEntry` and, after it, one of `readCacheEntry`. -/
theorem reachable_alone (e : Entry ν) : ∃ d, Reachable N sha256Hex syntaxMessage notFound sandboxId
    ⟨d, [(e, [])], [.done (.ok (e.blob, e.written N sha256Hex sandboxId))]⟩ := by
  have hstart : Step N sha256Hex syntaxMessage notFound sandboxId {} ⟨_, _, _⟩ := .startWrite {} e
  have h := Reachable.writes (.step _ _ .start hstart)
  have hr := Reachable.reads 4 (.step _ _ h (.startRead _))
  rw [read_after_write e] at hr
  exact ⟨_, hr⟩

end

/-- A digest that no two blobs share and that is SHA-256's on the empty one. -/
def emptyDigest (blob : Bytes) : Text :=
  if blob = [] then "e3b0c44298fc1c149afbf4c8996fb92427ae41e4649b934ca495991b7852b855".toList
  else 'x' :: blob.map fun b => Char.ofNat b.toNat

theorem emptyDigest_injective : Function.Injective emptyDigest := by
  have hinj : Function.Injective fun b : UInt8 => Char.ofNat b.toNat := by
    intro b c h
    have hb : ∀ b : UInt8, b.toNat.isValidChar := fun b => Or.inl (by have := b.toNat_lt; omega)
    have h := congrArg Char.toNat h
    rw [toNat_ofNat_char (hb b), toNat_ofNat_char (hb c)] at h
    exact UInt8.toNat_inj.mp h
  intro b c h
  unfold emptyDigest at h
  split_ifs at h with hb hc hc
  · rw [hb, hc]
  · exact absurd (List.cons.inj h).1 (by decide)
  · exact absurd (List.cons.inj h).1 (by decide)
  · exact map_injective_iff.mpr hinj (List.cons.inj h).2

/-- An empty blob with a name. -/
def namedEntry : Entry Nat where
  blob := []
  members := [("name".toList, .str "S".toList)]
  distinct := by
    simp only [Json.DistinctKeys, DistinctMembers]
    decide

theorem readCacheEntry_single_named : ∃ e ∈ [namedEntry], ([] : Bytes) = e.blob ∧
    namedEntry.written natRuntime emptyDigest "s1".toList =
      e.written natRuntime emptyDigest "s1".toList := by
  obtain ⟨d, hd⟩ : ∃ d, Reachable natRuntime emptyDigest (fun _ => []) [] "s1".toList
      ⟨d, [(namedEntry, [])],
        [.done (.ok (namedEntry.blob, namedEntry.written natRuntime emptyDigest "s1".toList))]⟩ :=
    reachable_alone namedEntry
  exact readCacheEntry_single emptyDigest_injective hd (mem_singleton_self _)

end Veesker.Cloud.CacheFiles
