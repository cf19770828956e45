/-
  File:      Veesker/Cloud/OpenBytes.lean
  Subject:   THE BYTES THAT AN OPEN LOADS (sidecar/src/sandbox-cloud/open.ts `openSandbox`): any
             number of opens and closes, and of writers of the same files, in every order.

  `readCacheEntry` reads the blob and checks it against the metadata, but the open goes on with the
  metadata only. Two awaits later it reads the blob again, for a temporary file with the sandbox's
  name; once the database host is open, `readEncryptedVsk` reads that file.

  * `steady_checked` -- **what an open decrypts is what its own check has seen**, in every run in
    which nobody writes anything else to a file that a checked open still has to read;
  * `loaded_unchecked` -- without it: a blob that is replaced between the check and the second
    reading.
-/
import Veesker.Cloud.CacheFiles

namespace Veesker.Cloud.OpenBytes

open Format Run Vsk CacheFiles

variable {ν P : Type}

/-! ## 1. The state -/

/-- Where the files of a sandbox are. -/
structure Places (P : Type) where
  blobPath : Text → P
  metaPath : Text → P
  blobTmpPath : Text → P

/-- Where an open is, and what its check has seen. -/
inductive Phase (ν : Type) where
  | cacheEntry (r : Reader ν)
  | privateKey (checked : Bytes) (m : Json ν)
  | cachedBlob (checked : Bytes) (m : Json ν)
  | openHost (checked : Bytes) (m : Json ν)
  /-- `readEncryptedVsk` has read these bytes. -/
  | importing (checked : Bytes) (m : Json ν) (bytes : Bytes)

structure Call (ν : Type) where
  sandboxId : Text
  phase : Phase ν

structure World (ν P : Type) where
  files : P → Option Bytes := fun _ => none
  /-- The sandboxes with a session and its result. -/
  sessions : Text → Bool := fun _ => false
  calls : List (Call ν) := []

/-- The cache entry of a sandbox. -/
def World.dir (pl : Places P) (w : World ν P) (id : Text) : Dir
  | .blob => w.files (pl.blobPath id)
  | .metaJson => w.files (pl.metaPath id)

/-! ## 2. The steps -/

/-- What an open does with the answer of `readCacheEntry`, or of one of its file operations. -/
def Phase.afterRead : Reader ν → Option (Phase ν)
  | .done (.ok (blob, m)) => some (.privateKey blob m)
  | .done (.error _) => none
  | r => some (.cacheEntry r)

inductive Event (P : Type) where
  | returnsCached (id : Text)
  | starts (id : Text)
  | reads (id : Text)
  | refuses (id : Text)
  | keyGiven (id : Text)
  | readsAgain (id : Text)
  | loads (id : Text)
  | registers (id : Text)
  /-- An await of an open rejects, or a file is not there. -/
  | fails (id : Text)
  /-- A close ends: whether the temporary file was removed. -/
  | closes (id : Text) (unlinked : Bool)
  /-- A file operation of anybody else: one of `writeCacheEntry`, of a removal, of another
      program. -/
  | writes (path : P) (content : Option Bytes)

section

variable [DecidableEq P] (pl : Places P) (N : Runtime ν) (sha256Hex : Bytes → Text)
  (syntaxMessage : Bytes → Text) (notFound : Text)

inductive Step : World ν P → Event P → World ν P → Prop where
  | returnsCached (w : World ν P) (id : Text) (h : w.sessions id = true) :
      Step w (.returnsCached id) w
  | starts (w : World ν P) (id : Text) (h : w.sessions id = false) :
      Step w (.starts id) { w with calls := w.calls ++ [⟨id, .cacheEntry .start⟩] }
  | reads (w : World ν P) (cs cs' : List (Call ν)) (id : Text) (r : Reader ν) (ph : Phase ν)
      (hc : w.calls = cs ++ ⟨id, .cacheEntry r⟩ :: cs')
      (hr : Phase.afterRead (r.next N sha256Hex syntaxMessage notFound id (w.dir pl id)) =
        some ph) :
      Step w (.reads id) { w with calls := cs ++ ⟨id, ph⟩ :: cs' }
  | refuses (w : World ν P) (cs cs' : List (Call ν)) (id : Text) (r : Reader ν)
      (hc : w.calls = cs ++ ⟨id, .cacheEntry r⟩ :: cs')
      (hr : Phase.afterRead (r.next N sha256Hex syntaxMessage notFound id (w.dir pl id)) = none) :
      Step w (.refuses id) { w with calls := cs ++ cs' }
  | keyGiven (w : World ν P) (cs cs' : List (Call ν)) (id : Text) (checked : Bytes) (m : Json ν)
      (hc : w.calls = cs ++ ⟨id, .privateKey checked m⟩ :: cs') :
      Step w (.keyGiven id) { w with calls := cs ++ ⟨id, .cachedBlob checked m⟩ :: cs' }
  | readsAgain (w : World ν P) (cs cs' : List (Call ν)) (id : Text) (checked : Bytes) (m : Json ν)
      (cachedBlob : Bytes) (hc : w.calls = cs ++ ⟨id, .cachedBlob checked m⟩ :: cs')
      (hf : w.files (pl.blobPath id) = some cachedBlob) :
      Step w (.readsAgain id) { w with
        files := Function.update w.files (pl.blobTmpPath id) (some cachedBlob)
        calls := cs ++ ⟨id, .openHost checked m⟩ :: cs' }
  | loads (w : World ν P) (cs cs' : List (Call ν)) (id : Text) (checked : Bytes) (m : Json ν)
      (bytes : Bytes) (hc : w.calls = cs ++ ⟨id, .openHost checked m⟩ :: cs')
      (hf : w.files (pl.blobTmpPath id) = some bytes) :
      Step w (.loads id) { w with calls := cs ++ ⟨id, .importing checked m bytes⟩ :: cs' }
  | registers (w : World ν P) (cs cs' : List (Call ν)) (id : Text) (checked : Bytes) (m : Json ν)
      (bytes : Bytes) (hc : w.calls = cs ++ ⟨id, .importing checked m bytes⟩ :: cs') :
      Step w (.registers id) { w with
        sessions := Function.update w.sessions id true
        calls := cs ++ cs' }
  | fails (w : World ν P) (cs cs' : List (Call ν)) (id : Text) (ph : Phase ν)
      (hc : w.calls = cs ++ ⟨id, ph⟩ :: cs') (hph : ∀ r, ph ≠ .cacheEntry r) :
      Step w (.fails id) { w with calls := cs ++ cs' }
  | closes (w : World ν P) (id : Text) (unlinked : Bool) :
      -- of two closes of one session the second one finds neither session nor file
      Step w (.closes id unlinked) { w with
        files := if unlinked then Function.update w.files (pl.blobTmpPath id) none else w.files
        sessions := Function.update w.sessions id false }
  | writes (w : World ν P) (path : P) (content : Option Bytes) :
      Step w (.writes path content) { w with files := Function.update w.files path content }

/-! ## 3. The property and the condition -/

/-- What an open has checked. -/
def Phase.checked : Phase ν → Option (Bytes × Json ν)
  | .cacheEntry _ => none
  | .privateKey b m => some (b, m)
  | .cachedBlob b m => some (b, m)
  | .openHost b m => some (b, m)
  | .importing b m _ => some (b, m)

/-- **Every open that decrypts anything decrypts the bytes that its own check has seen.** -/
def Checked (w : World ν P) : Prop :=
  ∀ c ∈ w.calls, ∀ checked m bytes, c.phase = .importing checked m bytes →
    bytes = checked ∧ checkHash N sha256Hex c.sandboxId checked m = .ok (checked, m)

/-- The file that an open still has to read, behind its check. -/
def Call.awaits (c : Call ν) : Option (P × Bytes) :=
  match c.phase with
  | .privateKey b _ => some (pl.blobPath c.sandboxId, b)
  | .cachedBlob b _ => some (pl.blobPath c.sandboxId, b)
  | .openHost b _ => some (pl.blobTmpPath c.sandboxId, b)
  | _ => none

/-- Whoever awaits this file has checked nothing but this. -/
def Expected (w : World ν P) (path : P) (content : Option Bytes) : Prop :=
  ∀ c ∈ w.calls, ∀ b, c.awaits pl = some (path, b) → content = none ∨ content = some b

/-- **Nobody writes anything else to a file that an open still has to read.** -/
def Steady (w : World ν P) : Event P → Prop
  | .writes path content => Expected pl w path content
  | .readsAgain id => Expected pl w (pl.blobTmpPath id) (w.files (pl.blobPath id))
  | _ => True

abbrev RunOf (allowed : World ν P → Event P → Prop) : World ν P → Prop :=
  Runs (Step pl N sha256Hex syntaxMessage notFound) allowed {}

end

/-! ## 4. The invariant -/

section

variable [DecidableEq P] {pl : Places P} {N : Runtime ν} {sha256Hex : Bytes → Text}
  {syntaxMessage : Bytes → Text} {notFound : Text} {w w' : World ν P}

/-- What is known of one open. -/
structure Fits (pl : Places P) (N : Runtime ν) (sha256Hex : Bytes → Text) (w : World ν P)
    (c : Call ν) : Prop where
  reading : ∀ result, c.phase ≠ .cacheEntry (.done result)
  checked : ∀ b m, c.phase.checked = some (b, m) →
    checkHash N sha256Hex c.sandboxId b m = .ok (b, m)
  file : ∀ path b, c.awaits pl = some (path, b) → w.files path = none ∨ w.files path = some b
  bytes : ∀ b m bytes, c.phase = .importing b m bytes → bytes = b

/-- A written file is no matter to an open that expects what is written. -/
theorem Fits.write {c : Call ν} (h : Fits pl N sha256Hex w c) {path : P} {content : Option Bytes}
    (hex : ∀ b, c.awaits pl = some (path, b) → content = none ∨ content = some b)
    (hw : w'.files = Function.update w.files path content) : Fits pl N sha256Hex w' c where
  reading := h.reading
  checked := h.checked
  bytes := h.bytes
  file := by
    intro q b hq
    rw [hw]
    by_cases e : q = path
    · subst e
      rw [Function.update_self]
      exact hex b hq
    · rw [Function.update_of_ne e]
      exact h.file q b hq

omit [DecidableEq P] in
theorem Fits.same {c : Call ν} (h : Fits pl N sha256Hex w c) (hw : w'.files = w.files) :
    Fits pl N sha256Hex w' c where
  reading := h.reading
  checked := h.checked
  bytes := h.bytes
  file := by
    rw [hw]
    exact h.file

/-- A reader that ends well has just read the blob and checked it. -/
theorem read_ok {id : Text} {d : Dir} {r : Reader ν} (hr : ∀ result, r ≠ .done result) {blob : Bytes}
    {m : Json ν} (h : r.next N sha256Hex syntaxMessage notFound id d = .done (.ok (blob, m))) :
    d .blob = some blob ∧ checkHash N sha256Hex id blob m = .ok (blob, m) := by
  cases r with
  | start =>
    simp only [Reader.next] at h
    split at h
    · cases h
    · cases h
  | blobExists =>
    simp only [Reader.next] at h
    split at h
    · cases h
    · cases h
  | bothExist =>
    simp only [Reader.next] at h
    split at h
    · cases h
    · split at h
      · cases h
      · cases h
  | parsed m' =>
    simp only [Reader.next] at h
    split at h
    · cases h
    · rename_i blob' hblob
      have hcheck : checkHash N sha256Hex id blob' m' = .ok (blob, m) := Reader.done.inj h
      obtain ⟨rfl, rfl⟩ := Prod.mk.inj (checkHash_ok hcheck).1
      exact ⟨hblob, hcheck⟩
  | done result => exact (hr result rfl).elim

omit [DecidableEq P] in
/-- An operation of `readCacheEntry` leaves the open as it should be. -/
theorem Fits.read {id : Text} {r : Reader ν} {ph : Phase ν}
    (h : Fits pl N sha256Hex w ⟨id, .cacheEntry r⟩)
    (hr : Phase.afterRead (r.next N sha256Hex syntaxMessage notFound id (w.dir pl id)) = some ph) :
    Fits pl N sha256Hex w ⟨id, ph⟩ := by
  have hdone : ∀ result, r ≠ .done result := fun result e => h.reading result (congrArg _ e)
  generalize he : r.next N sha256Hex syntaxMessage notFound id (w.dir pl id) = r' at hr
  have hgoes : ∀ r'' : Reader ν, (∀ result, r'' ≠ .done result) →
      Fits pl N sha256Hex w ⟨id, .cacheEntry r''⟩ := by
    intro r'' hr''
    refine ⟨fun result e => hr'' result (Phase.cacheEntry.inj e), ?_, ?_, ?_⟩
    · exact fun b m e => nomatch e
    · exact fun path b e => nomatch e
    · exact fun b m bytes e => nomatch e
  cases r' with
  | done result =>
    cases result with
    | error e => cases hr
    | ok p =>
      obtain ⟨blob, m⟩ := p
      obtain ⟨hblob, hcheck⟩ := read_ok hdone he
      cases hr
      refine ⟨nofun, ?_, ?_, nofun⟩
      · intro b m' e
        obtain ⟨rfl, rfl⟩ := Prod.mk.inj (Option.some.inj e)
        exact hcheck
      · intro path b e
        obtain ⟨rfl, rfl⟩ := Prod.mk.inj (Option.some.inj e)
        exact .inr hblob
  | start =>
    cases hr
    exact hgoes _ fun result e => nomatch e
  | blobExists =>
    cases hr
    exact hgoes _ fun result e => nomatch e
  | bothExist =>
    cases hr
    exact hgoes _ fun result e => nomatch e
  | parsed m =>
    cases hr
    exact hgoes _ fun result e => nomatch e

def Inv (pl : Places P) (N : Runtime ν) (sha256Hex : Bytes → Text) (w : World ν P) : Prop :=
  ∀ c ∈ w.calls, Fits pl N sha256Hex w c

theorem Inv.step {e : Event P} (h : Inv pl N sha256Hex w)
    (hs : Step pl N sha256Hex syntaxMessage notFound w e w') (ha : Steady pl w e) :
    Inv pl N sha256Hex w' := by
  intro c hc
  cases hs with
  | returnsCached id hid => exact h c hc
  | starts id hid =>
    obtain hc | hc := List.mem_append.mp hc
    · exact (h c hc).same rfl
    · obtain rfl := List.mem_singleton.mp hc
      refine ⟨?_, nofun, nofun, nofun⟩
      intro result e
      exact nomatch Phase.cacheEntry.inj e
  | reads cs cs' id r ph hcs hr =>
    obtain rfl | hc := mem_replaced hc
    · exact ((h _ (hcs ▸ mem_here)).read hr).same rfl
    · exact (h c (hcs ▸ hc)).same rfl
  | refuses cs cs' id r hcs hr => exact (h c (hcs ▸ mem_removed hc)).same rfl
  | keyGiven cs cs' id checked m hcs =>
    obtain rfl | hc := mem_replaced hc
    · have hcall := h ⟨id, .privateKey checked m⟩ (hcs ▸ mem_here)
      exact ⟨nofun, hcall.checked, hcall.file, nofun⟩
    · exact (h c (hcs ▸ hc)).same rfl
  | readsAgain cs cs' id checked m cachedBlob hcs hf =>
    have hold := h ⟨id, .cachedBlob checked m⟩ (hcs ▸ mem_here)
    obtain rfl | hc := mem_replaced (a := ⟨id, .cachedBlob checked m⟩) hc
    · -- what is read again is what the check has seen
      have hblob : cachedBlob = checked := by
        obtain e | e := hold.file _ _ rfl
        · exact nomatch hf.symm.trans e
        · exact Option.some.inj (hf.symm.trans e)
      refine ⟨nofun, hold.checked, ?_, nofun⟩
      intro path b e
      obtain ⟨rfl, rfl⟩ := Prod.mk.inj (Option.some.inj e)
      exact .inr ((Function.update_self _ _ _).trans (congrArg some hblob))
    · refine (h c (hcs ▸ hc)).write (fun b hb => ?_) rfl
      rw [← hf]
      exact ha c (hcs ▸ hc) b hb
  | loads cs cs' id checked m bytes hcs hf =>
    obtain rfl | hc := mem_replaced hc
    · have hold := h ⟨id, .openHost checked m⟩ (hcs ▸ mem_here)
      have hbytes : bytes = checked := by
        obtain e | e := hold.file _ _ rfl
        · exact nomatch hf.symm.trans e
        · exact Option.some.inj (hf.symm.trans e)
      refine ⟨nofun, hold.checked, nofun, ?_⟩
      intro b m' bytes' e
      obtain ⟨rfl, rfl, rfl⟩ := Phase.importing.inj e
      exact hbytes
    · exact (h c (hcs ▸ hc)).same rfl
  | registers cs cs' id checked m bytes hcs => exact (h c (hcs ▸ mem_removed hc)).same rfl
  | fails cs cs' id ph hcs hph => exact (h c (hcs ▸ mem_removed hc)).same rfl
  | closes id unlinked =>
    cases unlinked with
    | true => exact (h c hc).write (fun b _ => .inl rfl) rfl
    | false => exact (h c hc).same rfl
  | writes path content => exact (h c hc).write (ha c hc) rfl

theorem RunOf.inv (h : RunOf pl N sha256Hex syntaxMessage notFound (Steady pl) w) :
    Inv pl N sha256Hex w := by
  refine Runs.inv h (fun c hc => absurd hc List.not_mem_nil) ?_
  intro w e w' hi hs ha
  exact hi.step hs ha

/-- **What an open decrypts is what its own check has seen**, in every run whose writers leave alone
    the files that a checked open still has to read. -/
theorem steady_checked (h : RunOf pl N sha256Hex syntaxMessage notFound (Steady pl) w) :
    Checked N sha256Hex w := by
  intro c hc checked m bytes hph
  have hfits := RunOf.inv h c hc
  exact ⟨hfits.bytes _ _ _ hph, hfits.checked _ _ (by rw [hph]; rfl)⟩

/-! ## 5. An open that is alone -/

variable {allowed : World ν P → Event P → Prop} {id : Text}

/-- It finds what one call of `writeCacheEntry` wrote. -/
theorem run_checks (h : RunOf pl N sha256Hex syntaxMessage notFound allowed w) (hq : w.calls = [])
    (hs : w.sessions id = false) (e : Entry ν) (hb : w.files (pl.blobPath id) = some e.blob)
    (hm : w.files (pl.metaPath id) = some (utf8Bytes (e.metaText N sha256Hex id)))
    (hstart : allowed w (.starts id)) (hgo : ∀ w, allowed w (.reads id)) :
    RunOf pl N sha256Hex syntaxMessage notFound allowed
      { w with calls := [⟨id, .privateKey e.blob (e.written N sha256Hex id)⟩] } := by
  have h1 := Runs.step _ _ _ h (.starts w id hs) hstart
  rw [hq] at h1
  have hr1 : ∀ cs : List (Call ν), Phase.afterRead (Reader.next N sha256Hex syntaxMessage notFound id
      (World.dir pl { w with calls := cs } id) .start) = some (.cacheEntry .blobExists) := by
    intro cs
    simp only [Reader.next, World.dir, hb, Option.isSome_some, ↓reduceIte, Phase.afterRead]
  have hr2 : ∀ cs : List (Call ν), Phase.afterRead (Reader.next N sha256Hex syntaxMessage notFound id
      (World.dir pl { w with calls := cs } id) .blobExists) = some (.cacheEntry .bothExist) := by
    intro cs
    simp only [Reader.next, World.dir, hm, Option.isSome_some, ↓reduceIte, Phase.afterRead]
  have hr3 : ∀ cs : List (Call ν), Phase.afterRead (Reader.next N sha256Hex syntaxMessage notFound id
      (World.dir pl { w with calls := cs } id) .bothExist) =
        some (.cacheEntry (.parsed (e.written N sha256Hex id))) := by
    intro cs
    simp only [Reader.next, World.dir, hm, parse_metaText, Phase.afterRead]
  have hr4 : ∀ cs : List (Call ν), Phase.afterRead (Reader.next N sha256Hex syntaxMessage notFound id
      (World.dir pl { w with calls := cs } id) (.parsed (e.written N sha256Hex id))) =
        some (.privateKey e.blob (e.written N sha256Hex id)) := by
    intro cs
    simp only [Reader.next, World.dir, hb, checkHash_written, Phase.afterRead]
  have h2 := Runs.step _ _ _ h1 (.reads _ [] [] id _ _ rfl (hr1 _)) (hgo _)
  have h3 := Runs.step _ _ _ h2 (.reads _ [] [] id _ _ rfl (hr2 _)) (hgo _)
  have h4 := Runs.step _ _ _ h3 (.reads _ [] [] id _ _ rfl (hr3 _)) (hgo _)
  exact Runs.step _ _ _ h4 (.reads _ [] [] id _ _ rfl (hr4 _)) (hgo _)

/-- Behind the check it loads what stands in the blob's file when it reads it again. -/
theorem run_loads {checked : Bytes} {m : Json ν} {bytes : Bytes}
    (h : RunOf pl N sha256Hex syntaxMessage notFound allowed w)
    (hq : w.calls = [⟨id, .privateKey checked m⟩])
    (hb : w.files (pl.blobPath id) = some bytes) (hkey : allowed w (.keyGiven id))
    (hagain : allowed { w with calls := [⟨id, .cachedBlob checked m⟩] } (.readsAgain id))
    (hload : ∀ w, allowed w (.loads id)) :
    ∃ w', RunOf pl N sha256Hex syntaxMessage notFound allowed w' ∧
      w'.calls = [⟨id, .importing checked m bytes⟩] := by
  have h1 := Runs.step _ _ _ h (.keyGiven _ [] [] id _ _ hq) hkey
  have h2 := Runs.step _ _ _ h1 (.readsAgain _ [] [] id _ _ bytes rfl hb) hagain
  have h3 := Runs.step _ _ _ h2 (.loads _ [] [] id _ _ bytes rfl (Function.update_self _ _ _))
    (hload _)
  exact ⟨_, h3, rfl⟩

end

/-! ## 6. Two runs -/

def vskPlaces : Places Text where
  blobPath id := "sandbox-cache/".toList ++ id ++ "/blob.vsk".toList
  metaPath id := "sandbox-cache/".toList ++ id ++ "/meta.json".toList
  blobTmpPath id := "sandbox-tmp/".toList ++ id ++ ".vsk".toList

/-- A sandbox in the cache whose blob is empty, and an open of it that has checked that. -/
theorem run_named {allowed : World Nat Text → Event Text → Prop}
    (hwrite : ∀ w : World Nat Text, w.calls = [] → ∀ path content, allowed w (.writes path content))
    (hstart : ∀ w, allowed w (.starts "s1".toList)) (hgo : ∀ w, allowed w (.reads "s1".toList)) :
    ∃ w, RunOf vskPlaces natRuntime emptyDigest (fun _ => []) [] allowed w ∧
      w.files (vskPlaces.blobPath "s1".toList) = some [] ∧
      w.calls = [⟨"s1".toList,
        .privateKey [] (namedEntry.written natRuntime emptyDigest "s1".toList)⟩] := by
  have hempty : RunOf vskPlaces natRuntime emptyDigest (fun _ => []) [] allowed {} := .start
  have h1 := Runs.step _ _ _ hempty (.writes {} (vskPlaces.metaPath "s1".toList)
      (some (utf8Bytes (namedEntry.metaText natRuntime emptyDigest "s1".toList))))
    (hwrite {} rfl _ _)
  have h2 := Runs.step _ _ _ h1 (.writes _ (vskPlaces.blobPath "s1".toList) (some namedEntry.blob))
    (hwrite _ rfl _ _)
  have hne : vskPlaces.metaPath "s1".toList ≠ vskPlaces.blobPath "s1".toList := by decide
  have h3 := run_checks h2 rfl rfl namedEntry (by simp only [Function.update_self])
    (by simp only [Function.update_of_ne hne, Function.update_self]) (hstart _) hgo
  refine ⟨_, h3, ?_, rfl⟩
  simp only [Function.update_self]
  rfl

theorem steady_checked_open : ∃ w : World Nat Text,
    w.calls = [⟨"s1".toList,
      .importing [] (namedEntry.written natRuntime emptyDigest "s1".toList) []⟩] ∧
    Checked natRuntime emptyDigest w := by
  have hempty : ∀ w : World Nat Text, w.calls = [] → ∀ path content,
      Steady vskPlaces w (.writes path content) := by
    intro w hq path content c hc
    rw [hq] at hc
    exact absurd hc List.not_mem_nil
  obtain ⟨w, hw, hb, hq⟩ := run_named hempty (fun _ => trivial) (fun _ => trivial)
  have hagain : Steady vskPlaces { w with calls := [⟨"s1".toList, .cachedBlob []
      (namedEntry.written natRuntime emptyDigest "s1".toList)⟩] } (.readsAgain "s1".toList) := by
    intro c hc b hb
    obtain rfl := List.mem_singleton.mp hc
    have hpath := (Prod.mk.inj (Option.some.inj hb)).1
    exact absurd hpath (by decide)
  obtain ⟨w', hw', hq'⟩ := run_loads hw hq hb trivial hagain (fun _ => trivial)
  exact ⟨w', hq', steady_checked hw'⟩

/-- **The blob is replaced between the check and the second reading**: the open decrypts bytes that
    nobody has checked. -/
theorem loaded_unchecked : ¬ ∀ w : World Nat Text,
    RunOf vskPlaces natRuntime emptyDigest (fun _ => []) [] (fun _ _ => True) w →
      Checked natRuntime emptyDigest w := by
  intro h
  obtain ⟨w, hw, -, hq⟩ : ∃ w : World Nat Text,
      RunOf vskPlaces natRuntime emptyDigest (fun _ => []) [] (fun _ _ => True) w ∧ _ ∧ w.calls = _ :=
    run_named (fun _ _ _ _ => trivial) (fun _ => trivial) (fun _ => trivial)
  have h1 := Runs.step _ _ _ hw (.writes w (vskPlaces.blobPath "s1".toList) (some [1])) trivial
  have hb : Function.update w.files (vskPlaces.blobPath "s1".toList) (some [1])
      (vskPlaces.blobPath "s1".toList) = some [1] := Function.update_self _ _ _
  obtain ⟨w', hw', hq'⟩ := run_loads h1 hq hb trivial trivial (fun _ => trivial)
  have hc := (h w' hw' _ (hq' ▸ List.mem_singleton_self _) _ _ _ rfl).1
  exact absurd hc (by decide)

end Veesker.Cloud.OpenBytes
