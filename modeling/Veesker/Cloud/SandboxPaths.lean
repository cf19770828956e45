/-
  File:      Veesker/Cloud/SandboxPaths.lean
  Subject:   THE PATHS BUILT FROM A SANDBOX'S IDENTITY (sidecar/src/sandbox-cloud/cache.ts, open.ts,
             leave.ts, delete.ts, build-config-store.ts).

  An operation is the list of the file calls it makes on paths built from the identity, each with
  the directory that is meant to hold it. The directories themselves are made without asking the
  identity and are not listed. A path is judged as it is handed to the file system.

  * `confined_iff` -- **every path lies strictly inside its directory if and only if** the
    identity, read name by name, never goes above its start and ends below it.
  * `not_confined_parent` -- the identity `..`, with which a deletion removes the directory that
    holds everything.
-/
import Veesker.Format.Path

namespace Veesker.Cloud.SandboxPaths

open Format

/-! ## 1. The directories -/

/-- Where the application keeps its data, and where the builds are. -/
structure Dirs where
  appData : Path
  builds : Path

def Dirs.sandboxCache (d : Dirs) : Path := d.appData ++ ["sandbox-cache".toList]

def Dirs.sandboxTmp (d : Dirs) : Path := d.appData ++ ["sandbox-tmp".toList]

/-! ## 2. The operations -/

inductive FileCall where
  | existsSync
  | makeDirs
  | read
  | write
  | removeAll
  deriving DecidableEq

/-- A call on a path, and the directory that is meant to hold it. -/
structure FileOp where
  within : Path
  call : FileCall
  path : Path
  deriving DecidableEq

/-- The paths that a call creates, reads or removes. -/
def FileOp.Touches (op : FileOp) (path : Path) : Prop :=
  match op.call with
  | .makeDirs => path = op.path ∨ path <+: op.path ∧ ¬ path <+: op.within
  | .removeAll => op.path <+: path
  | _ => path = op.path

section

variable (p : Platform) (d : Dirs) (sandboxId : Text)

def entryDir : Path := join p d.sandboxCache sandboxId

def blobPath : Path := entryDir p d sandboxId ++ ["blob.vsk".toList]

def metaPath : Path := entryDir p d sandboxId ++ ["meta.json".toList]

def blobTmpPath : Path := join p d.sandboxTmp (sandboxId ++ ".vsk".toList)

def configPath : Path := join p d.builds (sandboxId ++ ".config.json".toList)

def writeCacheEntry : List FileOp :=
  [⟨d.sandboxCache, .makeDirs, entryDir p d sandboxId⟩,
    ⟨d.sandboxCache, .write, blobPath p d sandboxId⟩,
    ⟨d.sandboxCache, .write, metaPath p d sandboxId⟩]

def readCacheEntry : List FileOp :=
  [⟨d.sandboxCache, .existsSync, blobPath p d sandboxId⟩,
    ⟨d.sandboxCache, .existsSync, metaPath p d sandboxId⟩,
    ⟨d.sandboxCache, .read, metaPath p d sandboxId⟩,
    ⟨d.sandboxCache, .read, blobPath p d sandboxId⟩]

def openSandbox : List FileOp :=
  readCacheEntry p d sandboxId ++
    [⟨d.sandboxCache, .read, blobPath p d sandboxId⟩,
      ⟨d.sandboxTmp, .write, blobTmpPath p d sandboxId⟩,
      ⟨d.sandboxTmp, .read, blobTmpPath p d sandboxId⟩]

def leaveSandbox : List FileOp :=
  [⟨d.sandboxCache, .existsSync, entryDir p d sandboxId⟩,
    ⟨d.sandboxCache, .removeAll, entryDir p d sandboxId⟩]

def deleteSandbox : List FileOp :=
  [⟨d.sandboxCache, .existsSync, entryDir p d sandboxId⟩,
    ⟨d.sandboxCache, .removeAll, entryDir p d sandboxId⟩]

def saveBuildConfig : List FileOp := [⟨d.builds, .write, configPath p d sandboxId⟩]

/-- Every call of every operation. -/
def fileOps : List FileOp :=
  writeCacheEntry p d sandboxId ++ readCacheEntry p d sandboxId ++ openSandbox p d sandboxId ++
    leaveSandbox p d sandboxId ++ deleteSandbox p d sandboxId ++ saveBuildConfig p d sandboxId

/-- Whatever an operation touches lies strictly inside the directory meant to hold it. -/
def Confined : Prop :=
  ∀ op ∈ fileOps p d sandboxId, ∀ path, op.Touches path → StrictlyInside op.within path

/-- The identity, read name by name, never goes above its start and ends below it. -/
def StaysBelow : Prop := (descent p sandboxId).ups = 0 ∧ (descent p sandboxId).downs ≠ []

end

/-! ## 3. When the paths are confined -/

variable {p : Platform} {d : Dirs} {sandboxId : Text}

theorem isExtension_vsk (p : Platform) : IsExtension p ".vsk".toList := by
  cases p <;> exact ⟨by simp [Platform.isSep], by decide⟩

theorem isExtension_config (p : Platform) : IsExtension p ".config.json".toList := by
  cases p <;> exact ⟨by simp [Platform.isSep], by decide⟩

/-- A call on a path inside its directory touches nothing else. -/
theorem touches_inside {op : FileOp} (h : StrictlyInside op.within op.path) {path : Path}
    (ht : op.Touches path) : StrictlyInside op.within path := by
  unfold FileOp.Touches at ht
  split at ht
  · rcases ht with rfl | ⟨hpre, hnot⟩
    · exact h
    · -- a directory on the way, below the one that holds it
      rcases List.prefix_or_prefix_of_prefix h.1 hpre with hin | hout
      · refine ⟨hin, Nat.lt_of_le_of_ne hin.length_le fun hlen => hnot ?_⟩
        exact hin.eq_of_length hlen ▸ List.prefix_rfl
      · exact absurd hout hnot
  · exact h.trans ht
  · exact ht ▸ h

theorem StaysBelow.confined (h : StaysBelow p sandboxId) : Confined p d sandboxId := by
  have hdir : StrictlyInside d.sandboxCache (entryDir p d sandboxId) := join_inside h.1 h.2 _
  have hblob : StrictlyInside d.sandboxCache (blobPath p d sandboxId) :=
    hdir.trans (List.prefix_append _ _)
  have hmeta : StrictlyInside d.sandboxCache (metaPath p d sandboxId) :=
    hdir.trans (List.prefix_append _ _)
  have htmp : StrictlyInside d.sandboxTmp (blobTmpPath p d sandboxId) :=
    join_ext_inside (isExtension_vsk p) h.1 _
  have hconfig : StrictlyInside d.builds (configPath p d sandboxId) :=
    join_ext_inside (isExtension_config p) h.1 _
  intro op hop path ht
  refine touches_inside ?_ ht
  simp only [fileOps, writeCacheEntry, readCacheEntry, openSandbox, leaveSandbox, deleteSandbox,
    saveBuildConfig, List.mem_append, List.mem_cons, List.not_mem_nil, or_false] at hop
  rcases hop with ((((hop | hop) | hop) | hop) | hop) | rfl
  · rcases hop with rfl | rfl | rfl
    exacts [hdir, hblob, hmeta]
  · rcases hop with rfl | rfl | rfl | rfl
    exacts [hblob, hmeta, hmeta, hblob]
  · rcases hop with (rfl | rfl | rfl | rfl) | rfl | rfl | rfl
    exacts [hblob, hmeta, hmeta, hblob, hblob, htmp, htmp]
  · rcases hop with rfl | rfl
    exacts [hdir, hdir]
  · rcases hop with rfl | rfl
    exacts [hdir, hdir]
  · exact hconfig

/-- **The paths of an identity are confined if and only if it stays below its start**: the
    deletion and the copy for opening use two directories side by side, and no identity that goes
    up comes back into both. -/
theorem confined_iff : Confined p d sandboxId ↔ StaysBelow p sandboxId := by
  refine ⟨fun h => ?_, StaysBelow.confined⟩
  have hdir : StrictlyInside d.sandboxCache (entryDir p d sandboxId) :=
    h ⟨d.sandboxCache, .removeAll, entryDir p d sandboxId⟩ (by simp [fileOps, deleteSandbox])
      (entryDir p d sandboxId) List.prefix_rfl
  have htmp : StrictlyInside d.sandboxTmp (blobTmpPath p d sandboxId) :=
    h ⟨d.sandboxTmp, .write, blobTmpPath p d sandboxId⟩ (by simp [fileOps, openSandbox])
      (blobTmpPath p d sandboxId) rfl
  refine ups_of_inside (isExtension_vsk p) (by decide) (fun last e => ?_) hdir htmp
  have hlast := congrArg List.getLast? e
  rw [List.getLast?_append, show ".vsk".toList.getLast? = some 'k' from rfl, Option.some_or] at hlast
  exact absurd hlast (by decide)

/-- **The identity `..` is not confined**: deleting it removes the directory of the application's
    data, with the cache and everything beside it. -/
theorem not_confined_parent : ¬ ∀ (p : Platform) (d : Dirs) (sandboxId : Text),
    Confined p d sandboxId := by
  intro h
  let d : Dirs := ⟨["home".toList, "dev.veesker.app".toList], ["home".toList, "builds".toList]⟩
  have hop : (⟨d.sandboxCache, .removeAll, d.appData⟩ : FileOp) ∈
      deleteSandbox .posix d "..".toList := by decide
  have hinside := h .posix d "..".toList ⟨d.sandboxCache, .removeAll, d.appData⟩
    (List.mem_append_left _ (List.mem_append_right _ hop)) d.appData List.prefix_rfl
  exact absurd hinside.2 (by decide)

end Veesker.Cloud.SandboxPaths
