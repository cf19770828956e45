/-
  File:      Veesker/Host/Wallet.lean
  Subject:   WALLET ZIPS (src-tauri/src/persistence/wallet.rs, tnsnames.rs): the aliases a wallet
             names, and how its files come into the directory of a connection.

  An archive is what the zip reader makes of the file: the entries with their claimed sizes, no name
  twice. Every call of the file system may fail; what a failing one leaves is given with the error.
-/
import Mathlib.Logic.Function.Basic
import Veesker.Format.Bytes
import Veesker.Text.Rust

namespace Veesker.Host

open Format

/-! ## 1. What a wallet is -/

structure Entry where
  name : Text
  /-- The uncompressed size that the archive claims. -/
  size : Nat
  content : Bytes
  deriving DecidableEq

abbrev Archive := List Entry

/-- The files of a directory. -/
abbrev Dir := Text → Option Bytes

inductive WalletError where
  | io (error : Text)
  | zip (error : Text)
  | missingFile (name : Text)
  deriving DecidableEq

def WalletError.display : WalletError → Text
  | .io e => "wallet i/o: ".toList ++ e
  | .zip e => "wallet zip: ".toList ++ e
  | .missingFile name => "wallet missing required file: ".toList ++ name

def tnsnamesOra : Text := "tnsnames.ora".toList

/-- `REQUIRED_FILES`. -/
def requiredFiles : List Text := [tnsnamesOra, "cwallet.sso".toList]

/-- `MAX_WALLET_FILE_BYTES`. -/
def maxWalletFileBytes : Nat := 1024 * 1024

/-! ## 2. The aliases -/

/-- The bytes as a string, where they are UTF-8. -/
def strictUtf8 (bytes : Bytes) : Option Text :=
  let text := utf8Text bytes
  if utf8Bytes text = bytes then some text else none

/-- `read_to_string` of bytes that could all be read. -/
def readToString (bytes : Bytes) : Except Text Text :=
  match strictUtf8 bytes with
  | some text => .ok text
  | none => .error "stream did not contain valid UTF-8".toList

/-- `read_tnsnames_from_zip`; the fault is a failing read. -/
def readTnsnamesFromZip (archive : Except WalletError Archive) (fault : Option Text) :
    Except WalletError Text :=
  match archive with
  | .error e => .error e
  | .ok archive =>
    match archive.find? fun e => e.name == tnsnamesOra with
    | none => .error (.missingFile tnsnamesOra)
    | some entry =>
      if maxWalletFileBytes < entry.size then .error (.io "tnsnames.ora exceeds 1 MB cap".toList)
      else match fault with
        | some e => .error (.io e)
        | none => match readToString (entry.content.take maxWalletFileBytes) with
          | .error e => .error (.io e)
          | .ok text => .ok text

/-- `c.is_ascii_alphanumeric() || c == '_'`. -/
def isAliasChar (c : Char) : Bool := c.isAlphanum || c == '_'

/-- The alias that a line of `tnsnames.ora` defines. -/
def lineAlias (raw : Text) : Option Text :=
  if startsWith raw [' '] || startsWith raw ['\t'] then none
  else
    let line := Rust.trim raw
    if line.isEmpty || startsWith line ['#'] then none
    else if !line.contains '=' then none
    else
      let name := Rust.trim (line.takeWhile (· != '='))
      let rest := ((line.dropWhile (· != '=')).drop 1).dropWhile Rust.isWhitespace
      if name.isEmpty || !name.all isAliasChar || !startsWith rest ['('] then none else some name

/-- `parse_aliases`. -/
def parseAliases (content : Text) : List Text := (Rust.lines content).filterMap lineAlias

/-! ## 3. The extraction -/

/-- The entry is no file of the wallet: its name is no plain file name, or it is too large. -/
def Entry.skipped (e : Entry) : Bool :=
  e.name.isEmpty || e.name == ".".toList || e.name == "..".toList || startsWith e.name ['.'] ||
    e.name.contains '/' || e.name.contains '\\' || e.name.contains '\x00' || e.name.contains ':' ||
    decide (maxWalletFileBytes < e.size)

/-- What fails at an entry: reading it, creating its file, or copying, of which some was done. -/
inductive EntryFault where
  | read (error : Text)
  | create (error : Text)
  | copy (done : Nat) (error : Text)
  deriving DecidableEq

/-- The loop of `extract_to` from the `i`-th entry on; the fault is at one entry. -/
def writeEntries (fault : Option (Nat × EntryFault)) : Nat → Archive → Dir → Dir × Option WalletError
  | _, [], dir => (dir, none)
  | i, e :: es, dir =>
    let here := (fault.filter fun f => f.1 == i).map Prod.snd
    match here with
    | some (.read error) => (dir, some (.zip error))
    | some (.create error) =>
      if e.skipped then writeEntries fault (i + 1) es dir else (dir, some (.io error))
    | some (.copy done error) =>
      if e.skipped then writeEntries fault (i + 1) es dir
      else (Function.update dir e.name (some (e.content.take done)), some (.io error))
    | none =>
      if e.skipped then writeEntries fault (i + 1) es dir
      else writeEntries fault (i + 1) es
        (Function.update dir e.name (some (e.content.take maxWalletFileBytes)))

/-- What the file system answers to an extraction. -/
structure ExtractFaults where
  /-- `remove_dir_all` fails, and this is left. -/
  removal : Option (Text × Option Dir) := none
  creation : Option Text := none
  entry : Option (Nat × EntryFault) := none

/-- The first required file that the archive lacks. -/
def missingRequired (archive : Archive) : Option Text :=
  requiredFiles.find? fun required => !archive.any fun e => e.name == required

/-- `extract_to`: the directory after it, and the error. -/
def extractTo (archive : Except WalletError Archive) (faults : ExtractFaults) (dir : Option Dir) :
    Option Dir × Option WalletError :=
  match archive with
  | .error e => (dir, some e)
  | .ok archive =>
    match missingRequired archive with
    | some required => (dir, some (.missingFile required))
    | none =>
      match faults.removal.filter fun _ => dir.isSome with
      | some (error, left) => (left, some (.io error))
      | none => match faults.creation with
        | some error => (none, some (.io error))
        | none =>
          let r := writeEntries faults.entry 0 archive fun _ => none
          (some r.1, r.2)

end Veesker.Host
