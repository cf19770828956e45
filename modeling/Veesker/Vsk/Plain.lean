/-
  File:      Veesker/Vsk/Plain.lean
  Subject:   THE PLAIN FILE: `writeVsk` (engine/src/vsk-format/writer.ts) and `readVsk`
             (reader.ts).

  A file is its bytes; temporary files and the renaming of the finished one are left out. Numbers
  of 64 bits are exact: where the source rounds one to a double it only compares it with lengths
  far below the first double that is not exact.
-/
import Veesker.Vsk.Manifest

namespace Veesker.Vsk

open Format

/-! ## 1. The writer -/

def TABLE_TAG_PREFIX : Text := "__VSK_TABLE__".toList

def SYSTEM_TABLE_ORDER : List Text :=
  ["__vsk_objects", "__vsk_source", "__vsk_dependencies"].map String.toList

/-- A block of the data section: tag, name and line end, size, payload. -/
def encodeFrame (name : Text) (payload : Bytes) : Bytes :=
  utf8Bytes (TABLE_TAG_PREFIX ++ (name ++ ['\n'])) ++ (leBytes 8 payload.length ++ payload)

section

variable {σ ν : Type}

/-- The block `writeOneTable` appends. -/
def writeOneTable (D : DuckDBHost σ) (src : σ) (rawName : Text) : Except Failure Bytes := do
  let parquet ← (D.copyToParquet (toLowerCase rawName) src).mapError .error
  .ok (encodeFrame rawName parquet)

def writeUserTable (D : DuckDBHost σ) (src : σ) (table : VskTable) : Except Failure Bytes :=
  if isSystemName table.name then
    .error (.error ("writer: table name \"".toList ++ table.name ++
      "\" collides with reserved __vsk_ prefix".toList))
  else writeOneTable D src table.name

def writeSystemTable (D : DuckDBHost σ) (src : σ) (sysName : Text) : Except Failure Bytes := do
  let there ← (D.tableExists (toLowerCase sysName) src).mapError .error
  if there then writeOneTable D src sysName else .ok []

/-- The bytes of the file `writeVsk` leaves at its path. -/
def writeVsk (N : JsNumbers ν) (D : DuckDBHost σ) (src : σ) (manifest : Json ν) :
    Except Failure Bytes := do
  let tables := manifestTables manifest
  tables.forM fun t => assertValidTableName t.name
  let user ← tables.mapM (writeUserTable D src)
  let system ← SYSTEM_TABLE_ORDER.mapM (writeSystemTable D src)
  let dataSection := user.flatten ++ system.flatten
  let manifestBytes := writeManifest N manifest
  let header := writeHeader {
    formatVersion := FORMAT_V1
    manifestOffset := HEADER_SIZE
    manifestLength := manifestBytes.length
    dataOffset := HEADER_SIZE + manifestBytes.length
    dataLength := dataSection.length
    envelopeOffset := 0
    envelopeLength := 0 }
  .ok (header ++ (manifestBytes ++ dataSection))

/-! ## 2. The reader -/

/-- 16 GiB. -/
def MAX_VSK_BYTES : Nat := 16 * 1024 * 1024 * 1024

def readFileViaSingleFd (file : Bytes) : Except Failure Bytes :=
  if MAX_VSK_BYTES < file.length then
    .error (.format "FILE_TOO_LARGE".toList
      ("vsk: file exceeds ".toList ++ natText MAX_VSK_BYTES ++ " bytes".toList))
  else .ok file

/-- `buf.subarray(from, to)`. -/
def subarray (buf : Bytes) (start stop : Nat) : Bytes := (buf.drop start).take (stop - start)

/-- A section of the file that lies inside it. -/
def checkSection (buf : Bytes) (what message : Text) (offset length : Nat) : Except Failure Unit :=
  if buf.length < offset + length ∨ MAX_VSK_BYTES < length then
    .error (.format ("TRUNCATED_OR_INVALID:".toList ++ what) message)
  else .ok ()

/-- `/^[A-Za-z_][A-Za-z0-9_$]{0,120}$/`. -/
def isSystemSuffix (suffix : Text) : Bool := isName 120 suffix

/-- The check of a table's name, at an offset. -/
def checkTableName (p : Nat) (tableName : Text) : Except Failure Unit :=
  if tableName = [] then
    .error (.format "BAD_TABLE_NAME".toList
      ("vsk: empty table name in tag at offset ".toList ++ natText p))
  else if isSystemName tableName then
    if isSystemSuffix (tableName.drop SYSTEM_TABLE_PREFIX.length) then .ok ()
    else .error (.format "BAD_TABLE_NAME".toList
      ("vsk: invalid system table name at offset ".toList ++ natText p))
  else assertValidTableName tableName

/-- The statements that load one table. -/
def loadStatements (manifest : Json ν) (replace : Bool) (tableName : Text) (parquet : Bytes) :
    List Statement :=
  let name := toLowerCase tableName
  if isSystemName tableName then [.createFromParquet replace name parquet]
  else
    match (manifestTables manifest).find? fun t => toUpperCase t.name == toUpperCase tableName with
    | some t => [.createTable replace name t.columns, .insertFromParquet name parquet]
    | none => [.createFromParquet replace name parquet]

/-- The variables of the loop over the data section. -/
structure Loading (σ : Type) where
  p : Nat
  dst : σ
  userTables : List Text := []
  systemTables : List Text := []

/-- A table is loaded. -/
def Loading.load (D : DuckDBHost σ) (manifest : Json ν) (replace : Bool) (st : Loading σ)
    (tableName : Text) (parquet : Bytes) : Except Failure (Loading σ) := do
  let dst ← D.runAll (loadStatements manifest replace tableName parquet) st.dst
  if isSystemName tableName then
    .ok { st with dst, systemTables := st.systemTables ++ [toLowerCase tableName] }
  else .ok { st with dst, userTables := st.userTables ++ [toLowerCase tableName] }

/-- Where the next line end stands, from an offset. -/
def newlineFrom (buf : Bytes) (p stop : Nat) : Option Nat :=
  ((subarray buf p stop).findIdx? (· == 10)).map (p + ·)

/-- The block at an offset: its name, its payload and the offset behind it. -/
def readFrame (buf : Bytes) (dataEnd p : Nat) : Except Failure (Text × Bytes × Nat) := do
  let tagPrefix := utf8Bytes TABLE_TAG_PREFIX
  if buf.length - p < tagPrefix.length then
    .error (.format "TRUNCATED".toList
      ("vsk: data section truncated at offset ".toList ++ natText p))
  else if ¬ tagPrefix <+: buf.drop p then
    .error (.format "BAD_TAG".toList ("vsk: malformed data section at offset ".toList ++
      natText p ++ " (expected table tag)".toList))
  else match newlineFrom buf p (min buf.length dataEnd) with
    | none =>
      .error (.format "TRUNCATED".toList
        ("vsk: unterminated table tag at offset ".toList ++ natText p))
    | some newlineIdx =>
      let tag := decodeText (subarray buf p newlineIdx)
      let tableName := tag.drop TABLE_TAG_PREFIX.length
      checkTableName p tableName
      let p := newlineIdx + 1
      if dataEnd < p + 8 then
        .error (.format "TRUNCATED".toList
          ("vsk: data section truncated reading size for table ".toList ++ tableName))
      else
        let size := getUint buf p 8
        let p := p + 8
        if dataEnd < p + size then
          .error (.format "TRUNCATED".toList
            ("vsk: data section truncated reading parquet for table ".toList ++ tableName))
        else .ok (tableName, subarray buf p (p + size), p + size)

/-- One round of the loop. -/
def loadFrame (D : DuckDBHost σ) (manifest : Json ν) (replace : Bool) (buf : Bytes) (dataEnd : Nat)
    (st : Loading σ) : Except Failure (Loading σ) := do
  let (tableName, parquet, next) ← readFrame buf dataEnd st.p
  let st ← st.load D manifest replace tableName parquet
  .ok { st with p := next }

/-- `while (p < dataEnd)`; the first argument bounds the rounds, and none says that it is used up. -/
def dataLoop (D : DuckDBHost σ) (manifest : Json ν) (replace : Bool) (buf : Bytes) (dataEnd : Nat) :
    Nat → Loading σ → Option (Except Failure (Loading σ))
  | rounds, st =>
    if st.p < dataEnd then
      match rounds with
      | 0 => none
      | rounds + 1 =>
        match loadFrame D manifest replace buf dataEnd st with
        | .error e => some (.error e)
        | .ok st => dataLoop D manifest replace buf dataEnd rounds st
    else some (.ok st)

structure ReadVskResult (ν : Type) where
  manifest : Json ν
  userTables : List Text
  systemTables : List Text

/-- The result of `readVsk` and the database it leaves. Each round moves the offset, so as many
    rounds as the section has bytes are enough (`dataLoop_isSome`). -/
def readVsk (N : JsNumbers ν) (D : DuckDBHost σ) (file : Bytes) (dst : σ) (replace : Bool) :
    Except Failure (ReadVskResult ν × σ) := do
  let buf ← readFileViaSingleFd file
  let header ← readHeader (subarray buf 0 HEADER_SIZE)
  checkSection buf "manifest".toList "vsk: manifest section exceeds file bounds".toList
    header.manifestOffset header.manifestLength
  checkSection buf "data".toList "vsk: data section exceeds file bounds".toList
    header.dataOffset header.dataLength
  let manifest ← readManifest N (subarray buf header.manifestOffset
    (header.manifestOffset + header.manifestLength))
  checkVersionFence manifest
  let loaded := dataLoop D manifest replace buf (header.dataOffset + header.dataLength)
    header.dataLength { p := header.dataOffset, dst }
  let st ← loaded.getD (.error (.error []))
  .ok (⟨manifest, st.userTables, st.systemTables⟩, st.dst)

end

end Veesker.Vsk
