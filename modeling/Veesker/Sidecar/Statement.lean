/-
  File:      Veesker/Sidecar/Statement.lean
  Subject:   ONE STATEMENT (executeSingleStatement in sidecar/src/oracle.ts): its rows, drained from
             a cursor batch by batch or taken at once.

  The connection is the driver's: what it answers to `execute` and to a cursor's `getRows` is a
  parameter. The loop over the batches is bounded by a number of rounds, and has no result where
  they do not suffice.

  * `drain_capped` -- without `fetchAll` two rounds suffice, and the rows are the first batch;
  * **`paths_agree_iff`**: both paths give the same rows exactly where there are no more than 100.
-/
import Veesker.Format.JsonLine
import Veesker.Safety.Gate
import Veesker.Sidecar.Ords

namespace Veesker.Sidecar.Query

open Format Safety List

/-! ## 1. Results -/

structure QueryColumn where
  name : Text
  dataType : Text
  deriving DecidableEq

/-- What the driver gives for a cell: a number array of its own, or another value. -/
inductive Cell (ν : Type) where
  | typedArray (entries : List ν)
  | array (entries : List ν)
  | value (v : ν)
  deriving DecidableEq

def normalizeCell {ν : Type} : Cell ν → Cell ν
  | .typedArray entries => .array entries
  | v => v

abbrev Row (ν : Type) := List (Cell ν)

/-- A `QueryResult` without its `dbmsOutput`. -/
structure QueryResult (ν : Type) where
  columns : List QueryColumn
  rows : List (Row ν)
  rowCount : Nat
  elapsedMs : Int
  deriving DecidableEq

/-- What is thrown: a coded error, another one, or a value that is no error. -/
inductive Thrown where
  | coded (e : RpcCodedError)
  | error (message : Text)
  | value (text : Text)
  deriving DecidableEq

def QUERY_CANCELLED : Int := -2

def isCancelError : Thrown → Bool
  | .value _ => false
  | .coded e => includes e.message "ORA-01013".toList || includes e.message "NJS-018".toList
  | .error m => includes m "ORA-01013".toList || includes m "NJS-018".toList

/-! ## 2. The driver -/

structure ColumnMeta where
  name : Text
  dbTypeName : Option Text := none
  precision : Option Int := none
  scale : Option Int := none
  byteSize : Option Int := none
  deriving DecidableEq

def formatColumnType (m : ColumnMeta) : Text :=
  let t := toUpperCase (m.dbTypeName.getD "UNKNOWN".toList)
  if t = "NUMBER".toList then
    match m.precision, m.scale with
    | some p, some s =>
      if 0 < s then "NUMBER(".toList ++ decimalText p ++ ",".toList ++ decimalText s ++ ")".toList
      else "NUMBER(".toList ++ decimalText p ++ ")".toList
    | some p, none => "NUMBER(".toList ++ decimalText p ++ ")".toList
    | none, _ => "NUMBER".toList
  else if ["VARCHAR2".toList, "NVARCHAR2".toList, "CHAR".toList, "NCHAR".toList,
      "RAW".toList].contains t then
    match m.byteSize with
    | some n => t ++ "(".toList ++ decimalText n ++ ")".toList
    | none => t
  else if startsWith t "TIMESTAMP".toList then
    match m.scale with
    | some s => "TIMESTAMP(".toList ++ decimalText s ++ ")".toList
    | none => t
  else t

/-- What `execute` is asked for. -/
inductive ExecuteOptions where
  /-- no options -/
  | bare
  /-- `resultSet: true` -/
  | cursor
  | direct (maxRows : Nat)
  deriving DecidableEq

/-- What `execute` answers; a cursor is a `σ`. -/
structure Executed (σ ν : Type) where
  metaData : List ColumnMeta
  resultSet : Option σ := none
  rows : Option (List (Row ν)) := none
  rowsAffected : Option Nat := none

/-- A connection, for one statement. -/
structure Connection (σ ν : Type) where
  execute : ExecuteOptions → Except Thrown (Executed σ ν)
  /-- The next rows of a cursor, at most so many, and the cursor behind them. -/
  getRows : Nat → σ → Except Thrown (List (Row ν) × σ)

/-- The connection answers a query of these rows as it is documented: `maxRows` caps them, where 0
    is no cap, and a cursor gives as many of the rows that remain as it is asked for. -/
structure Connection.Answers {σ ν : Type} (conn : Connection σ ν) (rows : List (Row ν)) : Prop where
  direct : ∀ n, ∃ r, conn.execute (.direct n) = .ok r ∧
    r.rows = some (if n = 0 then rows else rows.take n) ∧ r.rowsAffected = none
  cursor : ∃ r s, conn.execute .cursor = .ok r ∧ r.resultSet = some s ∧
    ∃ remaining : σ → List (Row ν), remaining s = rows ∧
      ∀ n s, ∃ s', conn.getRows n s = .ok ((remaining s).take n, s') ∧
        remaining s' = (remaining s).drop n

/-! ## 3. The cursor -/

def QUERY_STREAM_BATCH : Nat := 200
def QUERY_PROGRESS_THROTTLE_MS : Int := 50

/-- A `query.progress` notification, without the request's id. -/
structure Progress where
  rowsFetched : Nat
  elapsedMs : Int
  deriving DecidableEq

/-- The variables of the loop. -/
structure Draining (ν : Type) where
  collected : List (Row ν) := []
  lastEmitMs : Int
  lastEmitRows : Nat := 0
  emitted : List Progress := []

def Draining.emit {ν : Type} (d : Draining ν) (started now : Int) : Draining ν :=
  if QUERY_PROGRESS_THROTTLE_MS ≤ now - d.lastEmitMs ∨
      QUERY_STREAM_BATCH ≤ d.collected.length - d.lastEmitRows then
    { d with
      lastEmitMs := now
      lastEmitRows := d.collected.length
      emitted := d.emitted ++ [⟨d.collected.length, now - started⟩] }
  else d

/-- What a call meets on its way: the clock, and whether its request has been cancelled by then. -/
structure Circumstances where
  started : Int
  ended : Int
  /-- The clock after each batch. -/
  clock : Nat → Int
  /-- Cancelled when `execute` fails. -/
  cancelledAtExecute : Bool
  /-- Cancelled before each batch. -/
  cancelled : Nat → Bool

variable {σ ν : Type}

/-- `while (true)`, in so many rounds at most; `k` have gone by. -/
def drain (conn : Connection σ ν) (c : Circumstances) (fetchAll : Bool) :
    Nat → Nat → σ → Draining ν → Option (Except Thrown (Draining ν))
  | 0, _, _, _ => none
  | rounds + 1, k, s, d =>
    if c.cancelled k then some (.ok d)
    else match conn.getRows QUERY_STREAM_BATCH s with
      | .error e => some (.error e)
      | .ok (batch, s') =>
        if batch.length = 0 then some (.ok d)
        else
          let d := { d with collected := d.collected ++ batch }.emit c.started (c.clock k)
          if fetchAll = false ∧ 100 ≤ d.collected.length then some (.ok d)
          else drain conn c fetchAll rounds (k + 1) s' d

/-! ## 4. The statement -/

/-- The way a statement takes: by its text it is PL/SQL, a SELECT, or another one. -/
inductive Path where
  | plsql | streaming | singleShot
  deriving DecidableEq

def optionsOf (fetchAll : Bool) : Path → ExecuteOptions
  | .plsql => .bare
  | .streaming => .cursor
  | .singleShot => .direct (if fetchAll then 0 else 100)

/-- Where `execute` throws. -/
def executeError (c : Circumstances) (e : Thrown) : Thrown :=
  if c.cancelledAtExecute && isCancelError e then
    .coded ⟨QUERY_CANCELLED, "Cancelled by user".toList, none⟩
  else e

/-- `executeSingleStatement`, in so many rounds over the cursor at most. -/
def executeSingleStatement (conn : Connection σ ν) (c : Circumstances) (path : Path)
    (fetchAll : Bool) (rounds : Nat) : Option (Except Thrown (QueryResult ν × List Progress)) :=
  match conn.execute (optionsOf fetchAll path) with
  | .error e => some (.error (executeError c e))
  | .ok r =>
    let columns := r.metaData.map fun m => ⟨m.name, formatColumnType m⟩
    match (if path = .streaming then r.resultSet else none) with
    | some cursor =>
      (drain conn c fetchAll rounds 0 cursor { lastEmitMs := c.started }).map fun result =>
        result.map fun d =>
          (⟨columns, d.collected.map (·.map normalizeCell), d.collected.length,
            c.ended - c.started⟩, d.emitted)
    | none =>
      let rawRows := r.rows.getD []
      let rowCount := if 0 < rawRows.length then rawRows.length else r.rowsAffected.getD 0
      some (.ok (⟨columns, rawRows.map (·.map normalizeCell), rowCount, c.ended - c.started⟩, []))

theorem emit_collected (d : Draining ν) (started now : Int) :
    (d.emit started now).collected = d.collected := by
  rw [Draining.emit]
  split <;> rfl

/-! ## 5. The rows of either path -/

variable {conn : Connection σ ν}

/-- A round over a cursor that is not cancelled. -/
theorem drain_succ {c : Circumstances} {k : Nat} {s s' : σ}
    {batch : List (Row ν)} (hrun : c.cancelled k = false)
    (hget : conn.getRows QUERY_STREAM_BATCH s = .ok (batch, s')) (fetchAll : Bool) (rounds : Nat)
    (d : Draining ν) :
    drain conn c fetchAll (rounds + 1) k s d =
      if batch.length = 0 then some (.ok d)
      else
        let d' := { d with collected := d.collected ++ batch }.emit c.started (c.clock k)
        if fetchAll = false ∧ 100 ≤ d'.collected.length then some (.ok d')
        else drain conn c fetchAll rounds (k + 1) s' d' := by
  rw [drain, hrun, if_neg Bool.false_ne_true, hget]

/-- **Without `fetchAll` the rows are those of the first batch**, after two rounds at most. -/
theorem drain_capped {c : Circumstances} {rows : List (Row ν)} {s : σ}
    (hrun : ∀ k, c.cancelled k = false) {remaining : σ → List (Row ν)} (hrows : remaining s = rows)
    (hget : ∀ n s, ∃ s', conn.getRows n s = .ok ((remaining s).take n, s') ∧
      remaining s' = (remaining s).drop n) (lastEmitMs : Int) (rounds : Nat) :
    ∃ d, drain conn c false (rounds + 2) 0 s { lastEmitMs } = some (.ok d) ∧
      d.collected = rows.take QUERY_STREAM_BATCH := by
  obtain ⟨s', hbatch, hrest⟩ := hget QUERY_STREAM_BATCH s
  rw [hrows] at hbatch hrest
  rw [drain_succ (hrun 0) hbatch]
  split
  · rename_i hempty
    exact ⟨_, rfl, (length_eq_zero_iff.mp hempty).symm⟩
  · rename_i hmore
    dsimp only
    rw [emit_collected, nil_append]
    split
    · exact ⟨_, rfl, emit_collected _ _ _⟩
    · rename_i hfew
      -- fewer than 100 rows are in one batch, the next one is empty
      have hlength : rows.length < 100 := by
        have hshort : ¬ 100 ≤ (rows.take QUERY_STREAM_BATCH).length := fun h => hfew ⟨rfl, h⟩
        rw [length_take, QUERY_STREAM_BATCH] at hshort
        omega
      have hdone : remaining s' = [] := by
        rw [hrest, drop_eq_nil_iff, QUERY_STREAM_BATCH]
        omega
      obtain ⟨s'', hbatch', -⟩ := hget QUERY_STREAM_BATCH s'
      rw [hdone, take_nil] at hbatch'
      rw [drain_succ (hrun 1) hbatch']
      exact ⟨_, rfl, emit_collected _ _ _⟩

/-- The streaming path. -/
theorem streaming_rows {rows : List (Row ν)} (h : conn.Answers rows)
    {c : Circumstances} (hrun : ∀ k, c.cancelled k = false) (rounds : Nat) :
    ∃ r, executeSingleStatement conn c .streaming false (rounds + 2) = some (.ok r) ∧
      r.1.rows = (rows.take QUERY_STREAM_BATCH).map (·.map normalizeCell) ∧
      r.1.rowCount = (rows.take QUERY_STREAM_BATCH).length := by
  obtain ⟨r, s, hexec, hset, remaining, hrows, hget⟩ := h.cursor
  obtain ⟨d, hd, hcollected⟩ := drain_capped hrun hrows hget c.started rounds
  rw [executeSingleStatement, optionsOf, hexec]
  dsimp only
  rw [if_pos rfl, hset]
  dsimp only
  rw [hd]
  exact ⟨_, rfl, by rw [← hcollected], by rw [← hcollected]⟩

/-- The other path. -/
theorem singleShot_rows {rows : List (Row ν)} (h : conn.Answers rows)
    (c : Circumstances) (rounds : Nat) :
    ∃ r, executeSingleStatement conn c .singleShot false rounds = some (.ok r) ∧
      r.1.rows = (rows.take 100).map (·.map normalizeCell) ∧
      r.1.rowCount = (rows.take 100).length := by
  obtain ⟨r, hexec, hrows, haffected⟩ := h.direct 100
  rw [if_neg (by decide)] at hrows
  rw [executeSingleStatement, optionsOf, if_neg Bool.false_ne_true, hexec]
  dsimp only
  rw [if_neg (by decide), hrows, haffected]
  refine ⟨_, rfl, rfl, ?_⟩
  simp only [Option.getD_some, Option.getD_none]
  split <;> omega

/-- **Both paths give the same rows, and count them alike**, exactly where the query has no more
    than 100. -/
theorem paths_agree_iff (conn : Connection σ ν) (rows : List (Row ν)) (h : conn.Answers rows)
    (c : Circumstances) (hrun : ∀ k, c.cancelled k = false) (rounds : Nat) :
    ∃ r r', executeSingleStatement conn c .streaming false (rounds + 2) = some (.ok r) ∧
      executeSingleStatement conn c .singleShot false (rounds + 2) = some (.ok r') ∧
      (r.1.rows = r'.1.rows ∧ r.1.rowCount = r'.1.rowCount ↔ rows.length ≤ 100) := by
  obtain ⟨r, hr, hrows, hcount⟩ := streaming_rows h hrun rounds
  obtain ⟨r', hr', hrows', hcount'⟩ := singleShot_rows h c (rounds + 2)
  refine ⟨r, r', hr, hr', ?_⟩
  rw [hrows, hrows', hcount, hcount', length_take, length_take, QUERY_STREAM_BATCH]
  constructor
  · intro heq
    have := heq.2
    omega
  · intro hle
    rw [take_of_length_le (by omega), take_of_length_le hle]
    exact ⟨rfl, by omega⟩

/-! ## 6. Queries to try it with -/

/-- A connection on which the query has these rows; a cursor is the rows that remain. -/
def answering (rows : List (Row Nat)) : Connection (List (Row Nat)) Nat where
  execute
    | .cursor => .ok { metaData := [], resultSet := some rows }
    | .direct n => .ok { metaData := [], rows := some (if n = 0 then rows else rows.take n) }
    | .bare => .ok { metaData := [], rows := some rows }
  getRows n s := .ok (s.take n, s.drop n)

theorem answering_answers (rows : List (Row Nat)) : (answering rows).Answers rows where
  direct _ := ⟨_, rfl, rfl, rfl⟩
  cursor := ⟨_, rows, rfl, rfl, id, rfl, fun _ _ => ⟨_, rfl, rfl⟩⟩

/-- Nobody cancels, and no time goes by. -/
def undisturbed : Circumstances where
  started := 0
  ended := 0
  clock _ := 0
  cancelledAtExecute := false
  cancelled _ := false

theorem paths_agree_two :
    ∃ r r', executeSingleStatement (answering [[.value 1], [.value 2]]) undisturbed .streaming false 2 =
        some (.ok r) ∧
      executeSingleStatement (answering [[.value 1], [.value 2]]) undisturbed .singleShot false 2 =
        some (.ok r') ∧
      r.1.rows = r'.1.rows := by
  obtain ⟨r, r', hr, hr', hiff⟩ := paths_agree_iff (answering [[.value 1], [.value 2]]) _
    (answering_answers _) undisturbed (fun _ => rfl) 0
  exact ⟨r, r', hr, hr', (hiff.mpr (by decide)).1⟩

/-- **A query of 150 rows**: all of them on the streaming path, 100 on the other. -/
theorem streams_beyond_cap :
    ∃ rows : List (Row Nat), rows.length = 150 ∧ (answering rows).Answers rows ∧
      ∃ r r', executeSingleStatement (answering rows) undisturbed .streaming false 2 = some (.ok r) ∧
        executeSingleStatement (answering rows) undisturbed .singleShot false 2 = some (.ok r') ∧
        r.1.rowCount = 150 ∧ r'.1.rowCount = 100 ∧ r.1.rows ≠ r'.1.rows := by
  have hlength : (List.replicate 150 ([.value 0] : Row Nat)).length = 150 := length_replicate
  have hanswers := answering_answers (List.replicate 150 [.value 0])
  refine ⟨List.replicate 150 [.value 0], hlength, hanswers, ?_⟩
  obtain ⟨r, hr, hrows, hcount⟩ := streaming_rows hanswers
    (fun _ => rfl : ∀ k, undisturbed.cancelled k = false) 0
  obtain ⟨r', hr', hrows', hcount'⟩ := singleShot_rows hanswers undisturbed 2
  rw [length_take, hlength] at hcount hcount'
  refine ⟨r, r', hr, hr', hcount, hcount', fun heq => ?_⟩
  have hlengths := congrArg List.length heq
  rw [hrows, hrows', length_map, length_map, length_take, length_take, hlength,
    QUERY_STREAM_BATCH] at hlengths
  omega

end Veesker.Sidecar.Query
