/-
  File:      Veesker/Command/Directives.lean
  Subject:   THE STATE OF COMMAND MODE (src/lib/command/state.svelte.ts) AND ITS DIRECTIVES
             (src/lib/command/executor.ts `handleSet`, `handleShow`, `handleDefine`, ...).

  The handlers read and write settings, defines, the spool path and the transcript; none of them
  touches the script depth (`KeepsDepth`).
-/
import Veesker.Command.Parser
import Veesker.Vsk.Host

namespace Veesker.Command

open Vsk (natText)

/-! ## 1. Settings -/

/-- A key of `CommandSettings`. -/
inductive SettingKey where
  | linesize | pagesize | feedback | heading | timing | serveroutput | null | colsep | numformat
  | echo | define | termout
  deriving DecidableEq

structure CommandSettings where
  linesize : Nat := 80
  pagesize : Nat := 14
  feedback : Bool := true
  heading : Bool := true
  timing : Bool := false
  serveroutput : Bool := true
  null : Text := []
  colsep : Text := [' ']
  numformat : Text := []
  echo : Bool := false
  define : Bool := true
  termout : Bool := true
  deriving DecidableEq

/-- `SETTING_ALIASES`. -/
def settingAliases : List (Text × SettingKey) :=
  [("LINESIZE".toList, .linesize), ("LIN".toList, .linesize), ("PAGESIZE".toList, .pagesize),
   ("PAGES".toList, .pagesize), ("FEEDBACK".toList, .feedback), ("FEED".toList, .feedback),
   ("HEADING".toList, .heading), ("HEA".toList, .heading), ("TIMING".toList, .timing),
   ("TIMI".toList, .timing), ("SERVEROUTPUT".toList, .serveroutput),
   ("SEVEROUTPUT".toList, .serveroutput), ("NULL".toList, .null), ("COLSEP".toList, .colsep),
   ("NUMFORMAT".toList, .numformat), ("NUMF".toList, .numformat), ("ECHO".toList, .echo),
   ("DEFINE".toList, .define), ("DEF".toList, .define), ("TERMOUT".toList, .termout),
   ("TERM".toList, .termout)]

/-- `SETTING_DISPLAY_ORDER`. -/
def settingDisplayOrder : List SettingKey :=
  [.linesize, .pagesize, .feedback, .heading, .timing, .serveroutput, .null, .colsep, .numformat,
   .echo, .define, .termout]

def settingLabel : SettingKey → Text
  | .linesize => "linesize".toList
  | .pagesize => "pagesize".toList
  | .feedback => "feedback".toList
  | .heading => "heading".toList
  | .timing => "timing".toList
  | .serveroutput => "serveroutput".toList
  | .null => "null".toList
  | .colsep => "colsep".toList
  | .numformat => "numformat".toList
  | .echo => "echo".toList
  | .define => "define".toList
  | .termout => "termout".toList

def parseOnOff (raw : Text) : Option Bool :=
  let v := toUpperCase (trim raw)
  if v = "ON".toList then some true else if v = "OFF".toList then some false else none

def stripQuotes (raw : Text) : Text :=
  let t := trim raw
  if 2 ≤ t.length ∧ (t.head? = some '"' ∧ t.getLast? = some '"' ∨
      t.head? = some '\'' ∧ t.getLast? = some '\'') then (t.drop 1).dropLast
  else t

def onOff (b : Bool) : Text := if b then "ON".toList else "OFF".toList

def renderSettingValue (key : SettingKey) (s : CommandSettings) : Text :=
  match key with
  | .linesize => natText s.linesize
  | .pagesize => natText s.pagesize
  | .feedback => onOff s.feedback
  | .heading => onOff s.heading
  | .timing => onOff s.timing
  | .serveroutput => onOff s.serveroutput
  | .null => s.null
  | .colsep => s.colsep
  | .numformat => s.numformat
  | .echo => onOff s.echo
  | .define => onOff s.define
  | .termout => onOff s.termout

/-- `Number.parseInt(s, 10)`. -/
def parseInt (s : Text) : Option Int :=
  let t := trimStart s
  let body := if t.head? = some '-' ∨ t.head? = some '+' then t.drop 1 else t
  let digits := body.takeWhile Char.isDigit
  if digits = [] then none
  else
    let n : Int := Nat.ofDigitChars 10 digits 0
    some (if t.head? = some '-' then -n else n)

def intText (n : Int) : Text := if n < 0 then '-' :: natText n.natAbs else natText n.natAbs

/-! ## 2. The state -/

inductive Origin where
  | userTyped | script
  deriving DecidableEq

inductive TranscriptEntry where
  | echo (text : Text)
  | sqlResult (text : Text) (rowCount elapsedMs : Nat)
  | plsqlResult (text : Text) (elapsedMs : Nat)
  | dbmsOutput (text : Text)
  | error (code message : Text)
  | info (text : Text)
  deriving DecidableEq

/-- `CommandHistoryEntry`. -/
structure HistoryEntry where
  id : Nat
  connectionId : Text
  ts : Nat
  command : Text
  origin : Origin
  ok : Bool
  durationMs : Option Nat
  deriving DecidableEq

/-- `CommandModeState`, as far as the executor reads and writes it. -/
structure CommandModeState where
  settings : CommandSettings := {}
  transcript : List TranscriptEntry := []
  history : List HistoryEntry := []
  busy : Bool := false
  spoolPath : Option Text := none
  defines : List (Text × Text) := []
  scriptDepth : Nat := 0
  deriving DecidableEq

namespace CommandModeState

/-- `MAX_TRANSCRIPT` and `MAX_HISTORY`. -/
def maxTranscript : Nat := 5000

def maxHistory : Nat := 1000

/-- `l.slice(-n)`. -/
def lastOf {α : Type} (n : Nat) (l : List α) : List α := (l.reverse.take n).reverse

def appendTranscript (s : CommandModeState) (e : TranscriptEntry) : CommandModeState :=
  { s with transcript := lastOf maxTranscript (s.transcript ++ [e]) }

def appendHistory (s : CommandModeState) (e : HistoryEntry) : CommandModeState :=
  { s with history := lastOf maxHistory (s.history ++ [e]) }

def clear (s : CommandModeState) : CommandModeState := { s with transcript := [] }

def pushInfo (s : CommandModeState) (text : Text) : CommandModeState :=
  s.appendTranscript (.info text)

def pushError (s : CommandModeState) (code message : Text) : CommandModeState :=
  s.appendTranscript (.error code message)

/-- `setSetting` for one of the two numbers. -/
def setNumber (s : CommandModeState) (key : SettingKey) (n : Int) : CommandModeState :=
  match key with
  | .linesize => { s with settings := { s.settings with linesize := n.toNat } }
  | .pagesize => { s with settings := { s.settings with pagesize := n.toNat } }
  | _ => s

/-- `setSetting` for one of the switches. -/
def setSwitch (s : CommandModeState) (key : SettingKey) (b : Bool) : CommandModeState :=
  match key with
  | .feedback => { s with settings := { s.settings with feedback := b } }
  | .heading => { s with settings := { s.settings with heading := b } }
  | .timing => { s with settings := { s.settings with timing := b } }
  | .serveroutput => { s with settings := { s.settings with serveroutput := b } }
  | .echo => { s with settings := { s.settings with echo := b } }
  | .define => { s with settings := { s.settings with define := b } }
  | .termout => { s with settings := { s.settings with termout := b } }
  | _ => s

/-- `setSetting` for one of the texts. -/
def setText (s : CommandModeState) (key : SettingKey) (t : Text) : CommandModeState :=
  match key with
  | .null => { s with settings := { s.settings with null := t } }
  | .colsep => { s with settings := { s.settings with colsep := t } }
  | .numformat => { s with settings := { s.settings with numformat := t } }
  | _ => s

/-! ## 3. Directives -/

/-- `handleSet`, behind the look-up of the key, for `NUMERIC_KEYS`. -/
def setNumeric (s : CommandModeState) (key : SettingKey) (valueArg : Text) : CommandModeState :=
  match parseInt (trim valueArg) with
  | none =>
    s.pushError "SP2-0268".toList
      (settingLabel key ++ " option ".toList ++ valueArg ++ " not a valid number".toList)
  | some n =>
    if key = .linesize ∧ (n < 1 ∨ 32767 < n) then
      s.pushError "SP2-0267".toList
        ("linesize option ".toList ++ intText n ++ " out of range (1 .. 32767)".toList)
    else if key = .pagesize ∧ (n < 0 ∨ 50000 < n) then
      s.pushError "SP2-0267".toList
        ("pagesize option ".toList ++ intText n ++ " out of range (0 .. 50000)".toList)
    else s.setNumber key n

/-- `handleSet`, for `ON_OFF_KEYS`. -/
def setOnOff (s : CommandModeState) (key : SettingKey) (valueArg : Text) : CommandModeState :=
  match parseOnOff valueArg with
  | none => s.pushError "SP2-0265".toList (settingLabel key ++ " must be set to ON or OFF".toList)
  | some b => s.setSwitch key b

def handleSet (s : CommandModeState) (args : List Text) : CommandModeState :=
  match args with
  | [] => s.pushError "SP2-0158".toList "missing SET option".toList
  | rawKey :: values =>
    let valueArg := [' '].intercalate values
    match settingAliases.lookup (toUpperCase rawKey) with
    | none =>
      s.pushError "SP2-0158".toList ("unknown SHOW option \"".toList ++ rawKey ++ ['"'])
    | some .linesize => s.setNumeric .linesize valueArg
    | some .pagesize => s.setNumeric .pagesize valueArg
    | some .null => s.setText .null (stripQuotes valueArg)
    | some .colsep => s.setText .colsep (stripQuotes valueArg)
    | some .numformat => s.setText .numformat (stripQuotes valueArg)
    | some key => s.setOnOff key valueArg

/-- A line of SHOW. -/
def settingLine (s : CommandModeState) (key : SettingKey) : Text :=
  settingLabel key ++ [' '] ++ renderSettingValue key s.settings ++ ['\n']

def defineLine (name value : Text) : Text :=
  "DEFINE ".toList ++ name ++ " = \"".toList ++ value ++ "\"\n".toList

def handleDefine (s : CommandModeState) (args : List Text) : CommandModeState :=
  match args with
  | [] =>
    let keys := s.defines.mergeSort fun a b => decide (a.1 ≤ b.1)
    s.pushInfo (keys.flatMap fun d => defineLine d.1 d.2)
  | [name] =>
    match s.defines.lookup name with
    | none =>
      s.pushError "SP2-0135".toList ("symbol ".toList ++ name ++ " is UNDEFINED".toList)
    | some value => s.pushInfo (defineLine name value)
  | name :: value :: _ =>
    { s with defines := (s.defines.filter fun d => d.1 != name) ++ [(name, value)] }

def handleUndefine (s : CommandModeState) (args : List Text) : CommandModeState :=
  if args = [] then s.pushError "SP2-0158".toList "missing variable name for UNDEFINE".toList
  else { s with defines := s.defines.filter fun d => !args.contains d.1 }

def handleClear (s : CommandModeState) (args : List Text) : CommandModeState :=
  let target := toUpperCase (args.headD [])
  if target = [] ∨ target = "SCREEN".toList ∨ target = "SCR".toList then s.clear
  else if target = "BUFFER".toList ∨ target = "BUFF".toList then s
  else s.pushError "SP2-0042".toList ("unknown CLEAR target \"".toList ++ args.headD [] ++ ['"'])

def handleSpool (s : CommandModeState) (args : List Text) : CommandModeState :=
  let target := trim (args.headD [])
  if target = [] ∨ toUpperCase target = "OFF".toList then
    { s with spoolPath := none }.pushInfo "Spool off\n".toList
  else
    { s with spoolPath := some target }.pushInfo ("Spool started: ".toList ++ target ++
      "\nSPOOL file output deferred to D.3 (state-only for now)\n".toList)

/-! ## 4. The script depth -/

@[simp] theorem appendTranscript_scriptDepth (s : CommandModeState) (e : TranscriptEntry) :
    (s.appendTranscript e).scriptDepth = s.scriptDepth := by
  simp only [appendTranscript]

@[simp] theorem appendHistory_scriptDepth (s : CommandModeState) (e : HistoryEntry) :
    (s.appendHistory e).scriptDepth = s.scriptDepth := by
  simp only [appendHistory]

@[simp] theorem pushInfo_scriptDepth (s : CommandModeState) (text : Text) :
    (s.pushInfo text).scriptDepth = s.scriptDepth := s.appendTranscript_scriptDepth _

@[simp] theorem pushError_scriptDepth (s : CommandModeState) (code message : Text) :
    (s.pushError code message).scriptDepth = s.scriptDepth :=
  s.appendTranscript_scriptDepth _

@[simp] theorem setNumber_scriptDepth (s : CommandModeState) (key : SettingKey) (n : Int) :
    (s.setNumber key n).scriptDepth = s.scriptDepth := by
  cases key <;> rfl

@[simp] theorem setSwitch_scriptDepth (s : CommandModeState) (key : SettingKey) (b : Bool) :
    (s.setSwitch key b).scriptDepth = s.scriptDepth := by
  cases key <;> rfl

@[simp] theorem setText_scriptDepth (s : CommandModeState) (key : SettingKey) (t : Text) :
    (s.setText key t).scriptDepth = s.scriptDepth := by
  cases key <;> rfl

@[simp] theorem setNumeric_scriptDepth (s : CommandModeState) (key : SettingKey) (valueArg : Text) :
    (s.setNumeric key valueArg).scriptDepth = s.scriptDepth := by
  unfold setNumeric
  split
  · exact pushError_scriptDepth s _ _
  · split
    · exact pushError_scriptDepth s _ _
    · split
      · exact pushError_scriptDepth s _ _
      · exact setNumber_scriptDepth s key _

@[simp] theorem setOnOff_scriptDepth (s : CommandModeState) (key : SettingKey) (valueArg : Text) :
    (s.setOnOff key valueArg).scriptDepth = s.scriptDepth := by
  unfold setOnOff
  split
  · exact pushError_scriptDepth s _ _
  · exact setSwitch_scriptDepth s key _

/-- A handler that leaves the script depth alone. -/
def KeepsDepth (f : CommandModeState → List Text → CommandModeState) : Prop :=
  ∀ s args, (f s args).scriptDepth = s.scriptDepth

theorem handleSet_keeps : KeepsDepth handleSet := by
  intro s args
  cases args with
  | nil => exact pushError_scriptDepth s _ _
  | cons rawKey values =>
    rw [handleSet]
    cases settingAliases.lookup (toUpperCase rawKey) with
    | none => exact pushError_scriptDepth s _ _
    | some key => cases key <;> simp only [setNumeric_scriptDepth, setOnOff_scriptDepth,
        setText_scriptDepth]

theorem handleDefine_keeps : KeepsDepth handleDefine := by
  intro s args
  match args with
  | [] => exact pushInfo_scriptDepth s _
  | [name] =>
    rw [handleDefine]
    cases s.defines.lookup name with
    | none => exact pushError_scriptDepth s _ _
    | some value => exact pushInfo_scriptDepth s _
  | name :: value :: _ => rfl

theorem handleUndefine_keeps : KeepsDepth handleUndefine := by
  intro s args
  unfold handleUndefine
  split
  · exact pushError_scriptDepth s _ _
  · rfl

theorem handleClear_keeps : KeepsDepth handleClear := by
  intro s args
  simp only [handleClear]
  split
  · rfl
  · split
    · rfl
    · exact pushError_scriptDepth s _ _

theorem handleSpool_keeps : KeepsDepth handleSpool := by
  intro s args
  simp only [handleSpool]
  split
  · exact pushInfo_scriptDepth _ _
  · exact pushInfo_scriptDepth _ _

end CommandModeState

end Veesker.Command
