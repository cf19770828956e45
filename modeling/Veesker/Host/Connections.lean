/-
  File:      Veesker/Host/Connections.lean
  Subject:   THE CONNECTIONS THE HOST KEEPS (src-tauri/src/persistence/connections.rs, store.rs): what
             is asked for, what is checked of it, the row it becomes, and the table of the rows.

  * `assemble_prod` -- a row for prod has the air gap and PSDPM on.
  * `update_other`, `update_self` -- what an update does to the table.
-/
import Veesker.Text.Rust

namespace Veesker.Host

/-! ## 1. What is asked for -/

inductive AuthType where
  | basic
  | wallet
  deriving DecidableEq

structure ConnectionSafetyInput where
  env : Option Text := none
  readOnly : Bool := false
  statementTimeoutMs : Option Nat := none
  warnUnsafeDml : Bool := false
  autoPerfAnalysis : Bool := true
  airgapMode : Option Bool := none
  psdpmMode : Option Bool := none
  autoExplainMode : Option Text := none
  deriving DecidableEq

inductive ConnectionInput where
  | basic (id : Option Text) (name host : Text) (port : UInt16) (serviceName username password : Text)
      (safety : ConnectionSafetyInput)
  | wallet (id : Option Text) (name : Text) (walletZipPath : Option Text)
      (walletPassword connectAlias username password : Text) (safety : ConnectionSafetyInput)
  deriving DecidableEq

def ConnectionInput.id : ConnectionInput → Option Text
  | .basic id .. => id
  | .wallet id .. => id

def ConnectionInput.authType : ConnectionInput → AuthType
  | .basic .. => .basic
  | .wallet .. => .wallet

def ConnectionInput.safety : ConnectionInput → ConnectionSafetyInput
  | .basic _ _ _ _ _ _ _ safety => safety
  | .wallet _ _ _ _ _ _ _ safety => safety

structure ConnectionRow where
  id : Text
  name : Text
  authType : AuthType
  host : Option Text
  port : Option UInt16
  serviceName : Option Text
  connectAlias : Option Text
  username : Text
  createdAt : Text
  updatedAt : Text
  env : Option Text
  readOnly : Bool
  statementTimeoutMs : Option Nat
  warnUnsafeDml : Bool
  autoPerfAnalysis : Bool
  airgapMode : Bool
  psdpmMode : Bool
  autoExplainMode : Text
  deriving DecidableEq

structure ConnectionError where
  code : Int
  message : Text
  deriving DecidableEq

def ConnectionError.notFound : ConnectionError := ⟨404, "connection not found".toList⟩

def ConnectionError.conflict (message : Text) : ConnectionError := ⟨409, message⟩

def ConnectionError.invalid (message : Text) : ConnectionError := ⟨400, message⟩

def ConnectionError.internal (message : Text) : ConnectionError := ⟨500, message⟩

/-! ## 2. What is checked of it -/

/-- `str::len`. -/
def utf8Len (s : Text) : Nat := (s.map Char.utf8Size).sum

/-- `char::is_control`: the category Cc. -/
def isControl (c : Char) : Bool := decide (c.toNat < 32) || decide (127 ≤ c.toNat ∧ c.toNat < 160)

/-- The characters a host must not have. -/
def invalidChars : List Char :=
  ['(', ')', '?', '=', '/', '\\', ' ', '\t', '\n', '"', '\'', '@', '&', '%']

def validateHost (host : Text) : Except ConnectionError Unit :=
  if Rust.isBlank host then .error (.invalid "host is required".toList)
  else if 253 < utf8Len host then .error (.invalid "host too long (max 253 chars)".toList)
  else if host.any fun c => invalidChars.contains c || isControl c then
    .error (.invalid ("host contains invalid characters (allowed: letters, digits, hyphens, ".toList ++
      "dots, colons, brackets for IPv6)".toList))
  else .ok ()

/-- `c.is_ascii_alphanumeric() || c == '_' || c == '.' || c == '-'`. -/
def isNameChar (c : Char) : Bool := c.isAlphanum || c == '_' || c == '.' || c == '-'

/-- A service name and a connect alias are checked alike, but for what they are called. -/
def validateName (what : Text) (s : Text) : Except ConnectionError Unit :=
  if Rust.isBlank s then .error (.invalid (what ++ " is required".toList))
  else if 128 < utf8Len s then .error (.invalid (what ++ " too long (max 128 chars)".toList))
  else if !s.all isNameChar then
    .error (.invalid (what ++
      " contains invalid characters (allowed: letters, digits, underscore, dot, hyphen)".toList))
  else .ok ()

def validateServiceName (svc : Text) : Except ConnectionError Unit :=
  validateName "service name".toList svc

def validateConnectAlias (alias' : Text) : Except ConnectionError Unit :=
  validateName "connect alias".toList alias'

def dev : Text := "dev".toList
def staging : Text := "staging".toList
def prod : Text := "prod".toList
def «local» : Text := "local".toList

def validateEnv : Option Text → Except ConnectionError Unit
  | some env =>
    if [dev, staging, prod, «local»].contains env then .ok ()
    else .error (.invalid ("env '".toList ++ env ++
      "' is not valid; must be dev / staging / prod / local".toList))
  | none => .error (.invalid "env is required — set dev / staging / prod / local before saving".toList)

def required (what s : Text) : Except ConnectionError Unit :=
  if Rust.isBlank s then .error (.invalid (what ++ " is required".toList)) else .ok ()

/-- A secret may be left out only where the connection is there already. -/
def requiredSecret (what secret : Text) (id : Option Text) : Except ConnectionError Unit :=
  if secret.isEmpty && id.isNone then .error (.invalid (what ++ " is required".toList)) else .ok ()

/-- The checks of `save` before anything is read. -/
def validateInput : ConnectionInput → Except ConnectionError Unit
  | .basic id name host _ serviceName username password safety => do
    required "name".toList name
    validateHost host
    validateServiceName serviceName
    required "username".toList username
    requiredSecret "password".toList password id
    validateEnv safety.env
  | .wallet id name _ walletPassword connectAlias username password safety => do
    required "name".toList name
    required "username".toList username
    requiredSecret "password".toList password id
    requiredSecret "wallet password".toList walletPassword id
    validateConnectAlias connectAlias
    validateEnv safety.env

/-! ## 3. The row -/

def resolveAirgapDefault (env : Option Text) (explicit : Option Bool) : Bool :=
  if env = some prod then true else explicit.getD false

def defaultPsdpmForEnv (env : Option Text) : Bool := env == some prod || env == some staging

def resolvePsdpmDefault (env : Option Text) (explicit : Option Bool) : Bool :=
  if env = some prod then true else explicit.getD (defaultPsdpmForEnv env)

def resolveAutoExplainDefault (env explicit : Option Text) : Text :=
  match explicit.filter ["manual".toList, "always".toList, "when_dml".toList].contains with
  | some v => v
  | none =>
    if env = some staging ∨ env = some prod then "when_dml".toList else "manual".toList

/-- The environment may stay, be set for the first time, or go up to prod. -/
def envChange (existing env : Option Text) : Except ConnectionError Unit :=
  if existing = env then .ok ()
  else if existing = none then .ok ()
  else if (existing = some dev ∨ existing = some staging ∨ existing = some «local») ∧
      env = some prod then .ok ()
  else if existing = some prod then
    .error (.invalid "env cannot be changed from prod — delete and recreate the connection".toList)
  else .error (.invalid ("only upgrading to prod is allowed — delete and recreate to switch between ".toList
    ++ "non-prod envs".toList))

/-- What the two `assemble_*_row` share; `row` has the fields that the auth type decides. -/
def assembleRow (row : ConnectionRow) (id : Option Text) (existing : Option ConnectionRow)
    (safety : ConnectionSafetyInput) : Except ConnectionError ConnectionRow :=
  let row := { row with
    env := safety.env
    readOnly := safety.readOnly
    statementTimeoutMs := safety.statementTimeoutMs
    warnUnsafeDml := safety.warnUnsafeDml
    autoPerfAnalysis := safety.autoPerfAnalysis
    airgapMode := resolveAirgapDefault safety.env safety.airgapMode
    psdpmMode := resolvePsdpmDefault safety.env safety.psdpmMode
    autoExplainMode := resolveAutoExplainDefault safety.env safety.autoExplainMode }
  match id with
  | none => .ok row
  | some _ =>
    match existing with
    | none => .error .notFound
    | some existing =>
      if existing.authType ≠ row.authType then
        .error (.invalid "cannot change auth type — delete and recreate the connection".toList)
      else do
        envChange existing.env safety.env
        .ok { row with id := existing.id, createdAt := existing.createdAt }

/-- `assemble_basic_row` or `assemble_wallet_row`: `newId` is the fresh UUID, `existing` what the
    table has under the id. -/
def ConnectionInput.assemble (newId now : Text) (existing : Option ConnectionRow) :
    ConnectionInput → Except ConnectionError ConnectionRow
  | .basic id name host port serviceName username _ safety =>
    assembleRow ⟨newId, name, .basic, some host, some port, some serviceName, none, username, now, now,
      none, false, none, false, false, false, false, []⟩ id existing safety
  | .wallet id name _ _ connectAlias username _ safety =>
    assembleRow ⟨newId, name, .wallet, none, none, none, some connectAlias, username, now, now,
      none, false, none, false, false, false, false, []⟩ id existing safety

/-! ## 4. The table -/

inductive StoreError where
  | notFound
  | conflict (message : Text)
  | sqlite (error : Text)
  deriving DecidableEq

def ConnectionError.ofStore : StoreError → ConnectionError
  | .notFound => .notFound
  | .conflict m => .conflict m
  | .sqlite e => .internal ("sqlite: ".toList ++ e)

/-- `LOWER(name)`, of ASCII letters. -/
def lowerName (row : ConnectionRow) : Text := row.name.map Char.toLower

def nameInUse (row : ConnectionRow) : StoreError :=
  .conflict ("name '".toList ++ row.name ++ "' already in use".toList)

/-- `store::get`. -/
def get (rows : List ConnectionRow) (id : Text) : Option ConnectionRow :=
  rows.find? fun r => r.id == id

/-- `store::create`. -/
def create (rows : List ConnectionRow) (row : ConnectionRow) :
    Except StoreError (List ConnectionRow) :=
  if rows.any fun r => r.id == row.id || lowerName r == lowerName row then .error (nameInUse row)
  else .ok (rows ++ [row])

/-- `store::update`. -/
def update (rows : List ConnectionRow) (row : ConnectionRow) :
    Except StoreError (List ConnectionRow) :=
  if (get rows row.id).isNone then .error .notFound
  else if rows.any fun r => r.id != row.id && lowerName r == lowerName row then
    .error (nameInUse row)
  else .ok (rows.map fun r => if r.id = row.id then { row with createdAt := r.createdAt } else r)

/-- `store::delete`. -/
def delete (rows : List ConnectionRow) (id : Text) : Except StoreError (List ConnectionRow) :=
  if (get rows id).isNone then .error .notFound else .ok (rows.filter fun r => r.id != id)

/-! ## 5. What a save makes of a row -/

/-- What prod stands for. -/
def ConnectionRow.Hardened (row : ConnectionRow) : Prop :=
  row.env = some prod → row.airgapMode = true ∧ row.psdpmMode = true

theorem assembleRow_env {row row' : ConnectionRow} {id : Option Text} {existing : Option ConnectionRow}
    {safety : ConnectionSafetyInput} (h : assembleRow row id existing safety = .ok row') :
    row'.env = safety.env ∧ row'.airgapMode = resolveAirgapDefault safety.env safety.airgapMode ∧
      row'.psdpmMode = resolvePsdpmDefault safety.env safety.psdpmMode ∧
      row'.id = (if id.isNone then row.id else (existing.map ConnectionRow.id).getD []) ∧
      row'.authType = row.authType ∧ row'.host = row.host ∧ row'.port = row.port ∧
      row'.serviceName = row.serviceName ∧ row'.connectAlias = row.connectAlias := by
  cases id with
  | none =>
    cases h
    exact ⟨rfl, rfl, rfl, rfl, rfl, rfl, rfl, rfl, rfl⟩
  | some id =>
    cases existing with
    | none => cases h
    | some existing =>
      simp only [assembleRow] at h
      split at h
      · cases h
      cases hchange : envChange existing.env safety.env with
      | error e =>
        rw [hchange] at h
        cases h
      | ok u =>
        rw [hchange] at h
        cases h
        exact ⟨rfl, rfl, rfl, rfl, rfl, rfl, rfl, rfl, rfl⟩

/-- **A row for prod has the air gap and PSDPM on, whatever was asked for.** -/
theorem assemble_prod {input : ConnectionInput} {newId now : Text} {existing : Option ConnectionRow}
    {row : ConnectionRow} (h : input.assemble newId now existing = .ok row) : row.Hardened := by
  have hresolve : ∀ safety : ConnectionSafetyInput, safety.env = some prod →
      resolveAirgapDefault safety.env safety.airgapMode = true ∧
        resolvePsdpmDefault safety.env safety.psdpmMode = true := fun safety he =>
    ⟨if_pos he, if_pos he⟩
  intro henv
  cases input with
  | basic =>
    obtain ⟨he, ha, hp, -⟩ := assembleRow_env h
    rw [ha, hp]
    exact hresolve _ (he.symm.trans henv)
  | wallet =>
    obtain ⟨he, ha, hp, -⟩ := assembleRow_env h
    rw [ha, hp]
    exact hresolve _ (he.symm.trans henv)

/-! ## 6. What is in the table after -/

variable {rows rows' : List ConnectionRow} {row : ConnectionRow} {id : Text}

theorem get_id {stored : ConnectionRow} (h : get rows id = some stored) : stored.id = id :=
  beq_iff_eq.mp (List.find?_some (p := fun r : ConnectionRow => r.id == id) h)

theorem find_map {f : ConnectionRow → ConnectionRow} (hf : ∀ r, (f r).id = r.id) :
    get (rows.map f) id = (get rows id).map f := by
  rw [get, get, List.find?_map]
  congr 1
  refine congrArg (fun p => List.find? p rows) (funext fun r => ?_)
  exact congrArg (· == id) (hf r)

theorem update_ok (h : update rows row = .ok rows') : (get rows row.id).isSome = true ∧
    rows' = rows.map fun r => if r.id = row.id then { row with createdAt := r.createdAt } else r := by
  rw [update] at h
  split at h
  · cases h
  rename_i hsome
  split at h
  · cases h
  · refine ⟨?_, (Except.ok.inj h).symm⟩
    rw [Bool.not_eq_true, Option.isNone_eq_false_iff] at hsome
    exact hsome

theorem get_update (h : update rows row = .ok rows') : get rows' id = (get rows id).map fun r =>
    if r.id = row.id then { row with createdAt := r.createdAt } else r := by
  rw [(update_ok h).2]
  refine find_map fun r => ?_
  split
  · rename_i he
    exact he.symm
  · rfl

/-- **An update writes its row.** -/
theorem update_self (h : update rows row = .ok rows') :
    ∃ old, get rows row.id = some old ∧
      get rows' row.id = some { row with createdAt := old.createdAt } := by
  obtain ⟨old, hold⟩ := Option.isSome_iff_exists.mp (update_ok h).1
  refine ⟨old, hold, ?_⟩
  rw [get_update h, hold, Option.map_some, if_pos (get_id hold)]

/-- **And no other.** -/
theorem update_other (h : update rows row = .ok rows') (hid : id ≠ row.id) :
    get rows' id = get rows id := by
  rw [get_update h]
  cases hg : get rows id with
  | none => rfl
  | some r => rw [Option.map_some, if_neg ((get_id hg).symm ▸ hid)]

theorem create_ok (h : create rows row = .ok rows') :
    get rows row.id = none ∧ rows' = rows ++ [row] := by
  rw [create] at h
  split at h
  · cases h
  rename_i hnone
  refine ⟨List.find?_eq_none.mpr fun r hr he => hnone ?_, (Except.ok.inj h).symm⟩
  exact List.any_eq_true.mpr ⟨r, hr, by rw [he, Bool.true_or]⟩

theorem create_self (h : create rows row = .ok rows') : get rows' row.id = some row := by
  obtain ⟨hnone, rfl⟩ := create_ok h
  rw [get, List.find?_append, ← get, hnone, Option.none_or, List.find?_singleton, if_pos BEq.rfl]

theorem create_other (h : create rows row = .ok rows') (hid : id ≠ row.id) :
    get rows' id = get rows id := by
  obtain ⟨-, rfl⟩ := create_ok h
  have hne : (row.id == id) = false := beq_eq_false_iff_ne.mpr hid.symm
  rw [get, get, List.find?_append, List.find?_singleton, hne, if_neg Bool.false_ne_true,
    Option.or_none]

theorem delete_other {gone : Text} (h : delete rows gone = .ok rows') (hid : id ≠ gone) :
    get rows' id = get rows id := by
  rw [delete] at h
  split at h
  · cases h
  cases h
  rw [get, get, List.find?_filter]
  refine congrArg (fun p => List.find? p rows) (funext fun r => ?_)
  by_cases hr : r.id = id
  · simp [hr, hid]
  · simp [hr]

end Veesker.Host
