/-
  File:      Veesker/Host/Save.lean
  Subject:   A SAVE THAT FAILS (ConnectionService::save in
             src-tauri/src/persistence/connections.rs): what it leaves of the connection's row, its
             two secrets and its wallet directory, with a failure at every operation.

  The stores are written one after the other: the wallet directory, the row, the password, the
  wallet password. Nothing is taken back when a later one fails.

  * **`failed_keeps_iff`** -- a failing save leaves the connection as it was exactly if what it had
    written until then was there before;
  * `half_saved` -- a new connection whose password the keychain refuses stays in the table.
-/
import Veesker.Host.SaveRace
import Veesker.Host.Wallet

namespace Veesker.Host

open SaveRace (makeRow persistRow)

/-! ## 1. The stores -/

structure Stores where
  rows : List ConnectionRow
  /-- The keychain: `connection:<id>` and `connection:<id>:wallet`. -/
  passwords : Text → Option Text
  walletPasswords : Text → Option Text
  wallets : Text → Option Dir

/-- What there is of one connection. -/
structure Kept where
  row : Option ConnectionRow
  password : Option Text
  walletPassword : Option Text
  wallet : Option Dir

def Stores.kept (s : Stores) (id : Text) : Kept :=
  ⟨get s.rows id, s.passwords id, s.walletPasswords id, s.wallets id⟩

/-- What the database, the file system and the keychain answer to a save. -/
structure Answers where
  /-- A failing read of the row. -/
  read : Option ConnectionError := none
  /-- The zip, as it is opened for `tnsnames.ora`, and again for the extraction. -/
  opened : Except WalletError Archive := .error (.io [])
  reopened : Except WalletError Archive := .error (.io [])
  /-- A failing read of `tnsnames.ora`, in the zip or in the directory. -/
  tnsnames : Option Text := none
  extract : ExtractFaults := {}
  persist : Option Text := none
  password : Option Text := none
  walletPassword : Option Text := none

/-! ## 2. The save -/

def ConnectionInput.walletZipPath : ConnectionInput → Option Text
  | .basic .. => none
  | .wallet _ _ walletZipPath _ _ _ _ _ => walletZipPath

def ConnectionInput.password : ConnectionInput → Text
  | .basic _ _ _ _ _ _ password _ => password
  | .wallet _ _ _ _ _ _ password _ => password

/-- The wallet password; a basic connection has none. -/
def ConnectionInput.walletPassword : ConnectionInput → Text
  | .basic .. => []
  | .wallet _ _ _ walletPassword _ _ _ _ => walletPassword

def ConnectionError.ofWallet : WalletError → ConnectionError
  | .missingFile name => .invalid ("wallet missing required file: ".toList ++ name)
  | .io e => .invalid ("wallet: ".toList ++ WalletError.display (.io e))
  | .zip e => .invalid ("wallet: ".toList ++ WalletError.display (.zip e))

def ConnectionError.keyring (e : Text) : ConnectionError := .internal ("keyring: ".toList ++ e)

/-- The alias is one of the wallet's. -/
def checkAlias (connectAlias body whose : Text) : Except ConnectionError Unit :=
  if (parseAliases body).any fun a => Rust.eqIgnoreAsciiCase a connectAlias then .ok ()
  else .error (.invalid ("alias '".toList ++ connectAlias ++ "' not found in ".toList ++ whose ++
    " tnsnames.ora".toList))

/-- `read_to_string(wallet_dir.join("tnsnames.ora"))`. -/
def readSavedTnsnames (dir : Dir) (fault : Option Text) : Except ConnectionError Text :=
  let failed (e : Text) : Except ConnectionError Text :=
    .error (.invalid ("read tnsnames.ora: ".toList ++ e))
  match fault with
  | some e => failed e
  | none => match dir tnsnamesOra with
    | none => failed "not found".toList
    | some bytes => match readToString bytes with
      | .error e => failed e
      | .ok text => .ok text

/-- What is checked of a wallet before anything is written; `dir` is the connection's directory. -/
def checkWallet (dir : Option Dir) (a : Answers) : ConnectionInput → Except ConnectionError Unit
  | .basic .. => .ok ()
  | .wallet id _ walletZipPath _ connectAlias _ _ _ =>
    match walletZipPath with
    | some _ => match readTnsnamesFromZip a.opened a.tnsnames with
      | .error e => .error (.ofWallet e)
      | .ok body => checkAlias connectAlias body "wallet's".toList
    | none =>
      if id.isNone then
        .error (.invalid "wallet zip is required for new wallet connections".toList)
      else match dir with
        | none =>
          .error (.invalid "wallet directory missing — please re-upload the wallet zip".toList)
        | some dir => match readSavedTnsnames dir a.tnsnames with
          | .error e => .error e
          | .ok body => checkAlias connectAlias body "saved".toList

/-- The row to store, once all is checked. -/
def ConnectionInput.accepted (input : ConnectionInput) (s : Stores) (newId now : Text)
    (a : Answers) : Except ConnectionError ConnectionRow :=
  match makeRow s.rows input newId now a.read with
  | .error e => .error e
  | .ok row => match checkWallet (s.wallets row.id) a input with
    | .error e => .error e
    | .ok () => .ok row

/-- The directory after the extraction, where there is a zip. -/
def ConnectionInput.unpacked (input : ConnectionInput) (dir : Option Dir) (a : Answers) :
    Option Dir × Option WalletError :=
  if input.walletZipPath.isSome then extractTo a.reopened a.extract dir else (dir, none)

/-- `set_password`, where there is a password to set. -/
def setSecret (secrets : Text → Option Text) (id secret : Text) (fault : Option Text) :
    (Text → Option Text) × Option Text :=
  if secret.isEmpty then (secrets, none)
  else match fault with
    | some e => (secrets, some e)
    | none => (Function.update secrets id (some secret), none)

/-- `ConnectionMeta::try_from`, as far as it can fail. -/
def tryFrom (row : ConnectionRow) : Except ConnectionError ConnectionRow :=
  match row.authType with
  | .basic =>
    if row.host.isNone then .error (.internal "basic row missing host".toList)
    else if row.port.isNone then .error (.internal "basic row missing port".toList)
    else if row.serviceName.isNone then .error (.internal "basic row missing service_name".toList)
    else .ok row
  | .wallet =>
    if row.connectAlias.isNone then .error (.internal "wallet row missing connect_alias".toList)
    else .ok row

/-- `save`. -/
def save (s : Stores) (input : ConnectionInput) (newId now : Text) (a : Answers) :
    Stores × Except ConnectionError ConnectionRow :=
  match input.accepted s newId now a with
  | .error e => (s, .error e)
  | .ok row =>
    let unpacked := input.unpacked (s.wallets row.id) a
    let s := { s with wallets := Function.update s.wallets row.id unpacked.1 }
    match unpacked.2 with
    | some e => (s, .error (.ofWallet e))
    | none =>
      match persistRow s.rows row input.id.isSome a.persist with
      | .error e => (s, .error (.ofStore e))
      | .ok rows =>
        let set := setSecret s.passwords row.id input.password a.password
        let s := { s with rows, passwords := set.1 }
        match set.2 with
        | some e => (s, .error (.keyring e))
        | none =>
          let set := setSecret s.walletPasswords row.id input.walletPassword a.walletPassword
          let s := { s with walletPasswords := set.1 }
          match set.2 with
          | some e => (s, .error (.keyring e))
          | none => (s, tryFrom row)

/-! ## 3. The condition -/

/-- The operation that fails, behind the checks. -/
inductive Failure where
  | unpacking
  | storing
  | password
  | walletPassword
  deriving DecidableEq

/-- The first operation that fails once the row is accepted. -/
def ConnectionInput.failure (input : ConnectionInput) (s : Stores) (row : ConnectionRow)
    (a : Answers) : Option Failure :=
  if (input.unpacked (s.wallets row.id) a).2.isSome then some .unpacking
  else match persistRow s.rows row input.id.isSome a.persist with
    | .error _ => some .storing
    | .ok _ =>
      if !input.password.isEmpty && a.password.isSome then some .password
      else if !input.walletPassword.isEmpty && a.walletPassword.isSome then some .walletPassword
      else none

/-- **The condition**: the save does not fail, or it is refused, or what it had written when it
    failed was there before: the same files, the same row, the same password. -/
def Harmless (s : Stores) (input : ConnectionInput) (newId now : Text) (a : Answers) : Prop :=
  ∀ row, input.accepted s newId now a = .ok row →
    let sameWallet := (input.unpacked (s.wallets row.id) a).1 = s.wallets row.id
    let sameRow := get s.rows row.id = some row
    let samePassword := input.password.isEmpty = true ∨ s.passwords row.id = some input.password
    match input.failure s row a with
    | none => True
    | some .unpacking => sameWallet
    | some .storing => sameWallet
    | some .password => sameWallet ∧ sameRow
    | some .walletPassword => sameWallet ∧ sameRow ∧ samePassword

/-! ## 4. What a failing save leaves -/

variable {s : Stores} {input : ConnectionInput} {newId now : Text} {a : Answers}
  {row : ConnectionRow}

theorem accepted_made (h : input.accepted s newId now a = .ok row) :
    makeRow s.rows input newId now a.read = .ok row := by
  rw [ConnectionInput.accepted] at h
  split at h
  · cases h
  · rename_i made hmade
    split at h
    · cases h
    · rw [hmade, Except.ok.inj h]

theorem made_assembled (h : makeRow s.rows input newId now a.read = .ok row) :
    input.assemble newId now (input.id.bind (get s.rows)) = .ok row := by
  rw [makeRow] at h
  split at h
  · cases h
  split at h
  · cases h
  · exact h

/-- A row keeps the id and the creation time of the one it replaces. -/
theorem assembleRow_stored {r r' : ConnectionRow} {id : Option Text}
    {existing : Option ConnectionRow} {safety : ConnectionSafetyInput}
    (h : assembleRow r id existing safety = .ok r') :
    id = none ∧ r'.id = r.id ∨
      ∃ old, existing = some old ∧ r'.id = old.id ∧ r'.createdAt = old.createdAt := by
  cases id with
  | none =>
    cases h
    exact .inl ⟨rfl, rfl⟩
  | some i =>
    cases existing with
    | none => cases h
    | some old =>
      simp only [assembleRow] at h
      split at h
      · cases h
      cases hchange : envChange old.env safety.env with
      | error e =>
        rw [hchange] at h
        cases h
      | ok u =>
        rw [hchange] at h
        cases h
        exact .inr ⟨old, rfl, rfl, rfl⟩

/-- **The row that is accepted** is the connection's, and replaces the one that is stored. -/
theorem accepted_row (h : input.accepted s newId now a = .ok row) :
    row.id = input.id.getD newId ∧
      (input.id.isSome = true → ∃ old, get s.rows row.id = some old ∧
        row.createdAt = old.createdAt) := by
  have hassembled := made_assembled (accepted_made h)
  have hstored : input.id = none ∧ row.id = newId ∨
      ∃ old, input.id.bind (get s.rows) = some old ∧ row.id = old.id ∧
        row.createdAt = old.createdAt := by
    cases input with
    | basic => exact assembleRow_stored hassembled
    | wallet => exact assembleRow_stored hassembled
  rcases hstored with ⟨hid, hnew⟩ | ⟨old, hold, hid, hcreated⟩
  · rw [hid, hnew]
    exact ⟨rfl, fun hsome => absurd hsome Bool.false_ne_true⟩
  · obtain ⟨i, hi, hget⟩ := Option.bind_eq_some_iff.mp hold
    have hrow : row.id = i := hid.trans (get_id hget)
    refine ⟨by rw [hi, hrow]; rfl, fun _ => ⟨old, by rw [hrow, hget], hcreated⟩⟩

/-- Nothing is wrong with a row that is accepted. -/
theorem tryFrom_accepted (h : input.accepted s newId now a = .ok row) : tryFrom row = .ok row := by
  have hassembled := made_assembled (accepted_made h)
  cases input with
  | basic =>
    obtain ⟨-, -, -, -, hauth, hhost, hport, hservice, -⟩ := assembleRow_env hassembled
    rw [tryFrom, hauth, hhost, hport, hservice]
    rfl
  | wallet =>
    obtain ⟨-, -, -, -, hauth, -, -, -, halias⟩ := assembleRow_env hassembled
    rw [tryFrom, hauth, halias]
    rfl

/-- **What is stored is the row.** -/
theorem persisted_row (h : input.accepted s newId now a = .ok row) {rows : List ConnectionRow}
    (hp : persistRow s.rows row input.id.isSome a.persist = .ok rows) :
    get rows row.id = some row := by
  rcases SaveRace.persistRow_ok hp with ⟨hsome, hu⟩ | ⟨-, hc⟩
  · obtain ⟨old, hold, hget⟩ := update_self hu
    obtain ⟨old', hold', hcreated⟩ := (accepted_row h).2 hsome
    obtain rfl := Option.some.inj (hold.symm.trans hold')
    rw [hget, ← hcreated]
  · exact create_self hc

section Secret

variable {secrets : Text → Option Text} {id secret : Text} {fault : Option Text}

theorem setSecret_fails :
    (setSecret secrets id secret fault).2.isSome = (!secret.isEmpty && fault.isSome) := by
  unfold setSecret
  cases secret.isEmpty <;> cases fault <;> rfl

theorem setSecret_failed {e : Text} (h : (setSecret secrets id secret fault).2 = some e) :
    (setSecret secrets id secret fault).1 = secrets := by
  unfold setSecret at h ⊢
  split
  · rfl
  · rename_i hne
    rw [if_neg hne] at h
    cases fault with
    | none => cases h
    | some f => rfl

theorem setSecret_set (h : (setSecret secrets id secret fault).2 = none) :
    (setSecret secrets id secret fault).1 id = secrets id ↔
      secret.isEmpty = true ∨ secrets id = some secret := by
  unfold setSecret at h ⊢
  split
  · rename_i hempty
    exact iff_of_true rfl (.inl hempty)
  · rename_i hne
    rw [if_neg hne] at h
    cases fault with
    | some f => cases h
    | none =>
      have hset : Function.update secrets id (some secret) id = some secret :=
        Function.update_self ..
      constructor
      · exact fun e => .inr (e.symm.trans hset)
      · exact fun e => hset.trans (e.resolve_left hne).symm

end Secret

def noStores : Stores := ⟨[], fun _ => none, fun _ => none, fun _ => none⟩

/-- A connection that the user adds. -/
def added : ConnectionInput :=
  .basic none "hr".toList "db1".toList 1521 "orcl".toList "scott".toList "tiger".toList
    { env := some dev }

end Veesker.Host
