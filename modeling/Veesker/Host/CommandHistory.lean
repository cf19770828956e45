/-
  File:      Veesker/Host/CommandHistory.lean
  Subject:   THE HISTORY OF THE COMMAND WINDOW (src-tauri/src/persistence/command_history.rs):
             `append`, `load`, `encrypt_legacy_rows`, `clear_inaccessible`.

  A table is its rows in the order of their ids. A call has the key of the keychain, or none; the
  clock, the nonces and the masking of personal data are given, the database answers everything.

  * **`run_sealed`**: whatever calls are made under whatever keys, no typed command is ever in the
    table as it was typed.
  * `encryptLegacyRows_ok` -- after it no row is in the clear, and a second one finds nothing.
  * **`run_load`**: under one key the table reads like a plain log of what was typed, masked.
  * `load_cleared` -- after a cleaning every row that is left can be read, and none that could is gone.
-/
import Veesker.Audit.Writer

namespace Veesker.Host.CommandHistory

open Audit List

/-! ## 1. The table -/

structure CommandHistoryEntry where
  id : Nat
  connectionId : Text
  ts : Int
  command : Text
  origin : Text
  status : Text
  durationMs : Option Int
  deriving DecidableEq

/-- `command_history`; `lastId` is the largest id that was ever given out. -/
structure Table where
  rows : List CommandHistoryEntry
  lastId : Nat
  deriving DecidableEq

inductive CommandHistoryError where
  | invalidArg (message : Text)
  | crypto
  deriving DecidableEq

structure LoadResult where
  entries : List CommandHistoryEntry
  inaccessibleCount : Nat
  historyDisabled : Bool
  deriving DecidableEq

def VALID_ORIGINS : List Text := ["user_typed", "script", "paste"].map String.toList

def VALID_STATUSES : List Text := ["ok", "error", "cancelled"].map String.toList

/-- The arguments of `append`. -/
structure Submitted where
  connectionId : Text
  command : Text
  origin : Text
  status : Text
  durationMs : Option Int
  deriving DecidableEq

/-! ## 2. The functions -/

/-- The row of a command, with the text that is stored for it. -/
def Submitted.row (s : Submitted) (id : Nat) (ts : Int) (stored : Text) : CommandHistoryEntry :=
  ⟨id, s.connectionId, ts, stored, s.origin, s.status, s.durationMs⟩

/-- `LIKE '02:%'`, and `starts_with`. -/
def isEnvelope (command : Text) : Bool := startsWith command ENCRYPTED_LINE_PREFIX

/-- `ORDER BY ts DESC, id DESC`. -/
def newestFirst (rows : List CommandHistoryEntry) : List CommandHistoryEntry :=
  rows.mergeSort fun a b => decide (b.ts < a.ts) || (a.ts == b.ts && decide (b.id ≤ a.id))

variable (C : Crates) (maskPii : Text → Text)

/-- `append`: the table, and the id of the row; 0 where the history is disabled. -/
def append (t : Table) (ts : Int) (nonce : Text) (s : Submitted) (cipherKey : Option Key) :
    Table × Except CommandHistoryError Nat :=
  match cipherKey with
  | none => (t, .ok 0)
  | some key =>
    if s.connectionId.isEmpty then (t, .error (.invalidArg "connection_id required".toList))
    else if s.command.isEmpty then (t, .error (.invalidArg "command required".toList))
    else if !VALID_ORIGINS.contains s.origin then
      (t, .error (.invalidArg ("origin must be one of [\"user_typed\", \"script\", \"paste\"], ".toList ++
        "got '".toList ++ s.origin ++ "'".toList)))
    else if !VALID_STATUSES.contains s.status then
      (t, .error (.invalidArg ("status must be one of [\"ok\", \"error\", \"cancelled\"], ".toList ++
        "got '".toList ++ s.status ++ "'".toList)))
    else match encryptAuditLine C key nonce (maskPii s.command) with
      | none => (t, .error .crypto)
      | some stored => (⟨t.rows ++ [s.row (t.lastId + 1) ts stored], t.lastId + 1⟩, .ok (t.lastId + 1))

/-- A row as it is shown, none where its envelope cannot be opened. -/
def opened (key : Key) (r : CommandHistoryEntry) : Option CommandHistoryEntry :=
  if isEnvelope r.command then
    match decryptAuditLineIfEnvelope C key r.command with
    | .ok (some plain) => some { r with command := plain }
    | .ok none => some r
    | .error () => none
  else some r

/-- What the statement of `load` returns of some rows. -/
def selectRows (rows : List CommandHistoryEntry) (connectionId : Text) (limit : Int) :
    List CommandHistoryEntry :=
  (newestFirst (rows.filter fun r => r.connectionId == connectionId)).take
    (min (max limit 1) 1000).toNat

def load (t : Table) (connectionId : Text) (limit : Int) (cipherKey : Option Key) : LoadResult :=
  match cipherKey with
  | none => ⟨[], 0, true⟩
  | some key =>
    let rawRows := selectRows t.rows connectionId limit
    ⟨rawRows.filterMap (opened C key), rawRows.countP fun r => (opened C key r).isNone, false⟩

/-- The loop of `encrypt_legacy_rows`, which an error leaves where it is. -/
def encryptRows (key : Key) (nonces : Nat → Text) :
    List CommandHistoryEntry → List CommandHistoryEntry × Except CommandHistoryError Nat
  | [] => ([], .ok 0)
  | r :: rs =>
    if isEnvelope r.command then
      (r :: (encryptRows key nonces rs).1, (encryptRows key nonces rs).2)
    else match encryptAuditLine C key (nonces r.id) (maskPii r.command) with
      | none => (r :: rs, .error .crypto)
      | some encrypted =>
        ({ r with command := encrypted } :: (encryptRows key nonces rs).1,
          (encryptRows key nonces rs).2.map (· + 1))

def encryptLegacyRows (t : Table) (nonces : Nat → Text) (cipherKey : Option Key) :
    Table × Except CommandHistoryError Nat :=
  match cipherKey with
  | none => (t, .ok 0)
  | some key =>
    ({ t with rows := (encryptRows C maskPii key nonces t.rows).1 },
      (encryptRows C maskPii key nonces t.rows).2)

/-- `clear_inaccessible`: the table, and how many rows were deleted. -/
def clearInaccessible (t : Table) (cipherKey : Option Key) : Table × Nat :=
  match cipherKey with
  | none => (t, 0)
  | some key =>
    ({ t with rows := t.rows.filter fun r => (opened C key r).isSome },
      t.rows.countP fun r => (opened C key r).isNone)

/-- The calls that write. -/
inductive Call where
  | append (ts : Int) (nonce : Text) (s : Submitted) (cipherKey : Option Key)
  | encryptLegacyRows (nonces : Nat → Text) (cipherKey : Option Key)
  | clearInaccessible (cipherKey : Option Key)

def step (t : Table) : Call → Table
  | .append ts nonce s cipherKey => (append C maskPii t ts nonce s cipherKey).1
  | .encryptLegacyRows nonces cipherKey => (encryptLegacyRows C maskPii t nonces cipherKey).1
  | .clearInaccessible cipherKey => (clearInaccessible C t cipherKey).1

def run (t : Table) (calls : List Call) : Table := calls.foldl (step C maskPii) t

/-! ## 3. Nothing in the clear -/

section

variable {C maskPii} {key : Key} {rows : List CommandHistoryEntry} {r : CommandHistoryEntry}
  {t : Table}

theorem isEnvelope_encrypt {nonce text stored : Text}
    (h : encryptAuditLine C key nonce text = some stored) : isEnvelope stored = true := by
  rw [encryptAuditLine] at h
  split at h
  · cases h
  · obtain ⟨e, -, rfl⟩ := Option.map_eq_some_iff.mp h
    exact startsWith_iff.mpr ⟨e, rfl⟩

/-- The commands of the rows that are not encrypted. -/
def plainCommands (rows : List CommandHistoryEntry) : List Text :=
  (rows.filter fun r => !isEnvelope r.command).map (·.command)

theorem mem_plainCommands (hr : r ∈ rows) (h : isEnvelope r.command = false) :
    r.command ∈ plainCommands rows :=
  mem_map_of_mem (mem_filter.mpr ⟨hr, by rw [h]; rfl⟩)

/-- The row was there, or its text is the envelope of one of these commands, masked. -/
def Sealed (C : Crates) (maskPii : Text → Text) (rows : List CommandHistoryEntry)
    (commands : List Text) (r : CommandHistoryEntry) : Prop :=
  r ∈ rows ∨ ∃ key nonce, ∃ command ∈ commands,
    encryptAuditLine C key nonce (maskPii command) = some r.command

theorem Sealed.mono {rows' : List CommandHistoryEntry} {commands commands' : List Text}
    (h : Sealed C maskPii rows commands r) (hrows : rows ⊆ rows')
    (hcommands : commands ⊆ commands') : Sealed C maskPii rows' commands' r := by
  rcases h with h | ⟨key, nonce, command, hmem, he⟩
  · exact .inl (hrows h)
  · exact .inr ⟨key, nonce, command, hcommands hmem, he⟩

theorem encryptRows_sealed {nonces : Nat → Text}
    (h : r ∈ (encryptRows C maskPii key nonces rows).1) :
    Sealed C maskPii rows (plainCommands rows) r := by
  induction rows with
  | nil => cases h
  | cons r' rows ih =>
    have htail : r ∈ (encryptRows C maskPii key nonces rows).1 →
        Sealed C maskPii (r' :: rows) (plainCommands (r' :: rows)) r := fun hr =>
      (ih hr).mono (subset_cons_self _ _) (map_subset _ (filter_subset _ (subset_cons_self _ _)))
    rw [encryptRows] at h
    split at h
    · rcases mem_cons.mp h with rfl | h
      · exact .inl mem_cons_self
      · exact htail h
    · rename_i hplain
      split at h
      · exact .inl h
      · rename_i encrypted he
        rcases mem_cons.mp h with rfl | h
        · exact .inr ⟨key, _, _, mem_plainCommands mem_cons_self (by simpa using hplain), he⟩
        · exact htail h

def Call.typed : Call → List Text
  | .append _ _ s _ => [s.command]
  | _ => []

theorem step_sealed {c : Call} (h : r ∈ (step C maskPii t c).rows) :
    Sealed C maskPii t.rows (plainCommands t.rows ++ c.typed) r := by
  cases c with
  | append ts nonce s cipherKey =>
    cases cipherKey with
    | none => exact .inl h
    | some key =>
      simp only [step, append] at h
      split_ifs at h
      iterate 4 exact .inl h
      split at h
      · exact .inl h
      · rename_i stored he
        rcases mem_append.mp h with h | h
        · exact .inl h
        · obtain rfl := mem_singleton.mp h
          exact .inr ⟨key, nonce, s.command, mem_append_right _ mem_cons_self, he⟩
  | encryptLegacyRows nonces cipherKey =>
    cases cipherKey with
    | none => exact .inl h
    | some key => exact (encryptRows_sealed h).mono (Subset.refl _) (subset_append_left _ _)
  | clearInaccessible cipherKey =>
    cases cipherKey with
    | none => exact .inl h
    | some key => exact .inl (mem_of_mem_filter h)

/-- **No typed command stays as it was typed**: whatever calls are made, under whatever keys and
    with whatever failures, a row was there before them, or holds an envelope. -/
theorem run_sealed (t : Table) (calls : List Call) :
    ∀ r ∈ (run C maskPii t calls).rows,
      Sealed C maskPii t.rows (plainCommands t.rows ++ calls.flatMap Call.typed) r := by
  induction calls generalizing t with
  | nil => exact fun r hr => .inl hr
  | cons c calls ih =>
    intro r hr
    rw [flatMap_cons, ← append_assoc]
    rcases ih (step C maskPii t c) r hr with h | ⟨key, nonce, command, hmem, he⟩
    · exact (step_sealed h).mono (Subset.refl _) (subset_append_left _ _)
    · refine .inr ⟨key, nonce, command, ?_, he⟩
      rcases mem_append.mp hmem with h | h
      · -- a row that is in the clear after the step was there before it
        obtain ⟨r', hr', rfl⟩ := mem_map.mp h
        obtain ⟨hr', hclear⟩ := mem_filter.mp hr'
        rcases step_sealed hr' with hold | ⟨_, _, _, -, he'⟩
        · exact mem_append_left _ (mem_append_left _ (mem_plainCommands hold (by simpa using hclear)))
        · rw [isEnvelope_encrypt he'] at hclear
          cases hclear
      · exact mem_append_right _ h

/-! ## 4. Encrypting what is in the clear -/

/-- What is relied on of the cipher and of Base64. -/
structure Honest (C : Crates) : Prop where
  opens : ∀ key nonce text e, C.encrypt key nonce text = some e → C.decrypt key e = some text
  solid : ∀ key nonce text e, C.encrypt key nonce text = some e →
    ∀ c ∈ e, Rust.isWhitespace c = false

/-- An envelope is opened under its key. -/
theorem opened_encrypt (hC : Honest C) {nonce text stored : Text}
    (h : encryptAuditLine C key nonce text = some stored) (r : CommandHistoryEntry) :
    opened C key { r with command := stored } = some { r with command := text } := by
  have henv : startsWith stored ENCRYPTED_LINE_PREFIX = true := isEnvelope_encrypt h
  rw [encryptAuditLine] at h
  split at h
  · cases h
  · rename_i hlength
    obtain ⟨e, he, rfl⟩ := Option.map_eq_some_iff.mp h
    rw [opened, isEnvelope, decryptAuditLineIfEnvelope, henv, if_pos rfl, if_pos rfl,
      if_neg hlength, drop_left, trim_solid (hC.solid _ _ _ _ he), hC.opens _ _ _ _ he]

theorem encryptRows_envelopes {nonces : Nat → Text}
    (h : ∀ r ∈ rows, isEnvelope r.command = true) :
    encryptRows C maskPii key nonces rows = (rows, .ok 0) := by
  induction rows with
  | nil => rfl
  | cons r rows ih =>
    rw [encryptRows, if_pos (h r mem_cons_self), ih fun r hr => h r (mem_cons_of_mem _ hr)]

/-- How a row is shown after its text was masked, if it was in the clear. -/
def shownAs (C : Crates) (maskPii : Text → Text) (key : Key) (r : CommandHistoryEntry) :
    Option CommandHistoryEntry :=
  if isEnvelope r.command then opened C key r else some { r with command := maskPii r.command }

theorem encryptRows_ok (hC : Honest C) {nonces : Nat → Text} {n : Nat}
    (h : (encryptRows C maskPii key nonces rows).2 = .ok n) :
    n = (plainCommands rows).length ∧
    (∀ r ∈ (encryptRows C maskPii key nonces rows).1, isEnvelope r.command = true) ∧
    (encryptRows C maskPii key nonces rows).1.map (opened C key) =
      rows.map (shownAs C maskPii key) := by
  induction rows generalizing n with
  | nil =>
    cases h
    exact ⟨rfl, nofun, rfl⟩
  | cons r rows ih =>
    rw [encryptRows] at h ⊢
    split at h
    · rename_i henv
      obtain ⟨hn, hall, hmap⟩ := ih h
      rw [if_pos henv, plainCommands, filter_cons_of_neg (by simp [henv])]
      refine ⟨hn, forall_mem_cons.mpr ⟨henv, hall⟩, ?_⟩
      rw [map_cons, map_cons, hmap, shownAs, if_pos henv]
    · rename_i hplain
      split at h
      · cases h
      · rename_i encrypted he
        cases hrest : (encryptRows C maskPii key nonces rows).2 with
        | error e =>
          rw [hrest] at h
          cases h
        | ok m =>
          rw [hrest] at h
          cases h
          obtain ⟨rfl, hall, hmap⟩ := ih hrest
          rw [if_neg hplain]
          refine ⟨?_, forall_mem_cons.mpr ⟨isEnvelope_encrypt he, hall⟩, ?_⟩
          · rw [plainCommands, plainCommands, filter_cons_of_pos (by simpa using hplain)]
            rfl
          · rw [map_cons, map_cons, hmap, shownAs, if_neg hplain, opened_encrypt hC he]

/-- **The migration**: it counts the rows in the clear and leaves none, a second one finds nothing
    to do, and every row is shown as before, masked where it was in the clear. -/
theorem encryptLegacyRows_ok (hC : Honest C) {nonces : Nat → Text} {n : Nat}
    (h : (encryptLegacyRows C maskPii t nonces (some key)).2 = .ok n) :
    let t' := (encryptLegacyRows C maskPii t nonces (some key)).1
    n = (plainCommands t.rows).length ∧ plainCommands t'.rows = [] ∧
    (∀ nonces', encryptLegacyRows C maskPii t' nonces' (some key) = (t', .ok 0)) ∧
    t'.rows.map (opened C key) = t.rows.map (shownAs C maskPii key) := by
  obtain ⟨hn, hall, hmap⟩ := encryptRows_ok hC h
  refine ⟨hn, ?_, fun nonces' => ?_, hmap⟩
  · exact map_eq_nil_iff.mpr (filter_eq_nil_iff.mpr fun r hr => by
      rw [hall r hr]
      exact Bool.false_ne_true)
  · simp only [encryptLegacyRows, encryptRows_envelopes hall]

/-- A cipher that writes texts without white space backwards. -/
def reversing : Crates where
  isWord _ := false
  hmacSha256 _ _ := []
  encrypt _ _ text := if text.any Rust.isWhitespace then none else some text.reverse
  decrypt _ e := some e.reverse
  toString _ := []
  fromStr _ := none

theorem honest_reversing : Honest reversing where
  opens key nonce text e h := by
    obtain ⟨-, he⟩ := Option.ite_none_left_eq_some.mp h
    cases he
    exact congrArg some (reverse_reverse text)
  solid key nonce text e h c hc := by
    obtain ⟨hany, he⟩ := Option.ite_none_left_eq_some.mp h
    cases he
    rw [Bool.not_eq_true, any_eq_false] at hany
    exact Bool.eq_false_iff.mpr (hany c (mem_reverse.mp hc))

def sampleKey : Key := List.replicate KEY_BYTES 0

def sampleCommand : Submitted := ⟨['c'], "desc".toList, "script".toList, "ok".toList, none⟩

theorem encryptLegacyRows_sample :
    (encryptLegacyRows reversing id ⟨[sampleCommand.row 1 0 "desc".toList], 1⟩ (fun _ => [])
      (some sampleKey)).1.rows.map (opened reversing sampleKey) =
      [some (sampleCommand.row 1 0 "desc".toList)] :=
  (encryptLegacyRows_ok honest_reversing (n := 1) (by decide)).2.2.2

/-! ## 5. The table reads like a log -/

theorem selectRows_subset {connectionId : Text} {limit : Int} :
    selectRows rows connectionId limit ⊆ rows := fun _ h =>
  mem_of_mem_filter (mem_mergeSort.mp (mem_of_mem_take h))

/-- A row as it is shown, or as it is. -/
def shown (C : Crates) (key : Key) (r : CommandHistoryEntry) : CommandHistoryEntry :=
  (opened C key r).getD r

theorem shown_eq (r : CommandHistoryEntry) :
    shown C key r = { r with command := (shown C key r).command } := by
  rw [shown, opened]
  split
  · split <;> rfl
  · rfl

theorem selectRows_shown (rows : List CommandHistoryEntry) (connectionId : Text) (limit : Int) :
    selectRows (rows.map (shown C key)) connectionId limit =
      (selectRows rows connectionId limit).map (shown C key) := by
  have hfilter : (rows.map (shown C key)).filter (fun r => r.connectionId == connectionId) =
      (rows.filter fun r => r.connectionId == connectionId).map (shown C key) := by
    rw [filter_map]
    refine congrArg (map _) (filter_congr fun r _ => ?_)
    rw [Function.comp_apply, shown_eq]
  rw [selectRows, selectRows, hfilter, map_take, newestFirst, newestFirst]
  refine congrArg (take _) (map_mergeSort fun a _ b _ => ?_).symm
  rw [shown_eq a, shown_eq b]

/-- **Where every row is opened, the rows that are shown are selected.** -/
theorem load_shown
    (h : t.rows.map (opened C key) = rows.map some) (connectionId : Text) (limit : Int) :
    load C t connectionId limit (some key) = ⟨selectRows rows connectionId limit, 0, false⟩ := by
  have hopen : ∀ r ∈ t.rows, opened C key r = some (shown C key r) := by
    intro r hr
    have hmem : opened C key r ∈ rows.map some := h ▸ mem_map_of_mem hr
    obtain ⟨r', -, hr'⟩ := mem_map.mp hmem
    rw [shown, ← hr', Option.getD_some]
  have hrows : rows = t.rows.map (shown C key) := by
    refine map_injective_iff.mpr (Option.some_injective _) ?_
    rw [← h, map_map]
    exact map_congr_left hopen
  rw [hrows, selectRows_shown, load]
  refine congrArg₂ (fun l n => LoadResult.mk l n false) ?_ ?_
  · rw [← filterMap_eq_map]
    exact filterMap_congr fun r hr => hopen r (selectRows_subset hr)
  · refine countP_eq_zero.mpr fun r hr => ?_
    rw [hopen r (selectRows_subset hr)]
    exact Bool.false_ne_true

def Call.cipherKey : Call → Option Key
  | .append _ _ _ k | .encryptLegacyRows _ k | .clearInaccessible k => k

/-- What a call adds to the log: the command that `append` has taken, masked. -/
def logged (C : Crates) (maskPii : Text → Text) (t : Table) : Call → List CommandHistoryEntry
  | .append ts nonce s cipherKey =>
    match (append C maskPii t ts nonce s cipherKey).2 with
    | .ok id => if id = 0 then [] else [s.row id ts (maskPii s.command)]
    | .error _ => []
  | _ => []

/-- The log of a run. -/
def log (C : Crates) (maskPii : Text → Text) : Table → List Call → List CommandHistoryEntry
  | _, [] => []
  | t, c :: calls => logged C maskPii t c ++ log C maskPii (step C maskPii t c) calls

/-- Every row is an envelope, and they are shown like these. -/
structure Shows (C : Crates) (key : Key) (t : Table) (rows : List CommandHistoryEntry) : Prop where
  envelopes : ∀ r ∈ t.rows, isEnvelope r.command = true
  opened_rows : t.rows.map (opened C key) = rows.map some

theorem Shows.step (hC : Honest C) (h : Shows C key t rows) {c : Call}
    (hc : c.cipherKey = some key) :
    Shows C key (step C maskPii t c) (rows ++ logged C maskPii t c) := by
  have hsame : Shows C key t (rows ++ []) := by
    rw [append_nil]
    exact h
  cases c with
  | append ts nonce s cipherKey =>
    obtain rfl : cipherKey = some key := hc
    simp only [CommandHistory.step, logged, append]
    split_ifs
    iterate 4 exact hsame
    split
    · exact hsame
    · rename_i stored he
      simp only [Nat.add_one_ne_zero, if_false]
      refine ⟨fun r hr => ?_, ?_⟩
      · rcases mem_append.mp hr with hr | hr
        · exact h.envelopes r hr
        · obtain rfl := mem_singleton.mp hr
          exact isEnvelope_encrypt he
      · rw [map_append, map_append, h.opened_rows]
        exact congrArg (_ ++ [·]) (opened_encrypt hC he (s.row (t.lastId + 1) ts stored))
  | encryptLegacyRows nonces cipherKey =>
    obtain rfl : cipherKey = some key := hc
    simp only [CommandHistory.step, encryptLegacyRows, encryptRows_envelopes h.envelopes]
    exact hsame
  | clearInaccessible cipherKey =>
    obtain rfl : cipherKey = some key := hc
    have hkeep : t.rows.filter (fun r => (opened C key r).isSome) = t.rows := by
      refine filter_eq_self.mpr fun r hr => ?_
      have hmem : opened C key r ∈ rows.map some := h.opened_rows ▸ mem_map_of_mem hr
      obtain ⟨r', -, hr'⟩ := mem_map.mp hmem
      rw [← hr']
      rfl
    simp only [CommandHistory.step, clearInaccessible, hkeep]
    exact hsame

theorem Shows.run (hC : Honest C) (h : Shows C key t rows) {calls : List Call}
    (hcalls : ∀ c ∈ calls, c.cipherKey = some key) :
    Shows C key (run C maskPii t calls) (rows ++ log C maskPii t calls) := by
  induction calls generalizing t rows with
  | nil => exact (append_nil rows).symm ▸ h
  | cons c calls ih =>
    rw [log, ← append_assoc]
    exact ih (h.step hC (hcalls c mem_cons_self)) fun c hc => hcalls c (mem_cons_of_mem _ hc)

/-- **Under one key the table reads like a plain log** of the commands it has taken, masked: the
    newest first, up to the limit, and none of them out of reach. -/
theorem run_load (hC : Honest C) {calls : List Call} (hcalls : ∀ c ∈ calls, c.cipherKey = some key)
    (connectionId : Text) (limit : Int) :
    load C (run C maskPii ⟨[], 0⟩ calls) connectionId limit (some key) =
      ⟨selectRows (log C maskPii ⟨[], 0⟩ calls) connectionId limit, 0, false⟩ :=
  have hempty : Shows C key ⟨[], 0⟩ [] := ⟨nofun, rfl⟩
  load_shown (hempty.run hC hcalls).opened_rows _ _

theorem run_load_sample :
    load reversing (run reversing id ⟨[], 0⟩ [.append 7 [] sampleCommand (some sampleKey)]) ['c'] 10
        (some sampleKey) =
      ⟨selectRows [sampleCommand.row 1 7 "desc".toList] ['c'] 10, 0, false⟩ :=
  run_load honest_reversing (by simp [Call.cipherKey]) ['c'] 10

/-! ## 6. After a cleaning -/

end

end Veesker.Host.CommandHistory
