/-
  File:      Veesker/Host/QueryAudit.lean
  Subject:   WHICH CONNECTION AN AUDIT ENTRY NAMES (src-tauri/src/commands.rs `query_execute` and
             `lookup_active_connection_meta`), beside the opens and closes of Host/Workspace.

  A query reads the active connection's name and its environment after the sidecar has answered, one
  lock after the other, and looks the name up in the list of connections.

  * **`orderly_named`** -- in every orderly run an entry has the id, the host and the environment of
    the connection that its statement was executed on;
  * `closed_between` -- without it: a close between the statement and its entry.
-/
import Veesker.Host.Workspace

namespace Veesker.Host.QueryAudit

open Run Workspace List

/-! ## 1. The state -/

/-- What an entry has of a connection, with the one the sidecar executed the statement on. -/
structure Entry where
  executedOn : Option ConnectionRow
  connectionId : Text
  host : Text
  username : Text
  env : Option Text
  deriving DecidableEq

/-- Where a call of `query_execute` is. -/
inductive Query where
  | asks
  /-- The sidecar has executed the statement; with no session, or unread, on none. -/
  | executed (on : Option ConnectionRow)
  /-- The active connection was looked up. -/
  | named (on : Option ConnectionRow) (connectionId host username : Text)
  deriving DecidableEq

structure World where
  workspace : Workspace.World
  queries : List Query
  entries : List Entry
  deriving DecidableEq

def World.start : World := ⟨.start, [], []⟩

/-! ## 2. The steps -/

/-- The host of a row, or the alias of a wallet's. -/
def hostOf (row : ConnectionRow) : Text :=
  match row.authType with
  | .basic => row.host.getD []
  | .wallet => row.connectAlias.getD []

/-- `lookup_active_connection_meta`; the list may fail. -/
def lookupActiveConnectionMeta (rows : List ConnectionRow) (listed : Bool) (activeName : Text) :
    Text × Text × Text :=
  if activeName.isEmpty || !listed then ([], [], [])
  else match rows.find? fun r => r.name == activeName with
    | some row => (row.id, hostOf row, row.username)
    | none => ([], [], [])

inductive Event where
  | workspace (e : Workspace.Event)
  | starts
  | executes
  /-- The sidecar refuses the statement or never reads it. -/
  | refused
  | looksUp (listed : Bool)
  | records
  deriving DecidableEq

variable (rows : List ConnectionRow)

inductive Step : World → Event → World → Prop where
  | workspace (w : World) (ws : Workspace.World) (e : Workspace.Event)
      (hs : Workspace.Step rows w.workspace e ws) :
      Step w (.workspace e) { w with workspace := ws }
  | starts (w : World) : Step w .starts { w with queries := w.queries ++ [.asks] }
  | executes (w : World) (l l' : List Query) (hq : w.queries = l ++ .asks :: l') :
      Step w .executes { w with queries := l ++ .executed w.workspace.session :: l' }
  | refused (w : World) (l l' : List Query) (hq : w.queries = l ++ .asks :: l') :
      Step w .refused { w with queries := l ++ .executed none :: l' }
  | looksUp (w : World) (l l' : List Query) (on : Option ConnectionRow) (listed : Bool)
      (connectionId host username : Text) (hq : w.queries = l ++ .executed on :: l')
      (hm : lookupActiveConnectionMeta rows listed (w.workspace.active.connection.getD []) =
        (connectionId, host, username)) :
      Step w (.looksUp listed)
        { w with queries := l ++ .named on connectionId host username :: l' }
  | records (w : World) (l l' : List Query) (on : Option ConnectionRow)
      (connectionId host username : Text)
      (hq : w.queries = l ++ .named on connectionId host username :: l') :
      Step w .records { w with
        queries := l ++ l'
        entries := w.entries ++ [⟨on, connectionId, host, username, w.workspace.active.env⟩] }

/-! ## 3. What is asked of a run -/

/-- The active connection and its environment are this row's. -/
def Names (a : Active) (row : ConnectionRow) : Prop :=
  a.connection = some row.name ∧ a.env = row.env

/-- The connection of a statement that has no entry yet. -/
def Query.pending : Query → Option ConnectionRow
  | .asks => none
  | .executed on => on
  | .named on _ _ _ => on

/-- A cell that an entry is made of. -/
def isNaming : Cell → Bool
  | .connection _ | .env _ => true
  | .airGap _ | .psdpm _ => false

/-- A statement is executed only while the active connection is the session's; neither its name nor
    its environment is written before the statement's entry is; and the list does not fail. -/
def Orderly (w : World) : Event → Prop
  | .workspace (.writes cell) => isNaming cell = true → ∀ q ∈ w.queries, q.pending = none
  | .executes => ∀ row, w.workspace.session = some row → Names w.workspace.active row
  | .looksUp listed => listed = true
  | _ => True

/-- An entry has the id, the host and the environment of the connection of its statement. -/
def Right (e : Entry) : Prop :=
  ∀ row, e.executedOn = some row →
    e.connectionId = row.id ∧ e.host = hostOf row ∧ e.env = row.env

/-- What the table's unique index and the check of a name see to. -/
structure Stored (rows : List ConnectionRow) : Prop where
  unique : rows.Pairwise fun a b => lowerName a ≠ lowerName b
  named : ∀ row ∈ rows, row.name ≠ []

variable {rows} {row : ConnectionRow}

theorem find_name (h : Stored rows) (hr : row ∈ rows) :
    (rows.find? fun r => r.name == row.name) = some row := by
  have hunique := h.unique
  clear h
  induction rows with
  | nil => exact absurd hr not_mem_nil
  | cons r rows ih =>
    rw [pairwise_cons] at hunique
    rcases mem_cons.mp hr with rfl | hr
    · exact List.find?_cons_of_pos (by simp)
    · have hne : r.name ≠ row.name := fun he =>
        hunique.1 row hr (congrArg (List.map Char.toLower) he)
      rw [List.find?_cons_of_neg (by simpa using hne)]
      exact ih hr hunique.2

/-- **The lookup of the active connection's name** gives its row. -/
theorem lookup_name (h : Stored rows) (hr : row ∈ rows) :
    lookupActiveConnectionMeta rows true row.name = (row.id, hostOf row, row.username) := by
  have hname : row.name.isEmpty = false := by simpa using h.named row hr
  rw [lookupActiveConnectionMeta, hname, find_name h hr]
  rfl

/-! ## 4. The invariant -/

variable (rows) in
/-- A query names the connection of its statement. -/
def Query.Right (a : Active) : Query → Prop
  | .asks => True
  | .executed on => ∀ row, on = some row → row ∈ rows ∧ Names a row
  | .named on connectionId host _ => ∀ row, on = some row →
      connectionId = row.id ∧ host = hostOf row ∧ a.env = row.env

variable (rows) in
/-- The rows of the session and of the opens in progress are in the table. -/
structure Known (w : Workspace.World) : Prop where
  session : ∀ row, w.session = some row → row ∈ rows
  calls : ∀ c ∈ w.calls, ∀ row full, c.1 = .workspaceOpen row full → row ∈ rows

variable (rows) in
structure Inv (w : World) : Prop where
  known : Known rows w.workspace
  queries : ∀ q ∈ w.queries, q.Right rows w.workspace.active
  entries : ∀ e ∈ w.entries, Right e

/-- A session that has no connection. -/
theorem no_row {P : Prop} (h : none = some row) : P :=
  absurd h.symm (Option.some_ne_none row)

theorem inv_start : Inv rows .start :=
  ⟨⟨fun row hrow => no_row hrow, fun _ h => absurd h not_mem_nil⟩, fun _ h => absurd h not_mem_nil,
    fun _ h => absurd h not_mem_nil⟩

/-- A query without a connection, and one whose cells stay, keep what they name. -/
theorem Query.Right.kept {a a' : Active} {q : Query} (h : q.Right rows a)
    (hkept : q.pending = none ∨ a'.connection = a.connection ∧ a'.env = a.env) :
    q.Right rows a' := by
  cases q with
  | asks => trivial
  | executed on =>
    intro row hon
    rcases hkept with hnone | ⟨hconnection, henv⟩
    · exact no_row (hnone.symm.trans hon)
    · exact ⟨(h row hon).1, hconnection.trans (h row hon).2.1, henv.trans (h row hon).2.2⟩
  | named on connectionId host username =>
    intro row hon
    rcases hkept with hnone | ⟨-, henv⟩
    · exact no_row (hnone.symm.trans hon)
    · exact ⟨(h row hon).1, (h row hon).2.1, henv.trans (h row hon).2.2⟩

theorem get_mem {id : Text} (h : get rows id = some row) : row ∈ rows :=
  mem_of_find?_eq_some h

/-- A step of the opens and closes. -/
theorem Known.step {w w' : Workspace.World} {e : Workspace.Event} (h : Known rows w)
    (hs : Workspace.Step rows w e w') : Known rows w' := by
  have hreplaced : ∀ {l l' : List (Job × Workspace.Phase)} {job : Job} {ph ph' : Workspace.Phase},
      w.calls = l ++ (job, ph) :: l' → ∀ c ∈ l ++ (job, ph') :: l', ∀ row full,
        c.1 = .workspaceOpen row full → row ∈ rows := by
    intro l l' job ph ph' hc c hcm
    rcases mem_replaced hcm with rfl | hcm
    · exact h.calls (job, ph) (hc ▸ mem_here)
    · exact h.calls c (hc ▸ hcm)
  have hremoved : ∀ {l l' : List (Job × Workspace.Phase)} {job : Job} {ph : Workspace.Phase},
      w.calls = l ++ (job, ph) :: l' → ∀ c ∈ l ++ l', ∀ row full,
        c.1 = .workspaceOpen row full → row ∈ rows := fun hc c hcm =>
    h.calls c (hc ▸ mem_removed hcm)
  have hadded : ∀ job, (∀ row full, job = .workspaceOpen row full → row ∈ rows) →
      ∀ c ∈ w.calls ++ [(job, .asks)], ∀ row full, c.1 = .workspaceOpen row full → row ∈ rows := by
    intro job hjob c hc
    rcases mem_append.mp hc with hc | hc
    · exact h.calls c hc
    · rw [mem_singleton.mp hc]
      exact hjob
  cases hs with
  | opens id row full hrow hfull =>
    refine ⟨h.session, hadded _ fun row' full' e => ?_⟩
    rw [← (Job.workspaceOpen.inj e).1]
    exact get_mem hrow
  | closes => exact ⟨h.session, hadded _ fun _ _ e => Job.noConfusion e⟩
  | disconnects => exact ⟨h.session, hadded _ fun _ _ e => Job.noConfusion e⟩
  | handles l l' job outcome hc hp =>
    refine ⟨fun row hrow => ?_, hreplaced hc⟩
    cases outcome with
    | done =>
      cases job with
      | workspaceOpen row' full =>
        obtain rfl : row' = row := Option.some.inj hrow
        exact h.calls (.workspaceOpen row' full, .asks) (hc ▸ mem_here) row' full rfl
      | workspaceClose => exact no_row hrow
      | trayDisconnect => exact no_row hrow
    | notOpened =>
      have hnone : sessionAfter w.session job .notOpened = none := by cases job <;> rfl
      exact no_row (hnone.symm.trans hrow)
    | refused =>
      have hsame : sessionAfter w.session job .refused = w.session := by cases job <;> rfl
      exact h.session row (hsame.symm.trans hrow)
  | goesOn l l' job ok hc hok => exact ⟨h.session, hreplaced hc⟩
  | fails l l' job ok hc hok => exact ⟨h.session, hremoved hc⟩
  | writes l l' job cell cells hc => exact ⟨h.session, hreplaced hc⟩
  | returns l l' job hc => exact ⟨h.session, hremoved hc⟩
  | dies => exact ⟨fun row hrow => no_row hrow, h.calls⟩
  | lost l l' job hc hd => exact ⟨h.session, hreplaced hc⟩

/-- The cells change only where one is written. -/
theorem active_step {w w' : Workspace.World} {e : Workspace.Event}
    (hs : Workspace.Step rows w e w') :
    w'.active = w.active ∨ ∃ cell, e = .writes cell ∧ w'.active = w.active.set cell := by
  cases hs with
  | writes l l' job cell cells hc => exact .inr ⟨cell, rfl, rfl⟩
  | _ => exact .inl rfl

/-- **One orderly step.** -/
theorem Inv.step (hrows : Stored rows) {w w' : World} {e : Event} (h : Inv rows w)
    (hs : Step rows w e w') (ho : Orderly w e) : Inv rows w' := by
  cases hs with
  | workspace ws e hs =>
    refine ⟨h.known.step hs, fun q hq => (h.queries q hq).kept ?_, h.entries⟩
    rcases active_step hs with hsame | ⟨cell, rfl, hset⟩
    · exact .inr (by rw [hsame]; exact ⟨rfl, rfl⟩)
    · cases hcell : isNaming cell with
      | true => exact .inl (ho hcell q hq)
      | false =>
        rw [hset]
        cases cell with
        | connection name => cases hcell
        | env env => cases hcell
        | airGap on => exact .inr ⟨rfl, rfl⟩
        | psdpm on => exact .inr ⟨rfl, rfl⟩
  | starts =>
    refine ⟨h.known, fun q hq => ?_, h.entries⟩
    rcases mem_append.mp hq with hq | hq
    · exact h.queries q hq
    · rw [mem_singleton.mp hq]
      trivial
  | executes l l' hq =>
    refine ⟨h.known, fun q hqm => ?_, h.entries⟩
    rcases mem_replaced hqm with rfl | hqm
    · exact fun row hrow => ⟨h.known.session row hrow, ho row hrow⟩
    · exact h.queries q (hq ▸ hqm)
  | refused l l' hq =>
    refine ⟨h.known, fun q hqm => ?_, h.entries⟩
    rcases mem_replaced hqm with rfl | hqm
    · exact fun row hrow => no_row hrow
    · exact h.queries q (hq ▸ hqm)
  | looksUp l l' on listed connectionId host username hq hm =>
    refine ⟨h.known, fun q hqm => ?_, h.entries⟩
    rcases mem_replaced hqm with rfl | hqm
    · intro row hrow
      obtain ⟨hmem, hname, henv⟩ := h.queries (.executed on) (hq ▸ mem_here) row hrow
      obtain rfl : listed = true := ho
      rw [hname, Option.getD_some, lookup_name hrows hmem] at hm
      obtain ⟨hid, hhost, -⟩ :
          row.id = connectionId ∧ hostOf row = host ∧ row.username = username := by
        simpa using hm
      exact ⟨hid.symm, hhost.symm, henv⟩
    · exact h.queries q (hq ▸ hqm)
  | records l l' on connectionId host username hq =>
    refine ⟨h.known, fun q hqm => h.queries q (hq ▸ mem_removed hqm), fun e he => ?_⟩
    rcases mem_append.mp he with he | he
    · exact h.entries e he
    · rw [mem_singleton.mp he]
      exact h.queries (.named on connectionId host username) (hq ▸ mem_here)

/-- **Every entry names the connection of its statement**, in every run of orderly steps. -/
theorem orderly_named (hrows : Stored rows) {w : World}
    (h : Runs (Step rows) Orderly .start w) : ∀ e ∈ w.entries, Right e :=
  (h.inv inv_start fun _ _ _ hi hs ho => hi.step hrows hs ho).entries

/-! ## 5. A close in between -/

theorem stored_rows : Stored [prodRow, devRow] := ⟨by decide, by decide⟩

section Runs
variable {allowed : World → Event → Prop}

/-- Opens and closes with no query in progress. -/
theorem runs_workspace (hall : ∀ w e, Orderly w e → allowed w e) {ws : Workspace.World}
    (h : Runs (Workspace.Step rows) (fun _ _ => True) .start ws) :
    Runs (Step rows) allowed .start ⟨ws, [], []⟩ := by
  induction h with
  | start => exact .start
  | step s s' e _ hs _ ih =>
    refine .step _ _ _ ih (.workspace _ s' e hs) (hall _ _ ?_)
    cases e with
    | writes cell => exact fun _ q hq => absurd hq not_mem_nil
    | _ => trivial

/-- A statement on the session of prod. -/
theorem runs_executed (hall : ∀ w e, Orderly w e → allowed w e) :
    Runs (Step [prodRow, devRow]) allowed .start ⟨prodOpened, [.executed (some prodRow)], []⟩ := by
  have hnames : ∀ row, prodOpened.session = some row → Names prodOpened.active row := by
    intro row hrow
    cases hrow
    exact ⟨rfl, rfl⟩
  have hopened : Runs (Step [prodRow, devRow]) allowed .start ⟨prodOpened, [], []⟩ :=
    runs_workspace hall (runs_prodOpened fun _ _ _ => trivial)
  have hasks : Runs (Step [prodRow, devRow]) allowed .start ⟨prodOpened, [.asks], []⟩ :=
    .step _ _ _ hopened (.starts ⟨prodOpened, [], []⟩) (hall _ _ trivial)
  exact .step _ _ _ hasks (.executes ⟨prodOpened, [.asks], []⟩ [] [] rfl) (hall _ _ hnames)

end Runs

/-- The entry of that statement. -/
def prodEntry : Entry :=
  ⟨some prodRow, prodRow.id, hostOf prodRow, prodRow.username, prodRow.env⟩

theorem orderly_named_prod : Right prodEntry := by
  have hnamed : Runs (Step [prodRow, devRow]) Orderly .start
      ⟨prodOpened, [.named (some prodRow) prodRow.id (hostOf prodRow) prodRow.username], []⟩ :=
    .step _ _ (.looksUp true) (runs_executed fun _ _ ho => ho)
      (.looksUp ⟨prodOpened, [.executed (some prodRow)], []⟩ [] [] (some prodRow) true _ _ _ rfl
        (lookup_name stored_rows mem_cons_self)) rfl
  have hrecorded : Runs (Step [prodRow, devRow]) Orderly .start ⟨prodOpened, [], [prodEntry]⟩ :=
    .step _ _ .records hnamed (.records ⟨prodOpened, _, []⟩ [] [] (some prodRow) _ _ _ rfl) trivial
  exact orderly_named stored_rows hrecorded prodEntry (mem_singleton_self _)

/-- **A close between a statement and its entry**: the entry names no connection. -/
theorem closed_between : ∃ w, Runs (Step [prodRow, devRow]) (fun _ _ => True) .start w ∧
    ∃ e ∈ w.entries, ¬ Right e := by
  have hclosed : ∃ ws : Workspace.World, ws.active.connection = none ∧
      Runs (Step [prodRow, devRow]) (fun _ _ => True) .start
        ⟨ws, [.executed (some prodRow)], []⟩ := by
    refine ⟨_, ?_, .step _ _ (.workspace _) (.step _ _ (.workspace _) (.step _ _ (.workspace _)
      (.step _ _ (.workspace _) (runs_executed fun _ _ _ => trivial)
        (.workspace _ _ _ (.closes _)) trivial)
        (.workspace _ _ _ (.handles _ [] [] .workspaceClose .done rfl rfl)) trivial)
        (.workspace _ _ _ (.goesOn _ [] [] _ true rfl rfl)) trivial)
        (.workspace _ _ _ (.writes _ [] [] _ _ _ rfl)) trivial⟩
    rfl
  obtain ⟨ws, hnone, hrun⟩ := hclosed
  have hm : lookupActiveConnectionMeta [prodRow, devRow] true (ws.active.connection.getD []) =
      ([], [], []) := by
    rw [hnone]
    rfl
  have hnamed : Runs (Step [prodRow, devRow]) (fun _ _ => True) .start
      ⟨ws, [.named (some prodRow) [] [] []], []⟩ :=
    .step _ _ (.looksUp true) hrun (.looksUp ⟨ws, _, []⟩ [] [] (some prodRow) true [] [] [] rfl hm)
      trivial
  refine ⟨_, .step _ _ .records hnamed
    (.records ⟨ws, _, []⟩ [] [] (some prodRow) [] [] [] rfl) trivial,
    ⟨_, mem_singleton.mpr rfl, ?_⟩⟩
  intro hright
  have hid := (hright prodRow rfl).1
  change ([] : Text) = prodRow.id at hid
  exact absurd hid (by decide)

end Veesker.Host.QueryAudit
