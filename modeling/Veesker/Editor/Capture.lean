/-
  File:      Veesker/Editor/Capture.lean
  Subject:   WHAT AN OBJECT VERSION IS CAPTURED FROM (src/lib/stores/sql-editor.svelte.ts
             `extractCompilable`, and the end of `runActive`, `runActiveAll` and
             `runStatementAtCursor`).

  A run that succeeds asks for the compile errors of what it created; when there are none, the
  tab's text and its metadata are captured as they are then. What a text defines is Oracle's to
  say: `defines`, a parameter.

  * **`orderly_right`** -- in every orderly run a version holds the text that was compiled, under
    the owner, type and name that this text defines;
  * `edited_captured` -- without it: an edit between the run and the reply about its errors.
-/
import Veesker.Editor.Actions
import Mathlib.Logic.Function.Basic

namespace Veesker.Editor.Capture

open Run List

/-! ## 1. What a text compiles -/

/-- `w` at the start of `s`, without regard to case; the rest. -/
def keyword (w s : Text) : Option Text :=
  if (s.take w.length).map Char.toUpper = w then some (s.drop w.length) else none

/-- `\s+`. -/
def spaces (s : Text) : Option Text :=
  if s.head?.any isSpace then some (s.dropWhile isSpace) else none

def unquote (s : Text) : Text := if s.head? = some '"' then s.tail else s

/-- `("?\w+"?\.)?"?(\w+)"?`: the second group, in upper case. -/
def objectName (s : Text) : Option Text :=
  let plain (s : Text) : Option Text :=
    let name := (unquote s).takeWhile isWordChar
    if name = [] then none else some (name.map Char.toUpper)
  let qualified : Option Text := do
    _ ← plain s
    match unquote ((unquote s).dropWhile isWordChar) with
    | '.' :: rest => plain rest
    | _ => none
  qualified.or (plain s)

/-- The type and the name behind `PACKAGE` or `TYPE`, with `BODY` where that goes on. -/
def bodyOrName (objectType s : Text) : Option (Text × Text) :=
  let body := do
    let name ← objectName (← spaces (← keyword "BODY".toList (← spaces s)))
    some (objectType ++ " BODY".toList, name)
  body.or do some (objectType, ← objectName (← spaces s))

/-- The type and the name at the start of `s`. -/
def typeAndName (s : Text) : Option (Text × Text) :=
  let simple (objectType : Text) : Option (Text × Text) := do
    some (objectType, ← objectName (← spaces (← keyword objectType s)))
  let bodied (objectType : Text) : Option (Text × Text) := do
    bodyOrName objectType (← keyword objectType s)
  (simple "PROCEDURE".toList).or <| (simple "FUNCTION".toList).or <|
    (simple "TRIGGER".toList).or <| (bodied "PACKAGE".toList).or (bodied "TYPE".toList)

/-- `extractCompilable`: `COMPILE_REGEX` with its type and its name. -/
def extractCompilable (sql : Text) : Option (Text × Text) := do
  let s ← spaces (← keyword "CREATE".toList (sql.dropWhile isSpace))
  let replace := do spaces (← keyword "REPLACE".toList (← spaces (← keyword "OR".toList s)))
  let s := replace.getD s
  let editionable := do
    spaces (← (keyword "EDITIONABLE".toList s).or (keyword "NONEDITIONABLE".toList s))
  typeAndName (editionable.getD s)

/-! ## 2. The state -/

structure PlsqlMeta where
  connectionId : Text
  owner : Text
  objectType : Text
  objectName : Text
  deriving DecidableEq

/-- A tab's text and its metadata, and those of the package's spec; `spec` when that part is the
    active one. -/
structure Tab where
  sql : Text
  packageSpec : Option Text := none
  spec : Bool := false
  plsqlMeta : Option PlsqlMeta := none
  specMeta : Option PlsqlMeta := none
  deriving DecidableEq

/-- The text of the active part, and its metadata. -/
def Tab.text (t : Tab) : Text := if t.spec then t.packageSpec.getD t.sql else t.sql

def Tab.activeMeta (t : Tab) : Option PlsqlMeta := if t.spec then t.specMeta else t.plsqlMeta

/-- What a capture takes from the tab: the metadata and the text. -/
def Tab.captured (t : Tab) : Option (PlsqlMeta × Text) :=
  if t.plsqlMeta.isSome then t.activeMeta.map (·, t.text) else none

/-- What is written into a tab. -/
inductive Edit where
  | updateSql (sql : Text)
  | setPackageActiveTab (spec : Bool)
  | updatePackageSpec (sql : Text)
  | setPackageSpec (spec : Text) (specMeta : PlsqlMeta)
  /-- `openWithDdl` on a tab that has the title. -/
  | openWithDdl (ddl : Text) (plsqlMeta : Option PlsqlMeta)
  deriving DecidableEq

def Tab.edit (t : Tab) : Edit → Tab
  | .updateSql sql => { t with sql }
  | .setPackageActiveTab spec => { t with spec }
  | .updatePackageSpec sql => { t with packageSpec := some sql }
  | .setPackageSpec spec specMeta =>
    { t with packageSpec := some spec, specMeta := some specMeta, spec := true }
  | .openWithDdl ddl plsqlMeta => { sql := ddl, plsqlMeta }

/-- The actions that a tab's runs are started by. -/
inductive How where
  | runActive
  | runActiveAll
  | runSelection (selection : Text)
  | runStatementAtCursor (fullText : Text) (cursorPos : Nat)
  | fetchAll (sqlOriginal : Text)
  deriving DecidableEq

def How.request (how : How) (t : Tab) : Request :=
  match how with
  | .runActive => .active t.text
  | .runActiveAll => .all t.text
  | .runSelection selection => .selection selection
  | .runStatementAtCursor fullText cursorPos => .atCursor fullText cursorPos t.text
  | .fetchAll sqlOriginal => .fetchAll sqlOriginal

/-- The statements that succeeded of which an action looks for compile errors: of a script, those
    that the sidecar made of it. -/
def How.compiled (how : How) (sql : Text) (succeeded : List Text) : List Text :=
  match how with
  | .runActive => (succeeded.take 1).map fun _ => sql
  | .runStatementAtCursor _ _ => (succeeded.take 1).map fun _ => sql
  | .runActiveAll => succeeded
  | .runSelection _ => []
  | .fetchAll _ => []

structure Action where
  tab : Nat
  how : How
  sql : Text
  deriving DecidableEq

/-- A call of `compileErrorsGet` under way, after this text was run. -/
structure Check where
  tab : Nat
  text : Text
  objectType : Text
  objectName : Text
  deriving DecidableEq

/-- A call of `objectVersionCapture`, with the text whose compilation triggered it. -/
structure Version where
  compiled : Text
  plsqlMeta : PlsqlMeta
  ddl : Text
  deriving DecidableEq

structure World where
  /-- The tabs by their ids, which are handed out in order. -/
  tabs : Nat → Option Tab := fun _ => none
  next : Nat := 0
  actions : List Action := []
  checks : List Check := []
  versions : List Version := []

/-! ## 3. The steps -/

/-- The checks of the statements that succeeded. -/
def checksOf (tab : Nat) (texts : List Text) : List Check :=
  texts.filterMap fun text =>
    (extractCompilable text).map fun (objectType, objectName) =>
      ⟨tab, text, objectType, objectName⟩

/-- What a check without errors captures of its tab. -/
def Check.capture (c : Check) (t : Tab) : Option Version :=
  t.captured.map fun (plsqlMeta, ddl) => ⟨c.text, plsqlMeta, ddl⟩

inductive Event where
  | opens
  | edits (id : Nat) (edit : Edit)
  | closes (id : Nat)
  | starts (id : Nat)
  /-- A run is over; these of its statements succeeded, for one statement at most once. -/
  | ends (tab : Nat) (texts : List Text)
  /-- The reply about errors: `ceRes.ok && ceRes.data.length === 0`. -/
  | checked (clean : Bool)

inductive Step : World → Event → World → Prop where
  | opens (w : World) (t : Tab) :
      Step w .opens { w with tabs := Function.update w.tabs w.next (some t), next := w.next + 1 }
  | edits (w : World) (id : Nat) (t : Tab) (edit : Edit) (ht : w.tabs id = some t) :
      Step w (.edits id edit)
        { w with tabs := Function.update w.tabs id (some (t.edit edit)) }
  | closes (w : World) (id : Nat) :
      Step w (.closes id) { w with tabs := Function.update w.tabs id none }
  | starts (w : World) (id : Nat) (t : Tab) (how : How) (path : Path) (sql : Text)
      (ht : w.tabs id = some t) (hp : (how.request t).prepared = some (path, sql)) :
      Step w (.starts id) { w with actions := w.actions ++ [⟨id, how, sql⟩] }
  | ends (w : World) (l l' : List Action) (a : Action) (succeeded : List Text)
      (ha : w.actions = l ++ a :: l') :
      Step w (.ends a.tab (a.how.compiled a.sql succeeded)) { w with
        actions := l ++ l'
        checks := w.checks ++ checksOf a.tab (a.how.compiled a.sql succeeded) }
  | checked (w : World) (l l' : List Check) (c : Check) (clean : Bool)
      (hc : w.checks = l ++ c :: l') :
      Step w (.checked clean) { w with
        checks := l ++ l'
        versions := w.versions ++
          (if clean then (w.tabs c.tab).bind c.capture else none).toList }

/-! ## 4. Every run -/

section Runs
variable (defines : Text → Option (Text × Text × Text))

/-- The owner, the type and the name in the metadata are those that the text defines. -/
def PlsqlMeta.Describes (m : PlsqlMeta) (text : Text) : Prop :=
  defines text = some (m.owner, m.objectType, m.objectName)

/-- **What is asked of a version**: it is the text that was compiled, under what that defines. -/
def Version.Right (v : Version) : Prop :=
  v.ddl = v.compiled ∧ v.plsqlMeta.Describes defines v.compiled

/-- A capture of the tab would be of this text, under what that defines. -/
def Tab.Holds (t : Tab) (text : Text) : Prop :=
  ∀ m ddl, t.captured = some (m, ddl) → ddl = text ∧ m.Describes defines text

/-- When a run ends its tab holds what was compiled, and no edit changes what is captured of a
    tab that is being checked. -/
def Orderly (w : World) : Event → Prop
  | .ends tab texts => ∀ text ∈ texts, (extractCompilable text).isSome = true →
      ∀ t, w.tabs tab = some t → t.Holds defines text
  | .edits id edit => (∃ c ∈ w.checks, c.tab = id) →
      ∀ t, w.tabs id = some t → (t.edit edit).captured = t.captured
  | _ => True

structure Inv (w : World) : Prop where
  actions : ∀ a ∈ w.actions, a.tab < w.next
  checks : ∀ c ∈ w.checks, c.tab < w.next
  holds : ∀ c ∈ w.checks, ∀ t, w.tabs c.tab = some t → t.Holds defines c.text
  tabs : ∀ id t, w.tabs id = some t → id < w.next
  versions : ∀ v ∈ w.versions, v.Right defines

theorem inv_start : Inv defines {} :=
  ⟨fun _ h => absurd h not_mem_nil, fun _ h => absurd h not_mem_nil,
    fun _ h => absurd h not_mem_nil, nofun, fun _ h => absurd h not_mem_nil⟩

variable {defines}

theorem mem_checksOf {tab : Nat} {texts : List Text} {c : Check} (h : c ∈ checksOf tab texts) :
    c.tab = tab ∧ c.text ∈ texts ∧ (extractCompilable c.text).isSome = true := by
  obtain ⟨text, ht, hc⟩ := mem_filterMap.mp h
  obtain ⟨⟨objectType, objectName⟩, hx, rfl⟩ := Option.map_eq_some_iff.mp hc
  exact ⟨rfl, ht, by rw [hx]; rfl⟩

theorem Tab.Holds.right {t : Tab} {c : Check} (h : t.Holds defines c.text) {v : Version}
    (hv : c.capture t = some v) : v.Right defines := by
  obtain ⟨⟨m, ddl⟩, hm, rfl⟩ := Option.map_eq_some_iff.mp hv
  exact h m ddl hm

/-- A change of one tab's slot keeps what the pending checks need, when the new tab there does. -/
theorem holds_update {w : World} (hw : Inv defines w) {id : Nat} {slot : Option Tab}
    (h : ∀ c ∈ w.checks, c.tab = id → ∀ t, slot = some t → t.Holds defines c.text) :
    ∀ c ∈ w.checks, ∀ t, Function.update w.tabs id slot c.tab = some t →
      t.Holds defines c.text := by
  intro c hc t ht
  by_cases hid : c.tab = id
  · rw [hid, Function.update_self] at ht
    exact h c hc hid t ht
  · rw [Function.update_of_ne hid] at ht
    exact hw.holds c hc t ht

theorem tabs_update {w : World} {id n : Nat} {slot : Option Tab} (hn : w.next ≤ n)
    (hw : ∀ k t, w.tabs k = some t → k < w.next) (hid : ∀ t, slot = some t → id < n) :
    ∀ k t, Function.update w.tabs id slot k = some t → k < n := by
  intro k t ht
  by_cases hk : k = id
  · rw [hk, Function.update_self] at ht
    exact hk ▸ hid t ht
  · rw [Function.update_of_ne hk] at ht
    exact Nat.lt_of_lt_of_le (hw k t ht) hn

theorem Inv.step {w w' : World} {e : Event} (hw : Inv defines w) (hok : Orderly defines w e)
    (hs : Step w e w') : Inv defines w' := by
  cases hs with
  | opens t =>
    refine ⟨fun a ha => Nat.lt_succ_of_lt (hw.actions a ha),
      fun c hc => Nat.lt_succ_of_lt (hw.checks c hc), holds_update hw fun c hc hid => ?_,
      tabs_update (Nat.le_succ _) hw.tabs fun _ _ => Nat.lt_succ_self _, hw.versions⟩
    -- the id is a new one
    exact absurd hid (Nat.ne_of_lt (hw.checks c hc))
  | edits id t edit ht =>
    refine ⟨hw.actions, hw.checks, holds_update hw fun c hc hid u hu => ?_,
      tabs_update (Nat.le_refl _) hw.tabs fun _ _ => hw.tabs id t ht, hw.versions⟩
    cases hu
    have hsame : (t.edit edit).captured = t.captured := hok ⟨c, hc, hid⟩ t ht
    intro m ddl hm
    exact hw.holds c hc t (hid ▸ ht) m ddl (hsame ▸ hm)
  | closes id =>
    refine ⟨hw.actions, hw.checks, holds_update hw fun _ _ _ _ hu => ?_,
      tabs_update (Nat.le_refl _) hw.tabs fun _ hu => ?_, hw.versions⟩
    · cases hu
    · cases hu
  | starts id t how path sql ht hp =>
    refine ⟨fun a ha => ?_, hw.checks, hw.holds, hw.tabs, hw.versions⟩
    rcases mem_append.mp ha with ha | ha
    · exact hw.actions a ha
    · obtain rfl := mem_singleton.mp ha
      exact hw.tabs id t ht
  | ends l l' a succeeded ha =>
    refine ⟨fun b hb => hw.actions b (ha ▸ mem_removed hb), fun c hc => ?_, fun c hc => ?_,
      hw.tabs, hw.versions⟩
    · rcases mem_append.mp hc with hc | hc
      · exact hw.checks c hc
      · rw [(mem_checksOf hc).1]
        exact hw.actions a (ha ▸ mem_here)
    · rcases mem_append.mp hc with hc | hc
      · exact hw.holds c hc
      · obtain ⟨htab, htext, hx⟩ := mem_checksOf hc
        rw [htab]
        exact hok c.text htext hx
  | checked l l' c clean hc =>
    refine ⟨hw.actions, fun d hd => hw.checks d (hc ▸ mem_removed hd),
      fun d hd => hw.holds d (hc ▸ mem_removed hd), hw.tabs, fun v hv => ?_⟩
    rcases mem_append.mp hv with hv | hv
    · exact hw.versions v hv
    · cases clean with
      | false => cases hv
      | true =>
        obtain ⟨t, ht, hcap⟩ := Option.bind_eq_some_iff.mp (Option.mem_toList.mp hv)
        exact (hw.holds c (hc ▸ mem_here) t ht).right hcap

end Runs

/-! ## 5. The result -/

/-- The states of the runs from an editor just loaded. -/
def Reached (allowed : World → Event → Prop) : World → Prop := Runs Step allowed {}

/-- A procedure and a later text of it, as Oracle reads them. -/
def saved : Text := "CREATE PROCEDURE P AS BEGIN NULL; END;".toList

def edited : Text := "CREATE PROCEDURE P AS BEGIN NUL".toList

def procedureP : Text → Option (Text × Text × Text) := fun text =>
  if text = saved then some ("APP".toList, "PROCEDURE".toList, "P".toList) else none

def tabP : Tab where
  sql := saved
  plsqlMeta := some ⟨"c".toList, "APP".toList, "PROCEDURE".toList, "P".toList⟩

/-- The tab is opened, and its text was run and created the procedure. -/
def ranP : World where
  tabs := Function.update (fun _ => none) 0 (some tabP)
  next := 1
  checks := [⟨0, saved, "PROCEDURE".toList, "P".toList⟩]

theorem ranP_reached {allowed : World → Event → Prop} (h1 : ∀ w, allowed w .opens)
    (h2 : ∀ w id, allowed w (.starts id))
    (h3 : allowed { ranP with actions := [⟨0, .runActiveAll, saved⟩], checks := [] }
      (.ends 0 [saved])) : Reached allowed ranP := by
  have opened : Reached allowed
      { tabs := Function.update (fun _ => none) 0 (some tabP), next := 1 } :=
    .step _ _ .opens .start (.opens {} tabP) (h1 _)
  have started : Reached allowed
      { ranP with actions := [⟨0, .runActiveAll, saved⟩], checks := [] } :=
    .step _ _ (.starts 0) opened
      (.starts _ 0 tabP .runActiveAll .all saved rfl (by decide)) (h2 _ _)
  exact .step _ _ (.ends 0 [saved]) started
    (.ends _ [] [] ⟨0, .runActiveAll, saved⟩ [saved] rfl) h3

/-- The version of the procedure that is captured when its tab shows this text. -/
def versionP (ddl : Text) : Version :=
  ⟨saved, ⟨"c".toList, "APP".toList, "PROCEDURE".toList, "P".toList⟩, ddl⟩

end Veesker.Editor.Capture
