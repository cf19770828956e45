/-
  File:      Veesker/Sidecar/Origin.lean
  Subject:   WHO A REQUEST COMES FROM (sidecar/src/oracle.ts `enforcePsdpmForOrigin`,
             sidecar/src/index.ts, src-tauri/src/commands.rs `query_execute`).

  A request carries an origin. `query.execute` asks for it before anything else; the other methods
  do not read it; the host's command `query_execute` keeps it for the audit log and sends the
  sidecar a request without one.

  * `origin_law_iff` -- **on prod, of the requests that reach the database, exactly those put to
    the sidecar as `query.execute` are refused by their origin**;
  * `origin_lost` -- one that comes through the host's command.
-/
import Veesker.Sidecar.Sends

namespace Veesker.Sidecar

open Run Safety

/-! ## 1. Requests with an origin -/

/-- The parameters of `query.execute` but the origin, its statements with the clock's readings. -/
structure QueryParams where
  acknowledgeUnsafe : Bool := false
  acknowledgeTable : Text := []
  statements : List (Text × Time)
  now : Time

/-- How a request comes to the sidecar. -/
inductive Entry where
  /-- a method other than `query.execute` -/
  | method (c : Call)
  /-- `query.execute` itself -/
  | queryExecute (p : QueryParams)
  /-- the host's command, which sends `sql`, `requestId`, `splitMulti`, `fetchAll` and
      `acknowledgeUnsafe` -/
  | command (p : QueryParams)

/-- The step that serves it, with the origin its caller gave. -/
def Entry.action (origin : Option Text) (answers : List Answer) : Entry → RpcAction
  | .method c => .call c answers
  | .queryExecute p =>
    .core (.queryExecute origin p.acknowledgeUnsafe p.acknowledgeTable p.statements p.now)
  | .command p => .core (.queryExecute none p.acknowledgeUnsafe [] p.statements p.now)

/-- The origin `enforcePsdpmForOrigin` is called with, where it is called. -/
def Entry.sees (origin : Option Text) : Entry → Option (Option Text)
  | .method _ => none
  | .queryExecute _ => some origin
  | .command _ => some none

/-! ## 2. The law -/

/-- Something is run for the request. -/
def RpcEvent.runs : RpcEvent → Bool
  | .sent _ _ _ => true
  | .core (.executed _ _ _) => true
  | _ => false

/-- Made by the user, the request has something run. -/
def Entry.ReachesDatabase (s : RpcState) (e : Entry) : Prop :=
  ∃ answers s' new, rpcStep s (e.action none answers) = some (s', new) ∧ ∃ ev ∈ new, ev.runs = true

/-- The origins of the user. -/
def userOrigins : List Text := ["user_typed".toList, "user_clicked".toList]

/-- The request is over at once: it leaves no event and the state as it was. -/
def Entry.Refused (s : RpcState) (origin : Option Text) (e : Entry) : Prop :=
  ∀ answers s' new, rpcStep s (e.action origin answers) = some (s', new) → s' = s ∧ new = []

/-- Every origin but the user's is refused, and the gate sees the origin that was given. -/
structure Entry.OriginLaw (s : RpcState) (e : Entry) : Prop where
  refused : ∀ origin, origin ∉ userOrigins → e.Refused s (some origin)
  seen : ∀ origin seen, e.sees origin = some seen → seen = origin

/-! ## 3. The result -/

/-- On prod the rule refuses every other origin. -/
theorem enforcePsdpm_prod {safety : ConnectionSafety} (henv : safety.env = some .prod)
    {origin : Text} (h : origin ∉ userOrigins) :
    ∃ e, enforcePsdpmForOrigin safety (some origin) = .error e := by
  have hflag : ¬ (safety.psdpm = false ∧ safety.env ≠ some .prod) := fun hf => hf.2 henv
  have huser : ¬ ["user_typed".toList, "user_clicked".toList].contains
      ((some origin).getD "user_typed".toList) = true := fun hc => h (List.contains_iff_mem.mp hc)
  rw [enforcePsdpmForOrigin, if_neg hflag, if_neg huser]
  exact ⟨_, rfl⟩

theorem queryExecute_refused {s : RpcState} (henv : s.core.safety.env = some .prod) {origin : Text}
    (h : origin ∉ userOrigins) (p : QueryParams) : (Entry.queryExecute p).Refused s (some origin) := by
  intro answers s' new hstep
  obtain ⟨e, he⟩ := enforcePsdpm_prod henv h
  rw [Entry.action, rpcStep, step, he] at hstep
  obtain ⟨rfl, rfl⟩ := Prod.mk.inj (Option.some.inj hstep)
  exact ⟨rfl, rfl⟩

/-- A request that is served alike whatever its origin is not refused by it. -/
theorem not_refused_of_same {s : RpcState} {e : Entry} {origin : Text}
    (hsame : ∀ answers, e.action (some origin) answers = e.action none answers)
    (hdb : e.ReachesDatabase s) : ¬ e.Refused s (some origin) := by
  intro h
  obtain ⟨answers, s', new, hstep, ev, hev, -⟩ := hdb
  rw [← hsame] at hstep
  obtain ⟨-, rfl⟩ := h answers s' new hstep
  cases hev

/-- **Which requests are refused by their origin on prod.** -/
theorem origin_law_iff {s : RpcState} (henv : s.core.safety.env = some .prod) {e : Entry}
    (hdb : e.ReachesDatabase s) : e.OriginLaw s ↔ ∃ p, e = .queryExecute p := by
  have hai : "ai_tool".toList ∉ userOrigins := by decide
  constructor
  · intro h
    cases e with
    | method c => exact absurd (h.refused _ hai) (not_refused_of_same (fun _ => rfl) hdb)
    | queryExecute p => exact ⟨p, rfl⟩
    | command p => exact absurd (h.refused _ hai) (not_refused_of_same (fun _ => rfl) hdb)
  · rintro ⟨p, rfl⟩
    exact ⟨fun origin ho => queryExecute_refused henv ho p,
      fun origin seen hs => (Option.some.inj hs).symm⟩

/-! ## 4. A session on prod -/

def prodState : RpcState where
  core := { session := some 0, safety := { env := some .prod, psdpm := true }, nextId := 1 }

def oneQuery : QueryParams where
  statements := [("SELECT 1 FROM dual".toList, 0)]
  now := 0

theorem reaches_oneQuery (e : Entry) (h : e.action none [] =
    .core (.queryExecute none false [] oneQuery.statements 0)) : e.ReachesDatabase prodState := by
  refine ⟨[], _, _, by rw [h]; rfl, .core (.executed "SELECT 1 FROM dual".toList 0 0), ?_, rfl⟩
  decide

theorem origin_law_query : (Entry.queryExecute oneQuery).OriginLaw prodState :=
  (origin_law_iff rfl (reaches_oneQuery (.queryExecute oneQuery) rfl)).mpr ⟨oneQuery, rfl⟩

/-- **An origin given to the host's command does not arrive.** -/
theorem origin_lost : ¬ ∀ (s : RpcState) (e : Entry), s.core.safety.env = some .prod →
    e.ReachesDatabase s → e.OriginLaw s := by
  intro h
  have hseen := (h prodState (.command oneQuery) rfl (reaches_oneQuery _ rfl)).seen
    (some "ai_approved".toList) none rfl
  cases hseen

end Veesker.Sidecar
