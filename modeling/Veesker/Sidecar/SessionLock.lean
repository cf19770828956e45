/-
  File:      Veesker/Sidecar/SessionLock.lean
  Subject:   WHO HOLDS A CONNECTION (sidecar/src/oracle.ts, state.ts): `openSession`, `closeSession`
             and `withActiveSession`, in every order of their steps between two awaits.

  `withSessionLock` puts the calls of the first two in a queue, of which only the first one runs;
  the calls of `withActiveSession` run beside it. Connections are numbered as they are opened.

  * `orderly_quiescent` -- **in an orderly run no connection is leaked**: with nothing in flight
    every connection is the session's or closed.
  * `orderly_lost` -- in such a run an error on an older connection leaves a newer session alone;
    `orderly_sessions` puts the two together.
  * `cleared_newer` -- without it: a late error on a closed connection clears the new session.
-/
import Mathlib.Logic.Function.Basic
import Veesker.Run.Flight

namespace Veesker.Sidecar.SessionLock

open Run

/-! ## 1. The state -/

inductive Job where
  | openSession
  | closeSession
  deriving DecidableEq

/-- What a call that asked for the lock awaits. -/
inductive Phase where
  /-- The calls before it. -/
  | prior
  /-- The `close` of the session's connection. -/
  | closingOld (conn : Nat)
  | building
  /-- The first queries on a new connection. -/
  | booting (conn : Nat)
  /-- The `close` of a connection whose first queries failed. -/
  | cleanup (conn : Nat)
  deriving DecidableEq

structure World where
  currentSession : Option Nat := none
  /-- How many connections were opened. -/
  opened : Nat := 0
  /-- The connections whose `close` has resolved. -/
  closed : Nat → Bool := fun _ => false
  /-- The calls that asked for the lock, the oldest first. -/
  queue : List (Job × Phase) := []
  /-- The connections of the calls of `withActiveSession` in flight. -/
  users : List Nat := []

/-! ## 2. The steps -/

inductive Event where
  | asks (job : Job)
  | starts
  /-- The `close` of the session's connection has resolved, or was rejected. -/
  | oldClosed (ok : Bool)
  | built
  | notBuilt
  | booted
  | notBooted
  | cleanedUp (ok : Bool)
  | useStarts
  | useEnds (conn : Nat)
  /-- A call of `withActiveSession` meets an error that counts as a lost session. -/
  | useLost (conn : Nat)
  deriving DecidableEq

/-- What a call does once it has the lock and no session is left. -/
def afterClear (job : Job) (rest : List (Job × Phase)) : List (Job × Phase) :=
  match job with
  | .openSession => (job, .building) :: rest
  | .closeSession => rest

inductive Step : World → Event → World → Prop where
  | asks (w : World) (job : Job) :
      Step w (.asks job) { w with queue := w.queue ++ [(job, .prior)] }
  | startsClosing (w : World) (job : Job) (rest : List (Job × Phase)) (conn : Nat)
      (hq : w.queue = (job, .prior) :: rest) (hs : w.currentSession = some conn) :
      Step w .starts { w with queue := (job, .closingOld conn) :: rest }
  | startsClear (w : World) (job : Job) (rest : List (Job × Phase))
      (hq : w.queue = (job, .prior) :: rest) (hs : w.currentSession = none) :
      Step w .starts { w with queue := afterClear job rest }
  | oldClosed (w : World) (job : Job) (rest : List (Job × Phase)) (conn : Nat) (ok : Bool)
      (hq : w.queue = (job, .closingOld conn) :: rest) :
      Step w (.oldClosed ok) { w with
        closed := if ok then Function.update w.closed conn true else w.closed
        currentSession := none
        queue := afterClear job rest }
  | built (w : World) (job : Job) (rest : List (Job × Phase))
      (hq : w.queue = (job, .building) :: rest) :
      Step w .built { w with
        opened := w.opened + 1
        queue := (job, .booting w.opened) :: rest }
  | notBuilt (w : World) (job : Job) (rest : List (Job × Phase))
      (hq : w.queue = (job, .building) :: rest) : Step w .notBuilt { w with queue := rest }
  | booted (w : World) (job : Job) (rest : List (Job × Phase)) (conn : Nat)
      (hq : w.queue = (job, .booting conn) :: rest) :
      Step w .booted { w with currentSession := some conn, queue := rest }
  | notBooted (w : World) (job : Job) (rest : List (Job × Phase)) (conn : Nat)
      (hq : w.queue = (job, .booting conn) :: rest) :
      Step w .notBooted { w with queue := (job, .cleanup conn) :: rest }
  | cleanedUp (w : World) (job : Job) (rest : List (Job × Phase)) (conn : Nat) (ok : Bool)
      (hq : w.queue = (job, .cleanup conn) :: rest) :
      Step w (.cleanedUp ok) { w with
        closed := if ok then Function.update w.closed conn true else w.closed
        queue := rest }
  | useStarts (w : World) (conn : Nat) (hs : w.currentSession = some conn) :
      Step w .useStarts { w with users := w.users ++ [conn] }
  | useEnds (w : World) (us us' : List Nat) (conn : Nat) (hu : w.users = us ++ conn :: us') :
      Step w (.useEnds conn) { w with users := us ++ us' }
  | useLost (w : World) (us us' : List Nat) (conn : Nat) (hu : w.users = us ++ conn :: us') :
      -- `clearSession`, whichever session there is
      Step w (.useLost conn) { w with currentSession := none, users := us ++ us' }

/-! ## 3. What is asked of a run -/

def Quiescent (w : World) : Prop := w.queue = [] ∧ w.users = []

/-- Every connection is the session's or closed. -/
def Kept (w : World) : Prop :=
  ∀ conn < w.opened, w.currentSession = some conn ∨ w.closed conn = true

/-- The session's connection is being closed by the call that has the lock. -/
def BeingClosed (w : World) (conn : Nat) : Prop :=
  w.currentSession = some conn ∧ ∃ job rest, w.queue = (job, .closingOld conn) :: rest

/-- Every `close` resolves, and an error counts as a lost session only while there is no session,
    or on the session's connection while that is being closed. -/
def Orderly (w : World) : Event → Prop
  | .oldClosed ok => ok = true
  | .cleanedUp ok => ok = true
  | .useLost conn => w.currentSession = none ∨ BeingClosed w conn
  | _ => True

/-- The states of all runs. -/
abbrev Reachable : World → Prop := Runs Step (fun _ _ => True) {}

/-- The states of the runs all of whose steps are orderly. -/
abbrev OrderlyRun : World → Prop := Runs Step Orderly {}

/-! ## 4. The invariant -/

/-- The connection that the call with the lock looks after. -/
def Phase.conn : Phase → Option Nat
  | .closingOld conn => some conn
  | .booting conn => some conn
  | .cleanup conn => some conn
  | _ => none

structure Inv (w : World) : Prop where
  /-- Only the first call of the queue is past the lock. -/
  waiting : ∀ p ∈ w.queue.tail, p.2 = .prior
  /-- A connection is the session's, closed, or looked after. -/
  kept : ∀ conn < w.opened, w.currentSession = some conn ∨ w.closed conn = true ∨
    ∃ job ph rest, w.queue = (job, ph) :: rest ∧ ph.conn = some conn
  /-- Once the session is closed there is none until the call is done. -/
  none_left : ∀ job ph rest, w.queue = (job, ph) :: rest →
    ph = .prior ∨ (∃ conn, ph = .closingOld conn) ∨ w.currentSession = none
  /-- While a session is being closed there is no other. -/
  closing : ∀ job conn rest, w.queue = (job, .closingOld conn) :: rest →
    w.currentSession = none ∨ w.currentSession = some conn

theorem inv_start : Inv {} where
  waiting _ h := absurd h List.not_mem_nil
  kept _ h := absurd h (Nat.not_lt_zero _)
  none_left _ _ _ h := absurd h nofun
  closing _ _ _ h := absurd h nofun

section

variable {w : World} {job : Job} {ph : Phase} {rest : List (Job × Phase)}

/-- Behind the call with the lock they wait. -/
theorem Inv.behind (h : Inv w) (hq : w.queue = (job, ph) :: rest) : ∀ p ∈ rest, p.2 = .prior :=
  fun p hp => h.waiting p (by rw [hq]; exact hp)

/-- The call with the lock looks after this connection only. -/
theorem Inv.looked (h : Inv w) (hq : w.queue = (job, ph) :: rest) {conn : Nat}
    (hlt : conn < w.opened) :
    w.currentSession = some conn ∨ w.closed conn = true ∨ ph.conn = some conn := by
  refine (h.kept conn hlt).imp_right (Or.imp_right fun ⟨job', ph', rest', hq', hph⟩ => ?_)
  obtain rfl : ph = ph' := congrArg Prod.snd (List.cons.inj (hq.symm.trans hq')).1
  exact hph

/-- Where it looks after none, every other is closed. -/
theorem Inv.keeps (h : Inv w) (hq : w.queue = (job, ph) :: rest) (hph : ph.conn = none) :
    Kept w := by
  intro conn hlt
  refine (h.looked hq hlt).imp_right (Or.resolve_right · ?_)
  rw [hph]
  nofun

/-- Past the closing there is no session. -/
theorem Inv.no_session (h : Inv w) (hq : w.queue = (job, ph) :: rest) (hp : ph ≠ .prior)
    (hc : ∀ conn, ph ≠ .closingOld conn) : w.currentSession = none := by
  rcases h.none_left job ph rest hq with hprior | ⟨conn, hclosing⟩ | hnone
  · exact absurd hprior hp
  · exact absurd hclosing (hc conn)
  · exact hnone

end

/-- A call is done: the next one waits. -/
theorem head_prior {rest : List (Job × Phase)} (h : ∀ p ∈ rest, p.2 = .prior) {job : Job}
    {ph : Phase} {rest' : List (Job × Phase)} (e : rest = (job, ph) :: rest') : ph = .prior :=
  h (job, ph) (e ▸ List.mem_cons_self)

/-- The invariant when no session is left and the call with the lock goes on, or is done. -/
theorem inv_afterClear {w : World} {job : Job} {rest : List (Job × Phase)}
    (hw : ∀ p ∈ rest, p.2 = .prior) (hs : w.currentSession = none)
    (hk : ∀ conn < w.opened, w.closed conn = true) (hq : w.queue = afterClear job rest) :
    Inv w := by
  cases job with
  | openSession =>
    have hq : w.queue = (.openSession, .building) :: rest := hq
    exact ⟨by rw [hq]; exact hw, fun conn hlt => Or.inr (Or.inl (hk conn hlt)),
      fun _ _ _ _ => Or.inr (Or.inr hs), fun _ _ _ _ => Or.inl hs⟩
  | closeSession =>
    have hq : w.queue = rest := hq
    exact ⟨by rw [hq]; exact fun p hp => hw p (List.mem_of_mem_tail hp),
      fun conn hlt => Or.inr (Or.inl (hk conn hlt)),
      fun _ _ _ _ => Or.inr (Or.inr hs), fun _ _ _ _ => Or.inl hs⟩

/-- One more call waits. -/
theorem Inv.asks {w : World} (h : Inv w) (job : Job) :
    Inv { w with queue := w.queue ++ [(job, .prior)] } := by
  have hcons : ∀ job' ph rest, w.queue ++ [(job, .prior)] = (job', ph) :: rest →
      ph = .prior ∨ ∃ rest', w.queue = (job', ph) :: rest' := by
    intro job' ph rest hq
    cases hw : w.queue with
    | nil =>
      rw [hw] at hq
      exact Or.inl (congrArg Prod.snd (List.cons.inj hq).1).symm
    | cons p ps =>
      rw [hw] at hq
      exact Or.inr ⟨ps, by rw [(List.cons.inj hq).1]⟩
  refine ⟨fun p hp => ?_, fun conn hlt => ?_, fun job' ph rest hq => ?_,
    fun job' conn rest hq => ?_⟩
  · cases hw : w.queue with
    | nil => simp [hw] at hp
    | cons q qs =>
      have hp : p ∈ qs ++ [(job, .prior)] := by simpa [hw] using hp
      rcases List.mem_append.mp hp with hp | hp
      · exact h.waiting p (by rw [hw]; exact hp)
      · rw [List.mem_singleton.mp hp]
  · refine (h.kept conn hlt).imp_right (Or.imp_right fun ⟨job', ph, rest, hq, hph⟩ => ?_)
    exact ⟨job', ph, rest ++ [(job, .prior)], by simp only [hq, List.cons_append], hph⟩
  · rcases hcons job' ph rest hq with hp | ⟨rest', hq'⟩
    · exact Or.inl hp
    · exact h.none_left job' ph rest' hq'
  · rcases hcons job' _ rest hq with hp | ⟨rest', hq'⟩
    · cases hp
    · exact h.closing job' conn rest' hq'

/-- The call with the lock is done: no connection is looked after. -/
theorem inv_done {w : World} (hw : ∀ p ∈ w.queue, p.2 = .prior) (hk : Kept w) : Inv w :=
  ⟨fun p hp => hw p (List.mem_of_mem_tail hp), fun c hlt => (hk c hlt).imp_right Or.inl,
    fun _ _ _ e => Or.inl (head_prior hw e), fun _ _ _ e => absurd (head_prior hw e) nofun⟩

/-- The call with the lock goes on while there is no session. -/
theorem inv_goes {w : World} {job : Job} {ph : Phase} {rest : List (Job × Phase)}
    (hw : ∀ p ∈ rest, p.2 = .prior) (hs : w.currentSession = none)
    (hk : ∀ conn < w.opened, w.closed conn = true ∨ ph.conn = some conn)
    (hq : w.queue = (job, ph) :: rest) : Inv w := by
  refine ⟨?_, fun c hlt => Or.inr ?_, fun _ _ _ _ => Or.inr (Or.inr hs), fun _ _ _ _ => Or.inl hs⟩
  · rw [hq]
    exact hw
  · exact (hk c hlt).imp_right fun hph => ⟨job, ph, rest, hq, hph⟩

/-- **One orderly step.** -/
theorem Inv.step {w w' : World} {e : Event} (h : Inv w) (hs : Step w e w') (ho : Orderly w e) :
    Inv w' := by
  cases hs with
  | asks job => exact h.asks job
  | startsClosing job rest conn hq hs =>
    have hkept : Kept w := h.keeps hq rfl
    refine ⟨h.behind hq, fun c hlt => (hkept c hlt).imp_right Or.inl,
      fun _ ph _ e => Or.inr (Or.inl ⟨conn, ?_⟩), fun _ c _ e => Or.inr ?_⟩
    · exact (congrArg Prod.snd (List.cons.inj e).1).symm
    · obtain rfl : conn = c := Phase.closingOld.inj (congrArg Prod.snd (List.cons.inj e).1)
      exact hs
  | startsClear job rest hq hs =>
    have hkept : Kept w := h.keeps hq rfl
    refine @inv_afterClear _ job rest (h.behind hq) hs (fun c hlt => ?_) rfl
    exact (hkept c hlt).resolve_left (by rw [hs]; exact nofun)
  | oldClosed job rest conn ok hq =>
    obtain rfl : ok = true := ho
    refine @inv_afterClear _ job rest (h.behind hq) rfl (fun c hlt => ?_) rfl
    simp only [↓reduceIte]
    by_cases e : c = conn
    · subst e
      exact Function.update_self _ _ _
    · rw [Function.update_of_ne e]
      rcases h.looked hq hlt with hc | hc | hph
      · rcases h.closing job conn rest hq with hn | hn
        · exact absurd (hn ▸ hc) nofun
        · exact absurd (Option.some.inj (hn ▸ hc)).symm e
      · exact hc
      · exact absurd (Option.some.inj hph).symm e
  | built job rest hq =>
    have hnone : w.currentSession = none := h.no_session hq nofun nofun
    have hkept : Kept w := h.keeps hq rfl
    refine inv_goes (h.behind hq) hnone (fun c hlt => ?_) rfl
    rcases Nat.lt_succ_iff_lt_or_eq.mp hlt with hlt | rfl
    · exact Or.inl ((hkept c hlt).resolve_left (by rw [hnone]; exact nofun))
    · exact Or.inr rfl
  | notBuilt job rest hq => exact inv_done (h.behind hq) (h.keeps hq rfl)
  | booted job rest conn hq =>
    have hnone : w.currentSession = none := h.no_session hq nofun nofun
    refine inv_done (h.behind hq) fun c hlt => ?_
    rcases h.looked hq hlt with hc | hc | hph
    · exact absurd (hnone ▸ hc) nofun
    · exact Or.inr hc
    · exact Or.inl hph
  | notBooted job rest conn hq =>
    have hnone : w.currentSession = none := h.no_session hq nofun nofun
    refine inv_goes (h.behind hq) hnone (fun c hlt => ?_) rfl
    exact (h.looked hq hlt).resolve_left (by rw [hnone]; exact nofun)
  | cleanedUp job rest conn ok hq =>
    obtain rfl : ok = true := ho
    refine inv_done (h.behind hq) fun c hlt => ?_
    simp only [↓reduceIte]
    rcases h.looked hq hlt with hc | hc | hph
    · exact Or.inl hc
    · refine Or.inr ?_
      by_cases e : c = conn
      · subst e
        exact Function.update_self _ _ _
      · rwa [Function.update_of_ne e]
    · obtain rfl : conn = c := Option.some.inj hph
      exact Or.inr (Function.update_self _ _ _)
  | useStarts conn hs => exact ⟨h.waiting, h.kept, h.none_left, h.closing⟩
  | useEnds us us' conn hu => exact ⟨h.waiting, h.kept, h.none_left, h.closing⟩
  | useLost us us' conn hu =>
    refine ⟨h.waiting, fun c hlt => ?_, fun _ _ _ _ => Or.inr (Or.inr rfl),
      fun _ _ _ _ => Or.inl rfl⟩
    rcases h.kept c hlt with hc | hc | hc
    · rcases ho with hn | ⟨hcur, job, rest, hq⟩
      · exact absurd (hn ▸ hc) nofun
      · obtain rfl : conn = c := Option.some.inj (hcur ▸ hc)
        exact Or.inr (Or.inr ⟨job, _, rest, hq, rfl⟩)
    · exact Or.inr (Or.inl hc)
    · exact Or.inr (Or.inr hc)

/-! ## 5. Every orderly run -/

theorem inv_of_orderly {w : World} (h : OrderlyRun w) : Inv w :=
  h.inv inv_start fun _ _ _ hi hs ho => hi.step hs ho

/-- **An orderly run leaks no connection.** -/
theorem orderly_quiescent {w : World} (h : OrderlyRun w) (hq : Quiescent w) : Kept w := by
  intro conn hlt
  rcases (inv_of_orderly h).kept conn hlt with hs | hc | ⟨_, _, _, hqueue, _⟩
  · exact Or.inl hs
  · exact Or.inr hc
  · rw [hq.1] at hqueue
    cases hqueue

/-- **In an orderly step an error on an older connection leaves a newer session alone.** -/
theorem orderly_lost {w w' : World} {conn newer : Nat} (ho : Orderly w (.useLost conn))
    (hlt : conn < newer) (hcur : w.currentSession = some newer) : w'.currentSession = some newer := by
  rcases ho with hn | ⟨hc, -⟩
  · exact absurd (hn ▸ hcur) nofun
  · obtain rfl : newer = conn := Option.some.inj (hcur ▸ hc)
    exact absurd hlt (Nat.lt_irrefl _)

/-- **Sessions and connections in an orderly run.** -/
theorem orderly_sessions {w : World} (h : OrderlyRun w) : (Quiescent w → Kept w) ∧
    ∀ conn w', Step w (.useLost conn) w' → Orderly w (.useLost conn) → ∀ newer, conn < newer →
      w.currentSession = some newer → w'.currentSession = some newer :=
  ⟨orderly_quiescent h, fun _ _ _ ho _ hlt hcur => orderly_lost ho hlt hcur⟩

/-! ## 6. Single runs -/

/-- An `openSession` that has the lock to itself and meets no session. -/
theorem run_opens {allowed : World → Event → Prop} {w : World} (h : Runs Step allowed {} w)
    (hq : w.queue = []) (hs : w.currentSession = none)
    (hasks : ∀ w, allowed w (.asks .openSession)) (hstarts : ∀ w, allowed w .starts)
    (hbuilt : ∀ w, allowed w .built) (hbooted : ∀ w, allowed w .booted) :
    Runs Step allowed {} { w with
      currentSession := some w.opened, opened := w.opened + 1, queue := [] } := by
  have h1 := Runs.step _ _ _ h (.asks w .openSession) (hasks w)
  rw [hq] at h1
  have h2 := Runs.step _ _ _ h1 (.startsClear _ .openSession [] rfl hs) (hstarts _)
  have h3 := Runs.step _ _ _ h2 (.built _ .openSession [] rfl) (hbuilt _)
  exact Runs.step _ _ _ h3 (.booted _ .openSession [] _ rfl) (hbooted _)

theorem orderly_sessions_open : ∃ w : World, w.currentSession = some 0 ∧
    ((Quiescent w → Kept w) ∧ ∀ conn w', Step w (.useLost conn) w' → Orderly w (.useLost conn) →
      ∀ newer, conn < newer → w.currentSession = some newer → w'.currentSession = some newer) := by
  have h := @run_opens Orderly {} .start rfl rfl (fun _ => trivial) (fun _ => trivial)
    (fun _ => trivial) (fun _ => trivial)
  exact ⟨_, rfl, orderly_sessions h⟩

/-- **A late error on a closed connection clears the session that was opened since**, and nobody
    closes that one's connection. -/
theorem cleared_newer : ¬ ∀ w, Reachable w → (Quiescent w → Kept w) ∧
    ∀ conn w', Step w (.useLost conn) w' → ∀ newer, conn < newer →
      w.currentSession = some newer → w'.currentSession = some newer := by
  intro hall
  have h1 := @run_opens (fun _ _ => True) {} .start rfl rfl (fun _ => trivial)
    (fun _ => trivial) (fun _ => trivial) (fun _ => trivial)
  have h2 := Runs.step _ _ _ h1 (.useStarts _ 0 rfl) trivial
  have h3 := Runs.step _ _ _ h2 (.asks _ .closeSession) trivial
  have h4 := Runs.step _ _ _ h3 (.startsClosing _ .closeSession [] 0 rfl rfl) trivial
  have h5 := Runs.step _ _ _ h4 (.oldClosed _ .closeSession [] 0 true rfl) trivial
  have h6 := run_opens h5 rfl rfl (fun _ => trivial) (fun _ => trivial) (fun _ => trivial)
    (fun _ => trivial)
  exact absurd ((hall _ h6).2 0 _ (.useLost _ [] [] 0 rfl) 1 (by decide) rfl) nofun

end Veesker.Sidecar.SessionLock
