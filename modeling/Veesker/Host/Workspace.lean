/-
  File:      Veesker/Host/Workspace.lean
  Subject:   WHAT THE HOST HOLDS FOR THE ACTIVE CONNECTION (src-tauri/src/commands.rs
             `workspace_open` and `workspace_close`, lib.rs: the tray's disconnect), in every order
             of their steps.

  A step of a call goes from one of its awaits to the next: the sidecar's answer, then the locks of
  the four cells it writes. The connections' rows do not change. An open whose row cannot be read
  returns before its first await and is left out.

  * **`orderly_describes`** -- in every orderly run, with no call in progress the four cells
    describe the connection whose session the sidecar holds, or are clear;
  * `failed_open_stale` -- without it: an open that fails has closed the session before.
-/
import Veesker.Host.Connections
import Veesker.Run.Flight

namespace Veesker.Host.Workspace

open Run List

/-! ## 1. The state -/

/-- `ActiveConnection`, `ActiveSessionEnv`, `AirGapState` and `PsdpmState`. -/
structure Active where
  connection : Option Text
  env : Option Text
  airGap : Bool
  psdpm : Bool
  deriving DecidableEq

def Active.clear : Active := ⟨none, none, false, false⟩

/-- A lock that is taken to write a value. -/
inductive Cell where
  | connection (name : Option Text)
  | env (env : Option Text)
  | airGap (on : Bool)
  | psdpm (on : Bool)
  deriving DecidableEq

def Active.set (a : Active) : Cell → Active
  | .connection name => { a with connection := name }
  | .env env => { a with env }
  | .airGap on => { a with airGap := on }
  | .psdpm on => { a with psdpm := on }

inductive Job where
  /-- The row of the parameters, and what `get` gives of it: nothing, where it fails. -/
  | workspaceOpen (row : ConnectionRow) (full : Option ConnectionRow)
  | workspaceClose
  | trayDisconnect
  deriving DecidableEq

/-- Where a call is. -/
inductive Phase where
  /-- The sidecar has not handled it. -/
  | asks
  /-- The answer is on its way: a result, or an error. -/
  | answered (ok : Bool)
  /-- It waits for the locks of these cells, one after the other. -/
  | writes (cells : List Cell)
  deriving DecidableEq

structure World where
  active : Active
  /-- The connection whose session the sidecar holds. -/
  session : Option ConnectionRow
  /-- Whether the sidecar runs; it is started once. -/
  alive : Bool
  calls : List (Job × Phase)
  deriving DecidableEq

def World.start : World := ⟨.clear, none, true, []⟩

/-! ## 2. What a call writes -/

/-- The cells for a connection with this name and these settings; prod has both locks on. -/
def cellsFor (name : Text) (env : Option Text) (airgap psdpm : Bool) : List Cell :=
  let envIsProd := env == some prod
  [.connection (some name), .env env, .airGap (envIsProd || airgap), .psdpm (envIsProd || psdpm)]

/-- What a call writes once it is answered; where `get` fails the name is the connection's id. -/
def Job.cells : Job → List Cell
  | .workspaceOpen _ (some full) => cellsFor full.name full.env full.airgapMode full.psdpmMode
  | .workspaceOpen row none => cellsFor row.id none false false
  | .workspaceClose => [.connection none, .env none, .airGap false, .psdpm false]
  | .trayDisconnect => [.connection none]

/-- The tray goes on after an error. -/
def Job.goesOn (job : Job) (ok : Bool) : Bool := ok || job == .trayDisconnect

/-! ## 3. The steps -/

/-- What the sidecar does with a call. -/
inductive Outcome where
  | done
  /-- The session there was is closed, and there is no new one. -/
  | notOpened
  /-- Refused before anything was done, or never read. -/
  | refused
  deriving DecidableEq

inductive Event where
  | starts (job : Job)
  | handles (job : Job) (outcome : Outcome)
  | answers
  | writes (cell : Cell)
  | returns
  /-- The sidecar's process ends. -/
  | dies
  /-- An answer that was not read before that. -/
  | lost
  deriving DecidableEq

/-- The sidecar's session after it handled a call. -/
def sessionAfter (session : Option ConnectionRow) : Job → Outcome → Option ConnectionRow
  | .workspaceOpen row _, .done => some row
  | _, .done => none
  | _, .notOpened => none
  | _, .refused => session

/-- Which outcomes there are: only an open can fail after it closed a session. -/
def possible (alive : Bool) : Job → Outcome → Bool
  | _, .refused => true
  | .workspaceOpen _ _, _ => alive
  | _, .done => alive
  | _, .notOpened => false

variable (rows : List ConnectionRow)

inductive Step : World → Event → World → Prop where
  | opens (w : World) (id : Text) (row : ConnectionRow) (full : Option ConnectionRow)
      (hrow : get rows id = some row) (hfull : full = some row ∨ full = none) :
      Step w (.starts (.workspaceOpen row full))
        { w with calls := w.calls ++ [(.workspaceOpen row full, .asks)] }
  | closes (w : World) :
      Step w (.starts .workspaceClose) { w with calls := w.calls ++ [(.workspaceClose, .asks)] }
  | disconnects (w : World) :
      Step w (.starts .trayDisconnect) { w with calls := w.calls ++ [(.trayDisconnect, .asks)] }
  | handles (w : World) (l l' : List (Job × Phase)) (job : Job) (outcome : Outcome)
      (hc : w.calls = l ++ (job, .asks) :: l') (hp : possible w.alive job outcome = true) :
      Step w (.handles job outcome) { w with
        session := sessionAfter w.session job outcome
        calls := l ++ (job, .answered (outcome == .done)) :: l' }
  | goesOn (w : World) (l l' : List (Job × Phase)) (job : Job) (ok : Bool)
      (hc : w.calls = l ++ (job, .answered ok) :: l') (hok : job.goesOn ok = true) :
      Step w .answers { w with calls := l ++ (job, .writes job.cells) :: l' }
  | fails (w : World) (l l' : List (Job × Phase)) (job : Job) (ok : Bool)
      (hc : w.calls = l ++ (job, .answered ok) :: l') (hok : job.goesOn ok = false) :
      Step w .answers { w with calls := l ++ l' }
  | writes (w : World) (l l' : List (Job × Phase)) (job : Job) (cell : Cell) (cells : List Cell)
      (hc : w.calls = l ++ (job, .writes (cell :: cells)) :: l') :
      Step w (.writes cell) { w with
        active := w.active.set cell
        calls := l ++ (job, .writes cells) :: l' }
  | returns (w : World) (l l' : List (Job × Phase)) (job : Job)
      (hc : w.calls = l ++ (job, .writes []) :: l') :
      Step w .returns { w with calls := l ++ l' }
  | dies (w : World) : Step w .dies { w with session := none, alive := false }
  | lost (w : World) (l l' : List (Job × Phase)) (job : Job)
      (hc : w.calls = l ++ (job, .answered true) :: l') (hd : w.alive = false) :
      Step w .lost { w with calls := l ++ (job, .answered false) :: l' }

/-! ## 4. What is asked of a run -/

/-- What the cells are for a session. -/
def describe : Option ConnectionRow → Active
  | none => .clear
  | some row =>
    ⟨some row.name, row.env, row.env == some prod || row.airgapMode,
      row.env == some prod || row.psdpmMode⟩

/-- The cells that a call will write. -/
def todo : Job × Phase → List Cell
  | (_, .asks) => []
  | (job, .answered ok) => if job.goesOn ok then job.cells else []
  | (_, .writes cells) => cells

/-- No call has cells left to write. -/
def Settled (w : World) : Prop := ∀ c ∈ w.calls, todo c = []

/-- A handled call changes the session or writes cells only while no other call has cells left; an
    open that fails and the tray's disconnect are handled only while there is no session, and only
    then does the sidecar end; an answer is lost only while the cells are right; `get` gives the row
    of the parameters. -/
def Orderly (w : World) : Event → Prop
  | .starts (.workspaceOpen row full) => full = some row
  | .starts _ => True
  | .handles .trayDisconnect _ => Settled w ∧ w.session = none
  | .handles _ .done => Settled w
  | .handles _ .notOpened => Settled w ∧ w.session = none
  | .handles _ .refused => True
  | .dies => w.session = none
  | .lost => w.active = describe w.session
  | _ => True

/-! ## 5. The invariant -/

/-- One call at most has cells left, and once they are written the cells describe the session. -/
structure Inv (w : World) : Prop where
  full : ∀ c ∈ w.calls, ∀ row full, c.1 = .workspaceOpen row full → full = some row
  one : w.calls.Pairwise fun a b => todo a = [] ∨ todo b = []
  describes : (w.calls.flatMap todo).foldl Active.set w.active = describe w.session

theorem inv_start : Inv .start := ⟨fun _ hc => absurd hc not_mem_nil, .nil, rfl⟩

section Calls
variable {l l' : List (Job × Phase)} {a b : Job × Phase}

theorem flatMap_todo (h : ∀ c ∈ l, todo c = []) : l.flatMap todo = [] :=
  flatMap_eq_nil_iff.mpr h

/-- A call with cells left is the only one. -/
theorem alone (h : (l ++ a :: l').Pairwise fun a b => todo a = [] ∨ todo b = [])
    (ha : todo a ≠ []) : ∀ c ∈ l ++ l', todo c = [] := by
  rw [pairwise_append, pairwise_cons] at h
  intro c hc
  rcases mem_append.mp hc with hc | hc
  · exact (h.2.2 c hc a mem_cons_self).resolve_right ha
  · exact (h.2.1.1 c hc).resolve_left ha

theorem one_replaced (h : (l ++ a :: l').Pairwise fun a b => todo a = [] ∨ todo b = [])
    (hab : todo a = [] → todo b = []) :
    (l ++ b :: l').Pairwise fun a b => todo a = [] ∨ todo b = [] := by
  rw [pairwise_append, pairwise_cons] at h ⊢
  refine ⟨h.1, ⟨fun c hc => (h.2.1.1 c hc).imp_left hab, h.2.1.2⟩, fun c hc d hd => ?_⟩
  rcases mem_cons.mp hd with rfl | hd
  · exact (h.2.2 c hc a mem_cons_self).imp_right hab
  · exact h.2.2 c hc d (mem_cons_of_mem _ hd)

theorem one_of_settled (h : ∀ c ∈ l ++ l', todo c = []) :
    (l ++ b :: l').Pairwise fun a b => todo a = [] ∨ todo b = [] := by
  rw [pairwise_append, pairwise_cons]
  have hl : ∀ c ∈ l, todo c = [] := fun c hc => h c (mem_append_left _ hc)
  have hl' : ∀ c ∈ l', todo c = [] := fun c hc => h c (mem_append_right _ hc)
  refine ⟨pairwise_of_forall_mem_list fun c hc _ _ => .inl (hl c hc),
    ⟨fun c hc => .inr (hl' c hc), pairwise_of_forall_mem_list fun c hc _ _ => .inl (hl' c hc)⟩,
    fun c hc _ _ => .inl (hl c hc)⟩

/-- The cells of the only call that has any left. -/
theorem flatMap_alone (h : ∀ c ∈ l ++ l', todo c = []) :
    (l ++ b :: l').flatMap todo = todo b := by
  rw [flatMap_append, flatMap_cons,
    flatMap_todo fun c hc => h c (mem_append_left _ hc),
    flatMap_todo fun c hc => h c (mem_append_right _ hc), nil_append, append_nil]

theorem flatMap_replaced (h : todo b = todo a) :
    (l ++ b :: l').flatMap todo = (l ++ a :: l').flatMap todo := by
  rw [flatMap_append, flatMap_cons, h, ← flatMap_cons, ← flatMap_append]

theorem flatMap_removed (h : todo a = []) :
    (l ++ l').flatMap todo = (l ++ a :: l').flatMap todo := by
  rw [flatMap_append, flatMap_append, flatMap_cons, h, nil_append]

end Calls

/-- Where no cells are left the cells are right. -/
theorem Inv.settled {w : World} (h : Inv w) (hs : Settled w) : w.active = describe w.session := by
  have hdescribes := h.describes
  rw [flatMap_todo hs] at hdescribes
  exact hdescribes

theorem Job.cells_ne_nil (job : Job) : job.cells ≠ [] := by
  cases job with
  | workspaceOpen row full => cases full <;> exact cons_ne_nil _ _
  | workspaceClose => exact cons_ne_nil _ _
  | trayDisconnect => exact cons_ne_nil _ _

/-- What a call writes makes the cells right for the session it leaves. -/
theorem cells_describe {job : Job} {a : Active} {session : Option ConnectionRow}
    (hfull : ∀ row full, job = .workspaceOpen row full → full = some row)
    (hdisconnect : job = .trayDisconnect → a = .clear ∧ session = none) :
    job.cells.foldl Active.set a = describe (sessionAfter session job .done) := by
  cases job with
  | workspaceOpen row full =>
    obtain rfl := hfull row full rfl
    simp [Job.cells, cellsFor, Active.set, describe, sessionAfter]
  | workspaceClose => simp [Job.cells, Active.set, describe, sessionAfter, Active.clear]
  | trayDisconnect =>
    obtain ⟨rfl, rfl⟩ := hdisconnect rfl
    simp [Job.cells, Active.set, describe, sessionAfter, Active.clear]

/-- A call is handled. -/
theorem Inv.handles {w : World} (h : Inv w) {l l' : List (Job × Phase)} {job : Job}
    {outcome : Outcome} (hc : w.calls = l ++ (job, .asks) :: l')
    (ho : Orderly w (.handles job outcome)) : Inv { w with
      session := sessionAfter w.session job outcome
      calls := l ++ (job, .answered (outcome == .done)) :: l' } := by
  have hfull : ∀ c ∈ l ++ (job, .answered (outcome == .done)) :: l', ∀ row full,
      c.1 = .workspaceOpen row full → full = some row := by
    intro c hcm
    rcases mem_replaced hcm with rfl | hcm
    · exact h.full (job, .asks) (hc ▸ mem_here)
    · exact h.full c (hc ▸ hcm)
  -- a call that changes the session, or writes, is alone with its cells
  have halone : Settled w →
      (todo (job, .answered (outcome == .done))).foldl Active.set w.active =
        describe (sessionAfter w.session job outcome) → Inv { w with
          session := sessionAfter w.session job outcome
          calls := l ++ (job, .answered (outcome == .done)) :: l' } := by
    intro hsettled hcells
    have hothers : ∀ c ∈ l ++ l', todo c = [] := fun c hcm => hsettled c (hc ▸ mem_removed hcm)
    refine ⟨hfull, one_of_settled hothers, ?_⟩
    rw [flatMap_alone hothers]
    exact hcells
  by_cases hdisconnect : job = .trayDisconnect
  · subst hdisconnect
    obtain ⟨hsettled, hsession⟩ : Settled w ∧ w.session = none := ho
    refine halone hsettled ?_
    have hactive := h.settled hsettled
    rw [hsession] at hactive ⊢
    rw [hactive]
    cases outcome <;> simp [todo, Job.goesOn, Job.cells, Active.set, describe, sessionAfter,
      Active.clear]
  have hgoes : ∀ ok, job.goesOn ok = ok := fun ok => by simp [Job.goesOn, hdisconnect]
  cases outcome with
  | done =>
    have hsettled : Settled w := by cases job <;> first | exact ho | exact absurd rfl hdisconnect
    refine halone hsettled ?_
    have htodo : todo (job, .answered true) = job.cells := by rw [todo, hgoes]; rfl
    exact htodo ▸ cells_describe (h.full (job, .asks) (hc ▸ mem_here)) fun e => absurd e hdisconnect
  | notOpened =>
    obtain ⟨hsettled, hsession⟩ : Settled w ∧ w.session = none := by cases job <;> exact ho
    refine halone hsettled ?_
    have htodo : todo (job, .answered false) = [] := by rw [todo, hgoes]; rfl
    have hafter : sessionAfter w.session job .notOpened = none := by cases job <;> rfl
    have hactive := h.settled hsettled
    rw [hsession] at hactive
    rw [hafter]
    exact htodo ▸ hactive
  | refused =>
    have hsame : todo (job, .answered false) = todo (job, .asks) := by simp [todo, hgoes]
    have hafter : sessionAfter w.session job .refused = w.session := by cases job <;> rfl
    refine ⟨hfull, one_replaced (hc ▸ h.one) fun _ => hsame, ?_⟩
    rw [hafter]
    exact (flatMap_replaced hsame ▸ hc ▸ h.describes)

variable {rows}

/-- **One orderly step.** -/
theorem Inv.step {w w' : World} {e : Event} (h : Inv w) (hs : Step rows w e w') (ho : Orderly w e) :
    Inv w' := by
  have hadd : ∀ job, (∀ row full, job = .workspaceOpen row full → full = some row) →
      Inv { w with calls := w.calls ++ [(job, .asks)] } := by
    intro job hfull
    refine ⟨fun c hc => ?_, ?_, ?_⟩
    · rcases mem_append.mp hc with hc | hc
      · exact h.full c hc
      · rw [mem_singleton.mp hc]
        exact hfull
    · refine pairwise_append.mpr ⟨h.one, pairwise_singleton _ _, fun c _ d hd => .inr ?_⟩
      rw [mem_singleton.mp hd]
      rfl
    · rw [flatMap_append]
      simpa [todo] using h.describes
  cases hs with
  | opens id row full hrow hfull =>
    refine hadd _ fun row' full' e => ?_
    have hinj := Job.workspaceOpen.inj e
    rw [← hinj.1, ← hinj.2]
    exact ho
  | closes => exact hadd _ fun _ _ e => Job.noConfusion e
  | disconnects => exact hadd _ fun _ _ e => Job.noConfusion e
  | handles l l' job outcome hc hp => exact h.handles hc ho
  | goesOn l l' job ok hc hok =>
    have hsame : todo (job, .writes job.cells) = todo (job, .answered ok) := by
      rw [todo, todo, if_pos hok]
    refine ⟨fun c hcm => ?_, ?_, ?_⟩
    · rcases mem_replaced hcm with rfl | hcm
      · exact h.full (job, .answered ok) (hc ▸ mem_here)
      · exact h.full c (hc ▸ hcm)
    · exact one_replaced (hc ▸ h.one) fun ha => hsame.trans ha
    · rw [flatMap_replaced hsame, ← hc]
      exact h.describes
  | fails l l' job ok hc hok =>
    have hnone : todo (job, .answered ok) = [] := by rw [todo, hok]; rfl
    refine ⟨fun c hcm => h.full c (hc ▸ mem_removed hcm), ?_, ?_⟩
    · exact (hc ▸ h.one).sublist (sublist_removed l l' _)
    · rw [flatMap_removed hnone, ← hc]
      exact h.describes
  | writes l l' job cell cells hc =>
    have hleft : todo (job, .writes (cell :: cells)) ≠ [] := cons_ne_nil cell cells
    have halone := alone (hc ▸ h.one) hleft
    refine ⟨fun c hcm => ?_, one_of_settled halone, ?_⟩
    · rcases mem_replaced hcm with rfl | hcm
      · exact h.full (job, .writes (cell :: cells)) (hc ▸ mem_here)
      · exact h.full c (hc ▸ hcm)
    · have hdescribes := h.describes
      rw [hc, flatMap_alone halone] at hdescribes
      rw [flatMap_alone halone]
      exact hdescribes
  | returns l l' job hc =>
    refine ⟨fun c hcm => h.full c (hc ▸ mem_removed hcm), ?_, ?_⟩
    · exact (hc ▸ h.one).sublist (sublist_removed l l' _)
    · have hnone : todo (job, .writes []) = [] := rfl
      rw [flatMap_removed hnone, ← hc]
      exact h.describes
  | dies =>
    have hnone : w.session = none := ho
    exact ⟨h.full, h.one, hnone ▸ h.describes⟩
  | lost l l' job hc hd =>
    have hactive : w.active = describe w.session := ho
    have hfull : ∀ c ∈ l ++ (job, .answered false) :: l', ∀ row full,
        c.1 = .workspaceOpen row full → full = some row := by
      intro c hcm
      rcases mem_replaced hcm with rfl | hcm
      · exact h.full (job, .answered true) (hc ▸ mem_here)
      · exact h.full c (hc ▸ hcm)
    cases hgoes : job.goesOn false with
    | true =>
      have hsame : todo (job, .answered false) = todo (job, .answered true) := by
        have htrue : job.goesOn true = true := rfl
        simp only [todo, hgoes, htrue]
      refine ⟨hfull, one_replaced (hc ▸ h.one) fun ha => hsame.trans ha, ?_⟩
      rw [flatMap_replaced hsame, ← hc]
      exact h.describes
    | false =>
      have hnone : todo (job, .answered false) = [] := by simp [todo, hgoes]
      have hleft : todo (job, .answered true) ≠ [] := by
        simp [todo, Job.goesOn, job.cells_ne_nil]
      have halone := alone (hc ▸ h.one) hleft
      refine ⟨hfull, one_of_settled halone, ?_⟩
      rw [flatMap_alone halone, hnone]
      exact hactive

/-- **With no call in progress the four cells describe the sidecar's session**, in every run of
    orderly steps. -/
theorem orderly_describes {w : World} (h : Runs (Step rows) Orderly .start w)
    (hq : w.calls = []) : w.active = describe w.session := by
  have hinv : Inv w := h.inv inv_start fun _ _ _ hi hs ho => hi.step hs ho
  refine hinv.settled fun c hc => ?_
  rw [hq] at hc
  exact absurd hc not_mem_nil

/-! ## 6. An open that fails -/

def prodRow : ConnectionRow where
  id := "c1".toList
  name := "billing".toList
  authType := .basic
  host := some "db1".toList
  port := some 1521
  serviceName := some "orcl".toList
  connectAlias := none
  username := "app".toList
  createdAt := []
  updatedAt := []
  env := some prod
  readOnly := false
  statementTimeoutMs := none
  warnUnsafeDml := true
  autoPerfAnalysis := false
  airgapMode := true
  psdpmMode := true
  autoExplainMode := []

def devRow : ConnectionRow :=
  { prodRow with id := "c2".toList, name := "sandbox".toList, env := some dev, airgapMode := false,
                 psdpmMode := false }

def prodOpened : World := ⟨describe (some prodRow), some prodRow, true, []⟩

section Runs
variable {allowed : World → Event → Prop}

/-- An open that goes on undisturbed. -/
theorem runs_prodOpened (h : ∀ w e, Orderly w e → allowed w e) :
    Runs (Step [prodRow, devRow]) allowed .start prodOpened := by
  have hsettled :
      Settled { World.start with calls := [(.workspaceOpen prodRow (some prodRow), .asks)] } := by
    intro c hc
    rw [mem_singleton.mp hc]
    rfl
  refine .step _ _ _ (.step _ _ _ (.step _ _ _ (.step _ _ _ (.step _ _ _ (.step _ _ _
    (.step _ _ _ (.step _ _ _ .start
      (.opens _ prodRow.id prodRow (some prodRow) (by decide) (.inl rfl)) (h _ _ rfl))
      (.handles _ [] [] _ .done rfl rfl) (h _ _ hsettled))
      (.goesOn _ [] [] _ true rfl rfl) (h _ _ trivial))
      (.writes _ [] [] _ _ _ rfl) (h _ _ trivial))
      (.writes _ [] [] _ _ _ rfl) (h _ _ trivial))
      (.writes _ [] [] _ _ _ rfl) (h _ _ trivial))
      (.writes _ [] [] _ _ _ rfl) (h _ _ trivial))
      (.returns _ [] [] (.workspaceOpen prodRow (some prodRow)) rfl) (h _ _ trivial)

end Runs

theorem orderly_describes_prod : prodOpened.active = describe prodOpened.session :=
  orderly_describes (runs_prodOpened fun _ _ ho => ho) rfl

/-- **An open that fails** has closed the session before: the cells still describe that one. -/
theorem failed_open_stale : ∃ w, Runs (Step [prodRow, devRow]) (fun _ _ => True) .start w ∧
    w.calls = [] ∧ w.active ≠ describe w.session := by
  refine ⟨{ prodOpened with session := none }, ?_, rfl, by decide⟩
  exact .step _ _ _ (.step _ _ _ (.step _ _ _ (runs_prodOpened fun _ _ _ => trivial)
    (.opens _ devRow.id devRow (some devRow) (by decide) (.inl rfl)) trivial)
    (.handles _ [] [] _ .notOpened rfl rfl) trivial)
    (.fails _ [] [] _ false rfl rfl) trivial

end Veesker.Host.Workspace
