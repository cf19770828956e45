/-
  File:      Veesker/Cloud/OpenClose.lean
  Subject:   OPENING AND CLOSING SANDBOXES (sidecar/src/sandbox-cloud/open.ts, close.ts, session.ts):
             any number of calls of `openSandbox` and `closeSandbox`, in every order of their steps.

  A call is in flight between two of its awaits, and a step takes one call from one await to the
  next, or out of the function. An await may resolve or reject. Of a session and of a result
  that is kept, the database host stands for the rest; hosts are numbered as they are opened.

  * `orderly_clean` -- **in a run whose steps are all orderly nothing is leaked**: once no call
    is in flight, every host is closed or a registered session's, and so is every temporary file.
  * `orderly_returns` -- in such a run no open returns a session that is being closed;
    `orderly_runs` puts the two together.
  * `leaked_temp` -- without it: one open whose host cannot be opened leaves its file.
-/
import Mathlib.Logic.Function.Basic
import Veesker.Run.Flight
import Veesker.Text.Js

namespace Veesker.Cloud.OpenClose

open Run List

variable {Id P : Type}

/-! ## 1. The state -/

structure OpenSession (P : Type) where
  duckHost : Nat
  tempPath : P
  deriving DecidableEq

/-- Where a call is: what it awaits. -/
inductive Phase (P : Type) where
  | sodiumReady
  | cacheEntry
  | privateKey
  | cachedBlob
  /-- The temporary file is written, the host not yet opened. -/
  | openHost
  | importing (host : Nat)
  | showTables (host : Nat)
  | columns (host : Nat)
  /-- The error path of an open: the host is being closed. -/
  | failing (host : Nat)
  /-- A close that holds this session. -/
  | closing (session : OpenSession P)
  deriving DecidableEq

structure Call (Id P : Type) where
  sandboxId : Id
  phase : Phase P
  deriving DecidableEq

structure World (Id P : Type) where
  sessions : Id → Option (OpenSession P) := fun _ => none
  /-- `SESSION_RESULT_CACHE`. -/
  results : Id → Option Nat := fun _ => none
  /-- How many hosts were opened. -/
  opened : Nat := 0
  closed : Nat → Bool := fun _ => false
  /-- The files that exist in the temporary directory. -/
  files : P → Bool := fun _ => false
  calls : List (Call Id P) := []

/-! ## 2. The steps -/

/-- What a step is: which call, and how it went. -/
inductive Event (Id : Type) where
  | openReturnsCached (id : Id) (host : Nat)
  | openStarts (id : Id)
  | resolves (id : Id)
  | openRegisters (id : Id) (host : Nat)
  /-- An await of an open rejects; whether its temporary file exists by then. -/
  | openFails (id : Id) (temp : Bool)
  /-- The host of a failed open is closed, or that rejects too. -/
  | failedEnds (id : Id) (hostClosed : Bool)
  | closeStarts (id : Id)
  /-- A close ends: whether its host was closed and its file removed. -/
  | closeEnds (id : Id) (hostClosed unlinked : Bool)

/-- The await after this one, where it opens nothing. -/
def Phase.next : Phase P → Option (Phase P)
  | .sodiumReady => some .cacheEntry
  | .cacheEntry => some .privateKey
  | .privateKey => some .cachedBlob
  | .importing h => some (.showTables h)
  | .showTables h => some (.columns h)
  | _ => none

/-- The awaits before the temporary file is written. -/
def Phase.early : Phase P → Bool
  | .sodiumReady => true
  | .cacheEntry => true
  | .privateKey => true
  | .cachedBlob => true
  | _ => false

/-- The host of an open that is past opening it. -/
def Phase.host : Phase P → Option Nat
  | .importing h => some h
  | .showTables h => some h
  | .columns h => some h
  | .failing h => some h
  | _ => none

section

variable [DecidableEq Id] [DecidableEq P] (tempPath : Id → P)

inductive Step : World Id P → Event Id → World Id P → Prop where
  | openReturnsCached (w : World Id P) (id : Id) (s : OpenSession P) (r : Nat)
      (hs : w.sessions id = some s) (hr : w.results id = some r) :
      Step w (.openReturnsCached id r) w
  | openStarts (w : World Id P) (id : Id) (h : w.sessions id = none ∨ w.results id = none) :
      Step w (.openStarts id) { w with calls := w.calls ++ [⟨id, .sodiumReady⟩] }
  | resolves (w : World Id P) (cs cs' : List (Call Id P)) (id : Id) (ph ph' : Phase P)
      (hc : w.calls = cs ++ ⟨id, ph⟩ :: cs') (hn : ph.next = some ph') :
      Step w (.resolves id) { w with calls := cs ++ ⟨id, ph'⟩ :: cs' }
  | failsEarly (w : World Id P) (cs cs' : List (Call Id P)) (id : Id) (ph : Phase P)
      (hc : w.calls = cs ++ ⟨id, ph⟩ :: cs') (he : ph.early = true) :
      Step w (.openFails id false) { w with calls := cs ++ cs' }
  | writesTemp (w : World Id P) (cs cs' : List (Call Id P)) (id : Id)
      (hc : w.calls = cs ++ ⟨id, .cachedBlob⟩ :: cs') :
      Step w (.resolves id) { w with
        files := Function.update w.files (tempPath id) true
        calls := cs ++ ⟨id, .openHost⟩ :: cs' }
  | writeFails (w : World Id P) (cs cs' : List (Call Id P)) (id : Id)
      (hc : w.calls = cs ++ ⟨id, .cachedBlob⟩ :: cs') :
      -- the file is there, with less in it
      Step w (.openFails id true) { w with
        files := Function.update w.files (tempPath id) true
        calls := cs ++ cs' }
  | opensHost (w : World Id P) (cs cs' : List (Call Id P)) (id : Id)
      (hc : w.calls = cs ++ ⟨id, .openHost⟩ :: cs') :
      Step w (.resolves id) { w with
        opened := w.opened + 1
        calls := cs ++ ⟨id, .importing w.opened⟩ :: cs' }
  | hostFails (w : World Id P) (cs cs' : List (Call Id P)) (id : Id)
      (hc : w.calls = cs ++ ⟨id, .openHost⟩ :: cs') :
      Step w (.openFails id true) { w with calls := cs ++ cs' }
  | readFails (w : World Id P) (cs cs' : List (Call Id P)) (id : Id) (ph : Phase P) (host : Nat)
      (hc : w.calls = cs ++ ⟨id, ph⟩ :: cs') (hh : ph.host = some host) (hf : ph ≠ .failing host) :
      Step w (.openFails id true) { w with calls := cs ++ ⟨id, .failing host⟩ :: cs' }
  | failedEnds (w : World Id P) (cs cs' : List (Call Id P)) (id : Id) (host : Nat) (ok : Bool)
      (hc : w.calls = cs ++ ⟨id, .failing host⟩ :: cs') :
      Step w (.failedEnds id ok) { w with
        closed := if ok then Function.update w.closed host true else w.closed
        calls := cs ++ cs' }
  | openRegisters (w : World Id P) (cs cs' : List (Call Id P)) (id : Id) (host : Nat)
      (hc : w.calls = cs ++ ⟨id, .columns host⟩ :: cs') :
      Step w (.openRegisters id host) { w with
        sessions := Function.update w.sessions id (some ⟨host, tempPath id⟩)
        results := Function.update w.results id (some host)
        calls := cs ++ cs' }
  | closeReturns (w : World Id P) (id : Id) (h : w.sessions id = none) :
      Step w (.closeStarts id) w
  | closeStarts (w : World Id P) (id : Id) (s : OpenSession P) (h : w.sessions id = some s) :
      Step w (.closeStarts id) { w with calls := w.calls ++ [⟨id, .closing s⟩] }
  | closeEnds (w : World Id P) (cs cs' : List (Call Id P)) (id : Id) (s : OpenSession P)
      (hostClosed unlinked : Bool) (hc : w.calls = cs ++ ⟨id, .closing s⟩ :: cs') :
      Step w (.closeEnds id hostClosed unlinked) { w with
        closed := if hostClosed then Function.update w.closed s.duckHost true else w.closed
        files := if unlinked then Function.update w.files s.tempPath false else w.files
        sessions := Function.update w.sessions id none
        results := Function.update w.results id none
        calls := cs ++ cs' }

end

/-! ## 3. What is asked of a run -/

/-- Nothing is leaked. -/
structure Clean (w : World Id P) : Prop where
  hosts : ∀ h < w.opened, w.closed h = true ∨ ∃ id s, w.sessions id = some s ∧ s.duckHost = h
  files : ∀ p, w.files p = true → ∃ id s, w.sessions id = some s ∧ s.tempPath = p
  one : ∀ id id' s s', w.sessions id = some s → w.sessions id' = some s' →
    s.duckHost = s'.duckHost → id = id'

/-- A close holds the session of this host, or has closed it. -/
def BeingClosed (w : World Id P) (host : Nat) : Prop :=
  w.closed host = true ∨ ∃ c ∈ w.calls, ∃ s, c.phase = .closing s ∧ s.duckHost = host

/-- The host of the session that a step returns. -/
def Event.returns : Event Id → Option Nat
  | .openReturnsCached _ host => some host
  | .openRegisters _ host => some host
  | _ => none

/-- An open begins while no call for the same sandbox is in flight, none fails once its temporary
    file exists, and a close closes its host and removes its file. -/
def Orderly (w : World Id P) : Event Id → Prop
  | .openReturnsCached id _ => ∀ c ∈ w.calls, c.sandboxId ≠ id
  | .openStarts id => ∀ c ∈ w.calls, c.sandboxId ≠ id
  | .openFails _ temp => temp = false
  | .failedEnds _ hostClosed => hostClosed = true
  | .closeEnds _ hostClosed unlinked => hostClosed = true ∧ unlinked = true
  | _ => True

section

variable [DecidableEq Id] [DecidableEq P] (tempPath : Id → P)

/-- The states of the runs all of whose steps are allowed. -/
abbrev RunOf (allowed : World Id P → Event Id → Prop) : World Id P → Prop :=
  Runs (Step tempPath) allowed {}

/-- The states of all runs. -/
abbrev Reachable : World Id P → Prop := RunOf tempPath fun _ _ => True

abbrev OrderlyRun : World Id P → Prop := RunOf tempPath Orderly

end

/-! ## 4. The invariant -/

def Call.opens (c : Call Id P) : Bool :=
  match c.phase with
  | .closing _ => false
  | _ => true

def Call.host (c : Call Id P) : Option Nat := c.phase.host

/-- The temporary file of the call exists. -/
def Call.temp (c : Call Id P) : Bool := !c.phase.early && c.opens

def Call.key (c : Call Id P) : Id × Bool := (c.sandboxId, c.opens)

/-- Two calls for one sandbox are both closes. -/
def Apart (a b : Id × Bool) : Prop := a.1 = b.1 → a.2 = false ∧ b.2 = false

theorem Apart.symm {a b : Id × Bool} (h : Apart a b) : Apart b a := fun e => (h e.symm).symm

/-- What holds between the steps of an orderly run. -/
structure Inv (tempPath : Id → P) (w : World Id P) : Prop where
  apart : (w.calls.map Call.key).Pairwise Apart
  opens : ∀ c ∈ w.calls, c.opens = true → w.sessions c.sandboxId = none
  closes : ∀ c ∈ w.calls, ∀ s, c.phase = .closing s →
    w.sessions c.sandboxId = some s ∨ w.sessions c.sandboxId = none ∧ w.closed s.duckHost = true
  calm : ∀ c ∈ w.calls, ∀ h, c.phase ≠ .failing h
  distinct : (w.calls.filterMap Call.host).Nodup
  live : ∀ c ∈ w.calls, ∀ h, c.host = some h → h < w.opened ∧ w.closed h = false ∧
    ∀ id s, w.sessions id = some s → s.duckHost ≠ h
  registered : ∀ id s, w.sessions id = some s → s.duckHost < w.opened ∧
    w.closed s.duckHost = false ∧ w.results id = some s.duckHost
  own : ∀ id id' s s', w.sessions id = some s → w.sessions id' = some s' →
    s.duckHost = s'.duckHost → id = id'
  old : ∀ h, w.closed h = true → h < w.opened
  hosts : ∀ h < w.opened, w.closed h = true ∨
    (∃ id s, w.sessions id = some s ∧ s.duckHost = h) ∨ ∃ c ∈ w.calls, c.host = some h
  files : ∀ p, w.files p = true → (∃ id s, w.sessions id = some s ∧ s.tempPath = p) ∨
    ∃ c ∈ w.calls, c.temp = true ∧ tempPath c.sandboxId = p

variable {tempPath : Id → P} {w : World Id P} {cs cs' : List (Call Id P)} {id : Id}

theorem inv_start : Inv tempPath ({} : World Id P) where
  apart := List.Pairwise.nil
  opens _ h := absurd h not_mem_nil
  closes _ h := absurd h not_mem_nil
  calm _ h := absurd h not_mem_nil
  distinct := nodup_nil
  live _ h := absurd h not_mem_nil
  registered _ _ h := absurd h nofun
  own _ _ _ _ h := absurd h nofun
  old _ h := absurd h Bool.false_ne_true
  hosts _ h := absurd h (Nat.not_lt_zero _)
  files _ h := absurd h Bool.false_ne_true

/-- A session that is registered for a sandbox keeps its opens away. -/
theorem Inv.other {c : Call Id P} (h : Inv tempPath w) (hc : w.calls = cs ++ c :: cs')
    (ho : c.opens = true) {x : Call Id P} (hx : x ∈ cs ++ cs') : x.sandboxId ≠ c.sandboxId := by
  have hap := related_of_pairwise Apart.symm (hc ▸ h.apart) hx
  exact fun e => absurd (hap e.symm).1 (by rw [Call.key, ho]; exact Bool.true_eq_false.mp)

/-! ## 5. One step -/

/-- What an await that opens nothing leaves as it is. -/
theorem next_same {ph ph' : Phase P} (h : ph.next = some ph') (id : Id) :
    (Call.mk id ph').opens = true ∧ (Call.mk id ph).opens = true ∧
      (Call.mk id ph').host = (Call.mk id ph).host ∧ (Call.mk id ph').temp = (Call.mk id ph).temp ∧
      ∀ host, ph' ≠ .failing host := by
  cases ph with
  | sodiumReady => cases h; exact ⟨rfl, rfl, rfl, rfl, nofun⟩
  | cacheEntry => cases h; exact ⟨rfl, rfl, rfl, rfl, nofun⟩
  | privateKey => cases h; exact ⟨rfl, rfl, rfl, rfl, nofun⟩
  | importing host => cases h; exact ⟨rfl, rfl, rfl, rfl, nofun⟩
  | showTables host => cases h; exact ⟨rfl, rfl, rfl, rfl, nofun⟩
  | cachedBlob => cases h
  | openHost => cases h
  | columns host => cases h
  | failing host => cases h
  | closing s => cases h

theorem opens_ne_closing {c : Call Id P} (h : c.opens = true) (s : OpenSession P) :
    c.phase ≠ .closing s := by
  intro e
  rw [Call.opens, e] at h
  exact Bool.false_ne_true h

/-- A call begins, which holds no host yet. -/
theorem Inv.begins (h : Inv tempPath w) (c : Call Id P) (hhost : c.host = none)
    (hap : ∀ x ∈ w.calls, Apart x.key c.key) (ho : c.opens = true → w.sessions c.sandboxId = none)
    (hclose : ∀ s, c.phase = .closing s → w.sessions c.sandboxId = some s)
    (hcalm : ∀ host, c.phase ≠ .failing host) :
    Inv tempPath { w with calls := w.calls ++ [c] } := by
  have hmem : ∀ x ∈ w.calls ++ [c], x ∈ w.calls ∨ x = c := fun x hx =>
    (mem_append.mp hx).imp_right mem_singleton.mp
  refine ⟨?_, fun x hx hop => ?_, fun x hx s hp => ?_, fun x hx host hp => ?_, ?_,
    fun x hx host hh => ?_, h.registered, h.own, h.old, fun host hlt => ?_, fun p hp => ?_⟩
  · rw [map_append, pairwise_append]
    refine ⟨h.apart, pairwise_singleton _ _, fun a ha b hb => ?_⟩
    obtain ⟨x, hx, rfl⟩ := mem_map.mp ha
    exact mem_singleton.mp hb ▸ hap x hx
  · rcases hmem x hx with hx | rfl
    · exact h.opens x hx hop
    · exact ho hop
  · rcases hmem x hx with hx | rfl
    · exact h.closes x hx s hp
    · exact Or.inl (hclose s hp)
  · rcases hmem x hx with hx | rfl
    · exact h.calm x hx host hp
    · exact absurd hp (hcalm host)
  · rw [filterMap_append, filterMap_cons_none hhost, filterMap_nil, append_nil]
    exact h.distinct
  · rcases hmem x hx with hx | rfl
    · exact h.live x hx host hh
    · exact absurd (hhost.symm.trans hh) nofun
  · exact (h.hosts host hlt).imp_right (Or.imp_right fun ⟨x, hx, hh⟩ =>
      ⟨x, mem_append_left _ hx, hh⟩)
  · exact (h.files p hp).imp_right fun ⟨x, hx, ht⟩ => ⟨x, mem_append_left _ hx, ht⟩

/-- An open begins, alone for its sandbox. -/
theorem Inv.openStarts (h : Inv tempPath w) (hid : ∀ c ∈ w.calls, c.sandboxId ≠ id)
    (hnone : w.sessions id = none ∨ w.results id = none) :
    Inv tempPath { w with calls := w.calls ++ [⟨id, .sodiumReady⟩] } := by
  have hs : w.sessions id = none := by
    refine hnone.elim (fun hn => hn) fun hn => ?_
    cases e : w.sessions id with
    | none => rfl
    | some s => exact absurd (h.registered id s e).2.2 (by rw [hn]; exact nofun)
  exact h.begins ⟨id, .sodiumReady⟩ rfl (fun c hc e => absurd e (hid c hc)) (fun _ => hs) nofun nofun

/-- An await of an open resolves: it holds the same host, its file is there as before or now is. -/
theorem Inv.resolves (h : Inv tempPath w) {ph ph' : Phase P} {files' : P → Bool}
    (hc : w.calls = cs ++ ⟨id, ph⟩ :: cs') (ho : (Call.mk id ph).opens = true)
    (ho' : (Call.mk id ph').opens = true)
    (hh : (Call.mk id ph').host = (Call.mk id ph).host) (hcalm : ∀ host, ph' ≠ .failing host)
    (hfiles : ∀ p, files' p = true → w.files p = true ∨
      (Call.mk id ph').temp = true ∧ tempPath id = p)
    (htemp : (Call.mk id ph).temp = true → (Call.mk id ph').temp = true) :
    Inv tempPath { w with files := files', calls := cs ++ ⟨id, ph'⟩ :: cs' } := by
  have hin : (⟨id, ph⟩ : Call Id P) ∈ w.calls := hc ▸ mem_here
  have hmem : ∀ c ∈ cs ++ (⟨id, ph'⟩ : Call Id P) :: cs', c = ⟨id, ph'⟩ ∨ c ∈ w.calls :=
    fun c hm => hc ▸ mem_replaced hm
  have hkeep : ∀ c ∈ w.calls, c = ⟨id, ph⟩ ∨ c ∈ cs ++ (⟨id, ph'⟩ : Call Id P) :: cs' := by
    intro c hm
    by_cases e : c = ⟨id, ph⟩
    · exact Or.inl e
    · exact Or.inr (mem_removed (mem_of_ne e (hc ▸ hm)))
  refine ⟨?_, fun c hm hop => ?_, fun c hm s hp => ?_, fun c hm host hp => ?_, ?_,
    fun c hm host hhost => ?_, h.registered, h.own, h.old, fun host hlt => ?_, fun p hp => ?_⟩
  · have hap := h.apart
    rw [hc] at hap
    simpa only [map_append, map_cons, Call.key, ho, ho'] using hap
  · rcases hmem c hm with rfl | hm
    · exact h.opens ⟨id, ph⟩ hin ho
    · exact h.opens c hm hop
  · rcases hmem c hm with rfl | hm
    · exact absurd hp (opens_ne_closing ho' s)
    · exact h.closes c hm s hp
  · rcases hmem c hm with rfl | hm
    · exact hcalm host hp
    · exact h.calm c hm host hp
  · have hd := h.distinct
    rw [hc] at hd
    simpa only [filterMap_append, filterMap_cons, hh] using hd
  · rcases hmem c hm with rfl | hm
    · exact h.live _ hin host (hh ▸ hhost)
    · exact h.live c hm host hhost
  · refine (h.hosts host hlt).imp_right (Or.imp_right fun ⟨c, hm, hhost⟩ => ?_)
    rcases hkeep c hm with rfl | hm
    · exact ⟨_, mem_here, hh.trans hhost⟩
    · exact ⟨c, hm, hhost⟩
  · rcases hfiles p hp with hp | ⟨ht, hpath⟩
    · refine (h.files p hp).imp_right fun ⟨c, hm, ht, hpath⟩ => ?_
      rcases hkeep c hm with rfl | hm
      · exact ⟨_, mem_here, htemp ht, hpath⟩
      · exact ⟨c, hm, ht, hpath⟩
    · exact Or.inr ⟨_, mem_here, ht, hpath⟩

/-- An open fails before its temporary file is written. -/
theorem Inv.failsEarly (h : Inv tempPath w) {ph : Phase P}
    (hc : w.calls = cs ++ ⟨id, ph⟩ :: cs') (he : ph.early = true) :
    Inv tempPath { w with calls := cs ++ cs' } := by
  have hsub : ∀ c ∈ cs ++ cs', c ∈ w.calls := fun c hm => hc ▸ mem_removed hm
  have hhost : (Call.mk id ph).host = none := by cases ph <;> first | rfl | cases he
  have htemp : (Call.mk id ph).temp = false := by rw [Call.temp, he]; rfl
  refine ⟨?_, fun c hm => h.opens c (hsub c hm), fun c hm => h.closes c (hsub c hm),
    fun c hm => h.calm c (hsub c hm), ?_, fun c hm => h.live c (hsub c hm), h.registered, h.own,
    h.old, fun host hlt => ?_, fun p hp => ?_⟩
  · exact h.apart.sublist (hc ▸ (sublist_removed cs cs' _).map _)
  · exact h.distinct.sublist (hc ▸ (sublist_removed cs cs' _).filterMap _)
  · refine (h.hosts host hlt).imp_right (Or.imp_right fun ⟨c, hm, hh⟩ => ⟨c, ?_, hh⟩)
    exact mem_of_ne (by rintro rfl; rw [hhost] at hh; exact absurd hh nofun) (hc ▸ hm)
  · refine (h.files p hp).imp_right fun ⟨c, hm, ht, hpath⟩ => ⟨c, ?_, ht, hpath⟩
    exact mem_of_ne (by rintro rfl; rw [htemp] at ht; exact Bool.false_ne_true ht) (hc ▸ hm)

/-- A host is opened: a new one, which the open holds. -/
theorem Inv.opensHost (h : Inv tempPath w) (hc : w.calls = cs ++ ⟨id, .openHost⟩ :: cs') :
    Inv tempPath { w with
      opened := w.opened + 1
      calls := cs ++ ⟨id, .importing w.opened⟩ :: cs' } := by
  have hin : (⟨id, .openHost⟩ : Call Id P) ∈ w.calls := hc ▸ mem_here
  have hmem : ∀ c ∈ cs ++ (⟨id, .importing w.opened⟩ : Call Id P) :: cs',
      c = ⟨id, .importing w.opened⟩ ∨ c ∈ w.calls := fun c hm => hc ▸ mem_replaced hm
  have hkeep : ∀ c ∈ w.calls, c = ⟨id, .openHost⟩ ∨
      c ∈ cs ++ (⟨id, .importing w.opened⟩ : Call Id P) :: cs' := by
    intro c hm
    by_cases e : c = ⟨id, .openHost⟩
    · exact Or.inl e
    · exact Or.inr (mem_removed (mem_of_ne e (hc ▸ hm)))
  refine ⟨?_, fun c hm hop => ?_, fun c hm s hp => ?_, fun c hm host hp => ?_, ?_,
    fun c hm host hhost => ?_, fun id s hs => ?_, h.own,
    fun host hcl => (h.old host hcl).trans (Nat.lt_succ_self _), fun host hlt => ?_,
    fun p hp => ?_⟩
  · have hap := h.apart
    rw [hc] at hap
    simpa only [map_append, map_cons, Call.key, Call.opens] using hap
  · rcases hmem c hm with rfl | hm
    · exact h.opens ⟨id, .openHost⟩ hin rfl
    · exact h.opens c hm hop
  · rcases hmem c hm with rfl | hm
    · cases hp
    · exact h.closes c hm s hp
  · rcases hmem c hm with rfl | hm
    · cases hp
    · exact h.calm c hm host hp
  · have hnew : w.opened ∉ (cs ++ cs').filterMap Call.host := by
      intro hm
      obtain ⟨c, hm, hh⟩ := mem_filterMap.mp hm
      exact absurd (h.live c (hc ▸ mem_removed hm) _ hh).1 (Nat.lt_irrefl _)
    have hd := h.distinct.sublist (hc ▸ (sublist_removed cs cs' ⟨id, .openHost⟩).filterMap Call.host)
    rw [filterMap_append] at hnew hd
    rw [filterMap_append, filterMap_cons_some (f := Call.host)
      (a := ⟨id, .importing w.opened⟩) rfl, nodup_middle]
    exact nodup_cons.mpr ⟨hnew, hd⟩
  · rcases hmem c hm with rfl | hm
    · obtain rfl : w.opened = host := Option.some.inj hhost
      refine ⟨Nat.lt_succ_self _, Bool.eq_false_iff.mpr fun hcl => Nat.lt_irrefl _ (h.old _ hcl),
        fun id s hs => ?_⟩
      exact Nat.ne_of_lt (h.registered id s hs).1
    · obtain ⟨hlt, hcl, hreg⟩ := h.live c hm host hhost
      exact ⟨hlt.trans (Nat.lt_succ_self _), hcl, hreg⟩
  · obtain ⟨hlt, hcl, hr⟩ := h.registered id s hs
    exact ⟨hlt.trans (Nat.lt_succ_self _), hcl, hr⟩
  · rcases Nat.lt_succ_iff_lt_or_eq.mp hlt with hlt | rfl
    · refine (h.hosts host hlt).imp_right (Or.imp_right fun ⟨c, hm, hh⟩ => ?_)
      rcases hkeep c hm with rfl | hm
      · cases hh
      · exact ⟨c, hm, hh⟩
    · exact Or.inr (Or.inr ⟨_, mem_here, rfl⟩)
  · refine (h.files p hp).imp_right fun ⟨c, hm, ht, hpath⟩ => ?_
    rcases hkeep c hm with rfl | hm
    · exact ⟨_, mem_here, rfl, hpath⟩
    · exact ⟨c, hm, ht, hpath⟩

section

variable [DecidableEq Id] [DecidableEq P]

/-- An open ends with its session registered. -/
theorem Inv.openRegisters (h : Inv tempPath w) {host : Nat}
    (hc : w.calls = cs ++ ⟨id, .columns host⟩ :: cs') :
    Inv tempPath { w with
      sessions := Function.update w.sessions id (some ⟨host, tempPath id⟩)
      results := Function.update w.results id (some host)
      calls := cs ++ cs' } := by
  have hin : (⟨id, .columns host⟩ : Call Id P) ∈ w.calls := hc ▸ mem_here
  have hsub : ∀ c ∈ cs ++ cs', c ∈ w.calls := fun c hm => hc ▸ mem_removed hm
  have hother : ∀ c ∈ cs ++ cs', c.sandboxId ≠ id := fun c hm => h.other hc rfl hm
  obtain ⟨hlt, hcl, hreg⟩ := h.live _ hin host rfl
  have hnone : w.sessions id = none := h.opens _ hin rfl
  have hold : ∀ id' s, w.sessions id' = some s →
      Function.update w.sessions id (some ⟨host, tempPath id⟩) id' = some s := by
    intro id' s hs
    rwa [Function.update_of_ne (by rintro rfl; rw [hnone] at hs; exact absurd hs nofun)]
  have hcases : ∀ id' s, Function.update w.sessions id (some ⟨host, tempPath id⟩) id' = some s →
      id' = id ∧ s = ⟨host, tempPath id⟩ ∨ id' ≠ id ∧ w.sessions id' = some s := by
    intro id' s hs
    by_cases e : id' = id
    · subst e
      rw [Function.update_self] at hs
      exact Or.inl ⟨rfl, (Option.some.inj hs).symm⟩
    · rw [Function.update_of_ne e] at hs
      exact Or.inr ⟨e, hs⟩
  refine ⟨h.apart.sublist (hc ▸ (sublist_removed cs cs' _).map _), fun c hm hop => ?_,
    fun c hm s hp => ?_, fun c hm => h.calm c (hsub c hm),
    h.distinct.sublist (hc ▸ (sublist_removed cs cs' _).filterMap _), fun c hm v hv => ?_,
    fun id' s hs => ?_, fun id₁ id₂ s₁ s₂ h₁ h₂ e => ?_, h.old, fun v hv => ?_, fun p hp => ?_⟩
  · simp only [Function.update_of_ne (hother c hm)]
    exact h.opens c (hsub c hm) hop
  · simp only [Function.update_of_ne (hother c hm)]
    exact h.closes c (hsub c hm) s hp
  · obtain ⟨hlt', hcl', hreg'⟩ := h.live c (hsub c hm) v hv
    refine ⟨hlt', hcl', fun id' s hs => ?_⟩
    rcases hcases id' s hs with ⟨-, rfl⟩ | ⟨-, hs⟩
    · rintro rfl
      exact not_held_of_nodup (hc ▸ h.distinct) (f := Call.host) (a := ⟨id, .columns host⟩) rfl hm hv
    · exact hreg' id' s hs
  · rcases hcases id' s hs with ⟨rfl, rfl⟩ | ⟨hne, hs⟩
    · exact ⟨hlt, hcl, Function.update_self _ _ _⟩
    · obtain ⟨h1, h2, h3⟩ := h.registered id' s hs
      exact ⟨h1, h2, by simpa only [Function.update_of_ne hne] using h3⟩
  · rcases hcases id₁ s₁ h₁ with ⟨e₁, rfl⟩ | ⟨-, k₁⟩
    · rcases hcases id₂ s₂ h₂ with ⟨e₂, -⟩ | ⟨-, k₂⟩
      · rw [e₁, e₂]
      · exact absurd e.symm (hreg id₂ s₂ k₂)
    · rcases hcases id₂ s₂ h₂ with ⟨-, rfl⟩ | ⟨-, k₂⟩
      · exact absurd e (hreg id₁ s₁ k₁)
      · exact h.own id₁ id₂ s₁ s₂ k₁ k₂ e
  · rcases h.hosts v hv with hcl | ⟨id', s, hs, e⟩ | ⟨c, hm, hh⟩
    · exact Or.inl hcl
    · exact Or.inr (Or.inl ⟨id', s, hold id' s hs, e⟩)
    · by_cases e : c = ⟨id, .columns host⟩
      · subst e
        obtain rfl : host = v := Option.some.inj hh
        exact Or.inr (Or.inl ⟨id, _, Function.update_self _ _ _, rfl⟩)
      · exact Or.inr (Or.inr ⟨c, mem_of_ne e (hc ▸ hm), hh⟩)
  · rcases h.files p hp with ⟨id', s, hs, e⟩ | ⟨c, hm, ht, hpath⟩
    · exact Or.inl ⟨id', s, hold id' s hs, e⟩
    · by_cases e : c = ⟨id, .columns host⟩
      · subst e
        exact Or.inl ⟨id, _, Function.update_self _ _ _, hpath⟩
      · exact Or.inr ⟨c, mem_of_ne e (hc ▸ hm), ht, hpath⟩

omit [DecidableEq Id] [DecidableEq P] in
/-- A close begins with the session that is registered. -/
theorem Inv.closeStarts (h : Inv tempPath w) {s : OpenSession P} (hs : w.sessions id = some s) :
    Inv tempPath { w with calls := w.calls ++ [⟨id, .closing s⟩] } := by
  refine h.begins ⟨id, .closing s⟩ rfl (fun c hc e => ⟨Bool.eq_false_iff.mpr fun ho => ?_, rfl⟩)
    nofun (fun s' hp => Phase.closing.inj hp ▸ hs) nofun
  have hid : c.sandboxId = id := e
  exact absurd (h.opens c hc ho) (by rw [hid, hs]; exact nofun)

/-- A close ends: its host is closed, its file gone, its session no longer registered. -/
theorem Inv.closeEnds (h : Inv tempPath w) {s : OpenSession P}
    (hc : w.calls = cs ++ ⟨id, .closing s⟩ :: cs') :
    Inv tempPath { w with
      closed := Function.update w.closed s.duckHost true
      files := Function.update w.files s.tempPath false
      sessions := Function.update w.sessions id none
      results := Function.update w.results id none
      calls := cs ++ cs' } := by
  have hin : (⟨id, .closing s⟩ : Call Id P) ∈ w.calls := hc ▸ mem_here
  have hsub : ∀ c ∈ cs ++ cs', c ∈ w.calls := fun c hm => hc ▸ mem_removed hm
  have hmine := h.closes _ hin s rfl
  -- the session of the call is the registered one, or was closed by another call
  have hsame : ∀ s', w.sessions id = some s' → s' = s := by
    intro s' hs'
    rcases hmine with hs | ⟨hs, -⟩
    · exact Option.some.inj (hs' ▸ hs)
    · exact absurd (hs' ▸ hs) nofun
  have hcases : ∀ id' s', Function.update w.sessions id none id' = some s' →
      id' ≠ id ∧ w.sessions id' = some s' := by
    intro id' s' hs'
    by_cases e : id' = id
    · subst e
      rw [Function.update_self] at hs'
      cases hs'
    · rw [Function.update_of_ne e] at hs'
      exact ⟨e, hs'⟩
  have hclosed : ∀ v, w.closed v = true → Function.update w.closed s.duckHost true v = true := by
    intro v hv
    rcases eq_or_ne v s.duckHost with rfl | hne
    · exact Function.update_self _ _ _
    · rwa [Function.update_of_ne hne]
  have hopen : ∀ v, v ≠ s.duckHost → w.closed v = false →
      Function.update w.closed s.duckHost true v = false := by
    intro v hne hv
    rwa [Function.update_of_ne hne]
  have hapart : ∀ id' s', id' ≠ id → w.sessions id' = some s' → s'.duckHost ≠ s.duckHost := by
    intro id' s' hne hs' e
    rcases hmine with hs | ⟨-, hcl⟩
    · exact hne (h.own id' id s' s hs' hs e)
    · rw [← e, (h.registered id' s' hs').2.1] at hcl
      exact Bool.false_ne_true hcl
  refine ⟨h.apart.sublist (hc ▸ (sublist_removed cs cs' _).map _), fun c hm hop => ?_,
    fun c hm s' hp => ?_, fun c hm => h.calm c (hsub c hm),
    h.distinct.sublist (hc ▸ (sublist_removed cs cs' _).filterMap _), fun c hm v hv => ?_,
    fun id' s' hs' => ?_, fun id₁ id₂ s₁ s₂ h₁ h₂ e => ?_, fun v hv => ?_, fun v hv => ?_,
    fun p hp => ?_⟩
  · have hnone := h.opens c (hsub c hm) hop
    by_cases e : c.sandboxId = id
    · simp only [e, Function.update_self]
    · simpa only [Function.update_of_ne e] using hnone
  · rcases h.closes c (hsub c hm) s' hp with hs' | ⟨hs', hcl⟩
    · by_cases e : c.sandboxId = id
      · rw [e] at hs'
        obtain rfl := hsame s' hs'
        exact Or.inr ⟨by simp only [e, Function.update_self], Function.update_self _ _ _⟩
      · exact Or.inl (by simpa only [Function.update_of_ne e] using hs')
    · refine Or.inr ⟨?_, hclosed _ hcl⟩
      by_cases e : c.sandboxId = id
      · simp only [e, Function.update_self]
      · simpa only [Function.update_of_ne e] using hs'
  · obtain ⟨hlt, hcl, hreg⟩ := h.live c (hsub c hm) v hv
    refine ⟨hlt, hopen v ?_ hcl, fun id' s' hs' => hreg id' s' (hcases id' s' hs').2⟩
    rcases hmine with hs | ⟨-, hcl'⟩
    · exact (hreg id s hs).symm
    · rintro rfl
      rw [hcl] at hcl'
      exact Bool.false_ne_true hcl'
  · obtain ⟨hne, hs'⟩ := hcases id' s' hs'
    obtain ⟨h1, h2, h3⟩ := h.registered id' s' hs'
    exact ⟨h1, hopen _ (hapart id' s' hne hs') h2, by simpa only [Function.update_of_ne hne] using h3⟩
  · exact h.own id₁ id₂ s₁ s₂ (hcases id₁ s₁ h₁).2 (hcases id₂ s₂ h₂).2 e
  · by_cases e : v = s.duckHost
    · subst e
      exact hmine.elim (fun hs => (h.registered id s hs).1) fun hs => h.old _ hs.2
    · simp only [Function.update_of_ne e] at hv
      exact h.old v hv
  · rcases h.hosts v hv with hcl | ⟨id', s', hs', e⟩ | ⟨c, hm, hh⟩
    · exact Or.inl (hclosed v hcl)
    · by_cases hid : id' = id
      · subst hid
        obtain rfl := hsame s' hs'
        exact Or.inl (e ▸ Function.update_self _ _ _)
      · exact Or.inr (Or.inl ⟨id', s', by simpa only [Function.update_of_ne hid] using hs', e⟩)
    · exact Or.inr (Or.inr ⟨c, mem_of_ne (by rintro rfl; exact absurd hh nofun) (hc ▸ hm), hh⟩)
  · have hne : p ≠ s.tempPath := by
      rintro rfl
      simp only [Function.update_self] at hp
      exact Bool.false_ne_true hp
    simp only [Function.update_of_ne hne] at hp
    rcases h.files p hp with ⟨id', s', hs', e⟩ | ⟨c, hm, ht, hpath⟩
    · by_cases hid : id' = id
      · subst hid
        obtain rfl := hsame s' hs'
        exact absurd e.symm hne
      · exact Or.inl ⟨id', s', by simpa only [Function.update_of_ne hid] using hs', e⟩
    · exact Or.inr ⟨c, mem_of_ne (by rintro rfl; exact absurd ht Bool.false_ne_true) (hc ▸ hm), ht,
        hpath⟩

/-- **One orderly step.** -/
theorem Inv.step {w' : World Id P} {e : Event Id} (h : Inv tempPath w)
    (hs : Step tempPath w e w') (ho : Orderly w e) : Inv tempPath w' := by
  cases hs with
  | openReturnsCached => exact h
  | openStarts id hnone => exact h.openStarts ho hnone
  | resolves cs cs' id ph ph' hc hn =>
    obtain ⟨h1, h2, h3, h4, h5⟩ := next_same hn id
    exact h.resolves hc h2 h1 h3 h5 (fun p hp => Or.inl hp) (fun ht => h4.trans ht)
  | failsEarly cs cs' id ph hc he => exact h.failsEarly hc he
  | writesTemp cs cs' id hc =>
    refine h.resolves hc rfl rfl rfl nofun (fun p hp => ?_) (fun _ => rfl)
    by_cases e : p = tempPath id
    · exact Or.inr ⟨rfl, e.symm⟩
    · rw [Function.update_of_ne e] at hp
      exact Or.inl hp
  | writeFails => exact absurd ho Bool.true_eq_false.mp
  | opensHost cs cs' id hc => exact h.opensHost hc
  | hostFails => exact absurd ho Bool.true_eq_false.mp
  | readFails => exact absurd ho Bool.true_eq_false.mp
  | failedEnds cs cs' id host ok hc =>
    exact absurd rfl (h.calm ⟨id, .failing host⟩ (hc ▸ mem_here) host)
  | openRegisters cs cs' id host hc => exact h.openRegisters hc
  | closeReturns => exact h
  | closeStarts id s hs => exact h.closeStarts hs
  | closeEnds cs cs' id s hostClosed unlinked hc =>
    obtain ⟨rfl, rfl⟩ := ho
    exact h.closeEnds hc

theorem inv_of_orderly (h : OrderlyRun tempPath w) : Inv tempPath w :=
  h.inv inv_start fun _ _ _ hi hs ho => hi.step hs ho

/-! ## 6. Every orderly run -/

/-- **An orderly run leaks nothing.** -/
theorem orderly_clean (h : OrderlyRun tempPath w) (hq : w.calls = []) : Clean w := by
  have hi := inv_of_orderly h
  refine ⟨fun v hv => ?_, fun p hp => ?_, hi.own⟩
  · rcases hi.hosts v hv with hcl | hs | ⟨c, hc, -⟩
    · exact Or.inl hcl
    · exact Or.inr hs
    · exact absurd (hq ▸ hc) not_mem_nil
  · rcases hi.files p hp with hs | ⟨c, hc, -⟩
    · exact hs
    · exact absurd (hq ▸ hc) not_mem_nil

/-- **In an orderly run no open returns a session that is being closed.** -/
theorem orderly_returns (h : OrderlyRun tempPath w) {w' : World Id P} {e : Event Id}
    (hs : Step tempPath w e w') (ho : Orderly w e) {host : Nat} (hr : e.returns = some host) :
    ¬ BeingClosed w host := by
  have hi := inv_of_orderly h
  cases hs with
  | openReturnsCached id s r hsess hres =>
    obtain rfl : r = host := Option.some.inj hr
    obtain ⟨-, hcl, hres'⟩ := hi.registered id s hsess
    obtain rfl : r = s.duckHost := Option.some.inj (hres ▸ hres')
    rintro (hc | ⟨c, hc, s', hp, e⟩)
    · exact Bool.false_ne_true (hcl ▸ hc)
    · rcases hi.closes c hc s' hp with hs' | ⟨-, hs'⟩
      · exact ho c hc (hi.own _ _ _ _ hs' hsess e)
      · rw [e, hcl] at hs'
        exact Bool.false_ne_true hs'
  | openRegisters cs cs' id v hc =>
    obtain rfl : v = host := Option.some.inj hr
    obtain ⟨-, hcl, hreg⟩ := hi.live _ (hc ▸ mem_here) v rfl
    rintro (hcl' | ⟨c, hm, s', hp, e⟩)
    · exact Bool.false_ne_true (hcl ▸ hcl')
    · rcases hi.closes c hm s' hp with hs' | ⟨-, hs'⟩
      · exact hreg _ s' hs' e
      · rw [e, hcl] at hs'
        exact Bool.false_ne_true hs'
  | _ => cases hr

/-- **An orderly run leaks nothing and returns no session that is being closed.** -/
theorem orderly_runs (h : OrderlyRun tempPath w) : (w.calls = [] → Clean w) ∧
    ∀ e w', Step tempPath w e w' → Orderly w e → ∀ host, e.returns = some host →
      ¬ BeingClosed w host :=
  ⟨orderly_clean h, fun _ _ hs ho _ hr => orderly_returns h hs ho hr⟩

/-! ## 7. Single runs -/

/-- The first steps of an open that is alone: its temporary file is written. -/
theorem run_writesTemp {allowed : World Id P → Event Id → Prop} (h : RunOf tempPath allowed w)
    (hq : w.calls = []) (hn : w.sessions id = none) (hstart : allowed w (.openStarts id))
    (hgo : ∀ w, allowed w (.resolves id)) : RunOf tempPath allowed { w with
      files := Function.update w.files (tempPath id) true
      calls := [⟨id, .openHost⟩] } := by
  have h1 := Runs.step _ _ _ h (.openStarts w id (Or.inl hn)) hstart
  rw [hq] at h1
  have h2 := Runs.step _ _ _ h1 (.resolves _ [] [] id _ _ rfl rfl) (hgo _)
  have h3 := Runs.step _ _ _ h2 (.resolves _ [] [] id _ _ rfl rfl) (hgo _)
  have h4 := Runs.step _ _ _ h3 (.resolves _ [] [] id _ _ rfl rfl) (hgo _)
  exact .step _ _ _ h4 (.writesTemp _ [] [] id rfl) (hgo _)

/-- **An open that is alone registers its session.** -/
theorem run_opens {allowed : World Id P → Event Id → Prop} (h : RunOf tempPath allowed w)
    (hq : w.calls = []) (hn : w.sessions id = none) (hstart : allowed w (.openStarts id))
    (hgo : ∀ w, allowed w (.resolves id)) (hend : ∀ w host, allowed w (.openRegisters id host)) :
    ∃ w', RunOf tempPath allowed w' ∧ w'.calls = [] ∧
      w'.sessions id = some ⟨w.opened, tempPath id⟩ := by
  have h1 := run_writesTemp h hq hn hstart hgo
  have h2 := Runs.step _ _ _ h1 (.opensHost _ [] [] id rfl) (hgo _)
  have h3 := Runs.step _ _ _ h2 (.resolves _ [] [] id _ _ rfl rfl) (hgo _)
  have h4 := Runs.step _ _ _ h3 (.resolves _ [] [] id _ _ rfl rfl) (hgo _)
  have h5 := Runs.step _ _ _ h4 (.openRegisters _ [] [] id _ rfl) (hend _ _)
  exact ⟨_, h5, rfl, Function.update_self _ _ _⟩

end

/-- Where the identity `id` puts its temporary file. -/
def vskPath (id : Text) : Text := id ++ ".vsk".toList

theorem orderly_runs_open : ∃ w : World Text Text,
    w.sessions "s1".toList = some ⟨0, "s1.vsk".toList⟩ ∧ ((w.calls = [] → Clean w) ∧
      ∀ e w', Step vskPath w e w' → Orderly w e → ∀ host, e.returns = some host →
        ¬ BeingClosed w host) := by
  have hempty : ∀ c ∈ ({} : World Text Text).calls, c.sandboxId ≠ "s1".toList :=
    fun c hc => absurd hc not_mem_nil
  obtain ⟨w, hw, -, hs⟩ : ∃ w : World Text Text, OrderlyRun vskPath w ∧ w.calls = [] ∧
      w.sessions "s1".toList = some ⟨0, vskPath "s1".toList⟩ :=
    run_opens .start rfl rfl hempty (fun _ => trivial) (fun _ _ => trivial)
  exact ⟨w, hs, orderly_runs hw⟩

/-- **An open whose host cannot be opened leaves its temporary file**, with nobody to remove it. -/
theorem leaked_temp : ¬ ∀ w : World Text Text, Reachable vskPath w → w.calls = [] → Clean w := by
  intro h
  have h1 : Reachable vskPath { ({} : World Text Text) with
      files := Function.update (fun _ => false) (vskPath "s1".toList) true
      calls := [⟨"s1".toList, .openHost⟩] } :=
    run_writesTemp .start rfl rfl trivial (fun _ => trivial)
  have h2 := Runs.step _ _ _ h1 (.hostFails _ [] [] _ rfl) trivial
  obtain ⟨_, _, hs, -⟩ := (h _ h2 rfl).files (vskPath "s1".toList)
    (by simp only [Function.update_self])
  exact absurd hs nofun

end Veesker.Cloud.OpenClose
