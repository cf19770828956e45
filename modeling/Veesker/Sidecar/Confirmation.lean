/-
  File:      Veesker/Sidecar/Confirmation.lean
  Subject:   WHAT A DDL CONFIRMATION AUTHORISES, over every run of the sidecar.

  In every orderly run -- no confirmation while a session is being opened, no batch going on across
  a change of session -- a DDL statement that the gate lets through on staging or prod rests on a
  sufficient confirmation of its own session, given after that session was established, not yet
  expired and not taken back; and what runs on a session passed the gate on that session
  (`ddl_rests_on_confirmation`).

  The first condition is needed: `openSession` clears the window, waits for the connection, and
  only then sets the session, so a confirmation given in between is inherited by the session that
  is being opened (`ddl_confirmed_while_connecting`).
-/
import Veesker.Sidecar.Machine

namespace Veesker.Sidecar

open Safety Run List

/-! ## 1. What the gate asks of the window -/

/-- A confirmation of this kind covers a statement that needs that one. -/
def sufficient (kind level : ConfirmKind) : Bool := kind = .destructive_ddl || level = .ddl

/-- A statement of the DDL gate on staging or prod, with the confirmation it needs. On prod a
    flagged statement never gets to the DDL gate. -/
def NeedsConfirm (sql : Text) (f : ConnectionSafety) (level : ConfirmKind) : Prop :=
  (f.env = some .staging ∨ f.env = some .prod ∧ isFlagged sql = false) ∧ ddlClass sql = .needs level

instance (sql : Text) (f : ConnectionSafety) (level : ConfirmKind) :
    Decidable (NeedsConfirm sql f level) :=
  inferInstanceAs (Decidable (_ ∧ _))

theorem exists_of_confirms {w : Windows} {now : Time} {level : ConfirmKind}
    (h : w.confirms now level = true) :
    ∃ d ∈ w.ddl, sufficient d.kind level = true ∧ now < d.expiresAt := by
  unfold Windows.confirms at h
  cases hw : w.ddl with
  | none => simp [hw] at h
  | some d =>
    rw [hw, Option.any_some, Bool.and_eq_true, decide_eq_true_eq] at h
    exact ⟨d, rfl, h.1, h.2⟩

theorem dropExpiredDdl_ddl (w : Windows) (now : Time) :
    (w.dropExpiredDdl now).ddl = w.ddl ∨ (w.dropExpiredDdl now).ddl = none := by
  unfold Windows.dropExpiredDdl
  split
  · split
    · exact .inr rfl
    · exact .inl rfl
  · exact .inl rfl

theorem ddlDecision_ddl (env : Option Env) (w : Windows) (now : Time) (c : DdlClass) :
    (ddlDecision env w now false c).2.ddl = w.ddl ∨ (ddlDecision env w now false c).2.ddl = none := by
  cases c with
  | free => exact .inl rfl
  | needs level =>
    simp only [ddlDecision]
    split
    · exact .inl rfl
    · exact dropExpiredDdl_ddl w now

/-- The DDL gate lets a statement through on staging or prod: an open window covers it. -/
theorem ddlDecision_ok {env : Option Env} {w : Windows} {now : Time} {c : DdlClass}
    (h : (ddlDecision env w now false c).1 = .ok ()) :
    (ddlDecision env w now false c).2 = w ∧ ∀ level, c = .needs level →
      env = some .staging ∨ env = some .prod → w.confirms now level = true := by
  cases c with
  | free => exact ⟨rfl, fun level hl => by cases hl⟩
  | needs level =>
    simp only [ddlDecision] at h ⊢
    split at h
    · rename_i hc
      refine ⟨by rw [if_pos hc], fun level' hl henv => ?_⟩
      cases hl
      rcases henv with rfl | rfl
      · simpa using hc
      · simpa using hc
    · cases h

theorem decideOn_ddl {f : ConnectionSafety} (w : Windows) (now : Time) {opts : GateOptions}
    (hdry : opts.dryRun = false) (p : Profile) :
    (decideOn f w now opts p).2.ddl = w.ddl ∨ (decideOn f w now opts p).2.ddl = none := by
  unfold decideOn
  rw [hdry]
  repeat' split
  all_goals first
    | exact .inl rfl
    | exact ddlDecision_ddl _ _ _ _

theorem decideOn_ok_ddl {f : ConnectionSafety} {w : Windows} {now : Time} {opts : GateOptions}
    (hdry : opts.dryRun = false) {p : Profile} (h : (decideOn f w now opts p).1 = .ok ()) :
    (decideOn f w now opts p).2.ddl = w.ddl ∧ ∀ level, p.ddl = .needs level →
      (f.env = some .staging ∨ f.env = some .prod ∧ p.flagged = false) →
        w.confirms now level = true := by
  unfold decideOn at h ⊢
  rw [hdry] at h ⊢
  split at h
  · cases h
  · split at h
    · rename_i henv
      simp only [henv] at h ⊢
      split_ifs at h ⊢ with h2 h3 h4
      · exact ⟨rfl, fun level _ hf => by simp [h3] at hf⟩
      · obtain ⟨hw, hc⟩ := ddlDecision_ok h
        exact ⟨congrArg Windows.ddl hw, fun level hl hf => hc level hl (.inr rfl)⟩
    · rename_i henv
      simp only [henv] at h ⊢
      split_ifs at h ⊢ with h2
      obtain ⟨hw, hc⟩ := ddlDecision_ok h
      exact ⟨congrArg Windows.ddl hw, fun level hl hf => hc level hl (.inl rfl)⟩
    · rename_i hprod hstaging
      split_ifs at h ⊢ with h2
      obtain ⟨hw, -⟩ := ddlDecision_ok h
      refine ⟨congrArg Windows.ddl hw, fun level hl hf => ?_⟩
      rcases hf with hf | ⟨hf, -⟩
      · exact absurd hf hstaging
      · exact absurd hf hprod

theorem gateBatch_ddl (f : ConnectionSafety) {opts : GateOptions} (hdry : opts.dryRun = false)
    (w : Windows) (statements : List (Text × Time)) :
    (gateBatch f opts w statements).2.ddl = w.ddl ∨ (gateBatch f opts w statements).2.ddl = none := by
  induction statements generalizing w with
  | nil => exact .inl rfl
  | cons x rest ih =>
    have hg : (enforceSafetyForStatement f w x.2 opts x.1).2.ddl = w.ddl ∨
        (enforceSafetyForStatement f w x.2 opts x.1).2.ddl = none := by
      rw [windows_eq]
      exact decideOn_ddl w x.2 hdry _
    unfold gateBatch
    split
    · rename_i l w' h
      rw [h] at hg
      rcases ih w' with hi | hi
      · exact hg.imp hi.trans hi.trans
      · exact .inr hi
    · rename_i e w' h
      rwa [h] at hg

/-! ## 2. The invariant -/

/-- The events that leave an open DDL window as it is. -/
def KeepsConfirm : Event → Prop
  | .confirmed _ _ _ => False
  | .ddlUnlocked => False
  | .cleared => False
  | _ => True

/-- The confirmation that opened this window, on this session. -/
def Confirms (d : DdlWindow) (session : Option SessionId) (e : Event) : Prop :=
  ∃ t, e = .confirmed d.kind t session ∧ d.expiresAt = t + DDL_WINDOW_TTL_MS

/-- A confirmation on this session that covers this level now. -/
def Covers (level : ConfirmKind) (now : Time) (session : Option SessionId) (e : Event) : Prop :=
  ∃ kind t, e = .confirmed kind t session ∧ sufficient kind level = true ∧
    now < t + DDL_WINDOW_TTL_MS

/-- What an event rests on in the log before it. -/
def RestsOn (pre : List Event) : Event → Prop
  | .opened id _ => ∀ id' f, .opened id' f ∈ pre → id' < id
  | .confirmed _ _ session => ∀ id, session = some id → ∃ f, .opened id f ∈ pre
  | .passed sql now f session => (∀ id, session = some id → .opened id f ∈ pre) ∧
      ∀ level, NeedsConfirm sql f level →
        session ≠ none ∧ Since (Covers level now session) KeepsConfirm pre
  | _ => True

structure ConfirmInv (s : State) (log : List Event) : Prop where
  unset : s.session = none → s.safety = {}
  known : ∀ id, s.session = some id → .opened id s.safety ∈ log
  fresh : ∀ id f, .opened id f ∈ log → id < s.nextId
  connecting : s.connecting = true → s.session = none ∧ s.windows.ddl = none
  window : ∀ d ∈ s.windows.ddl, ∃ session, (s.session = none ∨ session = s.session) ∧
    Since (Confirms d session) KeepsConfirm log
  rests : Justified RestsOn log

/-- A gated batch: the window stays accounted for, and the passed statements rest on it. `R` says
    which sessions the window may be of; on staging and prod only the current one. -/
theorem gateBatch_confirm {f : ConnectionSafety} {opts : GateOptions} (hdry : opts.dryRun = false)
    {session : Option SessionId} {R : Option SessionId → Prop}
    (hR : f.env = some .staging ∨ f.env = some .prod → session ≠ none ∧ ∀ x, R x → x = session)
    (statements : List (Text × Time)) {w : Windows} {log : List Event}
    (hknown : ∀ id, session = some id → .opened id f ∈ log)
    (hw : ∀ d ∈ w.ddl, ∃ x, R x ∧ Since (Confirms d x) KeepsConfirm log)
    (hj : Justified RestsOn log) :
    (∀ d ∈ (gateBatch f opts w statements).2.ddl, ∃ x, R x ∧ Since (Confirms d x) KeepsConfirm
        (log ++ passedEvents f session (gateBatch f opts w statements).1)) ∧
      Justified RestsOn (log ++ passedEvents f session (gateBatch f opts w statements).1) := by
  induction statements generalizing w log with
  | nil =>
    rw [gateBatch, passedEvents, map_nil, append_nil]
    exact ⟨hw, hj⟩
  | cons x rest ih =>
    obtain ⟨sql, now⟩ := x
    have hwin := windows_eq f w now opts sql
    have hdec := decision_eq f w now opts sql
    unfold gateBatch
    split
    · rename_i l w' hg
      rw [hg] at hwin hdec
      obtain ⟨hsame, hconf⟩ := decideOn_ok_ddl hdry hdec.symm
      have hstep : RestsOn log (.passed sql now f session) := by
        refine ⟨hknown, fun level hn => ?_⟩
        obtain ⟨hsome, honly⟩ := hR (hn.1.imp id And.left)
        refine ⟨hsome, ?_⟩
        obtain ⟨d, hd, hlevel, hexp⟩ := exists_of_confirms (hconf level hn.2 hn.1)
        obtain ⟨x, hx, hsince⟩ := hw d hd
        rw [honly x hx] at hsince
        refine hsince.imp ?_ fun _ h => h
        rintro e ⟨t, rfl, ht⟩
        exact ⟨d.kind, t, rfl, hlevel, ht ▸ hexp⟩
      have hw' : ∀ d ∈ w'.ddl, ∃ x, R x ∧
          Since (Confirms d x) KeepsConfirm (log ++ [.passed sql now f session]) := by
        intro d hd
        rw [show w' = _ from hwin, hsame] at hd
        obtain ⟨x, hx, hsince⟩ := hw d hd
        exact ⟨x, hx, hsince.append (by simp [KeepsConfirm])⟩
      have := ih (fun id hid => mem_append_left _ (hknown id hid)) hw' (hj.concat hstep)
      simpa [passedEvents] using this
    · rename_i e w' hg
      rw [hg] at hwin
      rw [passedEvents, map_nil, append_nil]
      refine ⟨fun d hd => ?_, hj⟩
      rw [show w' = _ from hwin] at hd
      rcases decideOn_ddl w now hdry (profile sql) with h | h
      · exact hw d (h ▸ hd)
      · rw [h] at hd
        cases hd

variable {log new : List Event}

theorem ConfirmInv.window_append {s : State} (h : ConfirmInv s log)
    (hnew : ∀ e ∈ new, KeepsConfirm e) : ∀ d ∈ s.windows.ddl, ∃ session,
      (s.session = none ∨ session = s.session) ∧
        Since (Confirms d session) KeepsConfirm (log ++ new) := by
  intro d hd
  obtain ⟨session, hs, hsince⟩ := h.window d hd
  exact ⟨session, hs, hsince.append hnew⟩

theorem ConfirmInv.known_append {s : State} (h : ConfirmInv s log) (id : SessionId)
    (hid : s.session = some id) : .opened id s.safety ∈ log ++ new :=
  mem_append_left _ (h.known id hid)

/-- Only `connected` opens a session. -/
theorem ConfirmInv.fresh_append {s : State} (h : ConfirmInv s log)
    (hnew : ∀ id f, Event.opened id f ∉ new) (id : SessionId) (f : ConnectionSafety)
    (hid : .opened id f ∈ log ++ new) : id < s.nextId := by
  rcases mem_append.mp hid with hid | hid
  · exact h.fresh id f hid
  · exact absurd hid (hnew id f)

/-- No confirmation is given while a connection is being made, and no batch goes on on another
    session than it passed the gate on. -/
def orderly (s : State) : Action → Bool
  | .ddlConfirm _ _ => !s.connecting
  | .statementDone _ => s.running.all fun b => s.session = none || b.session = s.session
  | _ => true

abbrev Orderly (s : State) (a : Action) : Prop := orderly s a = true

theorem ConfirmInv.step {s s' : State} {a : Action} (h : ConfirmInv s log)
    (hok : Orderly s a) (hstep : Sidecar.step s a = some (s', new)) : ConfirmInv s' (log ++ new) := by
  have hw := windowStep_of_step h.unset hstep
  have henv : s.safety.env = some .staging ∨ s.safety.env = some .prod → s.session ≠ none := by
    intro henv hnone
    rw [h.unset hnone] at henv
    rcases henv with henv | henv <;> cases henv
  cases hw with
  | quiet hs hf hw hid hl hn =>
    have hkeep : (∀ e ∈ new, KeepsConfirm e) ∧ (∀ id f, Event.opened id f ∉ new) ∧
        ∀ e ∈ new, ∀ pre, RestsOn pre e := by
      rcases hn with rfl | ⟨sql, now, id, rfl⟩
      · simp
      · simp [KeepsConfirm, RestsOn]
    refine ⟨by rw [hs, hf]; exact h.unset, by rw [hs, hf]; exact h.known_append,
      by rw [hid]; exact h.fresh_append hkeep.2.1, fun hc => ?_,
      by rw [hs, hw]; exact h.window_append hkeep.1, ?_⟩
    · rw [hs, hw]
      exact h.connecting (hl hc)
    · refine h.rests.append fun pre e post hnew => hkeep.2.2 e ?_ _
      rw [hnew]
      simp
  | cleared hs hf hw hid =>
    refine ⟨fun _ => hf, by simp [hs], by rw [hid]; exact h.fresh_append (by simp),
      fun _ => ⟨hs, by rw [hw]⟩, by simp [hw], h.rests.concat trivial⟩
  | opened hl hs hf hw hid hl' =>
    refine ⟨by simp [hs], ?_, ?_, by simp [hl'], ?_, h.rests.concat h.fresh⟩
    · intro id hsome
      rw [hs] at hsome
      cases hsome
      simp [hf]
    · intro id f hmem
      rw [hid]
      rcases mem_append.mp hmem with hmem | hmem
      · exact Nat.lt_succ_of_lt (h.fresh id f hmem)
      · cases mem_singleton.mp hmem
        exact Nat.lt_succ_self _
    · rw [hw, (h.connecting hl).2]
      simp
  | lost hs hf hw hid hl =>
    rw [append_nil]
    refine ⟨fun _ => hf, by simp [hs], by rw [hid]; exact h.fresh, fun hc => ⟨hs, ?_⟩,
      fun d hd => ?_, h.rests⟩
    · rw [hw]
      exact (h.connecting (hl ▸ hc)).2
    · obtain ⟨session, -, hsince⟩ := h.window d (hw ▸ hd)
      exact ⟨session, .inl hs, hsince⟩
  | unlocked table now henv hs hf hw hid hl =>
    refine ⟨by rw [hs, hf]; exact h.unset, by rw [hs, hf]; exact h.known_append,
      by rw [hid]; exact h.fresh_append (by simp), fun hc => ?_, ?_, h.rests.concat trivial⟩
    · rw [hs, hw]
      exact h.connecting (hl ▸ hc)
    · rw [hs, hw]
      exact h.window_append (by simp [KeepsConfirm])
  | confirmed kind now hs hf hw hid hl =>
    refine ⟨by rw [hs, hf]; exact h.unset, by rw [hs, hf]; exact h.known_append,
      by rw [hid]; exact h.fresh_append (by simp), fun hc => ?_, fun d hd => ?_,
      h.rests.concat fun id hid => ⟨_, h.known id hid⟩⟩
    · have hno : (!s.connecting) = true := hok
      rw [← hl, hc] at hno
      cases hno
    · rw [hw] at hd
      cases hd
      exact ⟨s.session, .inr hs.symm, since_concat ⟨now, rfl, rfl⟩⟩
  | ddlUnlocked hs hf hw hid hl =>
    refine ⟨by rw [hs, hf]; exact h.unset, by rw [hs, hf]; exact h.known_append,
      by rw [hid]; exact h.fresh_append (by simp), fun hc => ?_, ?_, h.rests.concat trivial⟩
    · rw [hs, hw]
      exact ⟨(h.connecting (hl ▸ hc)).1, rfl⟩
    · rw [hw]
      simp [Safety.ddlUnlock]
  | @query _ _ tail opts statements hdry hs hf hw hid hl htail =>
    obtain ⟨hwin, hrests⟩ := @gateBatch_confirm s.safety opts hdry s.session
      (fun x => s.session = none ∨ x = s.session)
      (fun he => ⟨henv he, fun x hx => hx.resolve_left (henv he)⟩) statements _ _ h.known h.window
      h.rests
    have hopened : ∀ id f, Event.opened id f ∉ passedEvents s.safety s.session
        (gateBatch s.safety opts s.windows statements).1 ++ tail := by
      rcases htail with rfl | ⟨sql, now, id, rfl⟩ <;> simp [passedEvents]
    refine ⟨by rw [hs, hf]; exact h.unset, by rw [hs, hf]; exact h.known_append,
      by rw [hid]; exact h.fresh_append hopened, fun hc => ?_, fun d hd => ?_, ?_⟩
    · obtain ⟨hnone, hempty⟩ := h.connecting (hl ▸ hc)
      refine ⟨hs ▸ hnone, ?_⟩
      rw [hw]
      rcases gateBatch_ddl s.safety hdry s.windows statements with hg | hg
      · rw [hg, hempty]
      · exact hg
    · rw [hw] at hd
      obtain ⟨x, hx, hsince⟩ := hwin d hd
      rw [← append_assoc]
      refine ⟨x, hs ▸ hx, hsince.append ?_⟩
      rcases htail with rfl | ⟨sql, now, id, rfl⟩
      · simp
      · simp [KeepsConfirm]
    · rw [← append_assoc]
      rcases htail with rfl | ⟨sql, now, id, rfl⟩
      · rw [append_nil]
        exact hrests
      · exact hrests.concat trivial

theorem confirmInv_of_reaches {s : State} {log : List Event} (h : Reaches Orderly s log) :
    ConfirmInv s log :=
  Run.Reaches.invariant ConfirmInv
    ⟨fun _ => rfl, by simp, by simp, by simp [State.connecting], by simp, justified_nil⟩
    (fun _ _ _ _ _ hi hok hs => hi.step hok hs) h

/-! ## 3. What runs -/

/-- What runs passed the gate on the same session. -/
def RanAfterGate (pre : List Event) (e : Event) : Prop :=
  ∀ sql now id, e = .executed sql now id → ∃ t f, .passed sql t f (some id) ∈ pre

structure BatchInv (s : State) (log : List Event) : Prop where
  batch : ∀ b ∈ s.running, ∃ id, b.session = some id ∧
    ∀ sql ∈ b.rest, ∃ t f, .passed sql t f (some id) ∈ log
  ran : Justified RanAfterGate log

theorem BatchInv.step {s s' : State} {a : Action} (h : BatchInv s log)
    (hok : Orderly s a) (hstep : Sidecar.step s a = some (s', new)) : BatchInv s' (log ++ new) := by
  have hbatch (b : Batch) (hb : b ∈ s.running) : ∃ id, b.session = some id ∧
      ∀ sql ∈ b.rest, ∃ t f, .passed sql t f (some id) ∈ log ++ new := by
    obtain ⟨id, hid, hrest⟩ := h.batch b hb
    refine ⟨id, hid, fun sql hsql => ?_⟩
    obtain ⟨t, f, hmem⟩ := hrest sql hsql
    exact ⟨t, f, mem_append_left _ hmem⟩
  cases runStep_of_step hstep with
  | keeps hr hn =>
    refine ⟨fun b hb => ?_, h.ran.append fun pre e post hnew sql now id he => ?_⟩
    · rcases hr with hr | hr
      · exact hbatch b (hr ▸ hb)
      · rw [hr] at hb
        cases hb
    · subst he
      exact absurd (by rw [hnew]; simp) (hn sql now id)
  | @starts _ _ id sql t rest now hs hr =>
    have hpassed : ∀ x ∈ (sql, t) :: rest, .passed x.1 x.2 s.safety (some id) ∈
        passedEvents s.safety (some id) ((sql, t) :: rest) := fun x hx =>
      mem_map.mpr ⟨x, hx, rfl⟩
    refine ⟨fun b hb => ?_, ?_⟩
    · rw [hr] at hb
      cases hb
      refine ⟨id, rfl, fun sql' hsql => ?_⟩
      obtain ⟨x, hx, rfl⟩ := mem_map.mp hsql
      have := hpassed x (mem_cons_of_mem _ hx)
      exact ⟨x.2, s.safety, by simp [this]⟩
    · rw [← append_assoc]
      refine Justified.concat (h.ran.append fun pre e post hnew sql' now' id' he => ?_) ?_
      · subst he
        exact absurd (by rw [hnew]; simp)
          (executed_not_mem_passedEvents s.safety (some id) ((sql, t) :: rest) sql' now' id')
      · intro sql' now' id' he
        cases he
        have := hpassed (sql, t) mem_cons_self
        exact ⟨t, s.safety, mem_append_right _ this⟩
  | @goesOn _ origin id sql rest now hb hs hr =>
    obtain ⟨id', hid, hrest⟩ := h.batch ⟨origin, sql :: rest⟩ hb
    have hsame : id' = id := by
      have horder : (s.running.all fun b => s.session = none || b.session = s.session) = true := hok
      rw [hb, hs] at horder
      have horigin : origin = some id := by simpa using horder
      exact Option.some.inj (hid.symm.trans horigin)
    subst hsame
    refine ⟨fun b hb' => ?_, h.ran.concat fun sql' now' id he => ?_⟩
    · rw [hr] at hb'
      cases hb'
      refine ⟨id', hid, fun sql' hsql => ?_⟩
      obtain ⟨t, f, hmem⟩ := hrest sql' (mem_cons_of_mem _ hsql)
      exact ⟨t, f, mem_append_left _ hmem⟩
    · cases he
      exact hrest sql mem_cons_self

theorem batchInv_of_reaches {s : State} {log : List Event} (h : Reaches Orderly s log) :
    BatchInv s log :=
  Run.Reaches.invariant BatchInv ⟨by simp, justified_nil⟩ (fun _ _ _ _ _ hi hok hs => hi.step hok hs) h

/-! ## 4. The results -/

/-- The confirmation at `i` covers what the gate lets through at `k`, at that clock reading, on the
    session `id` that was established before it. -/
def ConfirmedBy (log : List Event) (i k : Nat) (id : SessionId) (level : ConfirmKind) (now : Time) :
    Prop :=
  ∃ kind t, log[i]? = some (.confirmed kind t (some id)) ∧ sufficient kind level = true ∧
    now < t + DDL_WINDOW_TTL_MS ∧ (∃ o < i, ∃ f, log[o]? = some (.opened id f)) ∧ i < k ∧
    ∀ m e, i < m → m < k → log[m]? = some e → KeepsConfirm e

/-- **DDL rests on a confirmation of its own session**: in every orderly run, what the gate lets
    through on staging or prod and needs a confirmation has one of the session it passes on; that
    session's settings are the ones the gate read; and what runs on a session passed the gate on
    that session. -/
theorem ddl_rests_on_confirmation {s : State} {log : List Event} (h : Reaches Orderly s log) :
    (∀ (k : Nat) sql now f session level, log[k]? = some (Event.passed sql now f session) →
        NeedsConfirm sql f level →
          ∃ id i, session = some id ∧ .opened id f ∈ log ∧ ConfirmedBy log i k id level now) ∧
      (∀ (j : Nat) sql now id, log[j]? = some (Event.executed sql now id) →
        ∃ k < j, ∃ t f, log[k]? = some (Event.passed sql t f (some id))) ∧
      ∀ (o o' : Nat) id f f', log[o]? = some (Event.opened id f) → log[o']? = some (Event.opened id f') → o = o' := by
  have hrests := (confirmInv_of_reaches h).rests
  refine ⟨fun k sql now f session level hk hn => ?_, fun j sql now id hj => ?_, ?_⟩
  · obtain ⟨hopened, hcovers⟩ := hrests.get hk
    obtain ⟨hsome, hsince⟩ := hcovers level hn
    obtain ⟨id, rfl⟩ := Option.ne_none_iff_exists'.mp hsome
    obtain ⟨i, _, hik, hi, ⟨kind, t, rfl, hlevel, hexp⟩, hkeep⟩ := hsince.get
    obtain ⟨g, hg⟩ := hrests.get hi id rfl
    obtain ⟨o, hoi, ho⟩ := exists_get_of_mem_take hg
    exact ⟨id, i, rfl, mem_of_mem_take (hopened id rfl), kind, t, hi, hlevel, hexp,
      ⟨o, hoi, g, ho⟩, hik, hkeep⟩
  · obtain ⟨t, f, hmem⟩ := (batchInv_of_reaches h).ran.get hj _ _ _ rfl
    obtain ⟨k, hkj, hk⟩ := exists_get_of_mem_take hmem
    exact ⟨k, hkj, t, f, hk⟩
  · -- an earlier `opened` has a smaller number
    have hlt : ∀ (o o' : Nat) id f f', log[o]? = some (Event.opened id f) → log[o']? = some (Event.opened id f') →
        ¬ o < o' := by
      intro o o' id f f' ho ho' hoo
      have hmem : .opened id f ∈ log.take o' :=
        mem_of_getElem? (by rwa [List.getElem?_take_of_lt hoo])
      exact Nat.lt_irrefl id (hrests.get ho' id f hmem)
    intro o o' id f f' ho ho'
    have := hlt o o' id f f' ho ho'
    have := hlt o' o id f' f ho' ho
    omega

theorem ddl_rests_on_confirmation_drop :
    ∃ log, log[3]? = some (Event.passed "DROP TABLE t".toList 1 { env := some .prod } (some 0)) ∧
      ∃ id i, some 0 = some id ∧ .opened id { env := some .prod } ∈ log ∧
        ConfirmedBy log i 3 id .destructive_ddl 1 := by
  have h : Reaches Orderly _ _ := Run.Reaches.run [.openSession { env := some .prod }, .connected,
    .ddlConfirm 0 .destructive_ddl,
    .queryExecute none false [] [("DROP TABLE t".toList, 1)] 2] .start rfl
  exact ⟨_, rfl, (ddl_rests_on_confirmation h).1 3 _ 1 _ (some 0) _ rfl (by decide)⟩

/-- The confirmation is given while the connection is being made, when there is no session yet; the
    session that is being opened inherits it. -/
theorem ddl_confirmed_while_connecting :
    ∃ s, Reaches always s [.cleared, .confirmed .destructive_ddl 0 none,
        .opened 0 { env := some .prod },
        .passed "DROP TABLE t".toList 1 { env := some .prod } (some 0),
        .executed "DROP TABLE t".toList 2 0] ∧
      NeedsConfirm "DROP TABLE t".toList { env := some .prod } .destructive_ddl :=
  ⟨_, Run.Reaches.run [.openSession { env := some .prod }, .ddlConfirm 0 .destructive_ddl, .connected,
    .queryExecute none false [] [("DROP TABLE t".toList, 1)] 2] .start rfl, by decide⟩

end Veesker.Sidecar
