/-
  File:      Veesker/Sidecar/Unlock.lean
  Subject:   WHAT AN UNLOCK AUTHORISES, over every run of the sidecar.

  In every run, a flagged statement that the gate lets through on prod rests on an
  `unlockUnsafeDml` of the same session for the same table, not yet expired, with no clearing, no
  other unlock and no other flagged statement in between (`UnlockInv`). So an unlock authorises at
  most one (`unlock_authorises_once`). What it authorises is the GATE's passing: a later statement
  of a batch may run when the window is long over (`unlock_outlives_window`).
-/
import Veesker.Sidecar.Machine

namespace Veesker.Sidecar

open Safety Run

/-! ## 1. The unlock window -/

/-- A statement the unlock window is for. -/
def NeedsUnlock (sql : Text) (f : ConnectionSafety) : Prop :=
  f.env = some .prod ∧ isFlagged sql = true

instance (sql : Text) (f : ConnectionSafety) : Decidable (NeedsUnlock sql f) :=
  inferInstanceAs (Decidable (_ ∧ _))

/-- The events that leave an open unlock window as it is. -/
def KeepsUnlock : Event → Prop
  | .unlocked _ _ _ => False
  | .cleared => False
  | .passed sql _ f _ => ¬ NeedsUnlock sql f
  | _ => True

/-- The unlock that opened this window, on this session. -/
def Unlocks (u : UnsafeDmlWindow) (session : Option SessionId) (e : Event) : Prop :=
  ∃ table now, e = .unlocked table now session ∧
    u = ⟨trim (toUpperCase table), now + UNSAFE_DML_WINDOW_TTL_MS⟩

/-- What a flagged statement that passes on prod rests on. -/
def UnlockJustified (pre : List Event) (e : Event) : Prop :=
  ∀ sql now f session, e = .passed sql now f session → NeedsUnlock sql f →
    ∃ u, Since (Unlocks u session) KeepsUnlock pre ∧ u.table = extractTableFromSql sql ∧
      now < u.expiresAt

variable {f : ConnectionSafety}

/-- A statement that is not flagged on prod leaves the unlock window. -/
theorem decideOn_unlock {w : Windows} {now : Time} {opts : GateOptions}
    {p : Profile} (h : ¬ (f.env = some .prod ∧ p.flagged = true)) :
    (decideOn f w now opts p).2.unsafeDml = w.unsafeDml := by
  unfold decideOn
  split
  · rfl
  · split
    · rename_i henv
      have hflag : p.flagged = false := by simpa [henv] using h
      rw [hflag]
      split
      · rfl
      · exact ddlDecision_unsafeDml _ _ _ _ _
    · split
      · rfl
      · exact ddlDecision_unsafeDml _ _ _ _ _
    · split
      · rfl
      · exact ddlDecision_unsafeDml _ _ _ _ _

/-- A flagged statement that passes on prod uses up a window of its own table; one that is refused
    leaves the window. -/
theorem decideOn_flagged (w : Windows) (now : Time) (opts : GateOptions)
    {p : Profile} (henv : f.env = some .prod) (hflag : p.flagged = true) :
    ((decideOn f w now opts p).1 = .ok () ∧ (decideOn f w now opts p).2.unsafeDml = none ∧
        ∃ u ∈ w.unsafeDml, u.table = p.table ∧ now < u.expiresAt) ∨
      ((decideOn f w now opts p).1 ≠ .ok () ∧
        (decideOn f w now opts p).2.unsafeDml = w.unsafeDml) := by
  unfold decideOn
  rw [henv, hflag]
  split
  · exact .inr ⟨by simp, rfl⟩
  · simp only [if_true]
    split
    · exact .inr ⟨by simp, rfl⟩
    · split
      · rename_i hany
        refine .inl ⟨rfl, rfl, ?_⟩
        cases hu : w.unsafeDml with
        | none => simp [hu] at hany
        | some u =>
          simp only [hu, Option.any_some, Bool.and_eq_true, decide_eq_true_eq, beq_iff_eq] at hany
          exact ⟨u, rfl, hany.2, hany.1⟩
      · exact .inr ⟨by simp, rfl⟩

/-- **The gate lets a statement through**: a flagged one on prod uses the window up, any other
    leaves it. -/
theorem gate_ok_unlock {w w' : Windows} {now : Time} {opts : GateOptions}
    {sql : Text} {l : Option DdlRiskLevel}
    (h : enforceSafetyForStatement f w now opts sql = (.ok l, w')) :
    (NeedsUnlock sql f ∧ w'.unsafeDml = none ∧
        ∃ u ∈ w.unsafeDml, u.table = extractTableFromSql sql ∧ now < u.expiresAt) ∨
      (¬ NeedsUnlock sql f ∧ w'.unsafeDml = w.unsafeDml) := by
  have hd := decision_eq f w now opts sql
  have hw := windows_eq f w now opts sql
  rw [h] at hd hw
  simp only at hw
  subst hw
  by_cases hn : NeedsUnlock sql f
  · have htable : (profile sql).table = extractTableFromSql sql := if_pos hn.2
    rcases decideOn_flagged w now opts (p := profile sql) hn.1 hn.2 with
      ⟨-, hnone, u, hu, ht, hexp⟩ | ⟨hne, -⟩
    · exact .inl ⟨hn, hnone, u, hu, htable ▸ ht, hexp⟩
    · exact absurd hd.symm hne
  · exact .inr ⟨hn, decideOn_unlock hn⟩

/-- A refusal leaves the unlock window. -/
theorem gate_error_unlock {w w' : Windows} {now : Time} {opts : GateOptions}
    {sql : Text} {e : RpcCodedError}
    (h : enforceSafetyForStatement f w now opts sql = (.error e, w')) :
    w'.unsafeDml = w.unsafeDml := by
  have hd := decision_eq f w now opts sql
  have hw := windows_eq f w now opts sql
  rw [h] at hd hw
  simp only at hw
  subst hw
  by_cases hn : f.env = some .prod ∧ (profile sql).flagged = true
  · rcases decideOn_flagged w now opts hn.1 hn.2 with ⟨hok, -⟩ | ⟨-, hsame⟩
    · rw [hok] at hd
      cases hd
    · exact hsame
  · exact decideOn_unlock hn

/-- **A batch**: its passed statements rest on the window, which stays accounted for. `R` says
    which sessions the window may be of; on prod only the current one. -/
theorem gateBatch_unlock (opts : GateOptions) {session : Option SessionId}
    {R : Option SessionId → Prop} (hR : f.env = some .prod → ∀ x, R x → x = session)
    (statements : List (Text × Time)) {w : Windows} {log : List Event}
    (hw : ∀ u ∈ w.unsafeDml, ∃ x, R x ∧ Since (Unlocks u x) KeepsUnlock log)
    (hj : Justified UnlockJustified log) :
    (∀ u ∈ (gateBatch f opts w statements).2.unsafeDml, ∃ x, R x ∧ Since (Unlocks u x) KeepsUnlock
        (log ++ passedEvents f session (gateBatch f opts w statements).1)) ∧
      Justified UnlockJustified
        (log ++ passedEvents f session (gateBatch f opts w statements).1) := by
  induction statements generalizing w log with
  | nil =>
    rw [gateBatch, passedEvents, List.map_nil, List.append_nil]
    exact ⟨hw, hj⟩
  | cons x rest ih =>
    obtain ⟨sql, now⟩ := x
    unfold gateBatch
    split
    · rename_i l w' hg
      have hstep : (∀ u ∈ w'.unsafeDml, ∃ x, R x ∧
            Since (Unlocks u x) KeepsUnlock (log ++ [.passed sql now f session])) ∧
          Justified UnlockJustified (log ++ [.passed sql now f session]) := by
        rcases gate_ok_unlock hg with ⟨hn, hnone, u, hu, htable, hexp⟩ | ⟨hn, hsame⟩
        · refine ⟨fun v hv => by simp [hnone] at hv, hj.concat ?_⟩
          intro sql' now' f' session' he _
          cases he
          obtain ⟨x, hx, hsince⟩ := hw u hu
          rw [hR hn.1 x hx] at hsince
          exact ⟨u, hsince, htable, hexp⟩
        · refine ⟨fun v hv => ?_, hj.concat ?_⟩
          · rw [hsame] at hv
            obtain ⟨x, hx, hsince⟩ := hw v hv
            exact ⟨x, hx, hsince.append (by simpa [KeepsUnlock] using hn)⟩
          · intro sql' now' f' session' he hn'
            cases he
            exact absurd hn' hn
      have := ih hstep.1 hstep.2
      simpa [passedEvents] using this
    · rename_i e w' hg
      rw [passedEvents, List.map_nil, List.append_nil, gate_error_unlock hg]
      exact ⟨hw, hj⟩

/-- What holds of the unlock window in every reachable state. -/
structure UnlockInv (s : State) (log : List Event) : Prop where
  unset : s.session = none → s.safety = {}
  connecting : s.connecting = true → s.session = none ∧ s.windows.unsafeDml = none
  window : ∀ u ∈ s.windows.unsafeDml, ∃ session, (s.session = none ∨ session = s.session) ∧
    Since (Unlocks u session) KeepsUnlock log
  justified : Justified UnlockJustified log

/-- The window has been accounted for by events that only new `keep` events follow. -/
theorem UnlockInv.window_append {s : State} {log new : List Event} (h : UnlockInv s log)
    (hnew : ∀ e ∈ new, KeepsUnlock e) : ∀ u ∈ s.windows.unsafeDml, ∃ session,
      (s.session = none ∨ session = s.session) ∧
        Since (Unlocks u session) KeepsUnlock (log ++ new) := by
  intro u hu
  obtain ⟨session, hs, hsince⟩ := h.window u hu
  exact ⟨session, hs, hsince.append hnew⟩

/-- An event that is no `passed` rests on nothing. -/
theorem unlockJustified_of_ne {pre : List Event} {e : Event}
    (h : ∀ sql now f session, e ≠ .passed sql now f session) : UnlockJustified pre e :=
  fun sql now f session he => absurd he (h sql now f session)

theorem UnlockInv.step {s s' : State} {log new : List Event} {a : Action} (h : UnlockInv s log)
    (hstep : Sidecar.step s a = some (s', new)) : UnlockInv s' (log ++ new) := by
  have hw := windowStep_of_step h.unset hstep
  have hprod : s.safety.env = some .prod → s.session ≠ none := by
    intro henv hnone
    rw [h.unset hnone] at henv
    cases henv
  cases hw with
  | quiet hs hf hw hid hl hn =>
    have hkeep : ∀ e ∈ new, KeepsUnlock e := by
      rcases hn with rfl | ⟨sql, now, id, rfl⟩
      · simp
      · simp [KeepsUnlock]
    refine ⟨by rw [hs, hf]; exact h.unset, fun hc => ?_, by
      rw [hs, hw]; exact h.window_append hkeep, ?_⟩
    · rw [hs, hw]
      exact h.connecting (hl hc)
    · rcases hn with rfl | ⟨sql, now, id, rfl⟩
      · rw [List.append_nil]
        exact h.justified
      · exact h.justified.concat (unlockJustified_of_ne (by simp))
  | cleared hs hf hw hid =>
    exact ⟨fun _ => hf, fun _ => ⟨hs, by rw [hw]⟩, by simp [hw],
      h.justified.concat (unlockJustified_of_ne (by simp))⟩
  | opened hl hs hf hw hid hl' =>
    refine ⟨by simp [hs], by simp [hl'], ?_, h.justified.concat (unlockJustified_of_ne (by simp))⟩
    rw [hw, (h.connecting hl).2]
    simp
  | lost hs hf hw hid hl =>
    rw [List.append_nil]
    refine ⟨fun _ => hf, fun hc => ⟨hs, ?_⟩, fun u hu => ?_, h.justified⟩
    · rw [hw]
      exact (h.connecting (hl ▸ hc)).2
    · obtain ⟨session, -, hsince⟩ := h.window u (hw ▸ hu)
      exact ⟨session, .inl hs, hsince⟩
  | unlocked table now henv hs hf hw hid hl =>
    refine ⟨by rw [hs, hf]; exact h.unset, fun hc => ?_, fun u hu => ?_,
      h.justified.concat (unlockJustified_of_ne (by simp))⟩
    · exact absurd (h.connecting (hl ▸ hc)).1 (hprod henv)
    · rw [hw] at hu
      cases hu
      exact ⟨s.session, .inr hs.symm, since_concat ⟨table, now, rfl, rfl⟩⟩
  | confirmed kind now hs hf hw hid hl =>
    refine ⟨by rw [hs, hf]; exact h.unset, fun hc => ?_, ?_,
      h.justified.concat (unlockJustified_of_ne (by simp))⟩
    · rw [hs, hw]
      exact h.connecting (hl ▸ hc)
    · rw [hs, hw]
      exact h.window_append (by simp [KeepsUnlock])
  | ddlUnlocked hs hf hw hid hl =>
    refine ⟨by rw [hs, hf]; exact h.unset, fun hc => ?_, ?_,
      h.justified.concat (unlockJustified_of_ne (by simp))⟩
    · rw [hs, hw]
      exact h.connecting (hl ▸ hc)
    · rw [hs, hw]
      exact h.window_append (by simp [KeepsUnlock])
  | query opts statements hdry hs hf hw hid hl htail =>
    obtain ⟨hwin, hjust⟩ := gateBatch_unlock (f := s.safety) opts
      (R := fun x => s.session = none ∨ x = s.session)
      (fun henv x hx => hx.resolve_left (hprod henv)) statements h.window h.justified
    rw [← List.append_assoc]
    refine ⟨by rw [hs, hf]; exact h.unset, fun hc => ?_, fun u hu => ?_, ?_⟩
    · obtain ⟨hnone, hempty⟩ := h.connecting (hl ▸ hc)
      refine ⟨hs ▸ hnone, ?_⟩
      rw [hw]
      rcases gateBatch_unsafeDml s.safety opts s.windows statements with hg | hg
      · rw [hg, hempty]
      · exact hg
    · rw [hw] at hu
      obtain ⟨x, hx, hsince⟩ := hwin u hu
      refine ⟨x, hs ▸ hx, hsince.append ?_⟩
      rcases htail with rfl | ⟨sql, now, id, rfl⟩
      · simp
      · simp [KeepsUnlock]
    · rcases htail with rfl | ⟨sql, now, id, rfl⟩
      · rw [List.append_nil]
        exact hjust
      · exact hjust.concat (unlockJustified_of_ne (by simp))

theorem unlockInv_of_reaches {s : State} {log : List Event} (h : Reaches always s log) :
    UnlockInv s log :=
  Run.Reaches.invariant UnlockInv
    ⟨fun _ => rfl, by simp, by simp, justified_nil⟩ (fun _ _ _ _ _ hi _ hs => hi.step hs) h

/-- The unlock at `i` authorises the statement that passes at `j`. -/
def AuthorisedBy (log : List Event) (i j : Nat) : Prop :=
  ∃ table opened sql now f session,
    log[i]? = some (.unlocked table opened session) ∧ log[j]? = some (.passed sql now f session) ∧
      NeedsUnlock sql f ∧ i < j ∧ trim (toUpperCase table) = extractTableFromSql sql ∧
      now < opened + UNSAFE_DML_WINDOW_TTL_MS ∧
      ∀ k e, i < k → k < j → log[k]? = some e → KeepsUnlock e

/-- **An unlock authorises at most one statement**: in every run, a flagged statement that passes
    the gate on prod was authorised by an unlock of its own table on its own session, and no unlock
    authorises two. -/
theorem unlock_authorises_once {s : State} {log : List Event} (h : Reaches always s log) :
    (∀ j sql now f session, log[j]? = some (.passed sql now f session) → NeedsUnlock sql f →
        ∃ i, AuthorisedBy log i j) ∧
      ∀ i j j', AuthorisedBy log i j → AuthorisedBy log i j' → j = j' := by
  refine ⟨fun j sql now f session hj hn => ?_, ?_⟩
  · obtain ⟨u, hsince, htable, hexp⟩ :=
      (unlockInv_of_reaches h).justified.get hj sql now f session rfl hn
    obtain ⟨i, _, hij, hi, ⟨table, opened, rfl, rfl⟩, hkeep⟩ := hsince.get
    exact ⟨i, table, opened, sql, now, f, session, hi, hj, hn, hij, htable, hexp, hkeep⟩
  · -- of two statements the first would be in between for the second, and would use the unlock up
    have hlt : ∀ i j j', AuthorisedBy log i j → AuthorisedBy log i j' → ¬ j < j' := by
      rintro i j j' ⟨_, _, _, _, _, _, -, hj, hn, hij, -⟩ ⟨_, _, _, _, _, _, -, -, -, -, -, -, hkeep⟩ hjj
      exact hkeep j _ hij hjj hj hn
    intro i j j' h1 h2
    have := hlt i j j' h1 h2
    have := hlt i j' j h2 h1
    omega

/-- A prod session. -/
def prodSession : ConnectionSafety := { env := some .prod }

theorem unlock_authorises_once_delete :
    ∃ log, log[3]? = some (.passed "DELETE FROM T".toList 1 prodSession (some 0)) ∧
      ∃ i, AuthorisedBy log i 3 := by
  have h : Reaches always _ _ := Run.Reaches.run [.openSession prodSession, .connected,
    .unlockUnsafeDml 0 "T".toList,
    .queryExecute none false [] [("DELETE FROM T".toList, 1)] 2] .start rfl
  exact ⟨_, rfl, (unlock_authorises_once h).1 3 _ 1 prodSession (some 0) rfl (by decide)⟩

/-- A batch's second statement runs when the first one is done, here after the window's end. -/
theorem unlock_outlives_window :
    ∃ s, Reaches always s [.cleared, .opened 0 prodSession, .unlocked "T".toList 0 (some 0),
        .passed "SELECT 1 FROM dual".toList 1 prodSession (some 0),
        .passed "DELETE FROM T".toList 1 prodSession (some 0),
        .executed "SELECT 1 FROM dual".toList 2 0, .executed "DELETE FROM T".toList 900001 0] ∧
      NeedsUnlock "DELETE FROM T".toList prodSession ∧ 0 + UNSAFE_DML_WINDOW_TTL_MS ≤ 900001 := by
  refine ⟨_, Run.Reaches.run [.openSession prodSession, .connected,
    .unlockUnsafeDml 0 "T".toList, .queryExecute none false []
      [("SELECT 1 FROM dual".toList, 1), ("DELETE FROM T".toList, 1)] 2,
    .statementDone 900001] .start rfl, by decide, by decide⟩

end Veesker.Sidecar
