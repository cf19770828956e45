/-
  File:      Veesker/Perf/Latest.lean
  Subject:   WHOSE ANALYSIS IS SHOWN (src/lib/stores/perf-analyzer.svelte.ts), over every
             interleaving of edits, timers, replies and switches.

  A text that starts an analysis aborts the one in flight; one that is skipped or served from the
  cache does not, and the cache knows a text by 32 bits.

  * `World.Belongs` -- what is shown belongs to the text fired last;
  * `Condition` -- on the state in which a text is fired;
  * **`latest_iff`** -- under it every run is right, and without it a reply or the cache shows
    another text's analysis.
-/
import Veesker.Perf.Analyzer
import Veesker.Run.Flight

namespace Veesker.Perf

open Run List

/-! ## 1. What is right -/

/-- The plan is one replied to the text, and the rest is what the rules make of it. -/
def FromReply (rules : PerfRules) (replies : List Reply) (r : Analyzed) : Prop :=
  ∃ a ∈ replies, ∃ plan, a.sql = r.sql ∧ a.plan = .ok plan ∧
    r = World.analysis rules ⟨r.reqId, r.sql, false⟩ plan a.stats a.now

/-- What is shown belongs to the text fired last. -/
def World.Belongs (rules : PerfRules) (w : World) : Prop :=
  match w.state with
  | .analyzing _ sql => w.fired = some sql
  | .analyzed r => w.fired = some r.sql ∧ FromReply rules w.replies r
  | _ => True

/-- Whether a text that is fired starts an analysis. -/
def World.starts (w : World) (sql : Text) (now : Int) : Bool :=
  (isAnalyzableSql sql).isNone && w.enabled && !w.sessionBusy && (w.cached sql now).isNone

/-- What the cache gives for a text that is fired. -/
def World.serves (w : World) (sql : Text) (now : Int) : Option AnalysisState :=
  if (isAnalyzableSql sql).isNone && w.enabled && !w.sessionBusy then w.cached sql now else none

/-- A text that starts no analysis finds none of another text in flight, and one that the cache
serves is served its own. -/
structure Safe (w : World) (sql : Text) (now : Int) : Prop where
  flight : w.starts sql now = false → ∀ c ∈ w.calls, c.aborted = false → c.sql = sql
  cache : ∀ r, w.serves sql now = some (.analyzed r) → r.sql = sql

def Condition (w : World) (e : Event) : Prop :=
  ∀ f, firing w e = some f → Safe f.1 f.2.1 f.2.2

/-- The worlds that allowed events reach. -/
abbrev Reached (rules : PerfRules) (allowed : World → Event → Prop) (init : World) : World → Prop :=
  Runs (fun w e w' => step rules w e = some w') allowed init

/-- Replies come in, and nothing else. -/
def IsReply (_ : World) (e : Event) : Prop := ∃ i plan stats now, e = .reply i plan stats now

/-! ## 2. What `fire` does -/

/-- A state that shows no analysis. -/
def AnalysisState.Quiet : AnalysisState → Prop
  | .idle => True
  | .skipped _ => True
  | _ => False

/-- `fire` starts an analysis, takes the cache's, or shows none. -/
theorem fire_cases (w : World) (sql : Text) (now : Int) :
    (w.starts sql now = true ∧ w.serves sql now = none ∧
        w.fire sql now = { w with fired := some sql }.runAnalysis sql) ∨
      (∃ result, w.starts sql now = false ∧ w.serves sql now = some result ∧
        w.fire sql now = { w with fired := some sql, state := result }) ∨
      ∃ st pending, w.starts sql now = false ∧ w.serves sql now = none ∧ st.Quiet ∧
        w.fire sql now = { w with fired := some sql, state := st, pendingSql := pending } := by
  cases hcheck : isAnalyzableSql sql with
  | some reason =>
    right; right
    have hstarts : w.starts sql now = false := by simp [World.starts, hcheck]
    have hserves : w.serves sql now = none := by simp [World.serves, hcheck]
    by_cases hempty : reason = .empty
    · subst hempty
      refine ⟨.idle, w.pendingSql, hstarts, hserves, trivial, ?_⟩
      simp only [World.fire, hcheck]
    · refine ⟨.skipped reason, w.pendingSql, hstarts, hserves, trivial, ?_⟩
      simp only [World.fire, hcheck]
  | none =>
    by_cases henabled : w.enabled = true
    · by_cases hbusy : w.sessionBusy = true
      · right; right
        refine ⟨.skipped .sessionBusy, some sql, ?_, ?_, trivial, ?_⟩
        · simp [World.starts, hbusy]
        · simp [World.serves, hbusy]
        · simp [World.fire, hcheck, henabled, hbusy]
      · have hfired : ({ w with fired := some sql } : World).cached sql now = w.cached sql now :=
          rfl
        cases hcached : w.cached sql now with
        | none =>
          left
          refine ⟨?_, ?_, ?_⟩
          · simp [World.starts, hcheck, henabled, hbusy, hcached]
          · simp [World.serves, hcheck, henabled, hbusy, hcached]
          · simp only [World.fire, hcheck]
            rw [if_neg (by simp [henabled]), if_neg hbusy, hfired, hcached]
        | some result =>
          right; left
          refine ⟨result, ?_, ?_, ?_⟩
          · simp [World.starts, hcached]
          · simp [World.serves, hcheck, henabled, hbusy, hcached]
          · simp only [World.fire, hcheck]
            rw [if_neg (by simp [henabled]), if_neg hbusy, hfired, hcached]
    · right; right
      refine ⟨.skipped .disabled, w.pendingSql, ?_, ?_, trivial, ?_⟩
      · simp [World.starts, henabled]
      · simp [World.serves, henabled]
      · simp [World.fire, hcheck, henabled]

/-- What the cache gives stands in it. -/
theorem mem_of_serves {w : World} {sql : Text} {now : Int} {result : AnalysisState}
    (h : w.serves sql now = some result) : ∃ e ∈ w.cache, e.2.result = result := by
  unfold World.serves at h
  split at h
  · obtain ⟨c, hc, rfl⟩ := Option.map_eq_some_iff.mp h
    obtain ⟨hlookup, _⟩ := Option.filter_eq_some_iff.mp hc
    obtain ⟨l₁, l₂, hcache, _⟩ := lookup_eq_some_iff.mp hlookup
    rw [hcache]
    exact ⟨_, mem_append_right _ mem_cons_self, rfl⟩
  · cases h

/-! ## 3. The invariant -/

structure Inv (rules : PerfRules) (w : World) : Prop where
  /-- An analysis in flight is that of the controller, and of the text fired last. -/
  flight : ∀ c ∈ w.calls, c.aborted = false → w.abort = some c.id ∧ w.fired = some c.sql
  cache : ∀ e ∈ w.cache, ∃ r, e.2.result = .analyzed r ∧ FromReply rules w.replies r
  state : w.Belongs rules

variable {rules : PerfRules} {w w' : World}

theorem FromReply.mono {replies : List Reply} {r : Analyzed} (h : FromReply rules replies r)
    (a : Reply) : FromReply rules (replies ++ [a]) r := by
  obtain ⟨b, hb, plan, hrest⟩ := h
  exact ⟨b, mem_append_left _ hb, plan, hrest⟩

/-- Aborting the current analysis ends them all. -/
theorem abortCurrent_aborted (h : ∀ c ∈ w.calls, c.aborted = false → w.abort = some c.id) :
    ∀ c ∈ w.abortCurrent.calls, c.aborted = true := by
  intro c hc
  obtain ⟨c', hc', rfl⟩ := mem_map.mp hc
  split
  · rfl
  · rename_i hne
    cases hab : c'.aborted with
    | true => rfl
    | false => exact absurd (h c' hc' hab) hne

theorem inv_fire (h : Inv rules w) {sql : Text} {now : Int} (hsafe : Safe w sql now) :
    Inv rules (w.fire sql now) := by
  rcases fire_cases w sql now with ⟨_, _, hfire⟩ | ⟨result, hstarts, hserves, hfire⟩ |
    ⟨st, pending, hstarts, _, hquiet, hfire⟩
  · -- a new analysis: the one before it is aborted
    rw [hfire]
    have haborted := abortCurrent_aborted (w := w) fun c hc hab => (h.flight c hc hab).1
    refine ⟨?_, h.cache, rfl⟩
    intro c hc hab
    rcases mem_append.mp hc with hc | hc
    · rw [haborted c hc] at hab
      cases hab
    · rw [mem_singleton.mp hc]
      exact ⟨rfl, rfl⟩
  · rw [hfire]
    obtain ⟨e, he, hresult⟩ := mem_of_serves hserves
    obtain ⟨r, hr, hreply⟩ := h.cache e he
    have hanalyzed : result = .analyzed r := hresult.symm.trans hr
    subst hanalyzed
    refine ⟨?_, h.cache, ?_, hreply⟩
    · intro c hc hab
      rw [hsafe.flight hstarts c hc hab]
      exact ⟨(h.flight c hc hab).1, rfl⟩
    · rw [hsafe.cache r hserves]
  · rw [hfire]
    refine ⟨?_, h.cache, ?_⟩
    · intro c hc hab
      rw [hsafe.flight hstarts c hc hab]
      exact ⟨(h.flight c hc hab).1, rfl⟩
    · cases st with
      | idle | skipped => trivial
      | analyzing | analyzed | error => cases hquiet

theorem mem_setCached {cache : List (Text × Cached)} {k : Text} {v : Cached} {e : Text × Cached}
    (h : e ∈ setCached cache k v) : e ∈ cache ∨ e = (k, v) := by
  unfold setCached at h
  split at h
  · obtain ⟨e', he', rfl⟩ := mem_map.mp h
    split
    · exact .inr rfl
    · exact .inl he'
  · rcases mem_append.mp h with h | h
    · exact .inl h
    · exact .inr (mem_singleton.mp h)

theorem mem_evictExpired {now : Int} {cache : List (Text × Cached)} {e : Text × Cached}
    (h : e ∈ evictExpired now cache) : e ∈ cache :=
  (mem_filter.mp (mem_of_mem_drop h)).1

/-- A reply, with its analysis taken out of those in flight. -/
theorem inv_settle (h : Inv rules w) {i : Nat} {c : Call} (hc : w.calls[i]? = some c)
    (plan : Except (Option Text) (List ExplainNode)) (stats : Option (List PerfTableStats))
    (now : Int) :
    Inv rules (World.settle rules { w with
      calls := w.calls.eraseIdx i
      replies := w.replies ++ [⟨c.sql, plan, stats, now⟩] } c plan stats now) := by
  have hmem : c ∈ w.calls := mem_of_getElem? hc
  have hflight : ∀ d ∈ w.calls.eraseIdx i, d.aborted = false →
      w.abort = some d.id ∧ w.fired = some d.sql :=
    fun d hd hab => h.flight d (mem_of_mem_eraseIdx hd) hab
  have hcache : ∀ e ∈ w.cache, ∃ r, e.2.result = .analyzed r ∧
      FromReply rules (w.replies ++ [⟨c.sql, plan, stats, now⟩]) r := by
    intro e he
    obtain ⟨r, hr, hreply⟩ := h.cache e he
    exact ⟨r, hr, hreply.mono _⟩
  unfold World.settle
  split
  · refine ⟨hflight, hcache, ?_⟩
    have hstate := h.state
    unfold World.Belongs at hstate ⊢
    cases hst : w.state with
    | analyzed r =>
      rw [hst] at hstate
      exact ⟨hstate.1, hstate.2.mono _⟩
    | analyzing reqId sql =>
      rw [hst] at hstate
      exact hstate
    | idle | skipped | error => trivial
  · rename_i hab
    have hfired : w.fired = some c.sql := (h.flight c hmem (by simpa using hab)).2
    cases plan with
    | error message => exact ⟨hflight, hcache, trivial⟩
    | ok nodes =>
      have hreply : FromReply rules (w.replies ++ [⟨c.sql, .ok nodes, stats, now⟩])
          (World.analysis rules c nodes stats now) :=
        ⟨_, mem_append_right _ (mem_singleton_self _), nodes, rfl, rfl, rfl⟩
      refine ⟨hflight, ?_, hfired, hreply⟩
      intro e he
      rcases mem_setCached (mem_evictExpired he) with he | rfl
      · exact hcache e he
      · exact ⟨_, rfl, hreply⟩

theorem inv_abort (h : Inv rules w) {st : AnalysisState} (hst : st.Quiet) :
    Inv rules { w.abortCurrent with state := st } := by
  have haborted := abortCurrent_aborted (w := w) fun c hc hab => (h.flight c hc hab).1
  refine ⟨?_, h.cache, ?_⟩
  · intro c hc hab
    rw [haborted c hc] at hab
    cases hab
  · cases st with
    | idle | skipped => trivial
    | analyzing | analyzed | error => cases hst

/-- Where a text is fired, what was before has the invariant as well. -/
theorem inv_firing (h : Inv rules w) {e : Event} {f : World × Text × Int}
    (hf : firing w e = some f) : Inv rules f.1 := by
  cases e with
  | debounce now =>
    obtain ⟨sql, _, rfl⟩ := Option.map_eq_some_iff.mp hf
    exact ⟨h.flight, h.cache, h.state⟩
  | setSessionBusy busy now =>
    cases busy with
    | true => cases hf
    | false =>
      obtain ⟨sql, _, rfl⟩ := Option.map_eq_some_iff.mp hf
      exact ⟨h.flight, h.cache, h.state⟩
  | scheduleAnalysis | reply | setEnabled | reset => cases hf

/-- A step that fires a text does that. -/
theorem step_firing {e : Event} {f : World × Text × Int} (hf : firing w e = some f) :
    step rules w e = some (f.1.fire f.2.1 f.2.2) := by
  cases e with
  | debounce now => exact congrArg (Option.map _) hf
  | setSessionBusy busy now =>
    simp only [step, hf]
  | scheduleAnalysis | reply | setEnabled | reset => cases hf

theorem inv_step (h : Inv rules w) {e : Event} (hs : step rules w e = some w')
    (hc : Condition w e) : Inv rules w' := by
  cases hf : firing w e with
  | some f =>
    rw [step_firing hf] at hs
    cases hs
    exact inv_fire (inv_firing h hf) (hc f hf)
  | none =>
    cases e with
    | scheduleAnalysis sql =>
      cases hs
      exact ⟨h.flight, h.cache, h.state⟩
    | debounce now =>
      simp only [step, hf] at hs
      cases hs
    | reply i plan stats now =>
      obtain ⟨c, hcall, rfl⟩ := Option.map_eq_some_iff.mp hs
      exact inv_settle h hcall plan stats now
    | setEnabled enabled =>
      cases hs
      cases enabled with
      | true => exact ⟨h.flight, h.cache, h.state⟩
      | false =>
        have hw : Inv rules { w with enabled := false, debounceTimer := none } :=
          ⟨h.flight, h.cache, h.state⟩
        exact @inv_abort _ _ hw (.skipped .disabled) trivial
    | setSessionBusy busy now =>
      simp only [step, hf] at hs
      cases hs
      exact ⟨h.flight, h.cache, h.state⟩
    | reset =>
      cases hs
      have hw : Inv rules { w with debounceTimer := none } := ⟨h.flight, h.cache, h.state⟩
      have hidle := @inv_abort _ _ hw .idle trivial
      refine ⟨?_, fun e he => absurd he not_mem_nil, trivial⟩
      intro c hc hab
      rw [abortCurrent_aborted (w := { w with debounceTimer := none })
        (fun c hc hab => (h.flight c hc hab).1) c hc] at hab
      cases hab

/-- **The invariant holds in every run** under the condition. -/
theorem inv_reached (h : Reached rules Condition {} w) : Inv rules w := by
  refine Runs.inv h ⟨?_, ?_, trivial⟩ fun w e w' hi hs hc => inv_step hi hs hc
  · intro c hc
    cases hc
  · intro e he
    cases he

/-- A reply to an earlier text changes nothing that is shown. -/
theorem reply_of_earlier (h : Inv rules w) {i : Nat} {c : Call} (hc : w.calls[i]? = some c)
    (hne : w.fired ≠ some c.sql) {plan : Except (Option Text) (List ExplainNode)}
    {stats : Option (List PerfTableStats)} {now : Int}
    (hs : step rules w (.reply i plan stats now) = some w') : w'.state = w.state := by
  have haborted : c.aborted = true := by
    cases hab : c.aborted with
    | true => rfl
    | false => exact absurd (h.flight c (mem_of_getElem? hc) hab).2 hne
  simp only [step, hc, Option.map_some] at hs
  cases hs
  unfold World.settle
  rw [if_pos haborted]

/-! ## 4. Without the condition -/

/-- A text of which another one's analysis is in flight, or that the cache serves another one's. -/
theorem wrong_of_unsafe {sql : Text} {now : Int} (rules : PerfRules) (hsafe : ¬ Safe w sql now) :
    ∃ w', Reached rules IsReply (w.fire sql now) w' ∧ ¬ w'.Belongs rules := by
  by_cases hflight : w.starts sql now = false → ∀ c ∈ w.calls, c.aborted = false → c.sql = sql
  · -- the cache's analysis is of another text
    have hcache : ∃ r, w.serves sql now = some (.analyzed r) ∧ r.sql ≠ sql := by
      by_contra hall
      refine hsafe ⟨hflight, fun r hr => ?_⟩
      by_contra hne
      exact hall ⟨r, hr, hne⟩
    obtain ⟨r, hserves, hne⟩ := hcache
    refine ⟨w.fire sql now, .start, ?_⟩
    rcases fire_cases w sql now with ⟨_, hnone, _⟩ | ⟨result, _, hresult, hfire⟩ |
      ⟨_, _, _, hnone, _, _⟩
    · rw [hserves] at hnone
      cases hnone
    · rw [hserves] at hresult
      cases hresult
      rw [hfire]
      intro hbelongs
      exact hne (Option.some.inj hbelongs.1).symm
    · rw [hserves] at hnone
      cases hnone
  · -- the reply for the text before comes in
    rw [Classical.not_imp] at hflight
    obtain ⟨hstarts, hcalls⟩ := hflight
    simp only [not_forall] at hcalls
    obtain ⟨c, hc, hab, hne⟩ := hcalls
    have hfire : (w.fire sql now).calls = w.calls ∧ (w.fire sql now).fired = some sql := by
      rcases fire_cases w sql now with ⟨hstart, _, _⟩ | ⟨result, _, _, hfire⟩ |
        ⟨st, pending, _, _, _, hfire⟩
      · rw [hstarts] at hstart
        cases hstart
      · rw [hfire]
        exact ⟨rfl, rfl⟩
      · rw [hfire]
        exact ⟨rfl, rfl⟩
    obtain ⟨i, hi⟩ := mem_iff_getElem?.mp hc
    have hstep : ∃ w', step rules (w.fire sql now) (.reply i (.ok []) none now) = some w' ∧
        w'.state = .analyzed (World.analysis rules c [] none now) ∧
        w'.fired = (w.fire sql now).fired := by
      simp only [step, hfire.1, hi, Option.map_some, World.settle, hab]
      exact ⟨_, rfl, rfl, rfl⟩
    obtain ⟨w', hw', hstate, hfired⟩ := hstep
    refine ⟨w', .step _ _ (.reply i (.ok []) none now) .start hw' ⟨i, .ok [], none, now, rfl⟩, ?_⟩
    rw [World.Belongs, hstate, hfired]
    intro hbelongs
    have hsql : (w.fire sql now).fired = some c.sql := hbelongs.1
    rw [hfire.2] at hsql
    exact hne (Option.some.inj hsql).symm

/-- **What is shown belongs to the text fired last** in every run whose texts are fired under the
condition, and no reply to an earlier one changes it; a text fired outside of it is followed by a
wrong state, at once or with a reply. -/
theorem latest_iff (rules : PerfRules) :
    (∀ w, Reached rules Condition {} w → w.Belongs rules ∧
      ∀ i c plan stats now w', w.calls[i]? = some c →
        step rules w (.reply i plan stats now) = some w' → w.fired ≠ some c.sql →
        w'.state = w.state) ∧
    ∀ w e w', Reached rules Condition {} w → step rules w e = some w' →
      (Condition w e ↔ ∀ w'', Reached rules IsReply w' w'' → w''.Belongs rules) := by
  refine ⟨?_, ?_⟩
  · intro w h
    have hinv := inv_reached h
    exact ⟨hinv.state, fun i c plan stats now w' hc hs hne => reply_of_earlier hinv hc hne hs⟩
  · intro w e w' h hs
    have hinv := inv_reached h
    constructor
    · intro hc w'' hrun
      have hinv'' : Inv rules w'' := by
        refine Runs.inv hrun (inv_step hinv hs hc) ?_
        intro s e s' hi hstep hreply
        obtain ⟨i, plan, stats, now, rfl⟩ := hreply
        exact inv_step hi hstep fun f hf => by cases hf
      exact hinv''.state
    · intro hall f hf
      by_contra hsafe
      obtain ⟨w'', hrun, hwrong⟩ := wrong_of_unsafe rules hsafe
      rw [step_firing hf] at hs
      cases hs
      exact hwrong (hall w'' hrun)

/-! ## 5. Runs -/

def noFlags : PerfRules := ⟨fun _ _ _ _ => [], fun _ _ => []⟩

def select : Text := "SELECT * FROM orders".toList

/-- A SELECT is fired, and a DDL statement before its replies are there. -/
def lateReply : List Event :=
  [.scheduleAnalysis select, .debounce 0, .scheduleAnalysis "DROP TABLE orders".toList,
   .debounce 500, .reply 0 (.ok []) none 600]

/-- Two texts of one key. -/
def sameKey : List Event :=
  [.scheduleAnalysis "SELECT 149599 FROM dual".toList, .debounce 0, .reply 0 (.ok []) none 100,
   .scheduleAnalysis "SELECT 312382 FROM dual".toList, .debounce 1000]

theorem earlier_shown :
    ((lateReply.foldlM (step noFlags) {}).map fun w => (w.fired, w.state)) =
        some (some "DROP TABLE orders".toList,
          .analyzed ⟨0, select, [], [], [], .unknown, []⟩) ∧
      ((sameKey.foldlM (step noFlags) {}).map fun w => (w.fired, w.state)) =
        some (some "SELECT 312382 FROM dual".toList,
          .analyzed ⟨0, "SELECT 149599 FROM dual".toList, [], [], [], .unknown, []⟩) ∧
      ¬ ∀ w, Reached noFlags (fun _ _ => True) {} w → w.Belongs noFlags := by
  have hrun : ((lateReply.foldlM (step noFlags) {}).map fun w => (w.fired, w.state)) =
      some (some "DROP TABLE orders".toList,
        .analyzed ⟨0, select, [], [], [], .unknown, []⟩) := by decide
  refine ⟨hrun, by decide, ?_⟩
  intro h
  obtain ⟨w, hw, hshown⟩ := Option.map_eq_some_iff.mp hrun
  have hbelongs := h w (Runs.exec lateReply .start (by simpa using hw))
  rw [World.Belongs, (Prod.mk.inj hshown).2, (Prod.mk.inj hshown).1] at hbelongs
  exact absurd hbelongs.1 (by decide)

/-- The world after the timer has fired the SELECT. -/
def selecting : World :=
  { state := .analyzing 0 select, abort := some 0, calls := [⟨0, select, false⟩], nextId := 1,
    fired := some select }

theorem latest_iff_select :
    Reached noFlags Condition {} selecting ∧ selecting.Belongs noFlags ∧
      ∀ w, Reached noFlags IsReply selecting w → w.Belongs noFlags := by
  have hscheduled : Reached noFlags Condition {} { debounceTimer := some select } :=
    .step _ _ (.scheduleAnalysis select) .start rfl fun f hf => by cases hf
  have hcondition : Condition { debounceTimer := some select } (.debounce 0) := by
    intro f hf
    cases hf
    refine ⟨fun _ c hc => absurd hc not_mem_nil, ?_⟩
    intro r hr
    obtain ⟨e, he, _⟩ := mem_of_serves hr
    exact absurd he not_mem_nil
  have hstep : step noFlags { debounceTimer := some select } (.debounce 0) = some selecting := by
    decide
  have hselecting := Runs.step _ _ (.debounce 0) hscheduled hstep hcondition
  exact ⟨hselecting, ((latest_iff noFlags).1 selecting hselecting).1,
    ((latest_iff noFlags).2 _ _ selecting hscheduled hstep).mp hcondition⟩

end Veesker.Perf
