/-
  File:      Veesker/Command/LineEditor.lean
  Subject:   THE LINE EDITOR (src/lib/command/line-editor.ts): buffer, cursor and history.

  A string is its code units, as the cursor counts them. A buffer is none where the code has made it
  `undefined`; what a call answers is none where it throws, and the editor is then as the call left
  it. A push that never ends is none as a whole.

  * `step_good` -- what one call keeps, where the list it brings fits the limit;
  * **`good_iff`**: the editor stays in order in every state of a run exactly where the list of the
    constructor and every list that is set afterwards fit the limit.
  * **`run_back`**: through the history and back, what was made of the entries is gone, and the own
    line is as it was left.
-/
import Veesker.Text.Js

namespace Veesker.Command

open List

/-! ## 1. Strings and numbers -/

/-- A string as code units. -/
abbrev Units := List UInt16

/-- White space, as `trim` removes it; all of it is of one unit. -/
def isSpaceUnit (u : UInt16) : Bool :=
  spacePoints.contains u.toNat || (decide (0x2000 ≤ u.toNat) && decide (u.toNat ≤ 0x200A))

/-- `e.trim() === ""`. -/
def isBlankEntry (e : Units) : Bool := e.all isSpaceUnit

/-- `text.split("\\n")`. -/
def segments : Units → List Units
  | [] => [[]]
  | u :: us =>
    if u = 10 then [] :: segments us
    else match segments us with
      | [] => [[u]]
      | s :: ss => (u :: s) :: ss

/-- A number, by what the editor asks of it: whether a length is greater. -/
structure Limit where
  exceeded : Nat → Bool
  mono : ∀ m n, m ≤ n → exceeded m = true → exceeded n = true

def DEFAULT_HISTORY_LIMIT : Limit where
  exceeded n := decide (1000 < n)
  mono m n h hm := by simp only [decide_eq_true_eq] at hm ⊢; omega

/-- A whole number as a limit. -/
def Limit.ofInt (k : Int) : Limit where
  exceeded n := decide (k < n)
  mono m n h hm := by simp only [decide_eq_true_eq] at hm ⊢; omega

/-! ## 2. The editor -/

inductive LineEditorEvent where
  | char (ch : Units)
  | paste (text : Units)
  | backspace | delete | left | right | home | lineEnd | up | down
  | clearScreen | interrupt | submit
  deriving DecidableEq

inductive LineEditorOutput where
  | redraw (buffer : Option Units) (cursor : Nat)
  | submit (line : Option Units)
  | interrupt
  | clearScreen
  deriving DecidableEq

structure LineEditorOptions where
  historyLimit : Option Limit := none
  initialHistory : List Units := []

structure DraftSlot where
  buffer : Option Units
  cursor : Nat
  deriving DecidableEq

structure LineEditor where
  buffer : Option Units := some []
  cursor : Nat := 0
  history : List Units
  historyLimit : Limit
  historyIndex : Option Nat := none
  draft : Option DraftSlot := none

namespace LineEditor

/-- The entries that are kept of a list. -/
def kept (entries : List Units) : List Units := entries.filter fun e => !isBlankEntry e

def construct (opts : LineEditorOptions) : LineEditor where
  historyLimit := opts.historyLimit.getD DEFAULT_HISTORY_LIMIT
  history := kept opts.initialHistory

variable (ed : LineEditor)

def reset : LineEditor :=
  { ed with buffer := some [], cursor := 0, historyIndex := none, draft := none }

def setHistory (entries : List Units) : LineEditor :=
  { ed with history := kept entries, historyIndex := none, draft := none }

/-- `while (history.length > limit) history.shift()`; from a limit below 0 there is no way out. -/
def evict (limit : Limit) : List Units → Option (List Units)
  | [] => if limit.exceeded 0 then none else some []
  | e :: es => if limit.exceeded (es.length + 1) then evict limit es else some (e :: es)

def pushHistory (entry : Units) : Option LineEditor :=
  if isBlankEntry entry then some ed
  else if ed.history.getLast? = some entry then some ed
  else (evict ed.historyLimit (ed.history ++ [entry])).map fun history => { ed with history }

def redraw : LineEditorOutput := .redraw ed.buffer ed.cursor

/-- The editor after a call, and its answer. -/
abbrev Outcome := LineEditor × Option (List LineEditorOutput)

/-- The call that ends by drawing the line. -/
def drawn (ed : LineEditor) : Outcome := (ed, some [ed.redraw])

/-- A text between what stands before and behind the cursor. -/
def insertAt (buffer : Units) (cursor : Nat) (text : Units) : Units :=
  buffer.take cursor ++ text ++ buffer.drop cursor

def handleChar (ch : Units) : Outcome :=
  match ed.buffer with
  | none => (ed, none)
  | some b =>
    drawn { ed with buffer := some (insertAt b ed.cursor ch), cursor := ed.cursor + ch.length }

def handlePaste (text : Units) : Outcome :=
  match ed.buffer with
  | none => (ed, none)
  | some b =>
    match segments text with
    | first :: second :: more =>
      let lines := second :: more
      let tail := lines.getLast (cons_ne_nil _ _)
      let submitted := insertAt b ed.cursor first :: lines.dropLast
      let ed := { ed with
        buffer := some tail, cursor := tail.length, historyIndex := none, draft := none }
      (ed, some (submitted.map (fun line => .submit (some line)) ++ [ed.redraw]))
    | _ =>
      drawn { ed with
        buffer := some (insertAt b ed.cursor text), cursor := ed.cursor + text.length }

def handleBackspace : Outcome :=
  if ed.cursor = 0 then (ed, some [])
  else match ed.buffer with
    | none => (ed, none)
    | some b => drawn { ed with
        buffer := some (b.take (ed.cursor - 1) ++ b.drop ed.cursor), cursor := ed.cursor - 1 }

def handleDelete : Outcome :=
  match ed.buffer with
  | none => (ed, none)
  | some b =>
    if b.length ≤ ed.cursor then (ed, some [])
    else drawn { ed with buffer := some (b.take ed.cursor ++ b.drop (ed.cursor + 1)) }

def handleLeft : Outcome :=
  if ed.cursor = 0 then (ed, some []) else drawn { ed with cursor := ed.cursor - 1 }

def handleRight : Outcome :=
  match ed.buffer with
  | none => (ed, none)
  | some b => if b.length ≤ ed.cursor then (ed, some []) else drawn { ed with cursor := ed.cursor + 1 }

def handleHome : Outcome :=
  if ed.cursor = 0 then (ed, some []) else drawn { ed with cursor := 0 }

def handleEnd : Outcome :=
  match ed.buffer with
  | none => (ed, none)
  | some b => if ed.cursor = b.length then (ed, some []) else drawn { ed with cursor := b.length }

/-- `this.buffer = this.history[i]; this.cursor = this.buffer.length;` -/
def showEntry (i : Nat) : Outcome :=
  match ed.history[i]? with
  | none => ({ ed with buffer := none }, none)
  | some e => drawn { ed with buffer := some e, cursor := e.length }

def handleUp : Outcome :=
  if ed.history.isEmpty then (ed, some [])
  else match ed.historyIndex with
    | none =>
      let i := ed.history.length - 1
      showEntry { ed with draft := some ⟨ed.buffer, ed.cursor⟩, historyIndex := some i } i
    | some i => showEntry { ed with historyIndex := some (i - 1) } (i - 1)

def handleDown : Outcome :=
  match ed.historyIndex with
  | none => (ed, some [])
  | some i =>
    if ed.history.length - 1 < i + 1 then
      let draft := ed.draft.getD ⟨some [], 0⟩
      drawn { ed with
        buffer := draft.buffer, cursor := draft.cursor, historyIndex := none, draft := none }
    else showEntry { ed with historyIndex := some (i + 1) } (i + 1)

def handle : LineEditorEvent → Outcome
  | .char ch => ed.handleChar ch
  | .paste text => ed.handlePaste text
  | .backspace => ed.handleBackspace
  | .delete => ed.handleDelete
  | .left => ed.handleLeft
  | .right => ed.handleRight
  | .home => ed.handleHome
  | .lineEnd => ed.handleEnd
  | .up => ed.handleUp
  | .down => ed.handleDown
  | .clearScreen => (ed, some [.clearScreen, ed.redraw])
  | .interrupt => (ed.reset, some [.interrupt, ed.reset.redraw])
  | .submit => (ed.reset, some [.submit ed.buffer])

/-- The calls that change an editor. -/
inductive Call where
  | handle (ev : LineEditorEvent)
  | handlePaste (text : Units)
  | pushHistory (entry : Units)
  | setHistory (entries : List Units)
  | reset
  deriving DecidableEq

/-- The editor after a call, none if the call never ends. -/
def step : Call → Option LineEditor
  | .handle ev => some (ed.handle ev).1
  | .handlePaste text => some (ed.handlePaste text).1
  | .pushHistory entry => ed.pushHistory entry
  | .setHistory entries => some (ed.setHistory entries)
  | .reset => some ed.reset

/-- The editor after a run. -/
def run (ed : LineEditor) (calls : List Call) : Option LineEditor := calls.foldlM step ed

/-! ## 3. An editor in order -/

/-- The buffer is a string and the cursor in it; the index is one of the history's, which is within
    its limit and holds no blank entry. -/
structure Good (ed : LineEditor) : Prop where
  text : ∃ b, ed.buffer = some b ∧ ed.cursor ≤ b.length
  index : ∀ i ∈ ed.historyIndex, i < ed.history.length
  bounded : ed.historyLimit.exceeded ed.history.length = false
  solid : ∀ e ∈ ed.history, isBlankEntry e = false

/-- The draft, which the editor falls back on, is in order as well. -/
structure Invariant (ed : LineEditor) : Prop extends Good ed where
  drafted : ∀ d ∈ ed.draft, ∃ b, d.buffer = some b ∧ d.cursor ≤ b.length

/-- A list that is kept within the limit. -/
def Fits (limit : Limit) (entries : List Units) : Prop :=
  limit.exceeded (kept entries).length = false

/-- A call that brings a list brings one that fits. -/
def Call.Fits (limit : Limit) : Call → Prop
  | .setHistory entries => LineEditor.Fits limit entries
  | _ => True

theorem kept_solid (entries : List Units) : ∀ e ∈ kept entries, isBlankEntry e = false := by
  intro e he
  simpa using (mem_filter.mp he).2

/-! ### The text alone, and the limit -/

/-- An event that works on the line that is shown. -/
def edits : LineEditorEvent → Bool
  | .char _ | .backspace | .delete | .left | .right | .home | .lineEnd | .clearScreen => true
  | .paste text => (segments text).tail.isEmpty
  | .up | .down | .interrupt | .submit => false

theorem handle_edits (ed : LineEditor) {ev : LineEditorEvent} (h : edits ev = true) :
    ∃ buffer cursor, (ed.handle ev).1 = { ed with buffer, cursor } := by
  cases ev with
  | char ch => rw [handle, handleChar]; split <;> exact ⟨_, _, rfl⟩
  | paste text =>
    rw [handle, handlePaste]
    split
    · exact ⟨_, _, rfl⟩
    · split
      · rename_i hsegments
        rw [edits, hsegments] at h
        cases h
      · exact ⟨_, _, rfl⟩
  | backspace =>
    rw [handle, handleBackspace]
    split
    · exact ⟨_, _, rfl⟩
    · split <;> exact ⟨_, _, rfl⟩
  | delete =>
    rw [handle, handleDelete]
    split
    · exact ⟨_, _, rfl⟩
    · split <;> exact ⟨_, _, rfl⟩
  | left => rw [handle, handleLeft]; split <;> exact ⟨_, _, rfl⟩
  | right =>
    rw [handle, handleRight]
    split
    · exact ⟨_, _, rfl⟩
    · split <;> exact ⟨_, _, rfl⟩
  | home => rw [handle, handleHome]; split <;> exact ⟨_, _, rfl⟩
  | lineEnd =>
    rw [handle, handleEnd]
    split
    · exact ⟨_, _, rfl⟩
    · split <;> exact ⟨_, _, rfl⟩
  | clearScreen => exact ⟨_, _, rfl⟩
  | up | down | interrupt | submit => cases h

theorem showEntry_limit (ed : LineEditor) (i : Nat) :
    (ed.showEntry i).1.historyLimit = ed.historyLimit := by
  rw [showEntry]
  split <;> rfl

theorem handlePaste_limit (ed : LineEditor) (text : Units) :
    (ed.handlePaste text).1.historyLimit = ed.historyLimit := by
  rw [handlePaste]
  split
  · rfl
  · split <;> rfl

theorem handle_limit (ed : LineEditor) (ev : LineEditorEvent) :
    (ed.handle ev).1.historyLimit = ed.historyLimit := by
  by_cases h : edits ev = true
  · obtain ⟨buffer, cursor, he⟩ := handle_edits ed h
    rw [he]
  · cases ev with
    | paste text => exact handlePaste_limit ed text
    | up =>
      rw [handle, handleUp]
      split
      · rfl
      · split <;> exact showEntry_limit _ _
    | down =>
      rw [handle, handleDown]
      split
      · rfl
      · split
        · rfl
        · exact showEntry_limit _ _
    | interrupt | submit => rfl
    | _ => exact absurd rfl h

/-! ### What a call keeps -/

variable {ed : LineEditor}

/-- The history, the limit and the index stay; the text is a new one that is in order. -/
theorem Invariant.withText (h : Invariant ed) {b : Units} {cursor : Nat} (hc : cursor ≤ b.length) :
    Invariant { ed with buffer := some b, cursor } :=
  ⟨⟨⟨b, rfl, hc⟩, h.index, h.bounded, h.solid⟩, h.drafted⟩

theorem reset_good (h : Invariant ed) : Invariant ed.reset :=
  ⟨⟨⟨[], rfl, Nat.le_refl 0⟩, nofun, h.bounded, h.solid⟩, nofun⟩

theorem length_insertAt {b : Units} {cursor : Nat} (h : cursor ≤ b.length) (text : Units) :
    cursor + text.length ≤ (insertAt b cursor text).length := by
  simp only [insertAt, length_append, length_take, length_drop]
  omega

theorem handlePaste_good (h : Invariant ed) (text : Units) : Invariant (ed.handlePaste text).1 := by
  obtain ⟨b, hb, hc⟩ := h.text
  rw [handlePaste, hb]
  dsimp only
  split
  · exact ⟨⟨⟨_, rfl, Nat.le_refl _⟩, nofun, h.bounded, h.solid⟩, nofun⟩
  · exact h.withText (length_insertAt hc text)

/-- An entry of the history is shown. -/
theorem showEntry_good (h : Invariant ed) {i : Nat} (hi : i < ed.history.length) :
    Invariant ({ ed with historyIndex := some i }.showEntry i).1 := by
  have he : ed.history[i]? = some ed.history[i] := List.getElem?_eq_getElem hi
  rw [showEntry]
  dsimp only
  rw [he]
  refine ⟨⟨⟨_, rfl, Nat.le_refl _⟩, fun j hj => ?_, h.bounded, h.solid⟩, h.drafted⟩
  cases hj
  exact hi

theorem handleUp_good (h : Invariant ed) : Invariant ed.handleUp.1 := by
  rw [handleUp]
  split
  · exact h
  · rename_i hne
    have hpos : 0 < ed.history.length := by
      rw [List.isEmpty_iff, ← length_eq_zero_iff] at hne
      omega
    split
    · have hd : Invariant { ed with draft := some ⟨ed.buffer, ed.cursor⟩ } :=
        ⟨⟨h.text, h.index, h.bounded, h.solid⟩, fun d hd => by cases hd; exact h.text⟩
      exact showEntry_good hd (show ed.history.length - 1 < ed.history.length by omega)
    · rename_i i hi
      have hlt := h.index i hi
      exact showEntry_good h (by omega)

theorem handleDown_good (h : Invariant ed) : Invariant ed.handleDown.1 := by
  rw [handleDown]
  split
  · exact h
  · rename_i i hi
    split
    · obtain ⟨b, hb, hc⟩ : ∃ b, (ed.draft.getD ⟨some [], 0⟩).buffer = some b ∧
          (ed.draft.getD ⟨some [], 0⟩).cursor ≤ b.length := by
        cases hd : ed.draft with
        | none => exact ⟨[], rfl, Nat.le_refl 0⟩
        | some d => exact h.drafted d hd
      exact ⟨⟨⟨b, hb, hc⟩, nofun, h.bounded, h.solid⟩, nofun⟩
    · exact showEntry_good h (by omega)

/-- **Every event keeps an editor in order.** -/
theorem handle_good (h : Invariant ed) (ev : LineEditorEvent) : Invariant (ed.handle ev).1 := by
  obtain ⟨b, hb, hc⟩ := h.text
  cases ev with
  | char ch =>
    rw [handle, handleChar, hb]
    exact h.withText (length_insertAt hc ch)
  | paste text => exact handlePaste_good h text
  | backspace =>
    rw [handle, handleBackspace]
    split
    · exact h
    · rw [hb]
      refine h.withText ?_
      simp only [length_append, length_take, length_drop]
      omega
  | delete =>
    rw [handle, handleDelete, hb]
    dsimp only
    split
    · exact h
    · refine h.withText ?_
      simp only [length_append, length_take, length_drop]
      omega
  | left =>
    rw [handle, handleLeft]
    split
    · exact h
    · exact ⟨⟨⟨b, hb, show ed.cursor - 1 ≤ b.length by omega⟩, h.index, h.bounded, h.solid⟩,
        h.drafted⟩
  | right =>
    rw [handle, handleRight, hb]
    dsimp only
    split
    · exact h
    · exact ⟨⟨⟨b, rfl, show ed.cursor + 1 ≤ b.length by omega⟩, h.index, h.bounded, h.solid⟩,
        h.drafted⟩
  | home =>
    rw [handle, handleHome]
    split
    · exact h
    · exact ⟨⟨⟨b, hb, Nat.zero_le _⟩, h.index, h.bounded, h.solid⟩, h.drafted⟩
  | lineEnd =>
    rw [handle, handleEnd, hb]
    dsimp only
    split
    · exact h
    · exact ⟨⟨⟨b, rfl, Nat.le_refl _⟩, h.index, h.bounded, h.solid⟩, h.drafted⟩
  | up => exact handleUp_good h
  | down => exact handleDown_good h
  | clearScreen => exact h
  | interrupt => exact reset_good h
  | submit => exact reset_good h

/-- What is evicted, and what is left: the newest entries, no more than the limit and no fewer than
    there were before the last one came, if those were within it. -/
theorem evict_spec {limit : Limit} (h0 : limit.exceeded 0 = false) (l : List Units) :
    ∃ r, evict limit l = some r ∧ r <:+ l ∧ limit.exceeded r.length = false ∧
      ∀ n, limit.exceeded n = false → n ≤ l.length → n ≤ r.length := by
  induction l with
  | nil =>
    refine ⟨[], ?_, suffix_refl _, h0, fun n _ hn => hn⟩
    rw [evict, h0, if_neg Bool.false_ne_true]
  | cons e es ih =>
    obtain ⟨r, hr, hs, hb, hn⟩ := ih
    rw [evict]
    cases hl : limit.exceeded (es.length + 1) with
    | true =>
      refine ⟨r, by rw [if_pos rfl, hr], hs.trans (suffix_cons e es), hb, fun n hx hle => ?_⟩
      refine hn n hx ?_
      -- a length beyond the limit is none of those within it
      by_contra hgt
      have := limit.mono (es.length + 1) n (by omega) hl
      rw [hx] at this
      exact Bool.false_ne_true this
    | false =>
      exact ⟨e :: es, if_neg Bool.false_ne_true, suffix_refl _, hl, fun n _ hle => hle⟩

/-- An editor whose history is within the limit has a limit of 0 or more. -/
theorem exceeded_zero (h : Good ed) : ed.historyLimit.exceeded 0 = false := by
  cases h0 : ed.historyLimit.exceeded 0 with
  | false => rfl
  | true =>
    have := ed.historyLimit.mono 0 ed.history.length (Nat.zero_le _) h0
    rw [h.bounded] at this
    cases this

theorem pushHistory_good (h : Invariant ed) (entry : Units) :
    ∃ ed', ed.pushHistory entry = some ed' ∧ Invariant ed' ∧ ed'.historyLimit = ed.historyLimit := by
  rw [pushHistory]
  split
  · exact ⟨ed, rfl, h, rfl⟩
  · rename_i hblank
    split
    · exact ⟨ed, rfl, h, rfl⟩
    · obtain ⟨r, hr, hs, hb, hn⟩ :=
        evict_spec (exceeded_zero h.toGood) (ed.history ++ [entry])
      refine ⟨{ ed with history := r }, by rw [hr]; rfl, ⟨⟨h.text, fun i hi => ?_, hb, fun e he => ?_⟩,
        h.drafted⟩, rfl⟩
      · have hlt := h.index i hi
        have hle := hn ed.history.length h.bounded (by simp)
        exact Nat.lt_of_lt_of_le hlt hle
      · rcases mem_append.mp (hs.subset he) with he | he
        · exact h.solid e he
        · rw [mem_singleton.mp he]
          simpa using hblank

/-- **What one call keeps**, where the list it brings fits the limit. -/
theorem step_good (h : Invariant ed) {call : Call} (hc : call.Fits ed.historyLimit) :
    ∃ ed', ed.step call = some ed' ∧ Invariant ed' ∧ ed'.historyLimit = ed.historyLimit := by
  cases call with
  | handle ev => exact ⟨_, rfl, handle_good h ev, handle_limit ed ev⟩
  | handlePaste text => exact ⟨_, rfl, handlePaste_good h text, handlePaste_limit ed text⟩
  | pushHistory entry => exact pushHistory_good h entry
  | setHistory entries =>
    exact ⟨_, rfl, ⟨⟨h.text, nofun, hc, kept_solid entries⟩, nofun⟩, rfl⟩
  | reset => exact ⟨_, rfl, reset_good h, rfl⟩

theorem run_cons (ed : LineEditor) (call : Call) (calls : List Call) :
    run ed (call :: calls) = (ed.step call).bind fun ed => run ed calls := rfl

/-- **The run**: every state it reaches is in order. -/
theorem run_good (h : Invariant ed) {calls : List Call} (hc : ∀ c ∈ calls, c.Fits ed.historyLimit) :
    ∃ ed', run ed calls = some ed' ∧ Invariant ed' ∧ ed'.historyLimit = ed.historyLimit := by
  induction calls generalizing ed with
  | nil => exact ⟨ed, rfl, h, rfl⟩
  | cons call calls ih =>
    obtain ⟨ed1, h1, hg1, hl1⟩ := step_good h (hc call mem_cons_self)
    obtain ⟨ed', hr, hg, hl⟩ := ih hg1 fun c hm => hl1 ▸ hc c (mem_cons_of_mem _ hm)
    exact ⟨ed', by rw [run_cons, h1]; exact hr, hg, hl.trans hl1⟩

/-- A new editor with a list that fits. -/
theorem construct_good {opts : LineEditorOptions}
    (h : Fits (construct opts).historyLimit opts.initialHistory) : Invariant (construct opts) :=
  ⟨⟨⟨[], rfl, Nat.le_refl 0⟩, nofun, h, kept_solid _⟩, nofun⟩

/-- **The editor stays in order in every state of a run** exactly where the list of the constructor
    and every list that is set afterwards hold, blank entries aside, no more than the limit. -/
theorem good_iff (opts : LineEditorOptions) (calls : List Call) :
    (∀ calls' ed, calls' <+: calls → run (construct opts) calls' = some ed → Good ed) ↔
      Fits (construct opts).historyLimit opts.initialHistory ∧
        ∀ c ∈ calls, c.Fits (construct opts).historyLimit := by
  constructor
  · intro h
    have hinit : Fits (construct opts).historyLimit opts.initialHistory :=
      (h [] _ nil_prefix rfl).bounded
    refine ⟨hinit, ?_⟩
    -- the calls up to the first that does not fit are answered, and so is that one
    suffices H : ∀ (ed : LineEditor), Invariant ed → ∀ rest : List Call,
        (∀ calls' ed', calls' <+: rest → run ed calls' = some ed' → Good ed') →
        ∀ c ∈ rest, c.Fits ed.historyLimit from
      H _ (construct_good hinit) calls h
    intro ed hed rest
    induction rest generalizing ed with
    | nil => exact fun _ c hc => absurd hc not_mem_nil
    | cons call rest ih =>
      intro hrun
      have hhead : call.Fits ed.historyLimit := by
        cases call with
        | setHistory entries =>
          have hg := hrun [.setHistory entries] (ed.setHistory entries)
            (cons_prefix_cons.mpr ⟨rfl, nil_prefix⟩) rfl
          exact hg.bounded
        | handle ev => trivial
        | handlePaste text => trivial
        | pushHistory entry => trivial
        | reset => trivial
      obtain ⟨ed1, h1, hg1, hl1⟩ := step_good hed hhead
      intro c hc
      rcases mem_cons.mp hc with rfl | hc
      · exact hhead
      · rw [← hl1]
        refine ih ed1 hg1 (fun calls' ed' hp hr => ?_) c hc
        refine hrun (call :: calls') ed' (cons_prefix_cons.mpr ⟨rfl, hp⟩) ?_
        rw [run_cons, h1]
        exact hr
  · rintro ⟨hinit, hcalls⟩ calls' ed hp hr
    obtain ⟨ed', hr', hg, -⟩ := run_good (construct_good hinit) fun c hc => hcalls c (hp.subset hc)
    rw [hr] at hr'
    cases hr'
    exact hg.toGood

/-- Two entries and room for one: the history is longer than its limit from the start, and after a
    push the next step back makes the buffer `undefined`. -/
theorem overfull_history :
    let opts : LineEditorOptions := ⟨some (.ofInt 1), [[65], [66], [67]]⟩
    ¬ Good (construct opts) ∧
      (run (construct opts) [.handle .up, .pushHistory [68], .handle .up]).map LineEditor.buffer =
        some none :=
  ⟨fun h => absurd h.bounded (by decide), by decide⟩

/-! ## 4. Through the history and back -/

/-- How many of `n` entries back an event leads from `p`, where only entries are worked on. -/
def walk (n p : Nat) : LineEditorEvent → Option Nat
  | .up => some (min (p + 1) n)
  | .down => some (p - 1)
  | ev => if edits ev = true ∧ p ≠ 0 then some p else none

/-- The editor `p` entries back: its own line, or one of the history's as it stands there. -/
def back (ed : LineEditor) (draft : Option DraftSlot) : Nat → LineEditor
  | 0 => { ed with historyIndex := none, draft }
  | p + 1 =>
    let i := ed.history.length - (p + 1)
    { ed with
      buffer := ed.history[i]?, cursor := (ed.history[i]?.getD []).length
      historyIndex := some i, draft }

/-- The same, where another text may stand in place of the entry. -/
def Back (ed ed' : LineEditor) : Nat → Prop
  | 0 => ∃ draft, ed' = ed.back draft 0
  | p + 1 => p < ed.history.length ∧ ∃ buffer cursor, ed' =
    { ed.back (some ⟨ed.buffer, ed.cursor⟩) (p + 1) with buffer, cursor }

/-- An entry that there is, shown. -/
theorem showEntry_back (ed : LineEditor) (draft : Option DraftSlot) (buffer : Option Units)
    (cursor : Nat) {i p : Nat} (h : p < ed.history.length) (hi : i = ed.history.length - (p + 1)) :
    (showEntry { ed with buffer, cursor, draft, historyIndex := some i } i).1 =
      ed.back draft (p + 1) := by
  have he := List.getElem?_eq_getElem (show i < ed.history.length by omega)
  rw [showEntry]
  dsimp only
  rw [back, ← hi, he]
  rfl

/-- **A move** shows the line it leads to, whatever was made of the one before. -/
theorem move_back {ed' : LineEditor} {p q : Nat} (h : ed.Back ed' p) {move : LineEditorEvent}
    (hmove : move = .up ∨ move = .down) (hq : walk ed.history.length p move = some q) :
    (∃ draft, (ed'.handle move).1 = ed.back draft q) ∧ ed.Back (ed'.handle move).1 q := by
  have hshow : ∀ {ed₁ : LineEditor} {q : Nat}, q < ed.history.length →
      ed₁ = ed.back (some ⟨ed.buffer, ed.cursor⟩) (q + 1) →
      (∃ draft, ed₁ = ed.back draft (q + 1)) ∧ ed.Back ed₁ (q + 1) := by
    rintro _ q hlt rfl
    exact ⟨⟨_, rfl⟩, hlt, _, _, rfl⟩
  rcases hmove with rfl | rfl
  · obtain rfl := Option.some.inj hq
    by_cases hne : ed.history.isEmpty = true
    · have hlength : ed.history.length = 0 := by rw [List.isEmpty_iff.mp hne]; rfl
      rw [hlength, Nat.min_zero]
      cases p with
      | zero =>
        obtain ⟨draft, rfl⟩ := h
        exact ⟨⟨draft, congrArg Prod.fst (if_pos hne)⟩, draft, congrArg Prod.fst (if_pos hne)⟩
      | succ p => exact absurd h.1 (by omega)
    · have hlength := mt length_eq_zero_iff.mp (mt List.isEmpty_iff.mpr hne)
      obtain ⟨q, hmin⟩ :=
        Nat.exists_eq_succ_of_ne_zero (show min (p + 1) ed.history.length ≠ 0 by omega)
      rw [hmin]
      refine hshow (by omega) ?_
      -- behind the oldest entry there is none
      cases p with
      | zero =>
        obtain ⟨draft, rfl⟩ := h
        have hindex : ed.history.length - 1 = ed.history.length - (q + 1) := by omega
        exact (congrArg Prod.fst (if_neg hne)).trans (showEntry_back ed _ _ _ (by omega) hindex)
      | succ p =>
        obtain ⟨hp, buffer, cursor, rfl⟩ := h
        exact (congrArg Prod.fst (if_neg hne)).trans
          (showEntry_back ed _ _ _ (by omega) (by omega))
  · obtain rfl := Option.some.inj hq
    match p, h with
    | 0, ⟨draft, h⟩ =>
      rw [h]
      exact ⟨⟨draft, rfl⟩, draft, rfl⟩
    | 1, ⟨hp, buffer, cursor, h⟩ =>
      have hown : (ed'.handle .down).1 = ed.back none 0 := by
        rw [h]
        refine congrArg Prod.fst (if_pos ?_)
        dsimp only [back]
        omega
      exact ⟨⟨none, hown⟩, none, hown⟩
    | p + 2, ⟨hp, buffer, cursor, h⟩ =>
      rw [h]
      refine hshow (by omega) ((congrArg Prod.fst (if_neg ?_)).trans
        (showEntry_back ed _ _ _ (by omega) (by omega)))
      dsimp only [back]
      omega

theorem handle_back {ed' : LineEditor} {p q : Nat} (h : ed.Back ed' p)
    {ev : LineEditorEvent} (hq : walk ed.history.length p ev = some q) :
    ed.Back (ed'.handle ev).1 q := by
  by_cases hmove : ev = .up ∨ ev = .down
  · exact (move_back h hmove hq).2
  · have hedits : edits ev = true ∧ p ≠ 0 ∧ p = q := by
      rw [walk] at hq
      · split at hq
        · rename_i hev
          exact ⟨hev.1, hev.2, Option.some.inj hq⟩
        · cases hq
      · exact fun e => hmove (.inl e)
      · exact fun e => hmove (.inr e)
    obtain ⟨hev, hne, rfl⟩ := hedits
    obtain ⟨p, rfl⟩ := Nat.exists_eq_succ_of_ne_zero hne
    obtain ⟨hp, buffer, cursor, rfl⟩ := h
    obtain ⟨buffer', cursor', he⟩ := handle_edits _ hev
    exact ⟨hp, buffer', cursor', he⟩

theorem run_Back {evs : List LineEditorEvent} {ed' : LineEditor} {p q : Nat} (h : ed.Back ed' p)
    (hq : evs.foldlM (walk ed.history.length) p = some q) :
    ∃ ed₁, run ed' (evs.map .handle) = some ed₁ ∧ ed.Back ed₁ q := by
  induction evs generalizing ed' p with
  | nil =>
    cases hq
    exact ⟨ed', rfl, h⟩
  | cons ev evs ih =>
    obtain ⟨p₁, hp, hq⟩ := Option.bind_eq_some_iff.mp hq
    exact ih (handle_back h hp) hq

/-- **Through the history and back**: behind a last move the editor shows the entry that the moves
    lead to as it stands in the history, or its own line as it was left, whatever was made of the
    entries that were shown in between. -/
theorem run_back (hi : ed.historyIndex = none) {evs : List LineEditorEvent} {move : LineEditorEvent}
    (hmove : move = .up ∨ move = .down) {p : Nat}
    (hwalk : (evs ++ [move]).foldlM (walk ed.history.length) 0 = some p) :
    ∃ draft, run ed ((evs ++ [move]).map .handle) = some (ed.back draft p) := by
  rw [foldlM_append] at hwalk
  obtain ⟨p₁, hp, hq⟩ := Option.bind_eq_some_iff.mp hwalk
  have hown : ed.Back ed 0 := ⟨ed.draft, by rw [back, ← hi]⟩
  obtain ⟨ed₁, hed, hback⟩ := run_Back hown hp
  obtain ⟨p₂, hmoves, hq⟩ := Option.bind_eq_some_iff.mp hq
  cases hq
  obtain ⟨⟨draft, hshown⟩, -⟩ := move_back hback hmove hmoves
  refine ⟨draft, ?_⟩
  rw [map_append, run, foldlM_append, ← run, hed]
  exact congrArg some hshown

/-- Two entries, and a line that is being written. -/
def halfWritten : LineEditor := ⟨some [67], 1, [[65], [66]], DEFAULT_HISTORY_LIMIT, none, none⟩

theorem run_back_two : ∃ draft,
    run halfWritten (([.up, .char [88], .up, .down, .backspace] ++ [.down] :
      List LineEditorEvent).map .handle) = some (halfWritten.back draft 0) :=
  run_back rfl (.inr rfl) (by decide)

end LineEditor

end Veesker.Command
