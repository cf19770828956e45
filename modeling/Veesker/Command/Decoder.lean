/-
  File:      Veesker/Command/Decoder.lean
  Subject:   THE INPUT DECODER (src/lib/command/command-input-decoder.ts): the events of a chunk of
             terminal input, and what they make of a line editor.

  * **`chunking_iff`**: a chunk does what its units do one at a time exactly where it is one unit or
    none, or has no control character but newlines; in an editor without a string for a buffer,
    where none of its units would change that editor.
  * **`keeps_iff`**: what stands around a bracketed paste is kept exactly where nothing is behind a
    paste that begins the chunk, and the chunk does not begin like another escape sequence.
  * `backspace_inserted` -- a chunk of each kind that breaks the rule.
-/
import Veesker.Command.Paste

namespace Veesker.Command

open List

variable {data : Units}

/-! ## 1. The decoder -/

inductive DecodedAction where
  | events (events : List LineEditorEvent)
  | exitOnEmpty
  deriving DecidableEq

def ascii (s : String) : Units := s.toList.map fun c => UInt16.ofNat c.toNat

def PRINTABLE_MIN : UInt16 := 0x20
def PRINTABLE_DEL : UInt16 := 0x7f

def PASTE_START : Units := 27 :: ascii "[200~"
def PASTE_END : Units := 27 :: ascii "[201~"

def decodeSingleByte (code : UInt16) (bufferIsEmpty : Bool) : DecodedAction :=
  if code = 0x0d then .events [.submit]
  else if code = 0x0a then .events [.submit]
  else if code = 0x7f ∨ code = 0x08 then .events [.backspace]
  else if code = 0x09 then .events []
  else if code = 0x01 then .events [.home]
  else if code = 0x05 then .events [.lineEnd]
  else if code = 0x03 then .events [.interrupt]
  else if code = 0x0c then .events [.clearScreen]
  else if code = 0x04 then
    if bufferIsEmpty then .exitOnEmpty else .events [.delete]
  else if code < PRINTABLE_MIN then .events []
  else if code = PRINTABLE_DEL then .events [.backspace]
  else .events [.char [code]]

def decodeEscape (data : Units) : DecodedAction :=
  if data = 27 :: ascii "[A" ∨ data = 27 :: ascii "OA" then .events [.up]
  else if data = 27 :: ascii "[B" ∨ data = 27 :: ascii "OB" then .events [.down]
  else if data = 27 :: ascii "[C" ∨ data = 27 :: ascii "OC" then .events [.right]
  else if data = 27 :: ascii "[D" ∨ data = 27 :: ascii "OD" then .events [.left]
  else if data = 27 :: ascii "[H" ∨ data = 27 :: ascii "OH" ∨ data = 27 :: ascii "[1~" ∨
      data = 27 :: ascii "[7~" then .events [.home]
  else if data = 27 :: ascii "[F" ∨ data = 27 :: ascii "OF" ∨ data = 27 :: ascii "[4~" ∨
      data = 27 :: ascii "[8~" then .events [.lineEnd]
  else if data = 27 :: ascii "[3~" then .events [.delete]
  else .events []

/-- What stands before the first `w`, if there is one. -/
def textBefore (w : Units) : Units → Option Units
  | [] => none
  | u :: us => if w.isPrefixOf (u :: us) then some [] else (textBefore w us).map (u :: ·)

def decodeXtermInput (data : Units) (bufferIsEmpty : Bool) : DecodedAction :=
  if data.length = 0 then .events []
  else if PASTE_START.isPrefixOf data && (textBefore PASTE_END data).isSome then
    let inner := ((textBefore PASTE_END data).getD []).drop PASTE_START.length
    .events [.paste (normalizeNewlines inner)]
  else if data.length = 1 then decodeSingleByte (data.headD 0) bufferIsEmpty
  else if (27 :: ascii "[").isPrefixOf data || (27 :: ascii "O").isPrefixOf data then
    decodeEscape data
  else if data.contains 10 || data.contains 13 then .events [.paste (normalizeNewlines data)]
  else .events [.char data]

/-! ## 2. Input to an editor -/

/-- An editor after what was decoded; to exit is not its affair. -/
def DecodedAction.apply (ed : LineEditor) : DecodedAction → LineEditor × List (Option Units)
  | .events evs => enter ed evs
  | .exitOnEmpty => (ed, [])

/-- A chunk. -/
def receive (ed : LineEditor) (data : Units) : LineEditor × List (Option Units) :=
  (decodeXtermInput data (ed.buffer == some [])).apply ed

/-- One unit at a time. -/
def receiveUnits (ed : LineEditor) : Units → LineEditor × List (Option Units)
  | [] => (ed, [])
  | u :: us =>
    let first := receive ed [u]
    let rest := receiveUnits first.1 us
    (rest.1, first.2 ++ rest.2)

def isNewline (u : UInt16) : Bool := u == 10 || u == 13

/-- A unit that is inserted when it comes alone. -/
def isPrintable (u : UInt16) : Bool := decide (PRINTABLE_MIN ≤ u) && u != PRINTABLE_DEL

/-- **The condition** on a chunk. -/
def Chunkable (ed : LineEditor) (data : Units) : Prop :=
  data.length ≤ 1 ∨
    match ed.buffer with
    | some _ => ∀ u ∈ data, isPrintable u = true ∨ isNewline u = true
    | none => ∀ u ∈ data, isNewline u = false ∧ u ≠ 3 ∧ (u = 1 → ed.cursor = 0)

theorem receive_single (ed : LineEditor) (u : UInt16) :
    receive ed [u] = (decodeSingleByte u (ed.buffer == some [])).apply ed := by
  have hstart : PASTE_START.isPrefixOf [u] = false := by
    simp [PASTE_START, ascii, List.isPrefixOf]
  rw [receive, decodeXtermInput, if_neg (by simp), hstart, Bool.false_and,
    if_neg Bool.false_ne_true, if_pos (by rfl)]
  rfl

theorem receiveUnits_cons (ed : LineEditor) (u : UInt16) (us : Units) :
    receiveUnits ed (u :: us) = ((receiveUnits (receive ed [u]).1 us).1,
      (receive ed [u]).2 ++ (receiveUnits (receive ed [u]).1 us).2) := rfl

theorem chunkable_short (ed : LineEditor) (h : data.length ≤ 1) :
    receive ed data = receiveUnits ed data := by
  match data, h with
  | [], _ => rfl
  | [u], _ => rw [receiveUnits_cons, receiveUnits, append_nil]

/-- A chunk of two units or more without an escape character. -/
theorem receive_long (ed : LineEditor) (hlong : 1 < data.length) (hesc : 27 ∉ data) :
    receive ed data =
      enter ed [if data.contains 10 || data.contains 13 then .paste (normalizeNewlines data)
        else .char data] := by
  have hmark : ∀ w : Units, (27 :: w).isPrefixOf data = false := by
    intro w
    rw [← Bool.not_eq_true, List.isPrefixOf_iff_prefix]
    exact fun hp => hesc (hp.subset mem_cons_self)
  rw [receive, decodeXtermInput, if_neg (by omega), PASTE_START, hmark, Bool.false_and,
    if_neg Bool.false_ne_true, if_neg (by omega), hmark, hmark, Bool.or_false,
    if_neg Bool.false_ne_true]
  split <;> rfl

/-! ## 3. Without control characters -/

open LineEditor

variable {ed : LineEditor} {b : Units}

/-- A unit as a key, where either newline is Enter. -/
def unitKey (u : UInt16) : LineEditorEvent := if isNewline u then .submit else .char [u]

/-- `\r` as `\n`. -/
def lineFeed (u : UInt16) : UInt16 := if u = 13 then 10 else u

theorem key_lineFeed (u : UInt16) : key (lineFeed u) = unitKey u := by
  rw [lineFeed, unitKey, isNewline]
  by_cases hr : u = 13
  · subst hr
    rfl
  · rw [if_neg hr, key]
    by_cases hl : u = 10
    · subst hl
      rfl
    · rw [if_neg hl]
      simp [hr, hl]

theorem normalizeFrom_lineFeed {behindReturn : Bool}
    (hbehind : behindReturn = true → data.head? ≠ some 10) (hcrlf : ¬ [13, 10] <:+: data) :
    normalizeFrom behindReturn data = data.map lineFeed := by
  induction data generalizing behindReturn with
  | nil => rfl
  | cons u us ih =>
    have htail : ¬ [13, 10] <:+: us := fun h => hcrlf (h.trans (suffix_cons u us).isInfix)
    rw [normalizeFrom, map_cons, lineFeed]
    by_cases hr : u = 13
    · have hhead : us.head? ≠ some 10 := by
        intro hl
        obtain ⟨r, rfl⟩ := List.head?_eq_some_iff.mp hl
        exact hcrlf ⟨[], r, by rw [hr]; rfl⟩
      rw [if_pos hr, if_pos hr, ih (fun _ => hhead) htail]
    · have hnl : ¬ (behindReturn = true ∧ u = 10) := by
        intro h
        exact hbehind h.1 (by rw [h.2]; rfl)
      rw [if_neg hr, if_neg hr, if_neg hnl, ih (fun h => absurd h Bool.false_ne_true) htail]

/-- **Without a CR in front of an LF each newline is normalized by itself.** -/
theorem normalizeNewlines_lineFeed (hcrlf : ¬ [13, 10] <:+: data) :
    normalizeNewlines data = data.map lineFeed :=
  normalizeFrom_lineFeed (fun h => absurd h Bool.false_ne_true) hcrlf

theorem normalizeNewlines_plain (hr : 13 ∉ data) :
    normalizeNewlines data = data := by
  have hcrlf : ¬ [13, 10] <:+: data := fun h => hr (h.subset mem_cons_self)
  rw [normalizeNewlines_lineFeed hcrlf]
  refine (map_congr_left fun u hu => ?_).trans (map_id data)
  rw [lineFeed, if_neg, id_eq]
  rintro rfl
  exact hr hu

theorem segments_plain (h : 10 ∉ data) : segments data = [data] := by
  induction data with
  | nil => rfl
  | cons u us ih =>
    obtain ⟨hu, hus⟩ := not_or.mp (mt mem_cons.mpr h)
    rw [segments, if_neg (Ne.symm hu), ih hus]

/-- **A long chunk is its units typed**, newlines as Enter, whatever the other units are. -/
theorem receive_typed (hb : ed.buffer = some b) (hlong : 1 < data.length)
    (hesc : 27 ∉ data) (hcrlf : ¬ [13, 10] <:+: data) :
    receive ed data = enter ed (data.map unitKey) := by
  have hkeys : (normalizeNewlines data).map key = data.map unitKey := by
    rw [normalizeNewlines_lineFeed hcrlf, map_map]
    exact map_congr_left fun u _ => key_lineFeed u
  rw [receive_long ed hlong hesc]
  split
  · rw [paste_eq_typed hb, hkeys]
  · rename_i hnone
    simp only [Bool.or_eq_true, contains_iff_mem, not_or] at hnone
    rw [← hkeys, normalizeNewlines_plain hnone.2, ← paste_eq_typed hb, enter_char hb,
      enter_paste_line hb (segments_plain hnone.1)]

/-- A unit that is no control character is its key. -/
theorem receive_key (ed : LineEditor) {u : UInt16} (h : isPrintable u = true ∨ isNewline u = true) :
    receive ed [u] = enter ed [unitKey u] := by
  rw [receive_single, unitKey]
  by_cases hn : isNewline u = true
  · rw [if_pos hn]
    rcases Bool.or_eq_true_iff.mp hn with hl | hr
    · rw [eq_of_beq hl]
      rfl
    · rw [eq_of_beq hr]
      rfl
  · have hp := h.resolve_right hn
    rw [if_neg hn]
    simp only [isPrintable, PRINTABLE_MIN, PRINTABLE_DEL, Bool.and_eq_true, decide_eq_true_eq,
      bne_iff_ne, UInt16.le_iff_toNat_le] at hp
    have hne : ∀ k : UInt16, k.toNat < 32 → u ≠ k := by
      intro k hk hu
      subst hu
      exact absurd hp.1 (by simpa using hk)
    have hlt : ¬ u < PRINTABLE_MIN := by
      rw [UInt16.lt_iff_toNat_lt]
      exact Nat.not_lt.mpr hp.1
    rw [decodeSingleByte, if_neg (hne _ (by decide)), if_neg (hne _ (by decide)),
      if_neg (fun h => h.elim hp.2 (hne _ (by decide))), if_neg (hne _ (by decide)),
      if_neg (hne _ (by decide)), if_neg (hne _ (by decide)), if_neg (hne _ (by decide)),
      if_neg (hne _ (by decide)), if_neg (hne _ (by decide)), if_neg hlt,
      if_neg (show ¬ u = PRINTABLE_DEL from hp.2)]
    rfl

theorem receiveUnits_typed (ed : LineEditor)
    (h : ∀ u ∈ data, isPrintable u = true ∨ isNewline u = true) :
    receiveUnits ed data = enter ed (data.map unitKey) := by
  induction data generalizing ed with
  | nil => rfl
  | cons u us ih =>
    have htail := fun u' hu' => h u' (mem_cons_of_mem u hu')
    rw [receiveUnits_cons, receive_key ed (h u mem_cons_self), enter_single, ih _ htail]
    rfl

/-! ## 4. With control characters -/

/-- The units in the buffer and in the lines. -/
def weight (r : LineEditor × List (Option Units)) : Nat :=
  (r.1.buffer.getD []).length + (r.2.map fun line => (line.getD []).length).sum

theorem weight_append (lines : List (Option Units)) (r : LineEditor × List (Option Units)) :
    weight (r.1, lines ++ r.2) =
      weight r + (lines.map fun line => (line.getD []).length).sum := by
  simp only [weight, map_append, sum_append]
  omega

theorem length_insertAt_single (b : Units) (cursor : Nat) (u : UInt16) :
    (insertAt b cursor [u]).length = b.length + 1 := by
  simp only [insertAt, length_append, length_take, length_drop, length_singleton]
  omega

/-- Typing makes neither more nor less of the text; only Enter is not in it. -/
theorem weight_typed (hb : ed.buffer = some b) (data : Units) :
    weight (enter ed (data.map unitKey)) = b.length + data.countP fun u => !isNewline u := by
  induction data generalizing ed b with
  | nil => simp [enter, weight, hb]
  | cons u us ih =>
    rw [map_cons, enter_cons, weight_append, countP_cons, unitKey]
    by_cases hn : isNewline u = true
    · rw [if_pos hn, hn]
      have hreset : (ed.handle .submit).1.buffer = some [] := rfl
      have hline : submitted (ed.handle .submit).2 = [some b] := by rw [← hb]; rfl
      rw [ih hreset, hline]
      simp
      omega
    · rw [if_neg hn]
      have htyped := enter_char hb [u]
      rw [enter_single] at htyped
      have hbuffer := congrArg (fun r => r.1.buffer) htyped
      have hline : submitted (ed.handle (.char [u])).2 = [] := congrArg Prod.snd htyped
      rw [ih hbuffer, hline, length_insertAt_single]
      simp [hn]
      omega

/-- The events that add nothing to the text. -/
def LineEditorEvent.isQuiet : LineEditorEvent → Bool
  | .submit | .backspace | .delete | .home | .lineEnd | .interrupt | .clearScreen => true
  | _ => false

/-- What a single unit is decoded to. -/
def Alone (u : UInt16) (a : DecodedAction) : Prop :=
  a = .events [] ∨ a = .exitOnEmpty ∨ (∃ ev, a = .events [ev] ∧ ev.isQuiet = true) ∨
    a = .events [.char [u]] ∧ isPrintable u = true

theorem alone_quiet (u : UInt16) {ev : LineEditorEvent} (h : ev.isQuiet = true) :
    Alone u (.events [ev]) := .inr (.inr (.inl ⟨ev, rfl, h⟩))

theorem alone_ite {u : UInt16} {c : Prop} [Decidable c] {a a' : DecodedAction} (ha : Alone u a)
    (ha' : ¬ c → Alone u a') : Alone u (if c then a else a') :=
  iteInduction (fun _ => ha) ha'

theorem decodeSingleByte_alone (u : UInt16) (bufferIsEmpty : Bool) :
    Alone u (decodeSingleByte u bufferIsEmpty) := by
  have hnone : Alone u (.events []) := .inl rfl
  have hexit : Alone u (if bufferIsEmpty then .exitOnEmpty else .events [.delete]) :=
    alone_ite (.inr (.inl rfl)) fun _ => alone_quiet u rfl
  rw [decodeSingleByte]
  refine alone_ite (alone_quiet u rfl) fun _ => ?_
  refine alone_ite (alone_quiet u rfl) fun _ => ?_
  refine alone_ite (alone_quiet u rfl) fun _ => ?_
  refine alone_ite hnone fun _ => ?_
  refine alone_ite (alone_quiet u rfl) fun _ => ?_
  refine alone_ite (alone_quiet u rfl) fun _ => ?_
  refine alone_ite (alone_quiet u rfl) fun _ => ?_
  refine alone_ite (alone_quiet u rfl) fun _ => ?_
  refine alone_ite hexit fun _ => ?_
  refine alone_ite hnone fun hlow => ?_
  refine alone_ite (alone_quiet u rfl) fun hdel => ?_
  refine .inr (.inr (.inr ⟨rfl, ?_⟩))
  simp only [isPrintable, Bool.and_eq_true, decide_eq_true_eq, bne_iff_ne]
  exact ⟨UInt16.not_lt.mp hlow, hdel⟩

theorem weight_quiet (hb : ed.buffer = some b) {ev : LineEditorEvent} (h : ev.isQuiet = true) :
    (∃ b', (ed.handle ev).1.buffer = some b') ∧ weight (enter ed [ev]) ≤ b.length := by
  have hsame : ∀ outcome : Outcome, outcome.1.buffer = some b → submitted outcome.2 = [] →
      (∃ b', outcome.1.buffer = some b') ∧ weight (outcome.1, submitted outcome.2) ≤ b.length := by
    intro outcome hbuffer hline
    refine ⟨⟨b, hbuffer⟩, ?_⟩
    simp [weight, hline, hbuffer]
  have hless : ∀ (outcome : Outcome) (b' : Units), outcome.1.buffer = some b' →
      b'.length ≤ b.length → submitted outcome.2 = [] →
      (∃ b', outcome.1.buffer = some b') ∧ weight (outcome.1, submitted outcome.2) ≤ b.length := by
    intro outcome b' hbuffer hle hline
    refine ⟨⟨b', hbuffer⟩, ?_⟩
    simpa [weight, hline, hbuffer] using hle
  rw [enter_single]
  cases ev with
  | submit =>
    refine ⟨⟨[], rfl⟩, ?_⟩
    have hline : submitted (ed.handle .submit).2 = [some b] := by rw [← hb]; rfl
    have hreset : (ed.handle .submit).1.buffer = some [] := rfl
    simp [weight, hline, hreset]
  | interrupt => exact hless _ [] rfl (Nat.zero_le _) rfl
  | clearScreen => exact hsame _ hb rfl
  | backspace =>
    rw [handle, handleBackspace]
    split
    · exact hsame _ hb rfl
    · rw [hb]
      refine hless _ _ rfl ?_ rfl
      simp only [length_append, length_take, length_drop]
      omega
  | delete =>
    rw [handle, handleDelete, hb]
    dsimp only
    split
    · exact hsame _ hb rfl
    · refine hless _ _ rfl ?_ rfl
      simp only [length_append, length_take, length_drop]
      omega
  | home =>
    rw [handle, handleHome]
    split <;> exact hsame _ hb rfl
  | lineEnd =>
    rw [handle, handleEnd, hb]
    dsimp only
    split
    · exact hsame _ hb rfl
    · exact hsame _ rfl rfl
  | char => cases h
  | paste => cases h
  | left => cases h
  | right => cases h
  | up => cases h
  | down => cases h

/-- **A single unit adds itself at most**, and only when it is printable. -/
theorem weight_single (hb : ed.buffer = some b) (u : UInt16) :
    (∃ b', (receive ed [u]).1.buffer = some b') ∧
      weight (receive ed [u]) ≤ b.length + if isPrintable u then 1 else 0 := by
  have hidle : weight (ed, []) = b.length := by simp [weight, hb]
  rw [receive_single]
  rcases decodeSingleByte_alone u (ed.buffer == some []) with h | h | ⟨ev, h, hq⟩ | ⟨h, hp⟩
  · rw [h]
    exact ⟨⟨b, hb⟩, Nat.le_trans (Nat.le_of_eq hidle) (Nat.le_add_right _ _)⟩
  · rw [h]
    exact ⟨⟨b, hb⟩, Nat.le_trans (Nat.le_of_eq hidle) (Nat.le_add_right _ _)⟩
  · obtain ⟨hbuffer, hweight⟩ := weight_quiet hb hq
    rw [h]
    exact ⟨hbuffer, Nat.le_trans hweight (Nat.le_add_right _ _)⟩
  · rw [h, if_pos hp, DecodedAction.apply, enter_char hb [u]]
    refine ⟨⟨_, rfl⟩, ?_⟩
    simp [weight, length_insertAt_single]

theorem weight_units (hb : ed.buffer = some b) (data : Units) :
    (∃ b', (receiveUnits ed data).1.buffer = some b') ∧
      weight (receiveUnits ed data) ≤ b.length + data.countP isPrintable := by
  induction data generalizing ed b with
  | nil => exact ⟨⟨b, hb⟩, by simp [receiveUnits, weight, hb]⟩
  | cons u us ih =>
    obtain ⟨⟨b', hb'⟩, hfirst⟩ := weight_single hb u
    obtain ⟨hbuffer, hrest⟩ := ih hb'
    rw [receiveUnits_cons]
    refine ⟨hbuffer, ?_⟩
    rw [weight_append, countP_cons]
    have hsum : weight (receive ed [u]) =
        b'.length + ((receive ed [u]).2.map fun line => (line.getD []).length).sum := by
      rw [weight, hb', Option.getD_some]
    omega

/-- The units that a chunk keeps and single units would not. -/
theorem countP_lt {u : UInt16} (hu : u ∈ data) (hp : isPrintable u = false)
    (hn : isNewline u = false) :
    data.countP isPrintable < data.countP fun u => !isNewline u := by
  have hmono : ∀ v : UInt16, isPrintable v = true → (!isNewline v) = true := by
    intro v hv
    cases hnv : isNewline v with
    | false => rfl
    | true =>
      rcases Bool.or_eq_true_iff.mp hnv with hl | hr
      · rw [eq_of_beq hl] at hv
        exact absurd hv (by decide)
      · rw [eq_of_beq hr] at hv
        exact absurd hv (by decide)
  obtain ⟨l, r, rfl⟩ := append_of_mem hu
  have hl := countP_mono_left (l := l) fun v _ => hmono v
  have hr := countP_mono_left (l := r) fun v _ => hmono v
  simp only [countP_append, countP_cons, hp, hn, Bool.not_false, if_true]
  simp only [Bool.false_eq_true, if_false]
  omega

/-! ## 5. Without a string for a buffer -/

theorem handle_char_none (hb : ed.buffer = none) (ch : Units) : enter ed [.char ch] = (ed, []) := by
  rw [enter_single, handle, handleChar, hb]
  rfl

theorem handle_paste_none (hb : ed.buffer = none) (text : Units) :
    enter ed [.paste text] = (ed, []) := by
  rw [enter_single, handle, handlePaste, hb]
  rfl

/-- A long chunk throws. -/
theorem receive_none (hb : ed.buffer = none) (hlong : 1 < data.length)
    (hesc : 27 ∉ data) : receive ed data = (ed, []) := by
  rw [receive_long ed hlong hesc]
  split
  · exact handle_paste_none hb _
  · exact handle_char_none hb _

theorem idle_ite {c : Prop} [Decidable c] {a a' : DecodedAction} (ha : c → a.apply ed = (ed, []))
    (ha' : a'.apply ed = (ed, [])) : (if c then a else a').apply ed = (ed, []) :=
  iteInduction (motive := fun a => DecodedAction.apply ed a = (ed, [])) ha fun _ => ha'

/-- A single unit: the two newlines and the interrupt make a string of the buffer, Home moves the
    cursor, the others throw or do nothing. -/
theorem receive_none_single (hb : ed.buffer = none) (u : UInt16) :
    receive ed [u] =
      if isNewline u then (ed.reset, [none])
      else if u = 3 then (ed.reset, [])
      else if u = 1 then ({ ed with cursor := 0 }, [])
      else (ed, []) := by
  have hempty : (ed.buffer == some []) = false := by rw [hb]; rfl
  have hback : enter ed [.backspace] = (ed, []) := by
    rw [enter_single, handle, handleBackspace, hb]
    split <;> rfl
  have hdelete : enter ed [.delete] = (ed, []) := by
    rw [enter_single, handle, handleDelete, hb]
    rfl
  have hend : enter ed [.lineEnd] = (ed, []) := by
    rw [enter_single, handle, handleEnd, hb]
    rfl
  have hhome : enter ed [.home] = ({ ed with cursor := 0 }, []) := by
    rw [enter_single, handle, handleHome]
    split
    · rename_i h0
      rw [← h0]
      rfl
    · rfl
  rw [receive_single, hempty, decodeSingleByte]
  by_cases h13 : u = 13
  · subst h13
    exact hb ▸ rfl
  by_cases h10 : u = 10
  · subst h10
    exact hb ▸ rfl
  have hn : isNewline u = false := by simp [isNewline, h13, h10]
  by_cases h3 : u = 3
  · subst h3
    rfl
  by_cases h1 : u = 1
  · subst h1
    exact hhome
  simp only [h13, h10, hn, h3, h1, Bool.false_eq_true, if_false]
  refine idle_ite (fun _ => ?_) ?_
  · exact hback
  refine idle_ite (fun _ => ?_) ?_
  · rfl
  refine idle_ite (fun _ => ?_) ?_
  · exact hend
  refine idle_ite (fun _ => ?_) ?_
  · rfl
  refine idle_ite (fun _ => ?_) ?_
  · exact hdelete
  refine idle_ite (fun _ => ?_) ?_
  · rfl
  refine idle_ite (fun _ => ?_) ?_
  · exact hback
  · exact handle_char_none hb [u]

/-- Where the buffer is still no string, the cursor stands where it stood, or at the start. -/
theorem receiveUnits_none_cursor (hb : ed.buffer = none) (data : Units)
    (h : (receiveUnits ed data).1.buffer = none) :
    (receiveUnits ed data).1.cursor = ed.cursor ∨ (receiveUnits ed data).1.cursor = 0 := by
  induction data generalizing ed with
  | nil => exact .inl rfl
  | cons u us ih =>
    rw [receiveUnits_cons] at h ⊢
    have hreset : ∀ lines, receive ed [u] = (ed.reset, lines) → False := by
      intro lines hr
      rw [hr] at h
      have hempty : ed.reset.buffer = some [] := rfl
      obtain ⟨⟨b', hb'⟩, -⟩ := weight_units hempty us
      rw [hb'] at h
      cases h
    have hsingle := receive_none_single hb u
    split_ifs at hsingle with hn h3 h1
    · exact (hreset _ hsingle).elim
    · exact (hreset _ hsingle).elim
    · rw [hsingle] at h ⊢
      have hhome : ({ ed with cursor := 0 } : LineEditor).buffer = none := hb
      rcases ih hhome h with hc | hc
      · exact .inr hc
      · exact .inr hc
    · rw [hsingle] at h ⊢
      exact ih hb h

/-- **Single units leave an editor without a string as it is** exactly where none of them would
    change it. -/
theorem receiveUnits_none (hb : ed.buffer = none) (data : Units) :
    receiveUnits ed data = (ed, []) ↔
      ∀ u ∈ data, isNewline u = false ∧ u ≠ 3 ∧ (u = 1 → ed.cursor = 0) := by
  constructor
  · intro h
    induction data generalizing ed with
    | nil => exact fun u hu => absurd hu not_mem_nil
    | cons u us ih =>
      rw [receiveUnits_cons] at h
      have hed : (receiveUnits (receive ed [u]).1 us).1 = ed := congrArg Prod.fst h
      have hlines := congrArg Prod.snd h
      have hsame : receive ed [u] = (ed, []) → isNewline u = false ∧ u ≠ 3 ∧ (u = 1 → ed.cursor = 0) →
          ∀ u' ∈ u :: us, isNewline u' = false ∧ u' ≠ 3 ∧ (u' = 1 → ed.cursor = 0) := by
        intro hr hu
        rw [hr] at h
        exact forall_mem_cons.mpr ⟨hu, ih hb h⟩
      have hsingle := receive_none_single hb u
      split_ifs at hsingle with hn h3 h1
      · rw [hsingle] at hlines
        cases hlines
      · have hempty : ed.reset.buffer = some [] := rfl
        obtain ⟨⟨b', hb'⟩, -⟩ := weight_units hempty us
        rw [hsingle] at hed
        rw [hed, hb] at hb'
        cases hb'
      · have hcursor : ed.cursor = 0 := by
          rw [hsingle] at hed
          have hhome : ({ ed with cursor := 0 } : LineEditor).buffer = none := hb
          have hc := receiveUnits_none_cursor hhome us (by rw [hed]; exact hb)
          rw [hed] at hc
          exact hc.elim id id
        refine hsame ?_ ⟨by simpa using hn, h3, fun _ => hcursor⟩
        rw [hsingle, ← hcursor]
      · exact hsame hsingle ⟨by simpa using hn, h3, fun hu => absurd hu h1⟩
  · intro h
    induction data with
    | nil => rfl
    | cons u us ih =>
      obtain ⟨hn, h3, h1⟩ := h u mem_cons_self
      have hsingle : receive ed [u] = (ed, []) := by
        rw [receive_none_single hb, hn, if_neg Bool.false_ne_true, if_neg h3]
        split
        · rename_i hu
          rw [← h1 hu]
        · rfl
      rw [receiveUnits_cons, hsingle, ih fun u' hu' => h u' (mem_cons_of_mem u hu')]
      rfl

/-- **One chunk or one unit at a time.** -/
theorem receive_iff (ed : LineEditor) (hesc : 27 ∉ data)
    (hcrlf : ¬ [13, 10] <:+: data) : receive ed data = receiveUnits ed data ↔ Chunkable ed data := by
  rcases Nat.lt_or_ge 1 data.length with hlong | hshort
  · rw [Chunkable, or_iff_right (by omega)]
    cases hb : ed.buffer with
    | none =>
      rw [receive_none hb hlong hesc, eq_comm]
      exact receiveUnits_none hb data
    | some b =>
      rw [receive_typed hb hlong hesc hcrlf]
      constructor
      · intro h u hu
        by_contra hneither
        obtain ⟨hp, hn⟩ := not_or.mp hneither
        -- the chunk keeps more than the units can
        have hlt := countP_lt hu (Bool.eq_false_iff.mpr hp) (Bool.eq_false_iff.mpr hn)
        have htyped := weight_typed hb data
        have hunits := (weight_units hb data).2
        rw [h] at htyped
        omega
      · intro h
        exact (receiveUnits_typed ed h).symm
  · exact iff_of_true (chunkable_short ed hshort) (.inl hshort)

/-! ## 6. Around a bracketed paste -/

/-- The text that an event brings. -/
def LineEditorEvent.text : LineEditorEvent → Units
  | .char ch => ch
  | .paste text => text
  | _ => []

def DecodedAction.text : DecodedAction → Units
  | .events evs => evs.flatMap LineEditorEvent.text
  | .exitOnEmpty => []

/-- A chunk with a bracketed paste. -/
def bracketed (front inner back : Units) : Units :=
  front ++ (PASTE_START ++ (inner ++ (PASTE_END ++ back)))

/-- What stands in front of the paste, in it and behind it is brought, in this order. -/
def Keeps (front inner back : Units) (a : DecodedAction) : Prop :=
  ∃ u v, a.text =
    normalizeNewlines front ++ (u ++ (normalizeNewlines inner ++ (v ++ normalizeNewlines back)))

theorem normalizeFrom_escape (behindReturn : Bool) (x y : Units) :
    normalizeFrom behindReturn (x ++ 27 :: y) =
      normalizeFrom behindReturn x ++ 27 :: normalizeFrom false y := by
  induction x generalizing behindReturn with
  | nil => cases behindReturn <;> rfl
  | cons u us ih =>
    rw [cons_append, normalizeFrom, normalizeFrom, ih, ih]
    split
    · rfl
    · split <;> rfl

theorem normalizeNewlines_bracketed (front inner back : Units) :
    normalizeNewlines (bracketed front inner back) = normalizeNewlines front ++
      (PASTE_START ++ (normalizeNewlines inner ++ (PASTE_END ++ normalizeNewlines back))) := by
  have hstart : ∀ s, normalizeFrom false (ascii "[200~" ++ s) = ascii "[200~" ++ normalizeFrom false s :=
    fun _ => rfl
  have hend : ∀ s, normalizeFrom false (ascii "[201~" ++ s) = ascii "[201~" ++ normalizeFrom false s :=
    fun _ => rfl
  simp only [normalizeNewlines, bracketed, PASTE_START, PASTE_END, cons_append]
  rw [normalizeFrom_escape, hstart, normalizeFrom_escape, hend]

theorem normalizeNewlines_eq_nil {s : Units} (h : normalizeNewlines s = []) : s = [] := by
  cases s with
  | nil => rfl
  | cons u us =>
    rw [normalizeNewlines, normalizeFrom] at h
    split at h
    · cases h
    · rw [if_neg fun hb => Bool.false_ne_true hb.1] at h
      cases h

/-- A marker at the front of a text that goes on with an escape character is within the text. -/
theorem prefix_of_escape {w x y : Units} (hw : 27 ∉ w) (hx : x ≠ [])
    (h : 27 :: w <+: x ++ 27 :: y) : 27 :: w <+: x := by
  rcases prefix_or_prefix_of_prefix h (prefix_append x (27 :: y)) with hin | ⟨t, ht⟩
  · exact hin
  · cases t with
    | nil =>
      rw [append_nil] at ht
      rw [ht]
    | cons c t =>
      rw [← ht, prefix_append_right_inj] at h
      obtain ⟨rfl, -⟩ := cons_prefix_cons.mp h
      obtain ⟨u, us, rfl⟩ := exists_cons_of_ne_nil hx
      obtain ⟨-, rfl⟩ := List.cons.inj ht
      exact absurd (mem_append_right us mem_cons_self) hw

/-- **The first marker is where it was put.** -/
theorem textBefore_append {w x : Units} (hw : 27 ∉ w) (h : ¬ 27 :: w <:+: x) (y : Units) :
    textBefore (27 :: w) (x ++ 27 :: (w ++ y)) = some x := by
  induction x with
  | nil =>
    have hhere : (27 :: w).isPrefixOf (27 :: (w ++ y)) = true :=
      List.isPrefixOf_iff_prefix.mpr ⟨y, rfl⟩
    rw [nil_append, textBefore, if_pos hhere]
  | cons u us ih =>
    have hnot : ¬ (27 :: w).isPrefixOf (u :: us ++ 27 :: (w ++ y)) = true := by
      rw [List.isPrefixOf_iff_prefix]
      exact fun hp => h (prefix_of_escape hw (cons_ne_nil u us) hp).isInfix
    rw [cons_append] at hnot ⊢
    rw [textBefore, if_neg hnot, ih fun hin => h (hin.trans (suffix_cons u us).isInfix)]
    rfl

theorem textBefore_start (s : Units) :
    textBefore PASTE_END (PASTE_START ++ s) = (textBefore PASTE_END s).map (PASTE_START ++ ·) := by
  simp only [PASTE_START, PASTE_END, ascii]
  simp [textBefore, List.isPrefixOf, Function.comp_def]

theorem decodeEscape_long (h : 4 < data.length) : decodeEscape data = .events [] := by
  have hne : ∀ w : Units, w.length ≤ 4 → ¬ data = w := by
    rintro w hw rfl
    omega
  simp (disch := decide) only [decodeEscape, hne, or_self, if_false]

theorem length_bracketed (front inner back : Units) :
    (bracketed front inner back).length =
      front.length + (6 + (inner.length + (6 + back.length))) := by
  simp only [bracketed, length_append]
  rfl

/-- A paste that begins the chunk is decoded to what it encloses. -/
theorem decode_paste {inner : Units} (hinner : ¬ PASTE_END <:+: inner) (back : Units)
    (bufferIsEmpty : Bool) :
    decodeXtermInput (bracketed [] inner back) bufferIsEmpty =
      .events [.paste (normalizeNewlines inner)] := by
  have hbefore : textBefore PASTE_END (bracketed [] inner back) = some (PASTE_START ++ inner) := by
    rw [bracketed, nil_append, textBefore_start]
    have := textBefore_append (w := ascii "[201~") (by decide) hinner back
    rw [PASTE_END, cons_append, this]
    rfl
  have hstart : PASTE_START.isPrefixOf (bracketed [] inner back) = true :=
    List.isPrefixOf_iff_prefix.mpr (prefix_append _ _)
  rw [decodeXtermInput, if_neg (by rw [length_bracketed]; omega), hstart, hbefore, if_pos (by rfl)]
  rfl

/-- Behind other text it is part of a text, or the chunk is taken for an escape sequence. -/
theorem decode_behind {front : Units} (hne : front ≠ []) (hfront : ¬ PASTE_START <:+: front)
    (inner back : Units) (bufferIsEmpty : Bool) :
    (decodeXtermInput (bracketed front inner back) bufferIsEmpty).text =
      if 27 :: ascii "[" <+: front ∨ 27 :: ascii "O" <+: front then []
      else normalizeNewlines (bracketed front inner back) := by
  have hlong : 4 < (bracketed front inner back).length := by
    rw [length_bracketed]
    omega
  have hpre : ∀ w : Units, 27 ∉ w →
      ((27 :: w).isPrefixOf (bracketed front inner back) = true ↔ 27 :: w <+: front) := by
    intro w hw
    rw [List.isPrefixOf_iff_prefix]
    exact ⟨prefix_of_escape hw hne, fun h => h.trans (prefix_append _ _)⟩
  have hstart : PASTE_START.isPrefixOf (bracketed front inner back) = false := by
    rw [← Bool.not_eq_true]
    exact fun h => hfront ((hpre _ (by decide)).mp h).isInfix
  rw [decodeXtermInput, if_neg (by omega), hstart, Bool.false_and, if_neg Bool.false_ne_true,
    if_neg (by omega)]
  by_cases hseq : 27 :: ascii "[" <+: front ∨ 27 :: ascii "O" <+: front
  · rw [if_pos hseq, if_pos, decodeEscape_long hlong]
    · rfl
    · rw [Bool.or_eq_true, hpre _ (by decide), hpre _ (by decide)]
      exact hseq
  · rw [if_neg hseq, if_neg]
    · split
      · exact append_nil _
      · rename_i hnone
        simp only [Bool.or_eq_true, contains_iff_mem, not_or] at hnone
        rw [normalizeNewlines_plain hnone.2]
        exact append_nil _
    · rw [Bool.or_eq_true, hpre _ (by decide), hpre _ (by decide)]
      exact hseq

/-- **What stands around a bracketed paste is kept** exactly where nothing is behind a paste that
    begins the chunk, and where what is in front does not begin like an escape sequence. -/
theorem keeps_iff {front inner : Units} (hfront : ¬ PASTE_START <:+: front)
    (hinner : ¬ PASTE_END <:+: inner) (back : Units) (bufferIsEmpty : Bool) :
    Keeps front inner back (decodeXtermInput (bracketed front inner back) bufferIsEmpty) ↔
      (front = [] → back = []) ∧ ¬ (27 :: ascii "[" <+: front ∨ 27 :: ascii "O" <+: front) := by
  rcases eq_or_ne front [] with rfl | hne
  · have hnot : ∀ w : Units, ¬ 27 :: w <+: ([] : Units) := fun w h => by
      have := h.length_le
      simp at this
    rw [decode_paste hinner]
    constructor
    · rintro ⟨u, v, h⟩
      refine ⟨fun _ => normalizeNewlines_eq_nil (length_eq_zero_iff.mp ?_),
        fun hw => hw.elim (hnot _) (hnot _)⟩
      -- the text has no more units than what is in the paste
      have hlength := congrArg List.length h
      simp only [DecodedAction.text, flatMap_cons, flatMap_nil, LineEditorEvent.text,
        length_append, length_nil] at hlength
      omega
    · intro h
      rw [h.1 rfl]
      refine ⟨[], [], ?_⟩
      simp [DecodedAction.text, LineEditorEvent.text, normalizeNewlines, normalizeFrom]
  · constructor
    · rintro ⟨u, v, h⟩
      rw [decode_behind hne hfront] at h
      refine ⟨fun h0 => absurd h0 hne, fun hseq => ?_⟩
      rw [if_pos hseq] at h
      exact hne (normalizeNewlines_eq_nil (append_eq_nil_iff.mp h.symm).1)
    · intro h
      refine ⟨PASTE_START, PASTE_END, ?_⟩
      rw [decode_behind hne hfront, if_neg h.2, normalizeNewlines_bracketed]

/-! ## 7. The result -/

/-- **Terminal input in chunks.** A chunk without an escape character and without a CR in front of
    an LF does what its units do one at a time, and a chunk with a bracketed paste keeps what stands
    around it, exactly under these conditions. -/
theorem chunking_iff (ed : LineEditor) (data front inner back : Units) (bufferIsEmpty : Bool) :
    (27 ∉ data → ¬ [13, 10] <:+: data →
      (receive ed data = receiveUnits ed data ↔ Chunkable ed data)) ∧
    (¬ PASTE_START <:+: front → ¬ PASTE_END <:+: inner →
      (Keeps front inner back (decodeXtermInput (bracketed front inner back) bufferIsEmpty) ↔
        (front = [] → back = []) ∧ ¬ (27 :: ascii "[" <+: front ∨ 27 :: ascii "O" <+: front))) :=
  ⟨receive_iff ed, fun hf hi => keeps_iff hf hi back bufferIsEmpty⟩

/-- `ab`, Enter, `c` in a new editor, and a paste behind an `x`. -/
theorem chunking_iff_once :
    receive (construct {}) [97, 98, 13, 99] = receiveUnits (construct {}) [97, 98, 13, 99] ∧
      Keeps [120] [97] [98] (decodeXtermInput (bracketed [120] [97] [98]) true) := by
  have hplain : ∀ u ∈ ([97, 98, 13, 99] : Units), isPrintable u = true ∨ isNewline u = true := by
    simp [isPrintable, isNewline, PRINTABLE_MIN, PRINTABLE_DEL]
  obtain ⟨hchunk, hpaste⟩ := chunking_iff (construct {}) [97, 98, 13, 99] [120] [97] [98] true
  constructor
  · exact (hchunk (by decide) (by decide)).mpr (.inr hplain)
  · exact (hpaste (by decide) (by decide)).mpr ⟨nofun, by decide⟩

/-- **A backspace in a chunk is inserted, and what follows a paste is dropped.** -/
theorem backspace_inserted :
    (receive (construct {}) [97, 127]).1.buffer = some [97, 127] ∧
      (receiveUnits (construct {}) [97, 127]).1.buffer = some [] ∧
      decodeXtermInput (bracketed [] [97] [98]) true = .events [.paste [97]] ∧
      ¬ Keeps [] [97] [98] (decodeXtermInput (bracketed [] [97] [98]) true) := by
  have hdecoded : decodeXtermInput (bracketed [] [97] [98]) true = .events [.paste [97]] := by decide
  refine ⟨by decide, by decide, hdecoded, fun h => ?_⟩
  obtain ⟨u, v, h⟩ := h
  have hlength := congrArg List.length h
  rw [hdecoded] at hlength
  simp only [DecodedAction.text, flatMap_cons, flatMap_nil, LineEditorEvent.text,
    length_append, length_nil, length_singleton, normalizeNewlines,
    normalizeFrom] at hlength
  simp at hlength
  omega

end Veesker.Command
