/-
  File:      Veesker/Command/Paste.lean
  Subject:   PASTING AND TYPING (handlePaste in src/lib/command/line-editor.ts): a text that comes at
             once and the same text key by key.

  * `paste_cons` -- a paste is its first character typed, then the paste of the rest;
  * **`pasted_typed`**: a paste is the text typed with every line feed as Enter, and once its
    newlines are normalized, as the decoder hands it over, with every newline as Enter.
  * `carriage_return_pasted` -- `handlePaste` itself takes a carriage return for a character.
-/
import Veesker.Command.LineEditor

namespace Veesker.Command

open List

/-! ## 1. Events in a row -/

/-- The line that an output submits. -/
def LineEditorOutput.line? : LineEditorOutput → Option (Option Units)
  | .submit line => some line
  | _ => none

/-- The lines of an answer; a call that throws gives none. -/
def submitted (answer : Option (List LineEditorOutput)) : List (Option Units) :=
  (answer.getD []).filterMap LineEditorOutput.line?

/-- An editor after events, and the lines that they submit. -/
def enter (ed : LineEditor) : List LineEditorEvent → LineEditor × List (Option Units)
  | [] => (ed, [])
  | ev :: evs =>
    let outcome := ed.handle ev
    let rest := enter outcome.1 evs
    (rest.1, submitted outcome.2 ++ rest.2)

theorem enter_cons (ed : LineEditor) (ev : LineEditorEvent) (evs : List LineEditorEvent) :
    enter ed (ev :: evs) = ((enter (ed.handle ev).1 evs).1,
      submitted (ed.handle ev).2 ++ (enter (ed.handle ev).1 evs).2) := rfl

theorem enter_single (ed : LineEditor) (ev : LineEditorEvent) :
    enter ed [ev] = ((ed.handle ev).1, submitted (ed.handle ev).2) := by
  rw [enter_cons, enter, append_nil]

/-! ## 2. Newlines -/

/-- `s.replace(/\r\n?/g, "\n")`; the flag is that a carriage return stands before. -/
def normalizeFrom : Bool → Units → Units
  | _, [] => []
  | behindReturn, u :: us =>
    if u = 13 then 10 :: normalizeFrom true us
    else if behindReturn = true ∧ u = 10 then normalizeFrom false us
    else u :: normalizeFrom false us

def normalizeNewlines (s : Units) : Units := normalizeFrom false s

/-- A character as a key, where a line feed is Enter. -/
def key (u : UInt16) : LineEditorEvent := if u = 10 then .submit else .char [u]

/-- A text as keys, where `\r\n`, `\r` and `\n` are Enter. -/
def keysFrom : Bool → Units → List LineEditorEvent
  | _, [] => []
  | behindReturn, u :: us =>
    if u = 13 then .submit :: keysFrom true us
    else if u = 10 then
      if behindReturn then keysFrom false us else .submit :: keysFrom false us
    else .char [u] :: keysFrom false us

def keys (text : Units) : List LineEditorEvent := keysFrom false text

theorem keysFrom_eq (behindReturn : Bool) (text : Units) :
    keysFrom behindReturn text = (normalizeFrom behindReturn text).map key := by
  induction text generalizing behindReturn with
  | nil => rfl
  | cons u us ih =>
    rw [keysFrom, normalizeFrom]
    by_cases hr : u = 13
    · rw [if_pos hr, if_pos hr, map_cons, ih]
      rfl
    · rw [if_neg hr, if_neg hr]
      by_cases hl : u = 10
      · rw [if_pos hl]
        cases behindReturn with
        | true => rw [if_pos rfl, if_pos ⟨rfl, hl⟩, ih]
        | false =>
          rw [if_neg Bool.false_ne_true, if_neg (fun h => Bool.false_ne_true h.1), map_cons, ih,
            key, if_pos hl]
      · rw [if_neg hl, if_neg (fun h => hl h.2), map_cons, ih, key, if_neg hl]

/-! ## 3. A paste, character by character -/

theorem segments_ne_nil (text : Units) : segments text ≠ [] := by
  cases text with
  | nil => exact cons_ne_nil _ _
  | cons u us =>
    rw [segments]
    split
    · exact cons_ne_nil _ _
    · split <;> exact cons_ne_nil _ _

/-- A single segment is the text. -/
theorem eq_of_segments {text s : Units} (h : segments text = [s]) : text = s := by
  induction text generalizing s with
  | nil => exact singleton_inj.mp h
  | cons u us ih =>
    rw [segments] at h
    split at h
    · exact absurd (tail_eq_of_cons_eq h) (segments_ne_nil us)
    · split at h
      · exact absurd ‹_› (segments_ne_nil us)
      · rename_i s' ss hs
        obtain ⟨rfl, rfl⟩ := List.cons.inj h
        rw [ih hs]

namespace LineEditor

theorem insertAt_nil (b : Units) (cursor : Nat) : insertAt b cursor [] = b := by
  rw [insertAt, append_nil, take_append_drop]

/-- A character and then the rest behind it. -/
theorem insertAt_cons (b : Units) (cursor : Nat) (u : UInt16) (text : Units) :
    insertAt b cursor (u :: text) = insertAt (insertAt b cursor [u]) (cursor + 1) text := by
  rcases Nat.le_total cursor b.length with hin | hout
  · have hexact : (b.take cursor ++ [u]).length = cursor + 1 := by
      rw [length_append, length_take, length_singleton, Nat.min_eq_left hin]
    simp only [insertAt]
    rw [← hexact, take_left, drop_left]
    simp
  · -- a cursor behind the text stays behind it
    simp only [insertAt, take_of_length_le hout, drop_eq_nil_of_le hout, append_nil]
    rw [take_of_length_le (by simp; omega), drop_eq_nil_of_le (by simp; omega),
      append_nil, append_assoc, singleton_append]

variable {ed : LineEditor} {b : Units}

theorem enter_char (hb : ed.buffer = some b) (ch : Units) :
    enter ed [.char ch] =
      ({ ed with buffer := some (insertAt b ed.cursor ch), cursor := ed.cursor + ch.length }, []) := by
  rw [enter_single, handle, handleChar, hb]
  rfl

theorem submitted_lines (lines : List Units) (out : LineEditorOutput) (h : out.line? = none) :
    submitted (some (lines.map (fun line => .submit (some line)) ++ [out])) = lines.map some := by
  rw [submitted, Option.getD_some, filterMap_append, filterMap_cons_none h,
    filterMap_nil, append_nil, filterMap_map]
  exact congrFun (filterMap_eq_map (f := some)) lines

/-- A paste of one line. -/
theorem enter_paste_line (hb : ed.buffer = some b) {text s : Units} (hs : segments text = [s]) :
    enter ed [.paste text] = ({ ed with
      buffer := some (insertAt b ed.cursor s), cursor := ed.cursor + s.length }, []) := by
  obtain rfl := eq_of_segments hs
  rw [enter_single, handle, handlePaste, hb]
  dsimp only
  rw [hs]
  rfl

/-- A paste of more lines: all but the last are submitted. -/
theorem enter_paste_lines (hb : ed.buffer = some b) {text first : Units} {lines : List Units}
    (hs : segments text = first :: lines) (hne : lines ≠ []) :
    enter ed [.paste text] = ({ ed with
        buffer := some (lines.getLast hne), cursor := (lines.getLast hne).length
        historyIndex := none, draft := none },
      (insertAt b ed.cursor first :: lines.dropLast).map some) := by
  obtain ⟨second, more, rfl⟩ := exists_cons_of_ne_nil hne
  rw [enter_single, handle, handlePaste, hb]
  dsimp only
  rw [hs]
  exact Prod.ext rfl (submitted_lines _ _ rfl)

/-- **A paste is its first character typed, then the paste of the rest.** -/
theorem paste_cons (hb : ed.buffer = some b) (u : UInt16) (us : Units) :
    enter ed [.paste (u :: us)] = enter ed [key u, .paste us] := by
  obtain ⟨s, ss, hs⟩ := exists_cons_of_ne_nil (segments_ne_nil us)
  rw [enter_cons ed (key u), key]
  by_cases hl : u = 10
  · rw [if_pos hl]
    have hcons : segments (u :: us) = [] :: s :: ss := by rw [segments, if_pos hl, hs]
    rw [enter_paste_lines hb hcons (cons_ne_nil _ _), insertAt_nil]
    have hreset : ed.reset.buffer = some [] := rfl
    show _ = ((enter ed.reset [.paste us]).1, [ed.buffer] ++ (enter ed.reset [.paste us]).2)
    rw [hb]
    cases ss with
    | nil =>
      rw [enter_paste_line hreset hs]
      simp [reset, insertAt]
    | cons s' ss =>
      rw [enter_paste_lines hreset hs (cons_ne_nil _ _)]
      simp [reset, insertAt]
  · rw [if_neg hl]
    have hcons : segments (u :: us) = (u :: s) :: ss := by rw [segments, if_neg hl, hs]
    have htyped := enter_char hb [u]
    rw [enter_single] at htyped
    have h1 : (ed.handle (.char [u])).1 =
        { ed with buffer := some (insertAt b ed.cursor [u]), cursor := ed.cursor + 1 } :=
      congrArg Prod.fst htyped
    have h2 : submitted (ed.handle (.char [u])).2 = [] := congrArg Prod.snd htyped
    rw [h1, h2]
    cases ss with
    | nil =>
      rw [enter_paste_line hb hcons, enter_paste_line rfl hs, insertAt_cons, length_cons]
      simp [Nat.add_assoc, Nat.add_comm 1]
    | cons s' ss =>
      rw [enter_paste_lines hb hcons (cons_ne_nil _ _),
        enter_paste_lines rfl hs (cons_ne_nil _ _), insertAt_cons]
      simp

theorem paste_nil (hb : ed.buffer = some b) : enter ed [.paste []] = (ed, []) := by
  rw [enter_paste_line hb (s := []) rfl, insertAt_nil, ← hb]
  rfl

/-- A key leaves a buffer that is a string. -/
theorem key_buffer (hb : ed.buffer = some b) (u : UInt16) :
    ∃ b', (ed.handle (key u)).1.buffer = some b' := by
  rw [key]
  split
  · exact ⟨[], rfl⟩
  · rw [handle, handleChar, hb]
    exact ⟨_, rfl⟩

/-- **A paste is the text typed, a line feed as Enter.** -/
theorem paste_eq_typed (hb : ed.buffer = some b) (text : Units) :
    enter ed [.paste text] = enter ed (text.map key) := by
  induction text generalizing ed b with
  | nil => exact paste_nil hb
  | cons u us ih =>
    obtain ⟨b', hb'⟩ := key_buffer hb u
    rw [paste_cons hb, map_cons, enter_cons, ih hb', ← enter_cons]

end LineEditor

open LineEditor

/-! ## 4. The result -/

/-- **Pasted or typed.** A paste submits the lines, and leaves the editor, of the text typed with
    every line feed as Enter; the text whose newlines are normalized, of the text typed with every
    newline as Enter. -/
theorem pasted_typed (ed : LineEditor) (h : ed.buffer.isSome = true) (text : Units) :
    enter ed [.paste text] = enter ed (text.map key) ∧
      enter ed [.paste (normalizeNewlines text)] = enter ed (keys text) := by
  obtain ⟨b, hb⟩ := Option.isSome_iff_exists.mp h
  refine ⟨paste_eq_typed hb text, ?_⟩
  rw [paste_eq_typed hb, normalizeNewlines, keys, keysFrom_eq]

/-- Between two characters, with newlines of each kind. -/
theorem pasted_typed_three : ∃ ed : LineEditor,
    run (construct {}) [.handle (.char [65]), .handle (.char [66]), .handle .left] = some ed ∧
      enter ed [.paste (normalizeNewlines [67, 13, 10, 68, 10, 69, 13])] =
        enter ed (keys [67, 13, 10, 68, 10, 69, 13]) :=
  ⟨{ construct {} with buffer := some [65, 66], cursor := 1 }, rfl,
    (pasted_typed { construct {} with buffer := some [65, 66], cursor := 1 } rfl _).2⟩

/-- **`handlePaste` keeps a carriage return in the buffer**, where Enter submits a line. -/
theorem carriage_return_pasted :
    run (construct {}) [] = some (construct {}) ∧
      enter (construct {}) [.paste [65, 13, 66]] ≠ enter (construct {}) (keys [65, 13, 66]) ∧
      (enter (construct {}) [.paste [65, 13, 66]]).1.buffer = some [65, 13, 66] ∧
      (enter (construct {}) (keys [65, 13, 66])).2 = [some [65]] := by
  refine ⟨rfl, fun h => ?_, by decide, by decide⟩
  have hlines : (enter (construct {}) [.paste [65, 13, 66]]).2 = [] := by decide
  rw [h] at hlines
  exact absurd hlines (by decide)

end Veesker.Command
