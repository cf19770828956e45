/-
  File:      Veesker/Audit/Days.lean
  Subject:   THE AUDIT FILES OVER DAYS AND STARTS (`write_audit_entry` of commands.rs, with the
             verifier's reading of every day's file).

  Every day has a file of its own, but the hash to be named next is kept in memory for all of
  them: an app's start sets it to `genesis`, an entry without a hash to the empty text, and midnight
  leaves it as it is.

  * **`orderly_intact`** -- in every run whose writes are `orderly`, the verifier finds every day's
    file intact and counts every chained entry that was written to it;
  * `midnight_breaks` -- two entries, one before and one after midnight: the second day's file is
    reported as broken.
-/
import Veesker.Audit.Writer
import Veesker.Run.Flight
import Mathlib.Logic.Function.Basic

namespace Veesker.Audit

open Rust Run List

/-! ## 1. The files and the hash in memory -/

/-- How a write fails: some characters of the line are on the disk, and bytes of the next one. -/
structure Fault where
  chars : Nat
  bytes : Nat
  deriving DecidableEq

/-- A call of `write_audit_entry`, with what it finds. -/
structure Write where
  date : Text
  now : Text
  input : HistorySaveInput
  source : Text
  env : Option Text
  /-- Whether the keychain gives the chain's key, and the cipher's. -/
  keyAvailable : Bool
  cipherAvailable : Bool
  nonce : Text
  fault : Option Fault
  deriving DecidableEq

inductive Event where
  | restart
  | write (w : Write)
  deriving DecidableEq

/-- The hash in memory and the files by their dates. `last` and `written` only record what was done:
    the date of the last line written since the start and whether it was chained, and the number of
    chained lines written to a file. -/
structure Logs where
  prevHash : Text
  files : Text → File
  last : Option (Text × Bool)
  written : Text → Nat

/-- Before the first start's first write. -/
def Logs.first : Logs := ⟨"genesis".toList, fun _ => [], none, fun _ => 0⟩

section Writing
variable (C : Crates) (key ck : Key)

def Write.body (w : Write) : Obj := entryBody C w.now w.input w.source w.env

/-- The entry with its chain's fields, and the hash to be named after it. -/
def Write.entry (w : Write) (prev : Text) : Obj × Text :=
  entryOf C (if w.keyAvailable then some key else none) prev (w.body C)

/-- The line without its line feed. -/
def Write.payload (w : Write) (prev : Text) : Text :=
  Audit.payload C (if w.cipherAvailable then some ck else none) w.nonce
    (C.toString (w.entry C key prev).1)

def Write.line (w : Write) (prev : Text) : Text := w.payload C key ck prev ++ ['\n']

/-- What a failing write leaves of a line. -/
def Fault.part (f : Fault) (line : Text) : File :=
  (line.take f.chars).map some ++ List.replicate f.bytes none

/-- `write_audit_entry`: the hash goes on only after a line that is written. -/
def writeAuditEntry (s : Logs) (w : Write) : Logs :=
  let line := w.line C key ck s.prevHash
  let append (part : File) := Function.update s.files w.date (s.files w.date ++ part)
  match w.fault with
  | some f => { s with files := append (f.part line) }
  | none => { s with
      prevHash := (w.entry C key s.prevHash).2
      files := append (line.map some)
      last := some (w.date, w.keyAvailable)
      written := if w.keyAvailable then
        Function.update s.written w.date (s.written w.date + 1) else s.written }

/-- A step; a write that fails has not written the whole line. -/
def Logs.step (s : Logs) : Event → Option Logs
  | .restart => some { s with prevHash := "genesis".toList, last := none }
  | .write w =>
    if w.fault.all fun f => decide (f.chars < (w.line C key ck s.prevHash).length) then
      some (writeAuditEntry C key ck s w)
    else none

/-! ## 2. Writes that keep the files intact -/

/-- At the beginning of a line. -/
def atLineStart (f : File) : Bool := f.isEmpty || f.getLast? == some (some '\n')

/-- The hash in memory is one that the verifier takes next in this day's file: nothing was written
    since the start, or the last line was a chained one of the same day, or one without a hash while
    the file has no chained entry. -/
def Logs.continues (s : Logs) (date : Text) : Bool :=
  match s.last with
  | none => true
  | some (d, true) => d == date
  | some (_, false) => s.written date == 0

/-- A line stands on a line of its own and goes on from the hash in memory; of a line that fails
    nothing is left, or a part on its own line that is no entry. -/
def Logs.orderly (s : Logs) : Event → Bool
  | .restart => true
  | .write w =>
    match w.fault with
    | none => atLineStart (s.files w.date) && (!w.keyAvailable || s.continues w.date)
    | some f => f.bytes == 0 && (f.chars == 0 || atLineStart (s.files w.date) &&
        (lineEntry C (some ck) ((w.line C key ck s.prevHash).take f.chars)).isNone)

/-- The verifier finds every day's file intact and counts all that was chained. -/
def Intact (s : Logs) : Prop :=
  ∀ date, (verifyChainFile C key (some ck) (s.files date)).ok = true ∧
    (verifyChainFile C key (some ck) (s.files date)).checked = s.written date

end Writing

variable {C : Crates} {key ck : Key}

/-! ## 3. A line on its own -/

section Line
variable {w : Write} {prev : Text}

theorem Write.plain_entry : (w.entry C key prev).1.Plain := plain_entryOf plain_entryBody _ _

theorem Write.payload_reads (hC : C.Documented) :
    ReadsAs C ck (w.payload C key ck prev) (C.toString (w.entry C key prev).1) :=
  Audit.payload_reads hC Write.plain_entry w.cipherAvailable w.nonce

/-- **What the verifier reads of a line**: with the key the entry that names the hash in memory and
    bears the next one, without it none. -/
theorem Write.lineEntry_payload (hC : C.Documented) :
    lineEntry C (some ck) (w.payload C key ck prev) =
      if w.keyAvailable then some ⟨prev, C.toString (w.body C), (w.entry C key prev).2⟩
      else none := by
  have hread : lineEntry C (some ck) (w.payload C key ck prev) = (w.entry C key prev).1.entry C :=
    lineEntry_reads hC Write.plain_entry (Write.payload_reads hC)
  have hhmac : (w.body C).get "hmac".toList = none := get_entryBody (by simp)
  have hprev : (w.body C).get "prevHash".toList = none := get_entryBody (by simp)
  rw [hread, Write.entry, entry_entryOf hhmac hprev]
  cases w.keyAvailable <;> rfl

/-- With the key the next hash is that of the entry. -/
theorem Write.signed (h : w.keyAvailable = true) :
    Entry.Signed C key ⟨prev, C.toString (w.body C), (w.entry C key prev).2⟩ := by
  rw [Entry.Signed, Write.entry, h]
  rfl

end Line

/-! ## 4. A file that grows -/

/-- The chained entries of a file. -/
def entries (C : Crates) (ck : Key) (f : File) : List Entry :=
  chainedEntries C (some ck) ((fromUtf8 f).getD [])

theorem entries_text (text : Text) :
    entries C ck (text.map some) = chainedEntries C (some ck) text := by
  rw [entries, fromUtf8_map_some]
  rfl

theorem lineStart_text {text : Text} (h : atLineStart (text.map some) = true) :
    text = [] ∨ text.getLast? = some '\n' := by
  rw [atLineStart, Bool.or_eq_true] at h
  rcases h with h | h
  · exact .inl (by simpa using h)
  · exact .inr (by simpa [List.getLast?_map] using h)

/-- **A line more**: its entry comes after those of the file. -/
theorem entries_line {text line plain : Text} (hs : atLineStart (text.map some) = true)
    (hl : ReadsAs C ck line plain) : entries C ck ((text ++ (line ++ ['\n'])).map some) =
      entries C ck (text.map some) ++ (lineEntry C (some ck) line).toList := by
  rw [entries_text, entries_text, chainedEntries, lines_append (lineStart_text hs) hl.one hl.last,
    filterMap_append]
  cases h : lineEntry C (some ck) line <;> simp [chainedEntries, h]

/-- A part of a line that is no entry. -/
theorem entries_part {text part : Text} (hs : atLineStart (text.map some) = true)
    (hl : '\n' ∉ part) (h : lineEntry C (some ck) part = none) :
    entries C ck ((text ++ part).map some) = entries C ck (text.map some) := by
  by_cases hne : part = []
  · rw [hne, append_nil]
  · rw [entries_text, entries_text, chainedEntries, lines_append_part (lineStart_text hs) hl hne,
      filterMap_append, filterMap_cons_none h]
    exact append_nil _

/-! ## 5. What every step keeps -/

variable (C key ck) in
/-- Every file is text whose entries are linked, signed and counted, and the hash in memory is the
    one that the last line since the start leaves. -/
structure Kept (s : Logs) : Prop where
  readable : ∀ date, ∃ text : Text, s.files date = text.map some
  linked : ∀ date, Linked [] (entries C ck (s.files date))
  signed : ∀ date, ∀ e ∈ entries C ck (s.files date), e.Signed C key
  counted : ∀ date, (entries C ck (s.files date)).length = s.written date
  prev : match s.last with
    | none => s.prevHash = "genesis".toList
    | some (d, true) => s.prevHash = lastTag Entry.hmac [] (entries C ck (s.files d))
    | some (_, false) => s.prevHash = []

theorem kept_first : Kept C key ck Logs.first where
  readable _ := ⟨[], rfl⟩
  linked _ := trivial
  signed _ _ h := nomatch h
  counted _ := rfl
  prev := rfl

variable {s : Logs}

/-- Where all is kept the verifier finds every file intact. -/
theorem Kept.intact (h : Kept C key ck s) : Intact C key ck s := by
  intro date
  obtain ⟨text, htext⟩ := h.readable date
  have hutf8 : fromUtf8 (s.files date) = some text := by rw [htext, fromUtf8_map_some]
  have hentries : entries C ck (s.files date) = chainedEntries C (some ck) text := by
    rw [htext, entries_text]
  have hlinked := h.linked date
  have hsigned := h.signed date
  have hcounted := h.counted date
  rw [hentries] at hlinked hsigned hcounted
  refine ⟨(verifyChainFile_ok_iff _).mpr ⟨text, hutf8, hlinked, hsigned⟩, ?_⟩
  rw [verifyChainFile_checked hutf8 hlinked hsigned, hcounted]

/-- **A day's file grows**: by text that adds these entries, linked and signed. -/
theorem Kept.grow {s s' : Logs} {date : Text} {more : File} {added : List Entry}
    (h : Kept C key ck s) (hfiles : s'.files = Function.update s.files date (s.files date ++ more))
    (hmore : ∃ text : Text, more = text.map some)
    (hentries : entries C ck (s.files date ++ more) = entries C ck (s.files date) ++ added)
    (hlinked : Linked [] (entries C ck (s.files date) ++ added))
    (hsigned : ∀ e ∈ added, e.Signed C key)
    (hwritten : s'.written = Function.update s.written date (s.written date + added.length))
    (hprev : match s'.last with
      | none => s'.prevHash = "genesis".toList
      | some (d, true) => s'.prevHash = lastTag Entry.hmac [] (entries C ck (s'.files d))
      | some (_, false) => s'.prevHash = []) : Kept C key ck s' := by
  have hsame : s'.files date = s.files date ++ more := by rw [hfiles, Function.update_self]
  have hother : ∀ d, d ≠ date → s'.files d = s.files d := fun d hd => by
    rw [hfiles, Function.update_of_ne hd]
  refine ⟨fun d => ?_, fun d => ?_, fun d => ?_, fun d => ?_, hprev⟩ <;> by_cases hd : d = date
  · subst hd
    obtain ⟨text, htext⟩ := h.readable d
    obtain ⟨text', rfl⟩ := hmore
    exact ⟨text ++ text', by rw [hsame, htext, map_append]⟩
  · rw [hother d hd]
    exact h.readable d
  · subst hd
    rw [hsame, hentries]
    exact hlinked
  · rw [hother d hd]
    exact h.linked d
  · subst hd
    rw [hsame, hentries]
    intro e he
    exact (mem_append.mp he).elim (h.signed d e) (hsigned e)
  · rw [hother d hd]
    exact h.signed d
  · subst hd
    rw [hsame, hentries, length_append, h.counted, hwritten, Function.update_self]
  · rw [hother d hd, hwritten, Function.update_of_ne hd]
    exact h.counted d

/-- The hash in memory is one that the verifier takes after the file's entries. -/
theorem Kept.next (h : Kept C key ck s) {date : Text} (hc : s.continues date = true) :
    s.prevHash = "genesis".toList ∨
      s.prevHash = lastTag Entry.hmac [] (entries C ck (s.files date)) := by
  have hprev := h.prev
  unfold Logs.continues at hc
  split at hc
  · rename_i hlast
    rw [hlast] at hprev
    exact .inl hprev
  · rename_i d hlast
    rw [hlast] at hprev
    obtain rfl : d = date := by simpa using hc
    exact .inr hprev
  · rename_i d hlast
    rw [hlast] at hprev
    have hempty : entries C ck (s.files date) = [] := by
      rw [← length_eq_zero_iff, h.counted]
      simpa using hc
    exact .inr (by rw [hempty]; exact hprev)

/-! ## 6. Every run -/

/-- **A line that is written** keeps all. -/
theorem Kept.writes (hC : C.Documented) (h : Kept C key ck s) {w : Write}
    (hfault : w.fault = none) (ho : s.orderly C key ck (.write w) = true) :
    Kept C key ck (writeAuditEntry C key ck s w) := by
  rw [Logs.orderly, hfault] at ho
  obtain ⟨hstart, hnext⟩ := Bool.and_eq_true_iff.mp ho
  obtain ⟨text, htext⟩ := h.readable w.date
  have hreads : ReadsAs C ck (w.payload C key ck s.prevHash) _ := Write.payload_reads hC
  have hline := entries_line (htext ▸ hstart) hreads
  rw [Write.lineEntry_payload hC, map_append, ← htext] at hline
  change entries C ck (s.files w.date ++ (w.line C key ck s.prevHash).map some) = _ at hline
  unfold writeAuditEntry
  rw [hfault]
  cases hkey : w.keyAvailable with
  | true =>
    rw [hkey, if_pos rfl] at hline
    rw [hkey] at hnext
    refine h.grow rfl ⟨_, rfl⟩ hline ?_ ?_ rfl ?_
    · exact accepted_concat.mpr ⟨h.linked _, h.next hnext⟩
    · intro e he
      obtain rfl := mem_singleton.mp he
      exact Write.signed hkey
    · dsimp only
      rw [Function.update_self, hline]
      simp [lastTag]
  | false =>
    rw [hkey, if_neg Bool.false_ne_true] at hline
    refine h.grow rfl ⟨_, rfl⟩ hline ?_ (fun _ he => by cases he) ?_ ?_
    · rw [Option.toList_none, append_nil]
      exact h.linked _
    · simp
    · simp [Write.entry, hkey, entryOf]

/-- **A write that fails** and leaves no entry keeps all. -/
theorem Kept.fails (hC : C.Documented) (h : Kept C key ck s) {w : Write} {f : Fault}
    (hfault : w.fault = some f) (hf : f.chars < (w.line C key ck s.prevHash).length)
    (ho : s.orderly C key ck (.write w) = true) : Kept C key ck (writeAuditEntry C key ck s w) := by
  rw [Logs.orderly, hfault] at ho
  obtain ⟨hbytes, hpart⟩ := Bool.and_eq_true_iff.mp ho
  obtain ⟨text, htext⟩ := h.readable w.date
  have hchars : f.part (w.line C key ck s.prevHash) =
      ((w.line C key ck s.prevHash).take f.chars).map some := by
    rw [Fault.part, beq_iff_eq.mp hbytes]
    exact append_nil _
  have hsame : entries C ck (s.files w.date ++ f.part (w.line C key ck s.prevHash)) =
      entries C ck (s.files w.date) := by
    rw [hchars, htext, ← map_append]
    rcases Bool.or_eq_true_iff.mp hpart with hnone | hpart
    · rw [beq_iff_eq.mp hnone, take_zero, append_nil]
    · obtain ⟨hstart, hentry⟩ := Bool.and_eq_true_iff.mp hpart
      refine entries_part (htext ▸ hstart) ?_ (Option.isNone_iff_eq_none.mp hentry)
      rw [Write.line, length_append, length_singleton] at hf
      rw [Write.line, take_append_of_le_length (by omega)]
      have hreads : ReadsAs C ck (w.payload C key ck s.prevHash) _ := Write.payload_reads hC
      exact fun hn => hreads.one (mem_of_mem_take hn)
  unfold writeAuditEntry
  rw [hfault]
  have hnone : ∀ e ∈ ([] : List Entry), e.Signed C key := nofun
  refine h.grow rfl ⟨_, hchars⟩ ?_ ?_ hnone ?_ ?_
  · rw [hsame, append_nil]
  · rw [append_nil]
    exact h.linked _
  · simp
  · -- the hash in memory stays, and so do the entries of every file
    have hfiles : ∀ d, entries C ck (Function.update s.files w.date
        (s.files w.date ++ f.part (w.line C key ck s.prevHash)) d) = entries C ck (s.files d) := by
      intro d
      by_cases hd : d = w.date
      · rw [hd, Function.update_self, hsame]
      · rw [Function.update_of_ne hd]
    simpa only [hfiles] using h.prev

theorem step_written {w : Write} (h : w.fault = none) :
    s.step C key ck (.write w) = some (writeAuditEntry C key ck s w) := by
  simp [Logs.step, h]

theorem kept_step (hC : C.Documented) {s s' : Logs} {e : Event} (h : Kept C key ck s)
    (hs : s.step C key ck e = some s') (ho : s.orderly C key ck e = true) : Kept C key ck s' := by
  cases e with
  | restart =>
    cases hs
    exact ⟨h.readable, h.linked, h.signed, h.counted, rfl⟩
  | write w =>
    rw [Logs.step] at hs
    split at hs
    · rename_i hvalid
      cases hs
      cases hfault : w.fault with
      | none => exact h.writes hC hfault ho
      | some f =>
        rw [hfault, Option.all_some] at hvalid
        exact h.fails hC hfault (of_decide_eq_true hvalid) ho
    · cases hs

/-- **Every run of orderly writes**: over any starts, days, failures and keys that come and go, the
    verifier finds every day's file intact and counts every chained entry written to it. -/
theorem orderly_intact (hC : C.Documented) {s : Logs}
    (h : Runs (fun s e s' => Logs.step C key ck s e = some s')
      (fun s e => Logs.orderly C key ck s e = true) Logs.first s) : Intact C key ck s :=
  (h.inv kept_first fun _ _ _ hk hs ho => kept_step hC hk hs ho).intact

/-! ## 7. Runs over midnight -/

/-- HMAC-SHA256 under a key of 32 ones, of the two messages below: the first names no entry. -/
def twoDigests (_ : Key) (message : Text) : List UInt8 :=
  if startsWith message "genesis".toList then
    [100, 59, 87, 41, 145, 227, 180, 215, 189, 137, 250, 50, 113, 242, 37, 176, 90, 69, 108, 4, 163,
      76, 234, 160, 207, 7, 90, 26, 30, 146, 7, 248]
  else
    [156, 221, 237, 12, 56, 146, 111, 19, 213, 73, 55, 219, 124, 24, 141, 151, 94, 241, 166, 63,
      110, 30, 127, 24, 68, 194, 96, 121, 43, 61, 120, 154]

def onesKey : Key := List.replicate KEY_BYTES 1

/-- A statement without an error, written before midnight. -/
def beforeMidnight : Write where
  date := "2026-05-11".toList
  now := "2026-05-11T23:59:59.000Z".toList
  input := ⟨"c1".toList, "SELECT 1 FROM DUAL".toList, true, some 1, 3, none, none, none, none, none,
    none⟩
  source := "user".toList
  env := none
  keyAvailable := true
  cipherAvailable := false
  nonce := []
  fault := none

def afterMidnight : Write :=
  { beforeMidnight with date := "2026-05-12".toList, now := "2026-05-12T00:00:01.000Z".toList }

/-- The same without the chain's key. -/
def withoutKey : Write := { afterMidnight with keyAvailable := false }

/-- The packages of these runs. -/
def sampleCrates : Crates := jsonCrates twoDigests

/-- Over midnight and a new start: a chained line, one without the key, and a line that fails. -/
def overMidnight : List Event :=
  [.write beforeMidnight, .write withoutKey, .restart,
    .write { beforeMidnight with fault := some ⟨40, 0⟩ }]

/-- The run of these events, as far as they are orderly. -/
def orderlyRun (events : List Event) : Option Logs :=
  events.foldlM (fun s e => if Logs.orderly sampleCrates onesKey onesKey s e = true then
    Logs.step sampleCrates onesKey onesKey s e else none) Logs.first

set_option maxRecDepth 20000 in
theorem orderly_intact_restart :
    ∃ s, orderlyRun overMidnight = some s ∧ Intact sampleCrates onesKey onesKey s := by
  have hsome : (orderlyRun overMidnight).isSome = true := by decide
  obtain ⟨s, hs⟩ := Option.isSome_iff_exists.mp hsome
  exact ⟨s, hs, orderly_intact (documented_jsonCrates _) (Runs.exec overMidnight .start hs)⟩

/-- The first line after midnight names the last hash of the day before, and the verifier expects
    none there. -/
theorem midnight_breaks : sampleCrates.Documented ∧ ∃ s,
    Runs (fun s e s' => Logs.step sampleCrates onesKey onesKey s e = some s') (fun _ _ => True)
      Logs.first s ∧ ¬ Intact sampleCrates onesKey onesKey s := by
  refine ⟨documented_jsonCrates _, _, .step _ _ (.write afterMidnight)
    (.step _ _ (.write beforeMidnight) .start (step_written rfl) trivial) (step_written rfl) trivial,
    fun h => ?_⟩
  have hbroken : (verifyChainFile sampleCrates onesKey (some onesKey)
      ((writeAuditEntry sampleCrates onesKey onesKey
        (writeAuditEntry sampleCrates onesKey onesKey Logs.first beforeMidnight)
        afterMidnight).files afterMidnight.date)).ok = false := by
    decide +kernel
  exact Bool.false_ne_true (hbroken.symm.trans (h afterMidnight.date).1)

end Veesker.Audit
