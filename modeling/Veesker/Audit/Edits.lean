/-
  File:      Veesker/Audit/Edits.lean
  Subject:   WHAT AN EDIT OF AN AUDIT FILE CAN DO WITHOUT THE KEY (`verify_chain_file` of
             commands.rs on a file that anybody may have written).

  The writer's runs are those of Audit/Days, with every hash it makes recorded (`Signer`). Of the
  HMAC it is assumed that it is ideal (`Ideal`): who has not the key has no entry with a right hash
  but those that were hashed, and no two messages have one hash.

  * **`edited_ok_iff`** -- an edited file is found intact exactly where its chained entries are
    stretches of hashed entries, each of them starting afresh and every further entry standing
    behind the one it was written behind. So stretches can be left out, repeated, put in another
    order and cut at their ends, and lines that are no chained entry can be put anywhere;
  * `stripped_ok` -- an entry whose statement was changed and whose hash was taken away.
-/
import Veesker.Audit.Days

namespace Veesker.Audit

open Rust Run List

/-! ## 1. The hashes that the writer makes -/

/-- What the key is applied to. -/
def Entry.message (e : Entry) : Text := e.prev ++ '|' :: e.body

/-- A hashed entry, and the chained line that was the last one written since the start, if it was
    chained. -/
structure Signing where
  after : Option Entry
  entry : Entry

structure Signer where
  logs : Logs
  last : Option Entry
  signed : List Signing

def Signer.first : Signer := ⟨.first, none, []⟩

section Signing
variable (C : Crates) (key ck : Key)

/-- The chained entry that a write makes. -/
def Write.hashed (w : Write) (prev : Text) : Entry :=
  ⟨prev, C.toString (w.body C), (w.entry C key prev).2⟩

/-- A step of the writer, with the hash it makes. -/
def Signer.step (g : Signer) (e : Event) : Option Signer :=
  (g.logs.step C key ck e).map fun logs =>
    match e with
    | .restart => { g with logs, last := none }
    | .write w =>
      let hashed := if w.keyAvailable then some (w.hashed C key g.logs.prevHash) else none
      { logs
        last := if w.fault.isNone then hashed else g.last
        signed := g.signed ++ (hashed.map (Signing.mk g.last)).toList }

/-- HMAC-SHA256 as an ideal one, over the entries of a file: those with a right hash were hashed by
    the writer, and different messages have different hashes. A digest has 32 bytes. -/
structure Ideal (signed : List Signing) (edited : List Entry) : Prop where
  unforged : ∀ e ∈ edited, e.Signed C key → ∃ g ∈ signed, g.entry.message = e.message
  distinct : ∀ g ∈ signed, ∀ g' ∈ signed, g.entry.hmac = g'.entry.hmac →
    g.entry.message = g'.entry.message
  digest : ∀ m, (C.hmacSha256 key m).length = 32

end Signing

/-- A stretch of hashed entries: it starts so, and every further entry was written behind the one
    before it. -/
structure Stretch (signed : List Signing) (starts : Text → Prop) (p : List Entry) : Prop where
  start : ∃ e r, p = e :: r ∧ starts e.prev
  hashed : ∀ e ∈ p, ∃ g ∈ signed, g.entry = e
  behind : p.IsChain fun a b => ⟨some a, b⟩ ∈ signed

/-- Stretches that name `genesis` first; the first of all may also name nothing. -/
def Stretches (signed : List Signing) : List (List Entry) → Prop
  | [] => True
  | p :: ps => Stretch signed (fun t => t = "genesis".toList ∨ t = []) p ∧
      ∀ q ∈ ps, Stretch signed (· = "genesis".toList) q

variable {C : Crates} {key ck : Key}

/-! ## 2. The texts of hashes -/

theorem mem_hexByte {b : UInt8} {c : Char} (h : c ∈ hexByte b) : c ≠ '|' ∧ c ≠ 'g' := by
  have hdigit : ∀ n < 16, hexDigit n ≠ '|' ∧ hexDigit n ≠ 'g' := by decide
  have hb := b.toNat_lt
  simp only [hexByte, mem_cons, not_mem_nil, or_false] at h
  rcases h with rfl | rfl
  · exact hdigit _ (by omega)
  · exact hdigit _ (by omega)

theorem mem_computeHmac {prev body : Text} {c : Char} (h : c ∈ computeHmac C key prev body) :
    c ≠ '|' ∧ c ≠ 'g' := by
  obtain ⟨b, -, hc⟩ := mem_flatMap.mp h
  exact mem_hexByte hc

/-- The message of an entry gives what it names and its body. -/
theorem message_inj {a b : Entry} (ha : '|' ∉ a.prev) (hb : '|' ∉ b.prev)
    (h : a.message = b.message) : a.prev = b.prev ∧ a.body = b.body := by
  have htake : ∀ {e : Entry}, '|' ∉ e.prev → e.message.takeWhile (· != '|') = e.prev := by
    intro e he
    rw [Entry.message, takeWhile_append_of_pos, takeWhile_cons_of_neg (by simp),
      append_nil]
    intro c hc
    have hne : c ≠ '|' := fun heq => he (heq ▸ hc)
    simpa using hne
  have hprev : a.prev = b.prev := by rw [← htake ha, h, htake hb]
  refine ⟨hprev, ?_⟩
  rw [Entry.message, Entry.message, hprev] at h
  exact (List.cons.inj (append_cancel_left h)).2

/-- Two entries with right hashes and one message are the same. -/
theorem entry_ext {a b : Entry} (ha : '|' ∉ a.prev) (hb : '|' ∉ b.prev) (hsa : a.Signed C key)
    (hsb : b.Signed C key) (h : a.message = b.message) : a = b := by
  obtain ⟨hprev, hbody⟩ := message_inj ha hb h
  obtain ⟨prev, body, hmac⟩ := a
  obtain ⟨prev', body', hmac'⟩ := b
  obtain rfl : prev = prev' := hprev
  obtain rfl : body = body' := hbody
  obtain rfl : hmac = hmac' := hsa.symm.trans hsb
  rfl

/-! ## 3. What the writer has hashed -/

/-- The name of the line that was written last: its hash, where it was chained. -/
def Names (signed : List Signing) (prev : Text) : Option Entry → Prop
  | none => prev = "genesis".toList ∨ prev = []
  | some a => prev = a.hmac ∧ ∃ g ∈ signed, g.entry = a

variable (C key) in
/-- A hashed entry has the right hash and names the line it was written behind. -/
structure Signing.Proper (signed : List Signing) (g : Signing) : Prop where
  right : g.entry.Signed C key
  names : Names signed g.entry.prev g.after

variable (C key) in
structure Signer.Proper (g : Signer) : Prop where
  signed : ∀ x ∈ g.signed, x.Proper C key g.signed
  memory : Names g.signed g.logs.prevHash g.last

theorem Names.mono {signed : List Signing} {prev : Text} {last : Option Entry}
    (h : Names signed prev last) (more : List Signing) : Names (signed ++ more) prev last := by
  cases last with
  | none => exact h
  | some a =>
    obtain ⟨hprev, g, hg, ha⟩ := h
    exact ⟨hprev, g, mem_append_left _ hg, ha⟩

theorem Signer.proper_first : Signer.first.Proper C key := ⟨nofun, .inl rfl⟩

theorem Signer.proper_step {g g' : Signer} {e : Event} (h : g.Proper C key)
    (hs : g.step C key ck e = some g') : g'.Proper C key := by
  obtain ⟨logs, hlogs, rfl⟩ := Option.map_eq_some_iff.mp hs
  cases e with
  | restart =>
    cases hlogs
    exact ⟨h.signed, .inl rfl⟩
  | write w =>
    rw [Logs.step] at hlogs
    split at hlogs
    · obtain rfl := Option.some.inj hlogs
      have hold : ∀ more, ∀ x ∈ g.signed, x.Proper C key (g.signed ++ more) := fun more x hx =>
        ⟨(h.signed x hx).right, (h.signed x hx).names.mono more⟩
      constructor
      · intro x hx
        rcases mem_append.mp hx with hx | hx
        · exact hold _ x hx
        · cases hkey : w.keyAvailable with
          | false => simp [hkey] at hx
          | true =>
            obtain rfl : x = ⟨g.last, w.hashed C key g.logs.prevHash⟩ := by simpa [hkey] using hx
            exact ⟨Write.signed hkey, h.memory.mono _⟩
      · cases hfault : w.fault with
        | some f =>
          simp only [writeAuditEntry, hfault]
          exact h.memory.mono _
        | none =>
          cases hkey : w.keyAvailable with
          | false =>
            have hempty : (w.entry C key g.logs.prevHash).2 = [] := by
              simp [Write.entry, hkey, entryOf]
            simp only [writeAuditEntry, hfault, hkey, Option.isNone_none, if_pos,
              Bool.false_eq_true, if_false]
            exact Or.inr hempty
          | true =>
            simp only [writeAuditEntry, hfault, hkey, Option.isNone_none, if_pos]
            exact ⟨rfl, ⟨g.last, w.hashed C key g.logs.prevHash⟩, by simp, rfl⟩
    · cases hlogs

/-- The names of hashed entries have no bar. -/
theorem Signing.Proper.bar {signed : List Signing} (hall : ∀ x ∈ signed, x.Proper C key signed)
    {g : Signing} (h : g.Proper C key signed) : '|' ∉ g.entry.prev := by
  have hnames := h.names
  intro hbar
  cases hafter : g.after with
  | none =>
    rw [hafter] at hnames
    rcases hnames with hprev | hprev <;> rw [hprev] at hbar <;> revert hbar <;> decide
  | some a =>
    rw [hafter] at hnames
    obtain ⟨hprev, x, hx, rfl⟩ := hnames
    rw [hprev, ← (hall x hx).right] at hbar
    exact (mem_computeHmac hbar).1 rfl

/-! ## 4. What is found intact -/

/-- Of entries that the verifier accepts no name has a bar. -/
theorem linked_bar {l : List Entry} {expected : Text} (hl : Linked expected l)
    (hs : ∀ e ∈ l, e.Signed C key) (he : '|' ∉ expected) : ∀ e ∈ l, '|' ∉ e.prev := by
  induction l generalizing expected with
  | nil => exact nofun
  | cons a l ih =>
    obtain ⟨hprev, hrest⟩ := hl
    have ha := hs a mem_cons_self
    have hbar : '|' ∉ a.hmac := fun h => (mem_computeHmac (ha.symm ▸ h)).1 rfl
    have htail := ih hrest (fun e he => hs e (mem_cons_of_mem _ he)) hbar
    refine forall_mem_cons.mpr ⟨?_, htail⟩
    rcases hprev with hprev | hprev
    · rw [hprev]
      decide
    · rwa [hprev]

section Edited
variable {g : Signer} {l : List Entry}

/-- What is accepted was hashed by the writer. -/
theorem accepted_hashed (hg : g.Proper C key) (hideal : Ideal C key g.signed l) (hl : Linked [] l)
    (hs : ∀ e ∈ l, e.Signed C key) : ∀ e ∈ l, ∃ x ∈ g.signed, x.entry = e := by
  intro e he
  obtain ⟨x, hx, hmessage⟩ := hideal.unforged e he (hs e he)
  have hproper := hg.signed x hx
  exact ⟨x, hx, entry_ext (hproper.bar hg.signed) (linked_bar hl hs (by simp) e he) hproper.right
    (hs e he) hmessage⟩

/-- An entry that names a hashed one was written behind it. -/
theorem behind_of_follows (hg : g.Proper C key) (hideal : Ideal C key g.signed l) {a b : Entry}
    (ha : ∃ x ∈ g.signed, x.entry = a) (hb : ∃ x ∈ g.signed, x.entry = b)
    (h : b.prev = a.hmac) : ⟨some a, b⟩ ∈ g.signed := by
  obtain ⟨x, hx, rfl⟩ := ha
  obtain ⟨y, hy, rfl⟩ := hb
  have hnames := (hg.signed y hy).names
  have hright := (hg.signed x hx).right
  cases hafter : y.after with
  | none =>
    -- a hash is neither `genesis` nor nothing
    rw [hafter, h, ← hright] at hnames
    rcases hnames with hnames | hnames
    · have hg : 'g' ∈ computeHmac C key x.entry.prev x.entry.body := by
        rw [hnames]
        decide
      exact absurd rfl (mem_computeHmac hg).2
    · have hlength : (C.hmacSha256 key (x.entry.prev ++ '|' :: x.entry.body)).length = 32 :=
        hideal.digest _
      rw [computeHmac, hex, flatMap_eq_nil_iff] at hnames
      cases hdigest : C.hmacSha256 key (x.entry.prev ++ '|' :: x.entry.body) with
      | nil => rw [hdigest] at hlength; cases hlength
      | cons b bs => exact nomatch hnames b (by rw [hdigest]; exact mem_cons_self)
  | some c =>
    rw [hafter] at hnames
    obtain ⟨hprev, z, hz, rfl⟩ := hnames
    have hmessage := hideal.distinct x hx z hz (h.symm.trans hprev)
    have hsame : x.entry = z.entry := entry_ext ((hg.signed x hx).bar hg.signed)
      ((hg.signed z hz).bar hg.signed) hright (hg.signed z hz).right hmessage
    rw [hsame, ← hafter]
    exact hy

end Edited

/-- **What an edited file must be to be found intact**, after any run of the writer. -/
theorem edited_ok_iff {g : Signer} {cipher : Option Key} {edited : File}
    (hrun : Runs (fun g e g' => Signer.step C key ck g e = some g') (fun _ _ => True) .first g)
    (hideal : Ideal C key g.signed (chainedEntries C cipher ((fromUtf8 edited).getD []))) :
    (verifyChainFile C key cipher edited).ok = true ↔ ∃ text, fromUtf8 edited = some text ∧
      ∃ ps : List (List Entry), chainedEntries C cipher text = ps.flatten ∧
        Stretches g.signed ps := by
  have hg : g.Proper C key :=
    hrun.inv Signer.proper_first fun _ _ _ hproper hs _ => Signer.proper_step hproper hs
  rw [verifyChainFile_ok_iff]
  refine exists_congr fun text => and_congr_right fun htext => ?_
  rw [htext, Option.getD_some] at hideal
  constructor
  · intro ⟨hl, hs⟩
    obtain ⟨ps, hps, hpieces⟩ := accepted_iff.mp hl
    have hhashed := accepted_hashed hg hideal hl hs
    have hstretch : ∀ {ok : Text → Prop} {p : List Entry}, p ∈ ps →
        Piece Entry.prev Entry.hmac ok p → Stretch g.signed ok p := by
      intro ok p hp ⟨e, r, hpr, he, hchain⟩
      have hmem : ∀ e ∈ p, ∃ x ∈ g.signed, x.entry = e := fun e he =>
        hhashed e (by rw [hps]; exact mem_flatten_of_mem hp he)
      exact ⟨⟨e, r, hpr, he⟩, hmem, hchain.imp_of_mem_imp fun a b ha hb hab =>
        behind_of_follows hg hideal (hmem a ha) (hmem b hb) hab⟩
    refine ⟨ps, hps, ?_⟩
    cases ps with
    | nil => trivial
    | cons p ps =>
      exact ⟨hstretch mem_cons_self hpieces.1, fun q hq =>
        hstretch (mem_cons_of_mem _ hq) (hpieces.2 q hq)⟩
  · intro ⟨ps, hps, hstretches⟩
    have hpiece : ∀ {ok : Text → Prop} {p : List Entry}, Stretch g.signed ok p →
        Piece Entry.prev Entry.hmac ok p := by
      intro ok p hp
      obtain ⟨e, r, hpr, he⟩ := hp.start
      refine ⟨e, r, hpr, he, hp.behind.imp fun a b hab => ?_⟩
      have hnames : Names g.signed b.prev (some a) := (hg.signed _ hab).names
      exact hnames.1
    have hhashed : ∀ p ∈ ps, ∀ e ∈ p, ∃ x ∈ g.signed, x.entry = e := by
      cases ps with
      | nil => exact nofun
      | cons p ps => exact forall_mem_cons.mpr ⟨hstretches.1.hashed, fun q hq =>
          (hstretches.2 q hq).hashed⟩
    refine ⟨accepted_iff.mpr ⟨ps, hps, ?_⟩, fun e he => ?_⟩
    · cases ps with
      | nil => trivial
      | cons p ps => exact ⟨hpiece hstretches.1, fun q hq => hpiece (hstretches.2 q hq)⟩
    · rw [hps] at he
      obtain ⟨p, hp, he⟩ := mem_flatten.mp he
      obtain ⟨x, hx, rfl⟩ := hhashed p hp e he
      exact (hg.signed x hx).right

/-! ## 5. One entry -/

/-- After one write. -/
def oneEntry : Signer :=
  ⟨writeAuditEntry sampleCrates onesKey onesKey .first beforeMidnight,
    some (beforeMidnight.hashed sampleCrates onesKey "genesis".toList),
    [⟨none, beforeMidnight.hashed sampleCrates onesKey "genesis".toList⟩]⟩

theorem oneEntry_runs : Runs (fun g e g' => Signer.step sampleCrates onesKey onesKey g e = some g')
    (fun _ _ => True) .first oneEntry := by
  refine .step _ _ (.write beforeMidnight) .start ?_ trivial
  rw [Signer.step, step_written rfl]
  rfl

/-- Its file. -/
def oneLine : File := oneEntry.logs.files beforeMidnight.date

theorem sample_digest (m : Text) : (sampleCrates.hmacSha256 onesKey m).length = 32 := by
  change (twoDigests onesKey m).length = 32
  unfold twoDigests
  split <;> rfl

theorem ideal_oneEntry {l : List Entry}
    (h : ∀ e ∈ l, e = beforeMidnight.hashed sampleCrates onesKey "genesis".toList) :
    Ideal sampleCrates onesKey oneEntry.signed l where
  unforged e he _ := ⟨_, mem_singleton.mpr rfl, congrArg Entry.message (h e he).symm⟩
  distinct x hx y hy _ := by
    rw [mem_singleton.mp hx, mem_singleton.mp hy]
  digest := sample_digest

theorem edited_ok_iff_oneLine :
    (verifyChainFile sampleCrates onesKey (some onesKey) oneLine).ok = true ↔
      ∃ text, fromUtf8 oneLine = some text ∧ ∃ ps : List (List Entry),
        chainedEntries sampleCrates (some onesKey) text = ps.flatten ∧
          Stretches oneEntry.signed ps :=
  edited_ok_iff oneEntry_runs (ideal_oneEntry (by decide +kernel))

/-- The entry with another statement and without its hash. -/
def stripped : File :=
  ((sampleCrates.toString ((beforeMidnight.body sampleCrates).insert "sql".toList
    (.string "DROP TABLE t".toList))) ++ ['\n']).map some

/-- **The edited entry is taken for one that never had a hash.** -/
theorem stripped_ok : ∃ g,
    Runs (fun g e g' => Signer.step sampleCrates onesKey onesKey g e = some g') (fun _ _ => True)
      .first g ∧
    (verifyChainFile sampleCrates onesKey (some onesKey)
      (g.logs.files beforeMidnight.date)).checked = 1 ∧
    Ideal sampleCrates onesKey g.signed (entries sampleCrates onesKey stripped) ∧
    ¬ stripped <+: g.logs.files beforeMidnight.date ∧
    (verifyChainFile sampleCrates onesKey (some onesKey) stripped).ok = true :=
  ⟨oneEntry, oneEntry_runs, by decide +kernel, ideal_oneEntry (by decide +kernel),
    by decide +kernel, by decide +kernel⟩

end Veesker.Audit
