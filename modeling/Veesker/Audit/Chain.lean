/-
  File:      Veesker/Audit/Chain.lean
  Subject:   THE AUDIT CHAIN AND ITS VERIFIER (src-tauri/src/audit/chain.rs, crypto.rs and
             `verify_chain_file` of commands.rs).
-/
import Veesker.Audit.Crates
import Veesker.Run.Links

namespace Veesker.Audit

open Rust Run

/-! ## 1. Hashes and encrypted lines -/

def hexDigit (n : Nat) : Char := "0123456789abcdef".toList.getD n '0'

/-- `{:02x}`. -/
def hexByte (b : UInt8) : Text := [hexDigit (b.toNat / 16), hexDigit (b.toNat % 16)]

def hex (bytes : List UInt8) : Text := bytes.flatMap hexByte

/-- `HmacSha256::new_from_slice` takes keys of any length. -/
def computeHmac (C : Crates) (key : Key) (prevHash entryJson : Text) : Text :=
  hex (C.hmacSha256 key (prevHash ++ '|' :: entryJson))

def KEY_BYTES : Nat := 32

def ENCRYPTED_LINE_PREFIX : Text := "02:".toList

def encryptAuditLine (C : Crates) (key : Key) (nonce plaintext : Text) : Option Text :=
  if key.length ≠ KEY_BYTES then none
  else (C.encrypt key nonce plaintext).map (ENCRYPTED_LINE_PREFIX ++ ·)

/-- The text a line was encrypted from, none for a line that is not encrypted; an error for one
    that cannot be decrypted. -/
def decryptAuditLineIfEnvelope (C : Crates) (key : Key) (line : Text) : Except Unit (Option Text) :=
  if startsWith line ENCRYPTED_LINE_PREFIX then
    if key.length ≠ KEY_BYTES then .error ()
    else match C.decrypt key (Rust.trim (line.drop ENCRYPTED_LINE_PREFIX.length)) with
      | some plain => .ok (some plain)
      | none => .error ()
  else .ok none

/-! ## 2. The verifier -/

structure ChainBrokenAt where
  index : Nat
  ts : Text
  reason : Text
  deriving DecidableEq

structure ChainVerifyResult where
  ok : Bool
  checked : Nat
  skippedLegacy : Nat
  subChains : Nat
  brokenAt : Option ChainBrokenAt
  deriving DecidableEq

/-- The verifier's variables. -/
structure Verifying where
  checked : Nat := 0
  skippedLegacy : Nat := 0
  subChains : Nat := 0
  expectedPrev : Text := []
  rawIndex : Nat := 0
  deriving DecidableEq

def Verifying.broken (st : Verifying) (ts reason : Text) : ChainVerifyResult :=
  ⟨false, st.checked, st.skippedLegacy, st.subChains, some ⟨st.rawIndex, ts, reason⟩⟩

/-- An entry as the verifier takes it: `prevHash`, the text its hash is made of, and `hmac`. -/
structure Entry where
  prev : Text
  body : Text
  hmac : Text
  deriving DecidableEq

/-- The text of a line; none for one that cannot be read. -/
def plainLine (C : Crates) (cipher : Option Key) (line : Text) : Option Text :=
  match cipher with
  | some ck =>
    match decryptAuditLineIfEnvelope C ck line with
    | .ok (some p) => some p
    | .ok none => some line
    | .error () => none
  | none => if startsWith line ENCRYPTED_LINE_PREFIX then none else some line

/-- The chained entry of an object: without `hmac` or `prevHash` there is none. -/
def Obj.entry (C : Crates) (o : Obj) : Option Entry := do
  let hmac ← o.getStr "hmac".toList
  let prev ← o.getStr "prevHash".toList
  some ⟨prev, C.toString ((o.remove "hmac".toList).remove "prevHash".toList), hmac⟩

/-- A chained entry, in the verifier's loop. -/
def verifyEntry (C : Crates) (key : Key) (st : Verifying) (ts : Text) (e : Entry) :
    Except ChainVerifyResult Verifying :=
  let st := if e.prev = "genesis".toList then
    { st with subChains := st.subChains + 1, expectedPrev := "genesis".toList } else st
  if e.prev ≠ st.expectedPrev then .error (st.broken ts "prev_hash_mismatch".toList)
  else if computeHmac C key e.prev e.body ≠ e.hmac then
    .error (st.broken ts "hmac_mismatch".toList)
  else .ok { st with
    expectedPrev := e.hmac, checked := st.checked + 1, rawIndex := st.rawIndex + 1 }

/-- One round of the verifier's loop. -/
def verifyLine (C : Crates) (key : Key) (cipher : Option Key) (st : Verifying) (line : Text) :
    Except ChainVerifyResult Verifying :=
  if isBlank line then .ok st
  else match (plainLine C cipher line).bind C.fromStr with
    | none => .ok { st with rawIndex := st.rawIndex + 1 }
    | some obj =>
      match obj.entry C with
      | none => .ok { st with skippedLegacy := st.skippedLegacy + 1, rawIndex := st.rawIndex + 1 }
      | some e => verifyEntry C key st ((obj.getStr "ts".toList).getD []) e

/-- `verify_chain_file`; a file that is not there is like an empty one. -/
def verifyChainFile (C : Crates) (key : Key) (cipher : Option Key) (file : File) : ChainVerifyResult :=
  match fromUtf8 file with
  | none => ⟨false, 0, 0, 0, some ⟨0, [], "file_not_utf8".toList⟩⟩
  | some text =>
    match (lines text).foldlM (verifyLine C key cipher) {} with
    | .error r => r
    | .ok st => ⟨true, st.checked, st.skippedLegacy, st.subChains, none⟩

/-! ## 3. What the verifier reads -/

/-- The chained entry of a line. -/
def lineEntry (C : Crates) (cipher : Option Key) (line : Text) : Option Entry :=
  if isBlank line then none else ((plainLine C cipher line).bind C.fromStr).bind (Obj.entry C)

/-- **The entries the verifier checks in a text.** -/
def chainedEntries (C : Crates) (cipher : Option Key) (text : Text) : List Entry :=
  (lines text).filterMap (lineEntry C cipher)

variable {C : Crates} {key : Key} {cipher : Option Key}

/-- A chained entry whose hash is right. -/
def Entry.Signed (C : Crates) (key : Key) (e : Entry) : Prop := computeHmac C key e.prev e.body = e.hmac

/-- The names that start a sub-chain, or that are expected. -/
abbrev Linked (expected : Text) (l : List Entry) : Prop :=
  Accepted Entry.prev Entry.hmac "genesis".toList expected l

/-- **One entry**: the verifier goes on where it starts a sub-chain or names the hash expected, and
    its own hash is right. -/
theorem verifyEntry_cases (st : Verifying) (ts : Text) (e : Entry) :
    ((e.prev = "genesis".toList ∨ e.prev = st.expectedPrev) ∧ e.Signed C key ∧
      ∃ st', verifyEntry C key st ts e = .ok st' ∧ st'.expectedPrev = e.hmac ∧
        st'.checked = st.checked + 1) ∨
    (¬ ((e.prev = "genesis".toList ∨ e.prev = st.expectedPrev) ∧ e.Signed C key) ∧
      ∃ r, verifyEntry C key st ts e = .error r ∧ r.ok = false) := by
  obtain ⟨st₁, hst₁, hchecked, hlink⟩ : ∃ st₁, (if e.prev = "genesis".toList then
      { st with subChains := st.subChains + 1, expectedPrev := "genesis".toList } else st) = st₁ ∧
      st₁.checked = st.checked ∧
      (e.prev = st₁.expectedPrev ↔ e.prev = "genesis".toList ∨ e.prev = st.expectedPrev) := by
    by_cases hg : e.prev = "genesis".toList
    · exact ⟨_, if_pos hg, rfl, fun h => .inl h, fun _ => hg⟩
    · exact ⟨_, if_neg hg, rfl, .inr, fun h => h.resolve_left hg⟩
  unfold verifyEntry Entry.Signed
  simp only [hst₁]
  by_cases hl : e.prev = st₁.expectedPrev
  · rw [if_neg (not_not_intro hl)]
    by_cases hs : computeHmac C key e.prev e.body = e.hmac
    · exact .inl ⟨hlink.mp hl, hs, _, if_neg (not_not_intro hs), rfl, congrArg (· + 1) hchecked⟩
    · exact .inr ⟨fun h => hs h.2, _, if_pos hs, rfl⟩
  · exact .inr ⟨fun h => hl (hlink.mpr h.1), _, if_pos hl, rfl⟩

/-- A line without an entry changes neither the hash expected nor the count. -/
theorem verifyLine_none {line : Text} (h : lineEntry C cipher line = none) (st : Verifying) :
    ∃ st', verifyLine C key cipher st line = .ok st' ∧ st'.expectedPrev = st.expectedPrev ∧
      st'.checked = st.checked := by
  unfold lineEntry at h
  unfold verifyLine
  split at h
  · rename_i hb
    exact ⟨st, by rw [if_pos hb], rfl, rfl⟩
  · rename_i hb
    rw [if_neg hb]
    cases hp : (plainLine C cipher line).bind C.fromStr with
    | none => exact ⟨_, rfl, rfl, rfl⟩
    | some obj =>
      rw [hp, Option.bind_some] at h
      simp only [h]
      exact ⟨_, rfl, rfl, rfl⟩

theorem verifyLine_some {line : Text} {e : Entry} (h : lineEntry C cipher line = some e)
    (st : Verifying) : ∃ ts, verifyLine C key cipher st line = verifyEntry C key st ts e := by
  unfold lineEntry at h
  unfold verifyLine
  split at h
  · cases h
  · rename_i hb
    rw [if_neg hb]
    obtain ⟨obj, hp, he⟩ := Option.bind_eq_some_iff.mp h
    rw [hp]
    simp only [he]
    exact ⟨_, rfl⟩

/-- **The verifier's loop**: it comes to the end exactly on entries that are linked and signed. -/
theorem verifyLines_cases (ls : List Text) (st : Verifying) :
    ((Linked st.expectedPrev (ls.filterMap (lineEntry C cipher)) ∧
      ∀ e ∈ ls.filterMap (lineEntry C cipher), e.Signed C key) ∧
      ∃ st', ls.foldlM (verifyLine C key cipher) st = .ok st' ∧
        st'.checked = st.checked + (ls.filterMap (lineEntry C cipher)).length) ∨
    (¬ (Linked st.expectedPrev (ls.filterMap (lineEntry C cipher)) ∧
      ∀ e ∈ ls.filterMap (lineEntry C cipher), e.Signed C key) ∧
      ∃ r, ls.foldlM (verifyLine C key cipher) st = .error r ∧ r.ok = false) := by
  induction ls generalizing st with
  | nil => exact .inl ⟨⟨trivial, by simp⟩, st, rfl, rfl⟩
  | cons line ls ih =>
    rw [List.foldlM_cons]
    cases hl : lineEntry C cipher line with
    | none =>
      obtain ⟨st₁, hst₁, hexp, hchecked⟩ := @verifyLine_none C key cipher line hl st
      rw [hst₁, List.filterMap_cons_none hl, ← hexp, ← hchecked]
      exact ih st₁
    | some e =>
      obtain ⟨ts, hts⟩ := @verifyLine_some C key cipher line e hl st
      rw [hts, List.filterMap_cons_some hl]
      rcases @verifyEntry_cases C key st ts e with
        ⟨hlink, hs, st₁, hst₁, hexp, hchecked⟩ | ⟨hno, r, hr, hok⟩
      · rw [hst₁]
        rcases ih st₁ with ⟨⟨hrest, hsigned⟩, st', hst', hcount⟩ | ⟨hno, r, hr, hok⟩
        · rw [hexp] at hrest
          refine .inl ⟨⟨⟨hlink, hrest⟩, ?_⟩, st', hst', ?_⟩
          · simpa [hs] using hsigned
          · rw [hcount, hchecked, List.length_cons]
            omega
        · refine .inr ⟨fun h => hno ?_, r, hr, hok⟩
          rw [hexp]
          exact ⟨h.1.2, fun e' he' => h.2 e' (List.mem_cons_of_mem _ he')⟩
      · rw [hr]
        exact .inr ⟨fun h => hno ⟨h.1.1, h.2 e (List.mem_cons_self ..)⟩, r, rfl, hok⟩

/-- **What `verify_chain_file` finds intact**: text in which the chained entries are linked and
    signed; and it counts them. -/
theorem verifyChainFile_ok_iff (file : File) :
    (verifyChainFile C key cipher file).ok = true ↔ ∃ text, fromUtf8 file = some text ∧
      Linked [] (chainedEntries C cipher text) ∧ ∀ e ∈ chainedEntries C cipher text, e.Signed C key := by
  unfold verifyChainFile
  cases hf : fromUtf8 file with
  | none => simp
  | some text =>
    rcases @verifyLines_cases C key cipher (lines text) {} with
      ⟨h, st', hst', -⟩ | ⟨hno, r, hr, hok⟩
    · simp only [hst']
      exact ⟨fun _ => ⟨text, rfl, h⟩, fun _ => trivial⟩
    · simp only [hr, hok]
      refine ⟨fun h => (Bool.false_ne_true h).elim, ?_⟩
      rintro ⟨text', htext, h⟩
      cases htext
      exact absurd h hno

theorem verifyChainFile_checked {file : File} {text : Text} (hf : fromUtf8 file = some text)
    (hl : Linked [] (chainedEntries C cipher text))
    (hs : ∀ e ∈ chainedEntries C cipher text, e.Signed C key) :
    (verifyChainFile C key cipher file).checked = (chainedEntries C cipher text).length := by
  unfold verifyChainFile
  rw [hf]
  rcases @verifyLines_cases C key cipher (lines text) {} with
    ⟨-, st', hst', hcount⟩ | ⟨hno, -⟩
  · simp only [hst']
    rw [hcount]
    exact Nat.zero_add _
  · exact absurd ⟨hl, hs⟩ hno

end Veesker.Audit
