/-
  File:      Veesker/Audit/Writer.lean
  Subject:   THE AUDIT LOG'S WRITER (`write_audit_entry` of commands.rs): an entry, its place in the
             chain, and its line.

  * `payload_reads`, `lineEntry_reads` -- what the verifier reads of a line that is written,
    encrypted or plain.
-/
import Veesker.Audit.Chain
import Veesker.Audit.Redact
import Veesker.Format.JsonLine

namespace Veesker.Audit

open Rust List

/-! ## 1. An entry -/

structure HistorySaveInput where
  connectionId : Text
  sql : Text
  success : Bool
  rowCount : Option Int64
  elapsedMs : Int64
  errorCode : Option Int32
  errorMessage : Option Text
  username : Option Text
  host : Option Text
  origin : Option Text
  originDetail : Option Text
  deriving DecidableEq

def Value.ofOptionInt (n : Option Int) : Value := n.elim .null .int

/-- The body of an entry, written at this time. -/
def entryBody (C : Crates) (now : Text) (input : HistorySaveInput) (source : Text)
    (env : Option Text) : Obj :=
  .ofFields [("ts".toList, .string now),
    ("connectionId".toList, .string input.connectionId),
    ("host".toList, .string (input.host.getD [])),
    ("username".toList, .string (input.username.getD [])),
    ("sql".toList, .string (redactSql C input.sql)),
    ("success".toList, .bool input.success),
    ("rowCount".toList, .ofOptionInt (input.rowCount.map Int64.toInt)),
    ("elapsedMs".toList, .int input.elapsedMs.toInt),
    ("errorCode".toList, .ofOptionInt (input.errorCode.map Int32.toInt)),
    ("errorMessage".toList, .ofOption input.errorMessage),
    ("source".toList, .string source),
    ("env".toList, .string (env.getD [])),
    ("origin".toList, .string (input.origin.getD "user_typed".toList)),
    ("originDetail".toList, .ofOption input.originDetail)]

def chained (body : Obj) (prev hmac : Text) : Obj :=
  (body.insert "prevHash".toList (.string prev)).insert "hmac".toList (.string hmac)

def unchained (body : Obj) : Obj := body.insert "chain".toList (.string "no-chain".toList)

/-- The entry of a body, and the hash to be named next; without a key it has none. -/
def entryOf (C : Crates) (key : Option Key) (prev : Text) (body : Obj) : Obj × Text :=
  match key with
  | some key =>
    let hmac := computeHmac C key prev (C.toString body)
    (chained body prev hmac, hmac)
  | none => (unchained body, [])

/-- The line of a text, without its line feed: encrypted where there is a key and it succeeds. -/
def payload (C : Crates) (cipher : Option Key) (nonce text : Text) : Text :=
  (cipher.bind fun key => encryptAuditLine C key nonce text).getD text

/-! ## 2. What the packages promise -/

/-- No array, no object, and no number that is not an integer of 64 bits. -/
def Value.isScalar : Value → Bool
  | .null | .bool _ | .string _ => true
  | .int n => decide (-2 ^ 63 ≤ n ∧ n < 2 ^ 63)
  | .float _ | .array _ | .object _ => false

/-- An object as the writers make them: its keys in order, its values scalars. -/
structure Obj.Plain (o : Obj) : Prop where
  sorted : (o.map Prod.fst).Pairwise (· < ·)
  scalars : ∀ f ∈ o, f.2.isScalar = true

/-- What is relied on of the JSON texts, of Base64 and of the cipher. -/
structure Crates.Documented (C : Crates) : Prop where
  fromStr_toString : ∀ o : Obj, o.Plain → C.fromStr (C.toString o) = some o
  /-- An object's text is on one line. -/
  toString_line : ∀ o : Obj, o.Plain → '\n' ∉ C.toString o
  toString_braces : ∀ o : Obj, o.Plain → ∃ t, C.toString o = '\x7b' :: (t ++ ['\x7d'])
  decrypt_encrypt : ∀ key nonce text e, key.length = KEY_BYTES →
    C.encrypt key nonce text = some e → C.decrypt key e = some text
  encrypt_solid : ∀ key nonce text e, C.encrypt key nonce text = some e →
    ∀ c ∈ e, isWhitespace c = false

/-! ## 3. The objects -/

theorem mem_insert {o : Obj} {k : Text} {v : Value} {f : Text × Value} (h : f ∈ o.insert k v) :
    f = (k, v) ∨ f ∈ o := by
  induction o with
  | nil => simpa [Obj.insert] using h
  | cons g o ih =>
    obtain ⟨k', v'⟩ := g
    unfold Obj.insert at h
    split at h
    · rcases mem_cons.mp h with h | h
      · exact .inl h
      · exact .inr (mem_cons_of_mem _ h)
    · split at h
      · rcases mem_cons.mp h with h | h
        · exact .inl h
        · exact .inr h
      · rcases mem_cons.mp h with h | h
        · exact .inr (h ▸ mem_cons_self)
        · exact (ih h).imp_right (mem_cons_of_mem _)

/-- A field more leaves an object plain. -/
theorem Obj.Plain.insert {o : Obj} (h : o.Plain) (k : Text) {v : Value} (hv : v.isScalar = true) :
    (o.insert k v).Plain where
  sorted := by
    have hsorted := h.sorted
    clear h
    induction o with
    | nil => simp [Obj.insert]
    | cons f o ih =>
      obtain ⟨k', v'⟩ := f
      rw [map_cons, pairwise_cons] at hsorted
      unfold Obj.insert
      split
      · rename_i hk
        subst hk
        exact pairwise_cons.mpr hsorted
      · split
        · rename_i hlt
          refine pairwise_cons.mpr ⟨fun x hx => ?_, pairwise_cons.mpr hsorted⟩
          rcases mem_cons.mp hx with rfl | hx
          · exact hlt
          · exact lt_trans hlt (hsorted.1 x hx)
        · rename_i hne hnlt
          refine pairwise_cons.mpr ⟨fun x hx => ?_, ih hsorted.2⟩
          obtain ⟨f, hf, rfl⟩ := mem_map.mp hx
          rcases mem_insert hf with rfl | hf
          · exact lt_of_le_of_ne (not_lt.mp hnlt) fun e => hne e.symm
          · exact hsorted.1 _ (mem_map_of_mem hf)
  scalars f hf := by
    rcases mem_insert hf with rfl | hf
    · exact hv
    · exact h.scalars f hf

theorem plain_ofFields {fields : List (Text × Value)} (h : ∀ f ∈ fields, f.2.isScalar = true) :
    (Obj.ofFields fields).Plain := by
  suffices hfold : ∀ o : Obj, o.Plain →
      (fields.foldl (fun (o : Obj) f => o.insert f.1 f.2) o).Plain from
    hfold [] ⟨List.Pairwise.nil, fun _ hf => nomatch hf⟩
  induction fields with
  | nil => exact fun o ho => ho
  | cons f fields ih =>
    intro o ho
    exact ih (fun g hg => h g (mem_cons_of_mem _ hg)) _ (ho.insert _ (h f mem_cons_self))

theorem get_ofFields {fields : List (Text × Value)} {k : Text} (h : ∀ f ∈ fields, f.1 ≠ k) :
    (Obj.ofFields fields).get k = none := by
  suffices hfold : ∀ o : Obj, o.get k = none →
      (fields.foldl (fun (o : Obj) f => o.insert f.1 f.2) o).get k = none from hfold [] rfl
  induction fields with
  | nil => exact fun o ho => ho
  | cons f fields ih =>
    intro o ho
    refine ih (fun g hg => h g (mem_cons_of_mem _ hg)) _ ?_
    rw [Obj.get_insert, if_neg (h f mem_cons_self), ho]

theorem isScalar_ofOption (s : Option Text) : (Value.ofOption s).isScalar = true := by
  cases s <;> rfl

theorem isScalar_int64 (n : Int64) : (Value.int n.toInt).isScalar = true :=
  decide_eq_true ⟨n.le_toInt, n.toInt_lt⟩

theorem isScalar_ofOptionInt {α : Type} {f : α → Int} (h : ∀ n, (Value.int (f n)).isScalar = true)
    (n : Option α) : (Value.ofOptionInt (n.map f)).isScalar = true := by
  cases n with
  | none => rfl
  | some n => exact h n

theorem isScalar_int32 (n : Int32) : (Value.int n.toInt).isScalar = true := by
  have hlow := n.le_toInt
  have hhigh := n.toInt_lt
  exact decide_eq_true ⟨by omega, by omega⟩

section Body

variable {C : Crates} {now : Text} {input : HistorySaveInput} {source : Text} {env : Option Text}

theorem plain_entryBody : (entryBody C now input source env).Plain := by
  refine plain_ofFields fun f hf => ?_
  simp only [mem_cons, not_mem_nil, or_false] at hf
  rcases hf with
    rfl | rfl | rfl | rfl | rfl | rfl | rfl | rfl | rfl | rfl | rfl | rfl | rfl | rfl <;>
    first
    | rfl
    | exact isScalar_ofOption _
    | exact isScalar_int64 _
    | exact isScalar_ofOptionInt isScalar_int64 _
    | exact isScalar_ofOptionInt isScalar_int32 _

/-- A body has none of the chain's fields. -/
theorem get_entryBody {k : Text} (hk : k ∈ ["hmac".toList, "prevHash".toList]) :
    (entryBody C now input source env).get k = none := by
  refine get_ofFields fun f hf => ?_
  simp only [mem_cons, not_mem_nil, or_false] at hf hk
  rcases hk with rfl | rfl <;>
    rcases hf with
      rfl | rfl | rfl | rfl | rfl | rfl | rfl | rfl | rfl | rfl | rfl | rfl | rfl | rfl <;>
    dsimp only <;> decide

end Body

/-- The entry of a plain body is plain. -/
theorem plain_entryOf {C : Crates} {body : Obj} (h : body.Plain) (key : Option Key) (prev : Text) :
    (entryOf C key prev body).1.Plain := by
  cases key with
  | none => exact h.insert _ rfl
  | some key => exact (h.insert _ rfl).insert _ rfl

/-! ## 4. What the verifier reads of a line -/

theorem trim_solid {s : Text} (h : ∀ c ∈ s, isWhitespace c = false) : Rust.trim s = s := by
  have hfront : s.dropWhile isWhitespace = s := by
    cases s with
    | nil => rfl
    | cons c s => exact dropWhile_cons_of_neg (by simp [h c mem_cons_self])
  rw [Rust.trim, hfront, rdropWhile_eq_self_iff]
  exact fun hne => by simp [h _ (getLast_mem hne)]

/-- A line that the verifier with this key reads as a text. -/
structure ReadsAs (C : Crates) (ck : Key) (line text : Text) : Prop where
  one : '\n' ∉ line
  last : line.getLast? ≠ some '\r'
  solid : isBlank line = false
  read : plainLine C (some ck) line = some text

section Lines

variable {C : Crates} {ck : Key}

/-- **A line that is written** is read as its object's text, encrypted or plain. -/
theorem payload_reads (hC : C.Documented) {o : Obj} (ho : o.Plain) (available : Bool)
    (nonce : Text) :
    ReadsAs C ck (payload C (if available then some ck else none) nonce (C.toString o))
      (C.toString o) := by
  obtain ⟨t, ht⟩ := hC.toString_braces o ho
  have hnewline := hC.toString_line o ho
  have hplain : ReadsAs C ck (C.toString o) (C.toString o) := by
    have hprefix : startsWith (C.toString o) ENCRYPTED_LINE_PREFIX = false := by
      rw [ht]
      rfl
    refine ⟨hnewline, ?_, ?_, ?_⟩
    · rw [ht, ← cons_append, List.getLast?_concat]
      decide
    · rw [ht]
      rfl
    · rw [plainLine, decryptAuditLineIfEnvelope, hprefix]
      rfl
  cases available with
  | false => exact hplain
  | true =>
    rw [if_pos rfl, payload, Option.bind_some]
    cases hline : encryptAuditLine C ck nonce (C.toString o) with
    | none => exact hplain
    | some line =>
      rw [encryptAuditLine] at hline
      split at hline
      · cases hline
      rename_i hlength
      obtain ⟨e, he, rfl⟩ := Option.map_eq_some_iff.mp hline
      have hsolid := hC.encrypt_solid _ _ _ _ he
      have hdrop : (ENCRYPTED_LINE_PREFIX ++ e).drop ENCRYPTED_LINE_PREFIX.length = e :=
        drop_left
      have hprefix : startsWith (ENCRYPTED_LINE_PREFIX ++ e) ENCRYPTED_LINE_PREFIX = true :=
        startsWith_iff.mpr ⟨e, rfl⟩
      have hall : ∀ c ∈ ENCRYPTED_LINE_PREFIX ++ e, isWhitespace c = false := by
        intro c hc
        rcases mem_append.mp hc with hc | hc
        · have hfixed : ENCRYPTED_LINE_PREFIX.all (fun c => !isWhitespace c) = true := by decide
          simpa using all_eq_true.mp hfixed c hc
        · exact hsolid c hc
      change ReadsAs C ck (ENCRYPTED_LINE_PREFIX ++ e) (C.toString o)
      refine ⟨fun h => ?_, fun h => ?_, rfl, ?_⟩
      · exact absurd (hall _ h) (by decide)
      · exact absurd (hall _ (mem_of_getLast? h)) (by decide)
      · rw [plainLine, decryptAuditLineIfEnvelope, hprefix, if_pos rfl, if_neg hlength, hdrop,
          trim_solid hsolid, hC.decrypt_encrypt _ _ _ _ (not_not.mp hlength) he]

/-- The entry of a line is that of its object. -/
theorem lineEntry_reads (hC : C.Documented) {o : Obj} (ho : o.Plain) {line : Text}
    (h : ReadsAs C ck line (C.toString o)) : lineEntry C (some ck) line = o.entry C := by
  rw [lineEntry, h.solid, if_neg Bool.false_ne_true, h.read, Option.bind_some,
    hC.fromStr_toString o ho, Option.bind_some]

/-- **A chained entry** is read with the hash it names, its body and its own hash. -/
theorem entry_chained {body : Obj} (hhmac : body.get "hmac".toList = none)
    (hprev : body.get "prevHash".toList = none) (prev hmac : Text) :
    (chained body prev hmac).entry C = some ⟨prev, C.toString body, hmac⟩ := by
  have hne : "prevHash".toList ≠ "hmac".toList := by decide
  have hhmac' : (body.insert "prevHash".toList (.string prev)).get "hmac".toList = none := by
    rw [Obj.get_insert, if_neg hne, hhmac]
  have hremove :
      ((chained body prev hmac).remove "hmac".toList).remove "prevHash".toList = body := by
    rw [chained, Obj.remove_insert hhmac', Obj.remove_insert hprev]
  have hgeth : (chained body prev hmac).getStr "hmac".toList = some hmac := by
    rw [Obj.getStr, chained, Obj.get_insert, if_pos rfl]
    rfl
  have hgetp : (chained body prev hmac).getStr "prevHash".toList = some prev := by
    rw [Obj.getStr, chained, Obj.get_insert, if_neg hne.symm, Obj.get_insert, if_pos rfl]
    rfl
  rw [Obj.entry, hgeth, hgetp, hremove]
  rfl

/-- An entry without a hash is none of the chain's. -/
theorem entry_unchained {body : Obj} (hhmac : body.get "hmac".toList = none) :
    (unchained body).entry C = none := by
  have hget : (unchained body).getStr "hmac".toList = none := by
    rw [Obj.getStr, unchained, Obj.get_insert, if_neg (by decide), hhmac]
    rfl
  rw [Obj.entry, hget]
  rfl

/-- **The entry of a body**, with a key and without. -/
theorem entry_entryOf {body : Obj} (hhmac : body.get "hmac".toList = none)
    (hprev : body.get "prevHash".toList = none) (key : Option Key) (prev : Text) :
    (entryOf C key prev body).1.entry C =
      key.map fun _ => ⟨prev, C.toString body, (entryOf C key prev body).2⟩ := by
  cases key with
  | none => exact entry_unchained hhmac
  | some key => exact entry_chained hhmac hprev prev _

end Lines

/-! ## 5. Packages that keep the promises -/

section Json

open Format

/-- An entry's value; no entry has numbers but integers, arrays or objects. -/
def Value.toJson : Value → Json Int
  | .bool b => .bool b
  | .int n => .num n
  | .string s => .str s
  | _ => .null

def Value.ofJson : Json Int → Value
  | .bool b => .bool b
  | .num n => .int n
  | .str s => .string s
  | _ => .null

def Obj.toJson (o : Obj) : Json Int := .obj (o.map fun f => (f.1, f.2.toJson))

def Obj.ofJson : Json Int → Option Obj
  | .obj members => some (members.map fun f => (f.1, .ofJson f.2))
  | _ => none

/-- The packages with this digest, where no line is encrypted. -/
def jsonCrates (digest : Key → Text → List UInt8) : Crates where
  isWord c := c.isAlphanum || c == '_'
  hmacSha256 := digest
  encrypt _ _ _ := none
  decrypt _ _ := none
  toString o := stringify intNumbers o.toJson
  fromStr s := (parse intNumbers s).bind Obj.ofJson

theorem ofJson_toJson {v : Value} (h : v.isScalar = true) : Value.ofJson v.toJson = v := by
  cases v with
  | float n => cases h
  | array l => cases h
  | object l => cases h
  | _ => rfl

theorem proper_toJson {o : Obj} (h : o.Plain) : o.toJson.Proper intNumbers := by
  have hkeys : (o.map fun f => (f.1, f.2.toJson)).map Prod.fst = o.map Prod.fst := by simp
  rw [Obj.toJson, Json.Proper, hkeys]
  refine ⟨h.sorted.imp fun hlt => ne_of_lt hlt, ?_⟩
  clear h hkeys
  induction o with
  | nil => exact trivial
  | cons f o ih =>
    refine ⟨?_, ih⟩
    cases f.2 <;> exact trivial

theorem documented_jsonCrates (digest : Key → Text → List UInt8) :
    (jsonCrates digest).Documented where
  fromStr_toString o ho := by
    have hparse : parse intNumbers (stringify intNumbers o.toJson) = some o.toJson :=
      parse_stringify (proper_toJson ho)
    have hmembers : (o.map fun f => (f.1, f.2.toJson)).map
        (fun f => (f.1, Value.ofJson f.2)) = o := by
      rw [map_map]
      conv_rhs => rw [← map_id o]
      exact map_congr_left fun f hf => Prod.ext rfl (ofJson_toJson (ho.scalars f hf))
    change (parse intNumbers (stringify intNumbers o.toJson)).bind Obj.ofJson = some o
    rw [hparse, Option.bind_some, Obj.toJson, Obj.ofJson, hmembers]
  toString_line o _ := stringify_line o.toJson
  toString_braces o _ := ⟨_, rfl⟩
  decrypt_encrypt _ _ _ _ _ h := nomatch h
  encrypt_solid _ _ _ _ h := nomatch h

end Json

end Veesker.Audit
