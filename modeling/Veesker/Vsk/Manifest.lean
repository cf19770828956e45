/-
  File:      Veesker/Vsk/Manifest.lean
  Subject:   THE MANIFEST (engine/src/vsk-format/manifest.ts) and the version fence of the reader.

  A manifest is an object of the source language: a JSON value whatever further members it has.
  `isManifest` is the check of the reader; `manifestTables` is how the code that follows it sees
  `manifest.tables`. `readManifest_writeManifest`: what `writeManifest` wrote is read back.
-/
import Veesker.Vsk.Header

namespace Veesker.Vsk

open Format

/-- The numbers of the source language, as far as the modelled code asks about them. -/
structure JsNumbers (ν : Type) extends Numbers ν where
  ofNat : Nat → ν
  /-- `Number.isInteger(n)`. -/
  isInteger : ν → Bool
  /-- `n < 0`. -/
  isNegative : ν → Bool
  exact_ofNat : ∀ n, n < 2 ^ 53 → Exact (ofNat n)
  ofNat_inj : ∀ m n, m < 2 ^ 53 → n < 2 ^ 53 → ofNat m = ofNat n → m = n

/-- The natural numbers as numbers of the source language. -/
def natJs : JsNumbers Nat where
  toNumbers := natNumbers
  ofNat := id
  isInteger _ := true
  isNegative _ := false
  exact_ofNat _ _ := trivial
  ofNat_inj _ _ _ _ h := h

section

variable {ν : Type}

/-! ## 1. Members and types of values -/

/-- `x.key`; none where it is undefined. -/
def member (x : Json ν) (key : Text) : Option (Json ν) :=
  match x with
  | .obj members => members.lookup key
  | _ => none

def asString : Json ν → Option Text
  | .str s => some s
  | _ => none

def asBool : Json ν → Option Bool
  | .bool b => some b
  | _ => none

def asArray : Json ν → Option (List (Json ν))
  | .arr items => some items
  | _ => none

/-- `typeof x === "object" && x !== null`. -/
def isObject : Json ν → Bool
  | .obj _ => true
  | .arr _ => true
  | _ => false

/-- `typeof x.key === "string"`. -/
def hasString (x : Json ν) (key : Text) : Bool := ((member x key).bind asString).isSome

/-- `x.key === undefined || typeof x.key === "string"`. -/
def mayHaveString (x : Json ν) (key : Text) : Bool :=
  (member x key).all fun v => (asString v).isSome

/-! ## 2. The check -/

def VSK_MASK_TYPES : List Text := ["hash", "redact", "static", "partial"].map String.toList

def SKIPPED_REASONS : List Text := ["INVALID", "NO_PRIVILEGE", "EXTRACTION_ERROR"].map String.toList

def isTypeWarning (x : Json ν) : Bool :=
  isObject x && hasString x "table".toList && hasString x "column".toList &&
    hasString x "oracleType".toList && hasString x "message".toList

def isSkipped (x : Json ν) : Bool :=
  isObject x && hasString x "kind".toList && hasString x "owner".toList &&
    hasString x "name".toList &&
    (((member x "reason".toList).bind asString).any fun r => SKIPPED_REASONS.contains r) &&
    mayHaveString x "detail".toList

/-- The columns of `isTable`, seen as columns. -/
def readColumn (x : Json ν) : Option VskColumn := do
  let name ← (member x "name".toList).bind asString
  let type ← (member x "type".toList).bind asString
  let nullable ← (member x "nullable".toList).bind asBool
  some ⟨name, type, nullable⟩

/-- A table of a manifest, as the code after the check uses it. -/
structure VskTable where
  name : Text
  columns : List VskColumn
  deriving DecidableEq

/-- What `isTable` admits. -/
def readTable (x : Json ν) : Option VskTable := do
  let name ← (member x "name".toList).bind asString
  match member x "rowCount".toList with
  | some (.num _) =>
    let columns ← (member x "columns".toList).bind asArray
    some ⟨name, ← columns.mapM readColumn⟩
  | _ => none

def isMask (x : Json ν) : Bool :=
  isObject x && hasString x "table".toList && hasString x "column".toList &&
    (((member x "maskType".toList).bind asString).any fun m => VSK_MASK_TYPES.contains m)

/-- An array of `ok` items under a key that may be missing. -/
def mayHaveArray (x : Json ν) (key : Text) (ok : Json ν → Bool) : Bool :=
  (member x key).all fun v => (asArray v).any fun items => items.all ok

def hasArray (x : Json ν) (key : Text) (ok : Json ν → Bool) : Bool :=
  ((member x key).bind asArray).any fun items => items.all ok

variable (N : JsNumbers ν)

/-- `plsqlObjectCount` is missing or a whole number that is not negative. -/
def isObjectCount (x : Json ν) : Bool :=
  match member x "plsqlObjectCount".toList with
  | none => true
  | some (.num n) => N.isInteger n && !N.isNegative n
  | some _ => false

def isManifest (x : Json ν) : Bool :=
  isObject x && hasString x "builtAt".toList && hasString x "sourceId".toList &&
    hasString x "schemaName".toList && hasString x "ttlExpiresAt".toList &&
    mayHaveString x "engineVersion".toList && mayHaveString x "dataFormat".toList &&
    isObjectCount N x && mayHaveArray x "skippedObjects".toList isSkipped &&
    mayHaveArray x "typeWarnings".toList isTypeWarning &&
    hasArray x "tables".toList (fun t => (readTable t).isSome) &&
    hasArray x "piiMasks".toList isMask

/-- `manifest.tables`. -/
def manifestTables (m : Json ν) : List VskTable :=
  (((member m "tables".toList).bind asArray).getD []).filterMap readTable

/-! ## 3. Writing and reading -/

def writeManifest (m : Json ν) : Bytes := utf8Bytes (stringify N.toNumbers m)

/-- The text of a parser's error is the parser's own. -/
def readManifest (buf : Bytes) : Except Failure (Json ν) :=
  match parse N.toNumbers (decodeText buf) with
  | none => .error (.format "MALFORMED_MANIFEST".toList "vsk manifest: malformed JSON".toList)
  | some m =>
    if isManifest N m then .ok m
    else .error (.format "MALFORMED_MANIFEST".toList
      "vsk manifest: malformed (missing or wrongly-typed required fields)".toList)

/-- An object's text is read back byte for byte. -/
theorem parse_decodeText {members : List (Text × Json ν)} (h : (Json.obj members).Proper N.toNumbers) :
    parse N.toNumbers (decodeText (utf8Bytes (stringify N.toNumbers (.obj members)))) =
      some (.obj members) := by
  obtain ⟨t, e⟩ : ∃ t, stringify N.toNumbers (.obj members) = '\x7b' :: t :=
    ⟨_, by rw [stringify]⟩
  have hd := decodeText_utf8Bytes (c := '\x7b') (by decide) t
  rw [e, hd, ← e, parse_stringify h]

theorem member_isSome {x : Json ν} (key : Text) (h : (member x key).isSome = true) :
    ∃ members, x = .obj members := by
  cases x with
  | obj members => exact ⟨members, rfl⟩
  | null => cases h
  | bool b => cases h
  | num n => cases h
  | str s => cases h
  | arr l => cases h

theorem isManifest_obj {m : Json ν} (h : isManifest N m = true) : ∃ members, m = .obj members := by
  simp only [isManifest, Bool.and_eq_true] at h
  obtain ⟨⟨⟨⟨⟨⟨⟨⟨⟨⟨⟨-, hb⟩, -⟩, -⟩, -⟩, -⟩, -⟩, -⟩, -⟩, -⟩, -⟩, -⟩ := h
  apply member_isSome "builtAt".toList
  rw [hasString] at hb
  cases hm : member m "builtAt".toList with
  | none => rw [hm] at hb; cases hb
  | some v => rfl

/-- **What was written is read back.** -/
theorem readManifest_writeManifest {m : Json ν} (hm : isManifest N m = true)
    (hp : m.Proper N.toNumbers) : readManifest N (writeManifest N m) = .ok m := by
  obtain ⟨members, rfl⟩ := isManifest_obj N hm
  rw [readManifest, writeManifest, parse_decodeText N hp]
  exact if_pos hm

/-! ## 4. The version fence -/

/-- `s.split(c)`. -/
def splitOn (c : Char) : Text → List Text
  | [] => [[]]
  | d :: ds =>
    if d = c then [] :: splitOn c ds
    else match splitOn c ds with
      | [] => [[d]]
      | w :: ws => (d :: w) :: ws

/-- `/^\d+$/`. -/
def isDigits (s : Text) : Bool := !s.isEmpty && s.all Char.isDigit

/-- `Number.parseInt(s, 10)` of digits. -/
def digitsValue (s : Text) : Nat := s.foldl (fun n c => n * 10 + (c.toNat - 48)) 0

/-- A version the reader takes: three numbers, the first 0 and the second below 4. -/
def isKnownVersion (v : Text) : Bool :=
  match splitOn '.' v with
  | [maj, min, patch] =>
    isDigits maj && isDigits min && isDigits patch && digitsValue maj == 0 &&
      decide (digitsValue min < 4)
  | _ => false

def checkVersionFence (m : Json ν) : Except Failure Unit :=
  let v := ((member m "engineVersion".toList).bind asString).getD "0.1.0".toList
  let parts := splitOn '.' v
  if parts.length ≠ 3 ∨ ¬ parts.all isDigits then
    .error (.format "MALFORMED_MANIFEST".toList
      ("vsk reader: unparseable engineVersion \"".toList ++ v ++ "\"".toList))
  else
    let maj := digitsValue (parts.getD 0 [])
    let min := digitsValue (parts.getD 1 [])
    if 0 < maj ∨ maj = 0 ∧ 4 ≤ min then
      .error (.format "MALFORMED_MANIFEST".toList ("vsk reader: engineVersion ".toList ++ v ++
        " is newer than this reader (max 0.3.x). Upgrade @veesker/engine.".toList))
    else .ok ()

/-- The version of a manifest, "0.1.0" where it says none. -/
def engineVersion (m : Json ν) : Text :=
  ((member m "engineVersion".toList).bind asString).getD "0.1.0".toList

theorem checkVersionFence_ok_iff (m : Json ν) :
    checkVersionFence m = .ok () ↔ isKnownVersion (engineVersion m) = true := by
  unfold checkVersionFence isKnownVersion
  rw [← engineVersion]
  simp only
  generalize splitOn '.' (engineVersion m) = parts
  split
  · rename_i h
    refine ⟨nofun, fun hk => ?_⟩
    split at hk
    · simp only [Bool.and_eq_true] at hk
      simp [hk.1.1.1.1, hk.1.1.1.2, hk.1.1.2] at h
    · cases hk
  · rename_i h
    rw [not_or, not_not, not_not] at h
    obtain ⟨a, b, c, rfl⟩ := List.length_eq_three.mp h.1
    simp only [List.all_cons, List.all_nil, Bool.and_true, Bool.and_eq_true] at h
    simp only [h.2.1, h.2.2.1, h.2.2.2, Bool.true_and, Bool.and_eq_true, beq_iff_eq,
      decide_eq_true_eq, List.getD_cons_zero, List.getD_cons_succ]
    split
    · rename_i hv
      exact ⟨nofun, fun hk => by omega⟩
    · rename_i hv
      exact ⟨fun _ => by omega, fun _ => rfl⟩

end

end Veesker.Vsk
