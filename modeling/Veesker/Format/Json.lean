/-
  File:      Veesker/Format/Json.lean
  Subject:   JSON TEXTS: writing a value and reading it back.

  A value is `null`, a Boolean, a number, a string, an array, or an object as the list of its
  members in their order. Numbers are those of a parameter: `Numbers ν` says how one is printed
  and what a number token denotes.

  * `quote`, `stringify` -- the compact text of a value.
  * `parse` -- the reader, with white space between tokens, every escape and, for a key that
    occurs twice, the last value. A surrogate written as an escape without its other half becomes
    U+FFFD, as texts here hold no halves.
  * `parse_stringify` -- **what was written is read back**, for values whose objects have
    distinct keys and whose numbers are printed exactly.

  Nothing here names the repository.
-/
import Veesker.Format.Bytes

namespace Veesker.Format

open List

/-- A value. -/
inductive Json (ν : Type) where
  | null
  | bool (b : Bool)
  | num (n : ν)
  | str (s : Text)
  | arr (items : List (Json ν))
  | obj (members : List (Text × Json ν))

/-! ## 1. Numbers -/

def isExponent : Text → Bool
  | [] => true
  | c :: r =>
    (c == 'e' || c == 'E') &&
      (let digits := if r.head? = some '+' ∨ r.head? = some '-' then r.tail else r
       !digits.isEmpty && digits.all Char.isDigit)

def isFraction : Text → Bool
  | '.' :: r => (r.head?.any Char.isDigit) && isExponent (r.dropWhile Char.isDigit)
  | r => isExponent r

/-- `-?(0|[1-9]\d*)(\.\d+)?([eE][+-]?\d+)?`. -/
def isNumber (t : Text) : Bool :=
  match (if t.head? = some '-' then t.tail else t) with
  | [] => false
  | d :: r => if d = '0' then isFraction r else d.isDigit && isFraction (r.dropWhile Char.isDigit)

def isNumberChar (c : Char) : Bool :=
  c.isDigit || c == '-' || c == '+' || c == '.' || c == 'e' || c == 'E'

/-- How the numbers of `ν` are printed and read. -/
structure Numbers (ν : Type) where
  /-- The text of a finite number. -/
  text : ν → Text
  /-- The number that is nearest to what a token denotes. -/
  read : Text → ν
  /-- Neither an infinity nor the undefined number. -/
  finite : ν → Bool
  /-- The numbers that printing keeps: the finite ones but for a negative zero. -/
  Exact : ν → Prop
  finite_of_exact : ∀ n, Exact n → finite n = true
  number_text : ∀ n, finite n = true → isNumber (text n) = true
  chars_text : ∀ n, finite n = true → (text n).all isNumberChar = true
  read_text : ∀ n, Exact n → read (text n) = n

/-! ## 2. Writing -/

def hexChar (n : Nat) : Char := "0123456789abcdef".toList.getD n '0'

/-- A character of a string, as it is written. -/
def quoteChar (c : Char) : Text :=
  if c = '"' then ['\\', '"']
  else if c = '\\' then ['\\', '\\']
  else if c.toNat = 8 then ['\\', 'b']
  else if c = '\t' then ['\\', 't']
  else if c = '\n' then ['\\', 'n']
  else if c.toNat = 12 then ['\\', 'f']
  else if c = '\r' then ['\\', 'r']
  else if c.toNat < 32 then ['\\', 'u', '0', '0', hexChar (c.toNat / 16), hexChar (c.toNat % 16)]
  else [c]

def quote (s : Text) : Text := '"' :: (s.flatMap quoteChar ++ ['"'])

section

variable {ν : Type} (N : Numbers ν)

mutual

/-- `JSON.stringify(value)`. -/
def stringify : Json ν → Text
  | .null => "null".toList
  | .bool true => "true".toList
  | .bool false => "false".toList
  | .num n => if N.finite n then N.text n else "null".toList
  | .str s => quote s
  | .arr items => '[' :: (stringifyItems items ++ [']'])
  | .obj members => '\x7b' :: (stringifyMembers members ++ ['\x7d'])

def stringifyItems : List (Json ν) → Text
  | [] => []
  | [v] => stringify v
  | v :: w :: vs => stringify v ++ ',' :: stringifyItems (w :: vs)

def stringifyMembers : List (Text × Json ν) → Text
  | [] => []
  | [(k, v)] => quote k ++ ':' :: stringify v
  | (k, v) :: w :: vs => quote k ++ ':' :: (stringify v ++ ',' :: stringifyMembers (w :: vs))

end

end

/-! ## 3. Reading -/

def isJsonSpace (c : Char) : Bool := c == ' ' || c == '\t' || c == '\n' || c == '\r'

def hexValue (c : Char) : Option Nat :=
  if c.isDigit then some (c.toNat - 48)
  else if 97 ≤ c.toNat ∧ c.toNat ≤ 102 then some (c.toNat - 87)
  else if 65 ≤ c.toNat ∧ c.toNat ≤ 70 then some (c.toNat - 55)
  else none

def hexValue4 (a b c d : Char) : Option Nat := do
  let a ← hexValue a
  let b ← hexValue b
  let c ← hexValue c
  let d ← hexValue d
  some (((a * 16 + b) * 16 + c) * 16 + d)

/-- A piece of a string: a character, or half of one that was written as an escape. -/
inductive Piece where
  | char (c : Char)
  | half (n : Nat)
  deriving DecidableEq

def Piece.ofUnit (n : Nat) : Piece :=
  if 0xD800 ≤ n ∧ n ≤ 0xDFFF then .half n else .char (Char.ofNat n)

/-- The characters of the pieces: two halves are one character, a single one is U+FFFD. -/
def joinPieces : List Piece → Text
  | [] => []
  | .char c :: ps => c :: joinPieces ps
  | .half n :: .half m :: ps =>
    if n < 0xDC00 ∧ 0xDC00 ≤ m then
      Char.ofNat (0x10000 + (n - 0xD800) * 0x400 + (m - 0xDC00)) :: joinPieces ps
    else replacement :: joinPieces (.half m :: ps)
  | .half _ :: ps => replacement :: joinPieces ps

/-- The character after a backslash, for the escapes of one character. -/
def escaped (c : Char) : Option Char :=
  if c = '"' ∨ c = '\\' ∨ c = '/' then some c
  else if c = 'b' then some (Char.ofNat 8)
  else if c = 't' then some '\t'
  else if c = 'n' then some '\n'
  else if c = 'f' then some (Char.ofNat 12)
  else if c = 'r' then some '\r'
  else none

/-- The rest of a string, after its opening quote. -/
def readPieces : Text → Option (List Piece × Text)
  | [] => none
  | '"' :: r => some ([], r)
  | '\\' :: 'u' :: a :: b :: c :: d :: r => do
    let n ← hexValue4 a b c d
    let (ps, r) ← readPieces r
    some (Piece.ofUnit n :: ps, r)
  | '\\' :: e :: r => do
    let c ← escaped e
    let (ps, r) ← readPieces r
    some (.char c :: ps, r)
  | c :: r =>
    if c.toNat < 32 ∨ c = '\\' then none
    else do
      let (ps, r) ← readPieces r
      some (.char c :: ps, r)

def readString (s : Text) : Option (Text × Text) :=
  (readPieces s).map fun p => (joinPieces p.1, p.2)

/-- A word that stands for a value. -/
def readWord {α : Type} (w : Text) (v : α) (s : Text) : Option (α × Text) :=
  if startsWith s w then some (v, s.drop w.length) else none

/-- A member under a key: the last value given to a key stays, at the key's first place. -/
def putMember {α : Type} : List (Text × α) → Text → α → List (Text × α)
  | [], k, v => [(k, v)]
  | (k', v') :: ms, k, v => if k' = k then (k', v) :: ms else (k', v') :: putMember ms k v

/-- The members of an object, from those its text lists. -/
def ofMembers {α : Type} (ms : List (Text × α)) : List (Text × α) :=
  ms.foldl (fun o m => putMember o m.1 m.2) []

section

variable {ν : Type} (N : Numbers ν)

def readNumber (s : Text) : Option (Json ν × Text) :=
  let token := s.takeWhile isNumberChar
  if isNumber token then some (.num (N.read token), s.dropWhile isNumberChar) else none

mutual

/-- A value at the start of a text, after white space, and the text behind it; the first argument
    counts the nested calls. -/
def readValue : Nat → Text → Option (Json ν × Text)
  | 0, _ => none
  | fuel + 1, s =>
    match s.dropWhile isJsonSpace with
    | [] => none
    | c :: r =>
      if c = 'n' then readWord "ull".toList .null r
      else if c = 't' then readWord "rue".toList (.bool true) r
      else if c = 'f' then readWord "alse".toList (.bool false) r
      else if c = '"' then (readString r).map fun p => (.str p.1, p.2)
      else if c = '[' then
        match r.dropWhile isJsonSpace with
        | ']' :: r' => some (.arr [], r')
        | _ => (readItems fuel r).map fun p => (.arr p.1, p.2)
      else if c = '\x7b' then
        match r.dropWhile isJsonSpace with
        | '\x7d' :: r' => some (.obj [], r')
        | _ => (readMembers fuel r).map fun p => (.obj (ofMembers p.1), p.2)
      else if c.isDigit || c == '-' then readNumber N (c :: r)
      else none

/-- The items of an array, up to its closing bracket. -/
def readItems : Nat → Text → Option (List (Json ν) × Text)
  | 0, _ => none
  | fuel + 1, s =>
    match readValue fuel s with
    | none => none
    | some (v, r) =>
      match r.dropWhile isJsonSpace with
      | ']' :: r' => some ([v], r')
      | ',' :: r' => (readItems fuel r').map fun p => (v :: p.1, p.2)
      | _ => none

def readMembers : Nat → Text → Option (List (Text × Json ν) × Text)
  | 0, _ => none
  | fuel + 1, s =>
    match s.dropWhile isJsonSpace with
    | '"' :: r =>
      match readString r with
      | none => none
      | some (k, r) =>
        match r.dropWhile isJsonSpace with
        | ':' :: r =>
          match readValue fuel r with
          | none => none
          | some (v, r) =>
            match r.dropWhile isJsonSpace with
            | '\x7d' :: r' => some ([(k, v)], r')
            | ',' :: r' => (readMembers fuel r').map fun p => ((k, v) :: p.1, p.2)
            | _ => none
        | _ => none
    | _ => none

end

/-- `JSON.parse(text)`; every two nested calls leave a character behind. -/
def parse (s : Text) : Option (Json ν) :=
  match readValue N (2 * s.length + 2) s with
  | some (v, r) => if r.all isJsonSpace then some v else none
  | none => none

end

/-! ## 4. A string is read back -/

theorem hexValue_hexChar : ∀ n < 16, hexValue (hexChar n) = some n := by decide

section

-- the lemmas below all want the equations of `readPieces`, which are slow to make
attribute [local simp] readPieces

theorem readPieces_plain {c : Char} (h1 : c ≠ '"') (h2 : c ≠ '\\') (h3 : ¬ c.toNat < 32) (s : Text) :
    readPieces (c :: s) = (readPieces s).map fun p => (.char c :: p.1, p.2) := by
  rw [readPieces.eq_def]
  split
  · rename_i e
    cases e
  · rename_i e
    injection e with e
    exact absurd e h1
  · rename_i e
    injection e with e
    exact absurd e h2
  · rename_i e
    injection e with e
    exact absurd e h2
  · rename_i c' r _ _ _ e
    injection e with e1 e2
    subst e1
    subst e2
    rw [if_neg (by rintro (h | h); exacts [h3 h, h2 h])]
    cases readPieces s <;> rfl

/-- An escape of one character. -/
theorem readPieces_escaped {e c : Char} (h : escaped e = some c) (s : Text) :
    readPieces ('\\' :: e :: s) = (readPieces s).map fun p => (.char c :: p.1, p.2) := by
  have hu : e ≠ 'u' := by
    rintro rfl
    have hn : escaped 'u' = none := by decide
    rw [hn] at h
    cases h
  rw [readPieces.eq_def]
  split
  · rename_i e'
    cases e'
  · rename_i e'
    injection e' with e'
    exact absurd e' (by decide)
  · rename_i e'
    injection e' with _ e'
    injection e' with e'
    exact absurd e' hu
  · rename_i e₁ r _ e'
    injection e' with _ e'
    injection e' with e1 e2
    subst e1
    subst e2
    rw [h]
    cases readPieces s <;> rfl
  · rename_i c' r hne₁ hne₂ hne₃ e'
    injection e' with e1 e2
    exact absurd e1.symm (fun e => hne₃ _ _ e e2.symm)

/-- An escape of four digits. -/
theorem readPieces_hex {n : Nat} (h : n < 32) (s : Text) :
    readPieces ('\\' :: 'u' :: '0' :: '0' :: hexChar (n / 16) :: hexChar (n % 16) :: s) =
      (readPieces s).map fun p => (.char (Char.ofNat n) :: p.1, p.2) := by
  have h1 := hexValue_hexChar (n / 16) (by omega)
  have h2 := hexValue_hexChar (n % 16) (by omega)
  have h0 : hexValue '0' = some 0 := by decide
  have hv : ((0 * 16 + 0) * 16 + n / 16) * 16 + n % 16 = n := by omega
  have h4 : hexValue4 '0' '0' (hexChar (n / 16)) (hexChar (n % 16)) = some n := by
    simp only [hexValue4, h0, h1, h2, Option.bind_eq_bind, Option.bind_some, hv]
  have hp : Piece.ofUnit n = .char (Char.ofNat n) := if_neg (by omega)
  rw [readPieces]
  simp only [h4, hp, Option.bind_eq_bind, Option.bind_some]
  cases readPieces s <;> rfl

theorem readPieces_quoteChar (c : Char) (s : Text) :
    readPieces (quoteChar c ++ s) = (readPieces s).map fun p => (.char c :: p.1, p.2) := by
  unfold quoteChar
  split
  · subst_vars; exact readPieces_escaped (by decide) s
  split
  · subst_vars; exact readPieces_escaped (by decide) s
  split
  · rename_i h
    have hc : c = Char.ofNat 8 := by rw [← h, Char.ofNat_toNat]
    subst hc
    exact readPieces_escaped (by decide) s
  split
  · subst_vars; exact readPieces_escaped (by decide) s
  split
  · subst_vars; exact readPieces_escaped (by decide) s
  split
  · rename_i h
    have hc : c = Char.ofNat 12 := by rw [← h, Char.ofNat_toNat]
    subst hc
    exact readPieces_escaped (by decide) s
  split
  · subst_vars; exact readPieces_escaped (by decide) s
  split
  · rename_i h
    have := readPieces_hex h s
    rwa [Char.ofNat_toNat] at this
  · rename_i h1 h2 _ _ _ _ _ h
    exact readPieces_plain h1 h2 h s

/-- **A quoted string is read back.** -/
theorem readString_quote (s r : Text) : readString (s.flatMap quoteChar ++ '"' :: r) = some (s, r) := by
  have h : readPieces (s.flatMap quoteChar ++ '"' :: r) = some (s.map .char, r) := by
    induction s with
    | nil => rw [flatMap_nil, nil_append, readPieces]; rfl
    | cons c s ih =>
      rw [flatMap_cons, append_assoc, readPieces_quoteChar, ih]
      rfl
  have hj : ∀ s : Text, joinPieces (s.map .char) = s := by
    intro s
    induction s with
    | nil => rfl
    | cons c s ih => rw [map_cons, joinPieces, ih]
  rw [readString, h, Option.map_some, hj]

end

/-! ## 5. Members with distinct keys -/

theorem putMember_new {α : Type} {o : List (Text × α)} {k : Text} (h : k ∉ o.map Prod.fst) (v : α) :
    putMember o k v = o ++ [(k, v)] := by
  induction o with
  | nil => rfl
  | cons m o ih =>
    simp only [map_cons, mem_cons, not_or] at h
    rw [putMember, if_neg (fun e => h.1 e.symm), ih h.2, cons_append]

theorem ofMembers_nodup {α : Type} {ms : List (Text × α)} (h : (ms.map Prod.fst).Nodup) :
    ofMembers ms = ms := by
  have key : ∀ (ms o : List (Text × α)), ((o ++ ms).map Prod.fst).Nodup →
      ms.foldl (fun o m => putMember o m.1 m.2) o = o ++ ms := by
    intro ms
    induction ms with
    | nil => intro o _; rw [foldl_nil, append_nil]
    | cons m ms ih =>
      intro o ho
      have hm : m.1 ∉ o.map Prod.fst := by
        rw [map_append, map_cons] at ho
        exact fun hmem => (nodup_append.mp ho).2.2 _ hmem _ mem_cons_self rfl
      rw [foldl_cons, putMember_new hm, ih _ (by simpa using ho), append_assoc]
      rfl
  exact key ms [] h

/-! ## 6. A value is read back -/

section

variable {ν : Type} (N : Numbers ν)

mutual

/-- Objects have distinct keys and numbers are printed exactly. -/
def Json.Proper : Json ν → Prop
  | .num n => N.Exact n
  | .arr items => ProperItems items
  | .obj members => (members.map Prod.fst).Nodup ∧ ProperMembers members
  | _ => True

def ProperItems : List (Json ν) → Prop
  | [] => True
  | v :: vs => v.Proper ∧ ProperItems vs

def ProperMembers : List (Text × Json ν) → Prop
  | [] => True
  | (_, v) :: ms => v.Proper ∧ ProperMembers ms

end

variable {N}

/-- What may stand behind a value: a number must end there. -/
def Ends (r : Text) : Prop := ∀ c r', r = c :: r' → isNumberChar c = false

theorem ends_nil : Ends [] := nofun

theorem ends_cons {c : Char} {r : Text} (h : isNumberChar c = false) : Ends (c :: r) := by
  intro c' r' e
  injection e with e _
  rwa [← e]

/-- The first character of a number. -/
theorem number_head {t : Text} (h : isNumber t = true) :
    ∃ c r, t = c :: r ∧ (c.isDigit || c == '-') = true := by
  cases t with
  | nil => exact absurd h (by decide)
  | cons c r =>
    refine ⟨c, r, rfl, ?_⟩
    by_cases hc : c = '-'
    · subst hc; decide
    · have hne : (c :: r).head? ≠ some '-' := by simpa using hc
      rw [isNumber, if_neg hne] at h
      simp only at h
      split at h
      · rename_i e; subst e; decide
      · obtain ⟨hd, -⟩ := Bool.and_eq_true_iff.mp h
        rw [hd]
        rfl

theorem digit_or_minus_ne {c : Char} (h : (c.isDigit || c == '-') = true) :
    isJsonSpace c = false ∧ c ≠ 'n' ∧ c ≠ 't' ∧ c ≠ 'f' ∧ c ≠ '"' ∧ c ≠ '[' ∧ c ≠ '\x7b' ∧ c ≠ ']' := by
  have hd : ∀ n < 58, ((Char.ofNat n).isDigit || Char.ofNat n == '-') = true →
      isJsonSpace (Char.ofNat n) = false ∧ Char.ofNat n ≠ 'n' ∧ Char.ofNat n ≠ 't' ∧
        Char.ofNat n ≠ 'f' ∧ Char.ofNat n ≠ '"' ∧ Char.ofNat n ≠ '[' ∧ Char.ofNat n ≠ '\x7b' ∧
        Char.ofNat n ≠ ']' := by decide
  have hlt : c.toNat < 58 := by
    rcases Bool.or_eq_true_iff.mp h with h | h
    · have h9 : '9'.toNat = 57 := by decide
      simp only [Char.isDigit, Bool.and_eq_true, decide_eq_true_eq, UInt32.le_iff_toNat_le] at h
      have := h.2
      norm_num at this
      exact Nat.lt_succ_of_le this
    · rw [beq_iff_eq] at h
      subst h
      decide
  have := hd c.toNat hlt
  rw [Char.ofNat_toNat] at this
  exact this h

/-- The first character of a written value. -/
theorem stringify_head (v : Json ν) :
    ∃ c t, stringify N v = c :: t ∧ isJsonSpace c = false ∧ c ≠ ']' := by
  cases v with
  | null => exact ⟨'n', "ull".toList, by rw [stringify]; rfl, by decide, by decide⟩
  | bool b => cases b with
    | true => exact ⟨'t', "rue".toList, by rw [stringify]; rfl, by decide, by decide⟩
    | false => exact ⟨'f', "alse".toList, by rw [stringify]; rfl, by decide, by decide⟩
  | num n =>
    rw [stringify]
    split
    · rename_i h
      obtain ⟨c, r, e, hc⟩ := number_head (N.number_text n h)
      exact ⟨c, r, e, (digit_or_minus_ne hc).1, (digit_or_minus_ne hc).2.2.2.2.2.2.2⟩
    · exact ⟨'n', "ull".toList, rfl, by decide, by decide⟩
  | str s => exact ⟨'"', _, by rw [stringify]; rfl, by decide, by decide⟩
  | arr items => exact ⟨'[', _, by rw [stringify], by decide, by decide⟩
  | obj members => exact ⟨'\x7b', _, by rw [stringify], by decide, by decide⟩

/-- **A printed number is read** as the number its text denotes, where a number may end. -/
theorem readNumber_printed {n : ν} (h : N.finite n = true) {r : Text} (hr : Ends r) :
    readNumber N (N.text n ++ r) = some (.num (N.read (N.text n)), r) := by
  have hall : ∀ c ∈ N.text n, isNumberChar c = true := all_eq_true.mp (N.chars_text n h)
  have hends : r.takeWhile isNumberChar = [] ∧ r.dropWhile isNumberChar = r := by
    cases r with
    | nil => exact ⟨rfl, rfl⟩
    | cons c r =>
      have hc : ¬ isNumberChar c = true := by rw [hr c r rfl]; exact Bool.false_ne_true
      exact ⟨takeWhile_cons_of_neg hc, dropWhile_cons_of_neg hc⟩
  have htake : (N.text n ++ r).takeWhile isNumberChar = N.text n := by
    rw [takeWhile_append_of_pos hall, hends.1, append_nil]
  have hdrop : (N.text n ++ r).dropWhile isNumberChar = r := by
    rw [dropWhile_append_of_pos hall, hends.2]
  rw [readNumber]
  simp only [htake, hdrop, N.number_text n h, ↓reduceIte]

theorem quote_append (k r : Text) : quote k ++ r = '"' :: (k.flatMap quoteChar ++ '"' :: r) := by
  rw [quote, cons_append, append_assoc]
  rfl

/-! What one call of the reader does. -/

section

variable {fuel : Nat} {s u r t : Text} {k : Text} {v : Json ν} {vs : List (Json ν)}
  {ms : List (Text × Json ν)}

theorem readValue_number {n : ν} (h : N.finite n = true) (fuel : Nat) (hr : Ends r) :
    readValue N (fuel + 1) (N.text n ++ r) = some (.num (N.read (N.text n)), r) := by
  obtain ⟨c, t, e, hc⟩ := number_head (N.number_text n h)
  obtain ⟨h0, h1, h2, h3, h4, h5, h6, -⟩ := digit_or_minus_ne hc
  have hnum := readNumber_printed h hr
  rw [e, cons_append] at hnum ⊢
  rw [readValue, dropWhile_cons_of_neg (by rw [h0]; exact Bool.false_ne_true)]
  simp only [if_neg h1, if_neg h2, if_neg h3, if_neg h4, if_neg h5, if_neg h6, if_pos hc]
  exact hnum

theorem readValue_array {c : Char} (hs : s.dropWhile isJsonSpace = c :: t) (hne : c ≠ ']')
    (hitems : readItems N fuel s = some (vs, r)) :
    readValue N (fuel + 1) ('[' :: s) = some (.arr vs, r) := by
  rw [readValue, dropWhile_cons_of_neg (by decide)]
  simp only [Char.reduceEq, ↓reduceIte]
  rw [hitems, hs]
  split
  · rename_i e
    injection e with e _
    exact absurd e hne
  · rfl

theorem readValue_object (hs : s.dropWhile isJsonSpace = '"' :: t)
    (hmembers : readMembers N fuel s = some (ms, r)) (hms : (ms.map Prod.fst).Nodup) :
    readValue N (fuel + 1) ('\x7b' :: s) = some (.obj ms, r) := by
  rw [readValue, dropWhile_cons_of_neg (by decide)]
  simp only [Char.reduceEq, ↓reduceIte]
  rw [hmembers, hs, Option.map_some, ofMembers_nodup hms]
  rfl

theorem readItems_last (hv : readValue N fuel s = some (v, u))
    (hu : u.dropWhile isJsonSpace = ']' :: r) : readItems N (fuel + 1) s = some ([v], r) := by
  rw [readItems, hv]
  simp only
  rw [hu]
  rfl

theorem readItems_more (hv : readValue N fuel s = some (v, u))
    (hu : u.dropWhile isJsonSpace = ',' :: t) (hrest : readItems N fuel t = some (vs, r)) :
    readItems N (fuel + 1) s = some (v :: vs, r) := by
  rw [readItems, hv]
  simp only
  rw [hu]
  simp only
  rw [hrest]
  rfl

/-- A key is read, and the value behind its colon. -/
theorem readMembers_key (hv : readValue N fuel s = some (v, u)) :
    readMembers N (fuel + 1) (quote k ++ ':' :: s) =
      match u.dropWhile isJsonSpace with
      | '\x7d' :: r' => some ([(k, v)], r')
      | ',' :: r' => (readMembers N fuel r').map fun p => ((k, v) :: p.1, p.2)
      | _ => none := by
  rw [quote_append, readMembers, dropWhile_cons_of_neg (by decide)]
  simp only [readString_quote]
  rw [dropWhile_cons_of_neg (by decide)]
  simp only
  rw [hv]

theorem readMembers_last (hv : readValue N fuel s = some (v, u))
    (hu : u.dropWhile isJsonSpace = '\x7d' :: r) :
    readMembers N (fuel + 1) (quote k ++ ':' :: s) = some ([(k, v)], r) := by
  rw [readMembers_key hv, hu]
  rfl

theorem readMembers_more (hv : readValue N fuel s = some (v, u))
    (hu : u.dropWhile isJsonSpace = ',' :: t) (hrest : readMembers N fuel t = some (ms, r)) :
    readMembers N (fuel + 1) (quote k ++ ':' :: s) = some ((k, v) :: ms, r) := by
  rw [readMembers_key hv, hu]
  simp only
  rw [hrest]
  rfl

end

mutual

/-- **A written value is read back**, whatever follows it that a number may end before. -/
theorem readValue_stringify : ∀ (v : Json ν), v.Proper N → ∀ (fuel : Nat) (r : Text),
    2 * (stringify N v).length ≤ fuel → Ends r →
      readValue N fuel (stringify N v ++ r) = some (v, r)
  | v, hp, 0, r, hf, _ => by
    obtain ⟨c, t, e, -⟩ := stringify_head (N := N) v
    rw [e] at hf
    simp at hf
  | .null, _, fuel + 1, r, _, _ => by rw [stringify, readValue]; rfl
  | .bool true, _, fuel + 1, r, _, _ => by rw [stringify, readValue]; rfl
  | .bool false, _, fuel + 1, r, _, _ => by rw [stringify, readValue]; rfl
  | .num n, hp, fuel + 1, r, _, hr => by
    have hfin := N.finite_of_exact n hp
    rw [stringify, if_pos hfin, readValue_number hfin fuel hr, N.read_text n hp]
  | .str s, _, fuel + 1, r, _, _ => by
    rw [stringify, quote_append, readValue, dropWhile_cons_of_neg (by decide)]
    simp only [Char.reduceEq, ↓reduceIte, readString_quote, Option.map_some]
  | .arr [], _, fuel + 1, r, _, _ => by rw [stringify, stringifyItems, readValue]; rfl
  | .arr (v :: vs), hp, fuel + 1, r, hf, _ => by
    rw [Json.Proper] at hp
    rw [stringify] at hf ⊢
    have hitems := readItems_stringify v vs hp fuel r (by simp at hf; omega)
    obtain ⟨c, t, e, hc, hne⟩ : ∃ c t, stringifyItems N (v :: vs) ++ ']' :: r = c :: t ∧
        isJsonSpace c = false ∧ c ≠ ']' := by
      obtain ⟨c, t, e, hc, hne⟩ := stringify_head (N := N) v
      cases vs with
      | nil => exact ⟨c, t ++ ']' :: r, by rw [stringifyItems, e, cons_append], hc, hne⟩
      | cons w vs =>
        exact ⟨c, _, by rw [stringifyItems, e, cons_append, cons_append], hc, hne⟩
    rw [cons_append, append_assoc, singleton_append]
    refine readValue_array (t := t) ?_ hne hitems
    rw [e, dropWhile_cons_of_neg (by rw [hc]; exact Bool.false_ne_true)]
  | .obj [], _, fuel + 1, r, _, _ => by rw [stringify, stringifyMembers, readValue]; rfl
  | .obj ((k, v) :: ms), hp, fuel + 1, r, hf, _ => by
    rw [Json.Proper] at hp
    rw [stringify] at hf ⊢
    have hmembers := readMembers_stringify k v ms hp.2 fuel r (by simp at hf; omega)
    obtain ⟨t, e⟩ : ∃ t, stringifyMembers N ((k, v) :: ms) ++ '\x7d' :: r = '"' :: t := by
      cases ms with
      | nil => exact ⟨_, by rw [stringifyMembers, quote, cons_append, cons_append]⟩
      | cons w ms => exact ⟨_, by rw [stringifyMembers, quote, cons_append, cons_append]⟩
    rw [cons_append, append_assoc, singleton_append]
    refine readValue_object (t := t) ?_ hmembers hp.1
    rw [e, dropWhile_cons_of_neg (by decide)]
termination_by _ _ fuel => fuel

theorem readItems_stringify : ∀ (v : Json ν) (vs : List (Json ν)), ProperItems N (v :: vs) →
    ∀ (fuel : Nat) (r : Text), 2 * (stringifyItems N (v :: vs)).length + 1 ≤ fuel →
      readItems N fuel (stringifyItems N (v :: vs) ++ ']' :: r) = some (v :: vs, r)
  | _, _, _, 0, _, hf => absurd hf (Nat.not_succ_le_zero _)
  | v, [], hp, fuel + 1, r, hf => by
    rw [ProperItems] at hp
    rw [stringifyItems] at hf ⊢
    exact readItems_last (readValue_stringify v hp.1 fuel _ (by omega) (ends_cons (by decide))) rfl
  | v, w :: vs, hp, fuel + 1, r, hf => by
    rw [ProperItems] at hp
    rw [stringifyItems] at hf ⊢
    simp only [length_append, length_cons] at hf
    rw [append_assoc, cons_append]
    exact readItems_more (readValue_stringify v hp.1 fuel _ (by omega) (ends_cons (by decide))) rfl
      (readItems_stringify w vs hp.2 fuel r (by omega))
termination_by _ _ _ fuel => fuel

theorem readMembers_stringify : ∀ (k : Text) (v : Json ν) (ms : List (Text × Json ν)),
    ProperMembers N ((k, v) :: ms) →
    ∀ (fuel : Nat) (r : Text), 2 * (stringifyMembers N ((k, v) :: ms)).length + 1 ≤ fuel →
      readMembers N fuel (stringifyMembers N ((k, v) :: ms) ++ '\x7d' :: r) = some ((k, v) :: ms, r)
  | _, _, _, _, 0, _, hf => absurd hf (Nat.not_succ_le_zero _)
  | k, v, [], hp, fuel + 1, r, hf => by
    rw [ProperMembers] at hp
    rw [stringifyMembers] at hf ⊢
    simp only [length_append, length_cons] at hf
    rw [append_assoc, cons_append]
    exact readMembers_last (readValue_stringify v hp.1 fuel _ (by omega) (ends_cons (by decide))) rfl
  | k, v, (k', w) :: ms, hp, fuel + 1, r, hf => by
    rw [ProperMembers] at hp
    rw [stringifyMembers] at hf ⊢
    simp only [length_append, length_cons] at hf
    rw [append_assoc, cons_append, append_assoc, cons_append]
    exact readMembers_more (readValue_stringify v hp.1 fuel _ (by omega) (ends_cons (by decide))) rfl
      (readMembers_stringify k' w ms hp.2 fuel r (by omega))
termination_by _ _ _ _ fuel => fuel

end

/-- **What was written is read back.** -/
theorem parse_stringify {v : Json ν} (h : v.Proper N) : parse N (stringify N v) = some v := by
  have hread := readValue_stringify v h (2 * (stringify N v).length + 2) [] (by omega) ends_nil
  rw [append_nil] at hread
  rw [parse, hread]
  rfl

end

/-! ## 7. Whole numbers -/

theorem digit_of_mem_toDigits {n : Nat} {c : Char} (h : c ∈ Nat.toDigits 10 n) :
    c.isDigit = true := Nat.isDigit_of_mem_toDigits (by decide) (by decide) h

/-- The digits of a positive number do not begin with a zero. -/
theorem toDigits_head {n : Nat} (h : 0 < n) : ∃ d ds, Nat.toDigits 10 n = d :: ds ∧ d ≠ '0' := by
  induction n using Nat.strongRecOn with
  | ind n ih =>
    by_cases hn : n < 10
    · rw [Nat.toDigits_of_lt_base hn]
      refine ⟨_, _, rfl, ?_⟩
      have : ∀ k < 10, 0 < k → Nat.digitChar k ≠ '0' := by decide
      exact this n hn h
    · rw [Nat.toDigits_of_base_le (by decide) (by omega)]
      obtain ⟨d, ds, e, hd⟩ := ih (n / 10) (by omega) (by omega)
      exact ⟨d, ds ++ [Nat.digitChar (n % 10)], by rw [e]; rfl, hd⟩

theorem isNumber_toDigits (n : Nat) : isNumber (Nat.toDigits 10 n) = true := by
  rcases Nat.eq_zero_or_pos n with rfl | h
  · decide
  · obtain ⟨d, ds, e, hd⟩ := toDigits_head h
    have hall : ∀ c ∈ d :: ds, c.isDigit = true := fun c hc =>
      digit_of_mem_toDigits (by rw [e]; exact hc)
    have hm : d ≠ '-' := by
      rintro rfl
      exact absurd (hall '-' mem_cons_self) (by decide)
    have hds : ds.dropWhile Char.isDigit = [] :=
      dropWhile_eq_nil_iff.mpr fun c hc => hall c (mem_cons_of_mem _ hc)
    rw [e, isNumber, if_neg (by simpa using hm)]
    simp only [if_neg hd, hds, hall d mem_cons_self, Bool.true_and]
    rfl

/-- The natural numbers, in decimal. -/
def natNumbers : Numbers Nat where
  text := Nat.toDigits 10
  read t := Nat.ofDigitChars 10 t 0
  finite _ := true
  Exact _ := True
  finite_of_exact _ _ := rfl
  number_text n _ := isNumber_toDigits n
  chars_text n _ := all_eq_true.mpr fun c hc => by
    rw [isNumberChar, digit_of_mem_toDigits hc]
    rfl
  read_text _ _ := Nat.ofDigitChars_ten_toDigits

end Veesker.Format
