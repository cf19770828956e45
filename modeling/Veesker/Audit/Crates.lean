/-
  File:      Veesker/Audit/Crates.lean
  Subject:   WHAT THE AUDIT LOG TAKES FROM OTHER PACKAGES, and its JSON objects.

  The host's HMAC, its cipher, its JSON reader and writer and the letters of its regular expressions
  are code of other packages. They are the fields of `Crates`; what their documentation promises,
  and a result needs, is a hypothesis of that result.
-/
import Veesker.Text.Rust

namespace Veesker.Audit

/-! ## 1. JSON -/

/-- `serde_json::Value`; a number that is not an integer by its text. -/
inductive Value where
  | null
  | bool (b : Bool)
  | int (n : Int)
  | float (n : Text)
  | string (s : Text)
  | array (l : List Value)
  | object (l : List (Text × Value))

/-- `Value::as_str`. -/
def Value.asStr : Value → Option Text
  | .string s => some s
  | _ => none

/-- An optional string, as `json!` writes it. -/
def Value.ofOption (s : Option Text) : Value := s.elim .null .string

/-- `serde_json::Map`: a `BTreeMap`, by its keys in order. -/
abbrev Obj := List (Text × Value)

def Obj.get (o : Obj) (k : Text) : Option Value := (o.find? fun f => f.1 == k).map Prod.snd

def Obj.insert : Obj → Text → Value → Obj
  | [], k, v => [(k, v)]
  | (k', v') :: o, k, v =>
    if k = k' then (k, v) :: o
    else if k < k' then (k, v) :: (k', v') :: o
    else (k', v') :: Obj.insert o k v

def Obj.remove (o : Obj) (k : Text) : Obj := o.filter fun f => f.1 != k

/-- `json!({ … })`. -/
def Obj.ofFields (fields : List (Text × Value)) : Obj :=
  fields.foldl (fun o f => o.insert f.1 f.2) []

/-- The string under a key. -/
def Obj.getStr (o : Obj) (k : Text) : Option Text := (o.get k).bind Value.asStr

theorem Obj.get_insert (o : Obj) (k : Text) (v : Value) (k' : Text) :
    (o.insert k v).get k' = if k = k' then some v else o.get k' := by
  induction o with
  | nil => by_cases h : k = k' <;> simp [Obj.insert, Obj.get, h]
  | cons f o ih =>
    obtain ⟨k₁, v₁⟩ := f
    unfold Obj.insert
    by_cases h₁ : k = k₁
    · subst h₁
      rw [if_pos rfl]
      by_cases h : k = k' <;> simp [Obj.get, h]
    · rw [if_neg h₁]
      split
      · by_cases h : k = k' <;> simp [Obj.get, h]
      · by_cases h' : k₁ = k'
        · subst h'
          simp [Obj.get, h₁]
        · have hget : ∀ o' : Obj, Obj.get ((k₁, v₁) :: o') k' = Obj.get o' k' := fun o' => by
            simp [Obj.get, h']
          rw [hget, hget, ih]

/-- **Removing a key that was put in** leaves the object there was. -/
theorem Obj.remove_insert {o : Obj} {k : Text} (h : o.get k = none) (v : Value) :
    (o.insert k v).remove k = o := by
  have hkeep : ∀ {o : Obj}, o.get k = none → o.remove k = o := fun {o} h => by
    refine List.filter_eq_self.mpr fun f hf => ?_
    unfold Obj.get at h
    rw [Option.map_eq_none_iff, List.find?_eq_none] at h
    simpa using h f hf
  induction o with
  | nil => simp [Obj.insert, Obj.remove]
  | cons f o ih =>
    obtain ⟨k₁, v₁⟩ := f
    have hne : k₁ ≠ k := by
      rintro rfl
      simp [Obj.get] at h
    have ho : Obj.get o k = none := by
      simpa [Obj.get, hne] using h
    unfold Obj.insert
    rw [if_neg (Ne.symm hne)]
    split
    · unfold Obj.remove
      rw [List.filter_cons_of_neg (by simp)]
      exact hkeep h
    · unfold Obj.remove at ih ⊢
      rw [List.filter_cons_of_pos (by simpa using hne), ih ho]

/-! ## 2. The other packages -/

/-- A key: its bytes. -/
abbrev Key := List UInt8

structure Crates where
  /-- `regex`: the class `\w` -/
  isWord : Char → Bool
  /-- `hmac` with `sha2`: the digest of a message under a key -/
  hmacSha256 : Key → Text → List UInt8
  /-- `aes_gcm` and `base64`: what stands behind the prefix of an encrypted line, under a key and
      with a nonce, and what is read from it -/
  encrypt : Key → Text → Text → Option Text
  decrypt : Key → Text → Option Text
  /-- `serde_json`: an object's text, and the object a text is read as -/
  toString : Obj → Text
  fromStr : Text → Option Obj

end Veesker.Audit
