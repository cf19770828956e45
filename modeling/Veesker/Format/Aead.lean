/-
  File:      Veesker/Format/Aead.lean
  Subject:   IDEAL CIPHERS: what is assumed of an authenticated cipher and of a key agreement.

  * `Aead` -- encryption with associated data, as two functions that may refuse.
  * `Aead.Ideal` -- decryption gives back exactly what was encrypted, a ciphertext belongs to one
    key, one nonce and one associated data, and no two ciphertexts differ in a single byte.
  * `KeyAgreement` -- private keys, their public keys and the secret two parties share.
  * `overtAead`, `overtAgreement` -- functions that meet these laws (and hide nothing), so that the
    laws are satisfiable.

  Nothing here names the repository.
-/
import Veesker.Format.Bytes

namespace Veesker.Format

open List

/-! ## 1. Authenticated ciphers -/

/-- A cipher; the arguments are key, nonce, associated data and text, and none stands for a
    refusal. -/
structure Aead where
  keyBytes : Nat
  nonceBytes : Nat
  encrypt : Bytes → Bytes → Bytes → Bytes → Option Bytes
  decrypt : Bytes → Bytes → Bytes → Bytes → Option Bytes

/-- A nonce as the generator of random bytes gives it. -/
structure Aead.Nonce (A : Aead) where
  bytes : Bytes
  length_bytes : bytes.length = A.nonceBytes

/-- The two strings differ in one byte and in no other. -/
def OneByteApart (a b : Bytes) : Prop :=
  ∃ u x y v, a = u ++ x :: v ∧ b = u ++ y :: v ∧ x ≠ y

/-- The ideal cipher. -/
structure Aead.Ideal (A : Aead) : Prop where
  encrypts : ∀ key nonce aad plain, key.length = A.keyBytes → nonce.length = A.nonceBytes →
    ∃ c, A.encrypt key nonce aad plain = some c
  /-- What decrypts is what was encrypted. -/
  exact : ∀ key nonce aad c plain,
    A.decrypt key nonce aad c = some plain ↔ A.encrypt key nonce aad plain = some c
  /-- A ciphertext is of one key, one nonce and one associated data. -/
  binds : ∀ key nonce aad plain key' nonce' aad' plain' c,
    A.encrypt key nonce aad plain = some c → A.encrypt key' nonce' aad' plain' = some c →
      key = key' ∧ nonce = nonce' ∧ aad = aad'
  /-- No single byte of a ciphertext can be changed so that it stays one. -/
  apart : ∀ key nonce aad plain key' nonce' aad' plain' c c',
    A.encrypt key nonce aad plain = some c → A.encrypt key' nonce' aad' plain' = some c' →
      ¬ OneByteApart c c'
  grows : ∀ key nonce aad plain c,
    A.encrypt key nonce aad plain = some c → plain.length ≤ c.length

namespace Aead.Ideal

variable {A : Aead} (hA : A.Ideal) {key key' nonce nonce' aad aad' plain plain' c c' : Bytes}

include hA

theorem decrypt_encrypt (h : A.encrypt key nonce aad plain = some c) :
    A.decrypt key nonce aad c = some plain := (hA.exact key nonce aad c plain).mpr h

/-- **Only under its own key, nonce and associated data does a ciphertext decrypt.** -/
theorem eq_of_decrypt (h : A.encrypt key nonce aad plain = some c)
    (h' : A.decrypt key' nonce' aad' c = some plain') :
    key' = key ∧ nonce' = nonce ∧ aad' = aad ∧ plain' = plain := by
  have he := (hA.exact key' nonce' aad' c plain').mp h'
  obtain ⟨rfl, rfl, rfl⟩ := hA.binds _ _ _ _ _ _ _ _ _ he h
  have hp := h'.symm.trans (hA.decrypt_encrypt h)
  exact ⟨rfl, rfl, rfl, Option.some.inj hp⟩

/-- **A ciphertext with one byte changed does not decrypt**, whatever the key. -/
theorem not_decrypt_of_apart (h : A.encrypt key nonce aad plain = some c) (ha : OneByteApart c c') :
    A.decrypt key' nonce' aad' c' ≠ some plain' :=
  fun h' => hA.apart _ _ _ _ _ _ _ _ _ _ h ((hA.exact key' nonce' aad' c' plain').mp h') ha

end Aead.Ideal

/-! ## 2. Key agreement -/

structure KeyAgreement where
  publicBytes : Nat
  /-- The public key of a private one. -/
  base : Bytes → Option Bytes
  /-- The secret of a private key and another's public key. -/
  agree : Bytes → Bytes → Option Bytes

/-- The two sides of an agreement come to the same secret. -/
structure KeyAgreement.Ideal (K : KeyAgreement) : Prop where
  agrees : ∀ a b pa pb, K.base a = some pa → K.base b = some pb →
    ∃ s, K.agree a pb = some s ∧ K.agree b pa = some s
  length_base : ∀ a pa, K.base a = some pa → pa.length = K.publicBytes

/-! ## 3. Functions that meet the laws -/

/-- Each byte twice. -/
def twice (bs : Bytes) : Bytes := bs.flatMap fun b => [b, b]

/-- What `twice` made, undone. -/
def half : Bytes → Option Bytes
  | [] => some []
  | [_] => none
  | a :: b :: bs => if a = b then (half bs).map (a :: ·) else none

/-- A string that says itself where it ends. -/
def framed (bs : Bytes) : Bytes := bs.flatMap (fun b => [1, b]) ++ [0]

theorem half_twice (bs : Bytes) : half (twice bs) = some bs := by
  induction bs with
  | nil => rfl
  | cons b bs ih =>
    show half (b :: b :: twice bs) = _
    rw [half, if_pos rfl, ih]
    rfl

theorem twice_half : ∀ {c bs : Bytes}, half c = some bs → twice bs = c
  | [], bs, h => by
    cases h
    rfl
  | [_], bs, h => absurd h nofun
  | a :: b :: cs, bs, h => by
    rw [half] at h
    split at h
    · rename_i hab
      obtain ⟨r, hr, rfl⟩ := Option.map_eq_some_iff.mp h
      show a :: a :: twice r = a :: b :: cs
      rw [twice_half hr, hab]
    · cases h

theorem length_twice (bs : Bytes) : (twice bs).length = 2 * bs.length := by
  induction bs with
  | nil => rfl
  | cons b bs ih =>
    show (b :: b :: twice bs).length = _
    rw [length_cons, length_cons, ih, length_cons]
    omega

theorem twice_apart (s t : Bytes) : ¬ OneByteApart (twice s) (twice t) := by
  rintro ⟨u, x, y, v, hs, ht, hne⟩
  induction s generalizing t u with
  | nil => exact absurd (congrArg List.length hs) (by simp [twice])
  | cons b s ih =>
    have hs : b :: b :: twice s = u ++ x :: v := hs
    cases t with
    | nil => exact absurd (congrArg List.length ht) (by simp [twice])
    | cons c t =>
      have ht : c :: c :: twice t = u ++ y :: v := ht
      match u, hs, ht with
      | [], hs, ht =>
        simp only [nil_append, List.cons.injEq] at hs ht
        obtain ⟨rfl, hv⟩ := hs
        obtain ⟨rfl, hv'⟩ := ht
        exact hne (List.cons.inj (hv.trans hv'.symm)).1
      | [u0], hs, ht =>
        simp only [singleton_append, List.cons.injEq] at hs ht
        obtain ⟨rfl, rfl, -⟩ := hs
        obtain ⟨rfl, rfl, -⟩ := ht
        exact hne rfl
      | u0 :: u1 :: u, hs, ht =>
        simp only [cons_append, List.cons.injEq] at hs ht
        exact ih t u hs.2.2 ht.2.2

theorem framed_inj {a b r s : Bytes} (h : framed a ++ r = framed b ++ s) : a = b ∧ r = s := by
  induction a generalizing b with
  | nil =>
    cases b with
    | nil => exact ⟨rfl, (List.cons.inj h).2⟩
    | cons y b => exact absurd (List.cons.inj h).1 (by decide)
  | cons x a ih =>
    cases b with
    | nil => exact absurd (List.cons.inj h).1 (by decide)
    | cons y b =>
      have h : 1 :: x :: (framed a ++ r) = 1 :: y :: (framed b ++ s) := h
      simp only [List.cons.injEq, true_and] at h
      obtain ⟨rfl, hab⟩ := h
      obtain ⟨rfl, hr⟩ := ih hab
      exact ⟨rfl, hr⟩

/-- What stands before the text in `overtAead`'s ciphertexts. -/
def overtHead (key nonce aad : Bytes) : Bytes := framed key ++ (framed nonce ++ framed aad)

theorem overtHead_inj {k n a p k' n' a' p' : Bytes}
    (h : overtHead k n a ++ p = overtHead k' n' a' ++ p') : k = k' ∧ n = n' ∧ a = a' ∧ p = p' := by
  simp only [overtHead, append_assoc] at h
  obtain ⟨hk, h⟩ := framed_inj h
  obtain ⟨hn, h⟩ := framed_inj h
  obtain ⟨ha, hp⟩ := framed_inj h
  exact ⟨hk, hn, ha, hp⟩

/-- A cipher that writes down key, nonce, associated data and text, each byte twice. -/
def overtAead (keyBytes nonceBytes : Nat) : Aead where
  keyBytes
  nonceBytes
  encrypt key nonce aad plain :=
    if key.length = keyBytes ∧ nonce.length = nonceBytes then
      some (twice (overtHead key nonce aad ++ plain))
    else none
  decrypt key nonce aad c :=
    if key.length = keyBytes ∧ nonce.length = nonceBytes then
      (half c).bind fun s =>
        if overtHead key nonce aad <+: s then some (s.drop (overtHead key nonce aad).length)
        else none
    else none

theorem encrypt_overtAead {kb nb : Nat} {k n a p c : Bytes} :
    (overtAead kb nb).encrypt k n a p = some c ↔
      (k.length = kb ∧ n.length = nb) ∧ c = twice (overtHead k n a ++ p) := by
  simp only [overtAead, Option.ite_none_right_eq_some, Option.some.injEq]
  exact and_congr_right fun _ => eq_comm

/-- **The laws of an ideal cipher are satisfiable.** -/
theorem overtAead_ideal (kb nb : Nat) : (overtAead kb nb).Ideal where
  encrypts k n a p hk hn := ⟨_, encrypt_overtAead.mpr ⟨⟨hk, hn⟩, rfl⟩⟩
  exact k n a c p := by
    rw [encrypt_overtAead]
    simp only [overtAead, Option.ite_none_right_eq_some, Option.bind_eq_some_iff]
    refine and_congr_right fun _ => ⟨?_, ?_⟩
    · rintro ⟨s, hs, ⟨r, rfl⟩, hp⟩
      rw [drop_left, Option.some.injEq] at hp
      rw [← hp, twice_half hs]
    · rintro rfl
      exact ⟨_, half_twice _, prefix_append _ _, by rw [drop_left]⟩
  binds k n a p k' n' a' p' c h h' := by
    have e := (encrypt_overtAead.mp h).2.symm.trans (encrypt_overtAead.mp h').2
    have e' := congrArg half e
    rw [half_twice, half_twice] at e'
    obtain ⟨hk, hn, ha, -⟩ := overtHead_inj (Option.some.inj e')
    exact ⟨hk, hn, ha⟩
  apart k n a p k' n' a' p' c c' h h' := by
    rw [(encrypt_overtAead.mp h).2, (encrypt_overtAead.mp h').2]
    exact twice_apart _ _
  grows k n a p c h := by
    rw [(encrypt_overtAead.mp h).2, length_twice, length_append]
    omega

/-- An agreement that adds the two keys byte by byte. -/
def overtAgreement (w : Nat) : KeyAgreement where
  publicBytes := w
  base a := if a.length = w then some a else none
  agree a b := if a.length = w ∧ b.length = w then some (List.zipWith (· + ·) a b) else none

theorem overtAgreement_ideal (w : Nat) : (overtAgreement w).Ideal where
  agrees a b pa pb ha hb := by
    simp only [overtAgreement, Option.ite_none_right_eq_some, Option.some.injEq] at ha hb ⊢
    obtain ⟨ha, rfl⟩ := ha
    obtain ⟨hb, rfl⟩ := hb
    exact ⟨_, ⟨⟨ha, hb⟩, rfl⟩, ⟨hb, ha⟩, zipWith_comm_of_comm UInt8.add_comm⟩
  length_base a pa ha := by
    simp only [overtAgreement, Option.ite_none_right_eq_some, Option.some.injEq] at ha
    obtain ⟨ha, rfl⟩ := ha
    exact ha

end Veesker.Format
