/-
  File:      Veesker/Vsk/Frames.lean
  Subject:   WHAT THE LOOP OVER THE DATA SECTION ACCEPTS.

  A section is accepted exactly when it is a row of blocks as the writer lays them out, each with
  a name the reader takes (`dataLoop_accepts`), and the tables loaded are those blocks' payloads.

  1. Names: what passes `checkTableName` holds no line end and is encoded as it was read.
  2. `readFrame_ok_iff`: one round reads exactly one block at the start of what is left.
  3. The loop: enough rounds, and the run as a row of blocks.
-/
import Veesker.Vsk.Plain

namespace Veesker.Vsk

open Format List

/-! ## 1. Names -/

/-- A name the reader takes. -/
def isTableName (name : Text) : Bool :=
  if isSystemName name then isSystemSuffix (name.drop SYSTEM_TABLE_PREFIX.length)
  else VSK_TABLE_NAME_RE name

variable {name : Text}

theorem assertValidTableName_ok_iff :
    assertValidTableName name = .ok () ↔ VSK_TABLE_NAME_RE name = true := by
  unfold assertValidTableName
  split
  · rename_i h; exact ⟨fun _ => h, fun _ => rfl⟩
  · rename_i h; exact ⟨nofun, fun h' => absurd h' h⟩

theorem checkTableName_ok_iff {p : Nat} :
    checkTableName p name = .ok () ↔ isTableName name = true := by
  unfold checkTableName isTableName
  split
  · rename_i h
    subst h
    exact ⟨nofun, fun h => absurd h (by decide)⟩
  split
  · split
    · rename_i h; exact ⟨fun _ => h, fun _ => rfl⟩
    · rename_i h; exact ⟨nofun, fun h' => absurd h' h⟩
  · exact assertValidTableName_ok_iff

/-- A character whose lower case begins with a letter of the prefix becomes just that letter. -/
theorem lowerChar_prefix {c w : Char} {t : Text} (hw : w ∈ SYSTEM_TABLE_PREFIX)
    (h : lowerChar c = w :: t) : t = [] := by
  unfold lowerChar at h
  split at h
  · injection h with _ h
    exact h.symm
  · unfold lowerPoint at h
    split at h
    · rw [map_cons] at h
      injection h with h _
      exact absurd (h ▸ hw) (by decide)
    split at h
    · rw [map_cons] at h
      injection h with _ h
      exact h.symm
    · rw [map_cons] at h
      injection h with _ h
      exact h.symm

/-- A text whose lower case begins with such letters begins with as many characters, each with
    one of the letters as its lower case. -/
theorem startsWith_lower {w s : Text} (hw : ∀ c ∈ w, c ∈ SYSTEM_TABLE_PREFIX)
    (h : startsWith (toLowerCase s) w = true) :
    ∃ u r, s = u ++ r ∧ u.length = w.length ∧ ∀ c ∈ u, ∃ x ∈ w, lowerChar c = [x] := by
  induction w generalizing s with
  | nil => exact ⟨[], s, rfl, rfl, nofun⟩
  | cons x w ih =>
    obtain ⟨r, e⟩ := startsWith_iff.mp h
    cases s with
    | nil => cases e
    | cons c s =>
      rw [toLowerCase_cons] at e
      have hne : lowerChar c ≠ [] := by
        unfold lowerChar
        split
        · exact cons_ne_nil _ _
        · unfold lowerPoint
          split
          · exact cons_ne_nil _ _
          · split <;> exact cons_ne_nil _ _
      cases hc : lowerChar c with
      | nil => exact absurd hc hne
      | cons y t =>
        rw [hc, cons_append, cons_append] at e
        injection e with e1 e2
        subst e1
        have ht := lowerChar_prefix (hw _ mem_cons_self) hc
        subst ht
        obtain ⟨u, r', rfl, hlen, hu⟩ := ih (s := s) (fun d hd => hw d (mem_cons_of_mem _ hd))
          (startsWith_iff.mpr ⟨r, e2⟩)
        refine ⟨c :: u, r', rfl, by rw [length_cons, length_cons, hlen], fun d hd => ?_⟩
        rcases mem_cons.mp hd with rfl | hd
        · exact ⟨y, mem_cons_self, hc⟩
        · obtain ⟨z, hz, he⟩ := hu d hd
          exact ⟨z, mem_cons_of_mem _ hz, he⟩

/-- **A name the reader takes holds neither a line end nor a replacement character.** -/
theorem isTableName_clean (h : isTableName name = true) :
    '\n' ∉ name ∧ replacement ∉ name := by
  have hplain : ∀ {n : Nat} {s : Text}, isName n s = true → '\n' ∉ s ∧ replacement ∉ s := by
    intro n s hs
    exact ⟨fun hm => absurd (isName_chars hs _ hm) (by decide),
      fun hm => absurd (isName_chars hs _ hm) (by decide)⟩
  unfold isTableName at h
  split at h
  · rename_i hsys
    obtain ⟨u, r, rfl, hlen, hu⟩ := startsWith_lower (fun c hc => hc) hsys
    rw [← hlen, drop_left] at h
    have hr := hplain h
    have hnew : ∀ d ∈ u, ∀ x, lowerChar d = [x] → x ∈ SYSTEM_TABLE_PREFIX →
        d ≠ '\n' ∧ d ≠ replacement := by
      intro d _ x hx hmem
      constructor
      · rintro rfl
        have : lowerChar '\n' = ['\n'] := by decide
        rw [this] at hx
        injection hx with hx _
        exact absurd (hx ▸ hmem) (by decide)
      · rintro rfl
        have : lowerChar replacement = [replacement] := by decide
        rw [this] at hx
        injection hx with hx _
        exact absurd (hx ▸ hmem) (by decide)
    constructor
    · intro hm
      rcases mem_append.mp hm with hm | hm
      · obtain ⟨x, hx, e⟩ := hu _ hm
        exact (hnew _ hm x e hx).1 rfl
      · exact hr.1 hm
    · intro hm
      rcases mem_append.mp hm with hm | hm
      · obtain ⟨x, hx, e⟩ := hu _ hm
        exact (hnew _ hm x e hx).2 rfl
      · exact hr.2 hm
  · exact hplain h

/-! ## 2. One block -/

def tagBytes : Bytes := utf8Bytes TABLE_TAG_PREFIX

theorem tagBytes_eq : utf8Bytes TABLE_TAG_PREFIX = tagBytes := rfl

theorem length_tagBytes : tagBytes.length = 13 := by decide

theorem newline_not_mem_tagBytes : (10 : UInt8) ∉ tagBytes := by decide

theorem newline_not_mem_name (h : isTableName name = true) :
    (10 : UInt8) ∉ utf8Bytes name :=
  fun hm => (isTableName_clean h).1 (mem_utf8Bytes_ascii hm (by decide))

theorem encodeFrame_eq (name : Text) (payload : Bytes) :
    encodeFrame name payload =
      (tagBytes ++ utf8Bytes name) ++ (10 :: (leBytes 8 payload.length ++ payload)) := by
  rw [encodeFrame, utf8Bytes_append, utf8Bytes_append, tagBytes,
    show utf8Bytes ['\n'] = [10] from rfl]
  simp only [append_assoc, singleton_append]

theorem length_encodeFrame (name : Text) (payload : Bytes) :
    (encodeFrame name payload).length = 13 + (utf8Bytes name).length + 9 + payload.length := by
  rw [encodeFrame_eq]
  simp only [length_append, length_cons, length_leBytes, length_tagBytes]
  omega

/-- The first line end stands behind what holds none. -/
theorem findIdx?_newline {a : Bytes} (ha : (10 : UInt8) ∉ a) (r : Bytes) :
    (a ++ 10 :: r).findIdx? (· == 10) = some a.length := by
  rw [List.findIdx?_eq_some_iff_getElem]
  refine ⟨by simp, by simp, fun j hj => ?_⟩
  rw [getElem_append_left hj]
  intro he
  rw [beq_iff_eq] at he
  exact ha (he ▸ getElem_mem hj)

theorem findIdx?_newline_some {l : Bytes} {k : Nat} (h : l.findIdx? (· == 10) = some k) :
    ∃ a r, l = a ++ 10 :: r ∧ a.length = k ∧ (10 : UInt8) ∉ a := by
  rw [List.findIdx?_eq_some_iff_getElem] at h
  obtain ⟨hk, he, hlt⟩ := h
  refine ⟨l.take k, l.drop (k + 1), ?_, by rw [length_take]; omega, fun hm => ?_⟩
  · rw [beq_iff_eq] at he
    rw [← he, getElem_cons_drop, take_append_drop]
  · obtain ⟨j, hj, e⟩ := getElem_of_mem hm
    rw [length_take] at hj
    rw [getElem_take] at e
    exact hlt j (by omega) (by rw [e]; rfl)

section

variable {buf : Bytes} {dataEnd p : Nat}

theorem subarray_of_section (buf : Bytes) (dataEnd p k n : Nat) (h : p + k + n ≤ dataEnd) :
    subarray buf (p + k) (p + k + n) = ((subarray buf p dataEnd).drop k).take n := by
  unfold subarray
  rw [drop_take, take_take, drop_drop]
  congr 1
  omega

theorem getUint_of_section (buf : Bytes) (dataEnd p k : Nat) (h : p + k + 8 ≤ dataEnd) :
    getUint buf (p + k) 8 = leNat (((subarray buf p dataEnd).drop k).take 8) := by
  unfold getUint subarray
  rw [drop_take, take_take, drop_drop, Nat.min_eq_left (by omega)]

theorem length_section (hd : dataEnd ≤ buf.length) :
    (subarray buf p dataEnd).length = dataEnd - p := by
  unfold subarray
  rw [length_take, length_drop]
  omega

theorem section_isPrefix : subarray buf p dataEnd <+: buf.drop p := List.take_prefix _ _

/-- **A round on a section that begins with a block reads that block.** -/
theorem readFrame_encodeFrame (hd : dataEnd ≤ buf.length) {payload rest : Bytes}
    (hname : isTableName name = true) (hsize : payload.length < 2 ^ 64)
    (hsec : subarray buf p dataEnd = encodeFrame name payload ++ rest) :
    readFrame buf dataEnd p = .ok (name, payload, p + (encodeFrame name payload).length) := by
  have hlen := length_section (p := p) hd
  rw [hsec, length_append, length_encodeFrame] at hlen
  obtain ⟨k, hk⟩ : ∃ k, (tagBytes ++ utf8Bytes name).length = k := ⟨_, rfl⟩
  have hk' : k = 13 + (utf8Bytes name).length := by
    rw [← hk, length_append, length_tagBytes]
  have hsec' : subarray buf p dataEnd =
      (tagBytes ++ utf8Bytes name) ++ (10 :: (leBytes 8 payload.length ++ (payload ++ rest))) := by
    rw [hsec, encodeFrame_eq]
    simp only [append_assoc, cons_append]
  have htag : tagBytes <+: buf.drop p :=
    (prefix_iff_eq_append.mpr (by rw [hsec']; simp [append_assoc])).trans section_isPrefix
  have hnew : newlineFrom buf p (min buf.length dataEnd) = some (p + k) := by
    rw [newlineFrom, Nat.min_eq_right hd, hsec', findIdx?_newline, hk, Option.map_some]
    rw [mem_append]
    exact fun h => h.elim newline_not_mem_tagBytes (newline_not_mem_name hname)
  have hsub : subarray buf p (p + k) = utf8Bytes (TABLE_TAG_PREFIX ++ name) := by
    have := subarray_of_section buf dataEnd p 0 k (by omega)
    rw [Nat.add_zero, drop_zero] at this
    rw [this, hsec', ← hk, take_left, utf8Bytes_append, tagBytes]
  have htext : (decodeText (utf8Bytes (TABLE_TAG_PREFIX ++ name))).drop TABLE_TAG_PREFIX.length =
      name := by
    rw [show TABLE_TAG_PREFIX ++ name = '_' :: (TABLE_TAG_PREFIX.tail ++ name) from rfl,
      decodeText_utf8Bytes (by decide)]
    exact drop_left
  have hskip : (subarray buf p dataEnd).drop (k + 1) =
      leBytes 8 payload.length ++ (payload ++ rest) := by
    rw [hsec', ← hk, drop_append, drop_eq_nil_of_le (by omega), nil_append]
    rw [show (tagBytes ++ utf8Bytes name).length + 1 - (tagBytes ++ utf8Bytes name).length = 1 by omega]
    rfl
  have huint : getUint buf (p + k + 1) 8 = payload.length := by
    rw [Nat.add_assoc, getUint_of_section buf dataEnd p _ (by omega), hskip,
      take_append_of_le_length (by rw [length_leBytes]),
      take_of_length_le (by rw [length_leBytes]), leNat_leBytes (by norm_num at hsize ⊢; exact hsize)]
  have hpay : subarray buf (p + k + 1 + 8) (p + k + 1 + 8 + payload.length) = payload := by
    have := subarray_of_section buf dataEnd p (k + 9) payload.length (by omega)
    rw [show p + k + 1 + 8 = p + (k + 9) by omega, this,
      show k + 9 = (k + 1) + 8 by omega, ← drop_drop, hskip, drop_append,
      drop_eq_nil_of_le (by rw [length_leBytes]), length_leBytes, nil_append,
      Nat.sub_self, drop_zero, take_left]
  rw [readFrame]
  simp only [tagBytes_eq, length_tagBytes]
  rw [if_neg (by omega), if_neg (not_not.mpr htag), hnew]
  simp only [hsub, htext, checkTableName_ok_iff.mpr hname, huint]
  rw [if_neg (by omega), if_neg (by omega), hpay, length_encodeFrame]
  simp only [Bind.bind, Except.bind]
  congr 3
  omega

/-- **A round reads the block its section begins with.** -/
theorem readFrame_ok (hp : p < dataEnd) (hd : dataEnd ≤ buf.length) {payload : Bytes}
    {next : Nat} (h : readFrame buf dataEnd p = .ok (name, payload, next)) :
    isTableName name = true ∧ payload.length < 2 ^ 64 ∧
      (∃ rest, subarray buf p dataEnd = encodeFrame name payload ++ rest) ∧
      next = p + (encodeFrame name payload).length := by
  rw [readFrame] at h
  simp only [tagBytes_eq] at h
  split at h
  · cases h
  rename_i hlong
  split at h
  · cases h
  rename_i htag
  rw [not_not] at htag
  cases hnew : newlineFrom buf p (min buf.length dataEnd) with
  | none => rw [hnew] at h; cases h
  | some idx =>
    rw [hnew] at h
    simp only at h
    rw [newlineFrom, Nat.min_eq_right hd] at hnew
    obtain ⟨k, hfind, rfl⟩ := Option.map_eq_some_iff.mp hnew
    obtain ⟨a, r, hsec, ha, hno⟩ := findIdx?_newline_some hfind
    have hlen := length_section (p := p) hd
    rw [hsec, length_append, length_cons, ha] at hlen
    -- the tag lies inside the section, for the section holds a line end and the tag none
    obtain ⟨nb, rfl⟩ : ∃ nb, a = tagBytes ++ nb := by
      have hpre : a ++ [10] <+: buf.drop p :=
        (prefix_iff_eq_append.mpr (by rw [hsec]; simp)).trans section_isPrefix
      rcases prefix_or_prefix_of_prefix htag ((prefix_append a [10]).trans hpre) with h1 | h1
      · exact ⟨_, (prefix_iff_eq_append.mp h1).symm⟩
      · rcases prefix_or_prefix_of_prefix htag hpre with h2 | h2
        · rcases prefix_concat_iff.mp h2 with e | h3
          · have hm : (10 : UInt8) ∈ tagBytes := by rw [e]; exact mem_append_right a mem_cons_self
            exact absurd hm newline_not_mem_tagBytes
          · exact ⟨_, (prefix_iff_eq_append.mp h3).symm⟩
        · exact absurd (h2.subset (mem_append_right a mem_cons_self))
            newline_not_mem_tagBytes
    have hsub : subarray buf p (p + k) = tagBytes ++ nb := by
      have := subarray_of_section buf dataEnd p 0 k (by omega)
      rw [Nat.add_zero, drop_zero] at this
      rw [this, hsec, ← ha, take_left]
    have htext : (decodeText (tagBytes ++ nb)).drop TABLE_TAG_PREFIX.length = utf8Text nb := by
      rw [tagBytes, show TABLE_TAG_PREFIX = '_' :: TABLE_TAG_PREFIX.tail from rfl,
        decodeText_ascii (by decide)]
      exact drop_left
    rw [hsub, htext] at h
    cases hck : checkTableName p (utf8Text nb) with
    | error e => rw [hck] at h; cases h
    | ok u =>
      rw [hck] at h
      simp only [Bind.bind, Except.bind] at h
      have hname := checkTableName_ok_iff.mp hck
      have hnb := utf8Bytes_utf8Text nb (isTableName_clean hname).2
      split at h
      · cases h
      rename_i h8
      split at h
      · cases h
      rename_i hsize
      simp only [Except.ok.injEq, Prod.mk.injEq] at h
      obtain ⟨rfl, rfl, rfl⟩ := h
      have hskip : (subarray buf p dataEnd).drop (k + 1) = r := by
        rw [hsec, ← ha, drop_append, drop_eq_nil_of_le (by omega), nil_append,
          show (tagBytes ++ nb).length + 1 - (tagBytes ++ nb).length = 1 by omega]
        rfl
      have huint : getUint buf (p + k + 1) 8 = leNat (r.take 8) := by
        rw [Nat.add_assoc, getUint_of_section buf dataEnd p _ (by omega), hskip]
      rw [huint] at hsize ⊢
      have htake : (r.take 8).length = 8 := by rw [length_take]; omega
      have hlt := leNat_lt (r.take 8)
      rw [htake] at hlt
      have hpay : subarray buf (p + k + 1 + 8) (p + k + 1 + 8 + leNat (r.take 8)) =
          (r.drop 8).take (leNat (r.take 8)) := by
        have := subarray_of_section buf dataEnd p (k + 9) (leNat (r.take 8)) (by omega)
        rw [show p + k + 1 + 8 = p + (k + 9) by omega, this, show k + 9 = (k + 1) + 8 by omega,
          ← drop_drop, hskip]
      rw [hpay]
      have hplen : ((r.drop 8).take (leNat (r.take 8))).length = leNat (r.take 8) := by
        rw [length_take, length_drop]
        omega
      refine ⟨hname, by rw [hplen]; norm_num at hlt ⊢; exact hlt,
        ⟨(r.drop 8).drop (leNat (r.take 8)), ?_⟩, ?_⟩
      · rw [hsec, encodeFrame_eq, hnb, hplen]
        have h8b := leBytes_leNat (r.take 8)
        rw [htake] at h8b
        rw [h8b]
        simp only [append_assoc, cons_append, take_append_drop]
      · rw [length_encodeFrame, hnb, hplen]
        rw [length_append, length_tagBytes] at ha
        omega

end

/-! ## 3. The loop -/

/-- A block of a data section. -/
structure Frame where
  name : Text
  payload : Bytes
  deriving DecidableEq

def Frame.encode (f : Frame) : Bytes := encodeFrame f.name f.payload

/-- A name the reader takes and a size that fits its field. -/
structure Frame.Valid (f : Frame) : Prop where
  name : isTableName f.name = true
  size : f.payload.length < 2 ^ 64

theorem Frame.length_encode (f : Frame) : 22 ≤ f.encode.length := by
  rw [Frame.encode, length_encodeFrame]
  omega

section

variable {σ ν : Type} (D : DuckDBHost σ) (manifest : Json ν) (replace : Bool)

/-- One block is loaded and passed. -/
def loadOne (st : Loading σ) (f : Frame) : Except Failure (Loading σ) :=
  (st.load D manifest replace f.name f.payload).map fun st' =>
    { st' with p := st.p + f.encode.length }

/-- The blocks are loaded one after the other. -/
def loadAll (fs : List Frame) (st : Loading σ) : Except Failure (Loading σ) :=
  fs.foldlM (loadOne D manifest replace) st

variable {D manifest replace} {buf : Bytes} {dataEnd : Nat}

theorem loadOne_p {st st' : Loading σ} {f : Frame} (h : loadOne D manifest replace st f = .ok st') :
    st'.p = st.p + f.encode.length := by
  unfold loadOne at h
  cases hl : st.load D manifest replace f.name f.payload with
  | error e => rw [hl] at h; cases h
  | ok s =>
    rw [hl] at h
    simp only [Except.map, Except.ok.injEq] at h
    rw [← h]

/-- **A round that goes well** loads the block its section begins with. -/
theorem loadFrame_ok_iff {st st' : Loading σ} (hp : st.p < dataEnd) (hd : dataEnd ≤ buf.length) :
    loadFrame D manifest replace buf dataEnd st = .ok st' ↔
      ∃ f : Frame, f.Valid ∧ (∃ rest, subarray buf st.p dataEnd = f.encode ++ rest) ∧
        loadOne D manifest replace st f = .ok st' := by
  constructor
  · intro h
    rw [loadFrame] at h
    cases hr : readFrame buf dataEnd st.p with
    | error e => rw [hr] at h; cases h
    | ok r =>
      obtain ⟨name, payload, next⟩ := r
      rw [hr] at h
      obtain ⟨hname, hsize, hsec, hnext⟩ := readFrame_ok hp hd hr
      refine ⟨⟨name, payload⟩, ⟨hname, hsize⟩, hsec, ?_⟩
      unfold loadOne
      simp only [Bind.bind, Except.bind] at h
      cases hl : st.load D manifest replace name payload with
      | error e => rw [hl] at h; cases h
      | ok s =>
        rw [hl] at h
        simp only [Except.ok.injEq] at h
        rw [← h, hnext]
        rfl
  · rintro ⟨f, hf, ⟨rest, hsec⟩, h⟩
    rw [loadFrame, readFrame_encodeFrame hd hf.name hf.size hsec]
    unfold loadOne at h
    simp only [Bind.bind, Except.bind]
    cases hl : st.load D manifest replace f.name f.payload with
    | error e => rw [hl] at h; cases h
    | ok s =>
      rw [hl] at h
      exact h

/-- What is left of a section behind a block. -/
theorem section_rest {p : Nat} {a rest : Bytes} (h : subarray buf p dataEnd = a ++ rest) :
    subarray buf (p + a.length) dataEnd = rest := by
  unfold subarray at h ⊢
  rw [← drop_drop, show dataEnd - (p + a.length) = dataEnd - p - a.length by omega,
    ← drop_take, h, drop_left]

/-- **The loop ends**: as many rounds as bytes are left are enough. -/
theorem dataLoop_isSome (hd : dataEnd ≤ buf.length) (rounds : Nat) (st : Loading σ)
    (h : dataEnd ≤ st.p + rounds) :
    (dataLoop D manifest replace buf dataEnd rounds st).isSome = true := by
  induction rounds generalizing st with
  | zero => rw [dataLoop, if_neg (by omega)]; rfl
  | succ rounds ih =>
    rw [dataLoop]
    split
    · rename_i hp
      cases hl : loadFrame D manifest replace buf dataEnd st with
      | error e => rfl
      | ok st' =>
        obtain ⟨f, -, -, hone⟩ := (loadFrame_ok_iff hp hd).mp hl
        have := loadOne_p hone
        have := f.length_encode
        exact ih st' (by omega)
    · rfl

/-- **A section made of blocks** is loaded block by block. -/
theorem dataLoop_frames (hd : dataEnd ≤ buf.length) {fs : List Frame} (hfs : ∀ f ∈ fs, f.Valid)
    (rounds : Nat) (st : Loading σ) (hp : st.p ≤ dataEnd) (h : dataEnd ≤ st.p + rounds)
    (hsec : subarray buf st.p dataEnd = fs.flatMap Frame.encode) :
    dataLoop D manifest replace buf dataEnd rounds st = some (loadAll D manifest replace fs st) := by
  have hlen := length_section (p := st.p) hd
  rw [hsec] at hlen
  induction fs generalizing st rounds with
  | nil =>
    rw [flatMap_nil, length_nil] at hlen
    cases rounds with
    | zero => rw [dataLoop, if_neg (by omega)]; rfl
    | succ rounds => rw [dataLoop, if_neg (by omega)]; rfl
  | cons f fs ih =>
    have hf := hfs f mem_cons_self
    have hfl := f.length_encode
    rw [flatMap_cons] at hsec hlen
    rw [length_append] at hlen
    obtain ⟨rounds, rfl⟩ : ∃ k, rounds = k + 1 := ⟨rounds - 1, by omega⟩
    rw [dataLoop, if_pos (by omega), loadAll, foldlM_cons, loadFrame,
      readFrame_encodeFrame hd hf.name hf.size hsec]
    simp only [Bind.bind, Except.bind]
    rw [loadOne]
    cases hl : st.load D manifest replace f.name f.payload with
    | error e => rfl
    | ok s =>
      simp only [Except.map]
      have hrest := section_rest hsec
      exact ih (fun g hg => hfs g (mem_cons_of_mem _ hg)) rounds
        { s with p := st.p + f.encode.length } (by simp only; omega) (by simp only; omega) hrest
        (by simp only; omega)

/-- **A run of the loop that goes well** is a section made of blocks, loaded in their order. -/
theorem dataLoop_ok_iff (hd : dataEnd ≤ buf.length) (rounds : Nat) (st st' : Loading σ)
    (hp : st.p ≤ dataEnd) (h : dataEnd ≤ st.p + rounds) :
    dataLoop D manifest replace buf dataEnd rounds st = some (.ok st') ↔
      ∃ fs : List Frame, (∀ f ∈ fs, f.Valid) ∧
        subarray buf st.p dataEnd = fs.flatMap Frame.encode ∧
        loadAll D manifest replace fs st = .ok st' := by
  constructor
  · intro e
    have hlen := length_section (p := st.p) hd
    induction rounds generalizing st with
    | zero =>
      rw [dataLoop, if_neg (by omega)] at e
      simp only [Option.some.injEq, Except.ok.injEq] at e
      refine ⟨[], nofun, eq_nil_of_length_eq_zero (by rw [hlen]; omega), by rw [← e]; rfl⟩
    | succ rounds ih =>
      rw [dataLoop] at e
      split at e
      · rename_i hlt
        cases hl : loadFrame D manifest replace buf dataEnd st with
        | error e' => rw [hl] at e; exact absurd e (by simp)
        | ok st₁ =>
          rw [hl] at e
          obtain ⟨f, hf, ⟨rest, hsec⟩, hone⟩ := (loadFrame_ok_iff hlt hd).mp hl
          have hp₁ := loadOne_p hone
          have hfl := f.length_encode
          have hsl := congrArg List.length hsec
          rw [hlen, length_append] at hsl
          obtain ⟨fs, hfs, hrest, hall⟩ := ih st₁ (by omega) (by omega) e (length_section hd)
          rw [hp₁, section_rest hsec] at hrest
          refine ⟨f :: fs, fun g hg => ?_, by rw [hsec, hrest, flatMap_cons], ?_⟩
          · rcases mem_cons.mp hg with rfl | hg
            · exact hf
            · exact hfs g hg
          · rw [loadAll, foldlM_cons, hone]
            exact hall
      · rename_i hge
        simp only [Option.some.injEq, Except.ok.injEq] at e
        refine ⟨[], nofun, eq_nil_of_length_eq_zero (by rw [hlen]; omega), by rw [← e]; rfl⟩
  · rintro ⟨fs, hfs, hsec, hall⟩
    rw [dataLoop_frames hd hfs rounds st hp h hsec, hall]

variable (D manifest replace)

/-- **What the loop accepts.** It ends; it goes well exactly when the section is a row of blocks as
    the writer lays them out, filling it, and the database takes their payloads in that order. -/
theorem dataLoop_accepts (buf : Bytes) (dataOffset dataLength : Nat) (dst : σ)
    (h : dataOffset + dataLength ≤ buf.length) :
    (dataLoop D manifest replace buf (dataOffset + dataLength) dataLength
      { p := dataOffset, dst }).isSome = true ∧
    ∀ st', dataLoop D manifest replace buf (dataOffset + dataLength) dataLength
        { p := dataOffset, dst } = some (.ok st') ↔
      ∃ fs : List Frame, (∀ f ∈ fs, f.Valid) ∧
        subarray buf dataOffset (dataOffset + dataLength) = fs.flatMap Frame.encode ∧
        loadAll D manifest replace fs { p := dataOffset, dst } = .ok st' :=
  ⟨dataLoop_isSome h _ _ le_rfl, fun st' => dataLoop_ok_iff h _ _ st' (Nat.le_add_right _ _) le_rfl⟩

end

/-- A database that takes every statement. -/
def anyHost : DuckDBHost Unit where
  openInMemory := ()
  exec _ _ := .ok ()
  tableExists _ _ := .ok false
  copyToParquet _ _ := .ok []

theorem dataLoop_accepts_one :
    (dataLoop anyHost (Json.null (ν := Unit)) false (encodeFrame ['T'] []) (0 + 23) 23
      { p := 0, dst := () }).isSome = true :=
  (dataLoop_accepts anyHost (Json.null (ν := Unit)) false (encodeFrame ['T'] []) 0 23 ()
    (by decide)).1

/-- **The loop looks past the section**: two files with one section of one byte are refused for
    different reasons. **And no length stands before a name**: a section that is accepted does not
    read as tag, length, name, size, payload. -/
theorem dataLoop_outside :
    (∃ buf₁ buf₂ : Bytes, subarray buf₁ 0 1 = subarray buf₂ 0 1 ∧
      dataLoop anyHost (Json.null (ν := Unit)) false buf₁ 1 1 { p := 0, dst := () } ≠
        dataLoop anyHost (Json.null (ν := Unit)) false buf₂ 1 1 { p := 0, dst := () }) ∧
    ∃ buf : Bytes, (∃ st, dataLoop anyHost (Json.null (ν := Unit)) false buf buf.length buf.length
        { p := 0, dst := () } = some (.ok st)) ∧
      ∀ (w : Nat) (name size payload : Bytes), 1 ≤ w → size.length = 8 →
        buf ≠ tagBytes ++ (leBytes w name.length ++ (name ++ (size ++ payload))) := by
  refine ⟨⟨[0x5F], 0x5F :: List.replicate 20 0, rfl, ?_⟩, encodeFrame ['T'] [], ⟨_, rfl⟩, ?_⟩
  · have h₁ : dataLoop anyHost (Json.null (ν := Unit)) false [0x5F] 1 1 { p := 0, dst := () } =
        some (.error (.format "TRUNCATED".toList
          ("vsk: data section truncated at offset ".toList ++ natText 0))) := rfl
    have h₂ : dataLoop anyHost (Json.null (ν := Unit)) false (0x5F :: List.replicate 20 0) 1 1
        { p := 0, dst := () } = some (.error (.format "BAD_TAG".toList
          ("vsk: malformed data section at offset ".toList ++ natText 0 ++
            " (expected table tag)".toList))) := rfl
    rw [h₁, h₂]
    intro e
    simp only [Option.some.injEq, Except.error.injEq, Failure.format.injEq] at e
    exact absurd e.1 (by decide)
  · intro w name size payload hw hsize e
    rw [encodeFrame_eq, append_assoc] at e
    have e' := append_cancel_left e
    obtain ⟨w, rfl⟩ : ∃ v, w = v + 1 := ⟨w - 1, by omega⟩
    rw [leBytes, cons_append] at e'
    have hhead : (84 : UInt8) = UInt8.ofNat name.length := (List.cons.inj e').1
    have h84 := congrArg UInt8.toNat hhead
    rw [toNat_ofNat_byte] at h84
    have hlen := congrArg List.length e'
    simp only [length_append, length_cons, length_leBytes, hsize] at hlen
    have : (utf8Bytes ['T']).length = 1 := rfl
    have : (84 : UInt8).toNat = 84 := rfl
    simp only [length_nil] at hlen
    omega

end Veesker.Vsk
