/-
  File:      Veesker/Text/Upper.lean
  Subject:   `toUpperCase`, character by character.

  The source compares keywords after `toUpperCase`, which maps every character of Unicode, some
  of them to several characters and a few of them INTO the ASCII letters (the dotless i, the
  long s, the ligatures). The map is context free, so a text is mapped one character at a time.
  Characters that are not in either table stay as they are.

  Main results: `toUpperCase_ascii` (on ASCII it is the usual map), `upperChar_foreign` (what a
  character outside ASCII becomes holds no white space, no punctuation and no lower-case
  letter), and the same for whole texts.
-/
import Veesker.Text.Js

namespace Veesker

open List

/-! ## 1. The tables -/

/-- The characters outside ASCII with one upper-case character, in runs `(first, last, step,
    offset)`: every `step`-th code point from `first` to `last` moves by `offset`. -/
def upperRuns : List (Nat × Nat × Nat × Int) :=
  [(181, 181, 1, 743), (224, 246, 1, -32), (248, 254, 1, -32), (255, 255, 1, 121),
   (257, 303, 2, -1), (305, 305, 1, -232), (307, 311, 2, -1), (314, 328, 2, -1),
   (331, 375, 2, -1), (378, 382, 2, -1), (383, 383, 1, -300), (384, 384, 1, 195),
   (387, 389, 2, -1), (392, 392, 1, -1), (396, 396, 1, -1), (402, 402, 1, -1),
   (405, 405, 1, 97), (409, 409, 1, -1), (410, 410, 1, 163), (414, 414, 1, 130),
   (417, 421, 2, -1), (424, 424, 1, -1), (429, 429, 1, -1), (432, 432, 1, -1),
   (436, 438, 2, -1), (441, 441, 1, -1), (445, 445, 1, -1), (447, 447, 1, 56),
   (453, 453, 1, -1), (454, 454, 1, -2), (456, 456, 1, -1), (457, 457, 1, -2),
   (459, 459, 1, -1), (460, 460, 1, -2), (462, 476, 2, -1), (477, 477, 1, -79),
   (479, 495, 2, -1), (498, 498, 1, -1), (499, 499, 1, -2), (501, 501, 1, -1),
   (505, 543, 2, -1), (547, 563, 2, -1), (572, 572, 1, -1), (575, 576, 1, 10815),
   (578, 578, 1, -1), (583, 591, 2, -1), (592, 592, 1, 10783), (593, 593, 1, 10780),
   (594, 594, 1, 10782), (595, 595, 1, -210), (596, 596, 1, -206), (598, 599, 1, -205),
   (601, 601, 1, -202), (603, 603, 1, -203), (604, 604, 1, 42319), (608, 608, 1, -205),
   (609, 609, 1, 42315), (611, 611, 1, -207), (613, 613, 1, 42280), (614, 614, 1, 42308),
   (616, 616, 1, -209), (617, 617, 1, -211), (618, 618, 1, 42308), (619, 619, 1, 10743),
   (620, 620, 1, 42305), (623, 623, 1, -211), (625, 625, 1, 10749), (626, 626, 1, -213),
   (629, 629, 1, -214), (637, 637, 1, 10727), (640, 640, 1, -218), (642, 642, 1, 42307),
   (643, 643, 1, -218), (647, 647, 1, 42282), (648, 648, 1, -218), (649, 649, 1, -69),
   (650, 651, 1, -217), (652, 652, 1, -71), (658, 658, 1, -219), (669, 669, 1, 42261),
   (670, 670, 1, 42258), (837, 837, 1, 84), (881, 883, 2, -1), (887, 887, 1, -1),
   (891, 893, 1, 130), (940, 940, 1, -38), (941, 943, 1, -37), (945, 961, 1, -32),
   (962, 962, 1, -31), (963, 971, 1, -32), (972, 972, 1, -64), (973, 974, 1, -63),
   (976, 976, 1, -62), (977, 977, 1, -57), (981, 981, 1, -47), (982, 982, 1, -54),
   (983, 983, 1, -8), (985, 1007, 2, -1), (1008, 1008, 1, -86), (1009, 1009, 1, -80),
   (1010, 1010, 1, 7), (1011, 1011, 1, -116), (1013, 1013, 1, -96), (1016, 1016, 1, -1),
   (1019, 1019, 1, -1), (1072, 1103, 1, -32), (1104, 1119, 1, -80), (1121, 1153, 2, -1),
   (1163, 1215, 2, -1), (1218, 1230, 2, -1), (1231, 1231, 1, -15), (1233, 1327, 2, -1),
   (1377, 1414, 1, -48), (4304, 4346, 1, 3008), (4349, 4351, 1, 3008), (5112, 5117, 1, -8),
   (7296, 7296, 1, -6254), (7297, 7297, 1, -6253), (7298, 7298, 1, -6244),
   (7299, 7300, 1, -6242), (7301, 7301, 1, -6243), (7302, 7302, 1, -6236),
   (7303, 7303, 1, -6181), (7304, 7304, 1, 35266), (7545, 7545, 1, 35332),
   (7549, 7549, 1, 3814), (7566, 7566, 1, 35384), (7681, 7829, 2, -1), (7835, 7835, 1, -59),
   (7841, 7935, 2, -1), (7936, 7943, 1, 8), (7952, 7957, 1, 8), (7968, 7975, 1, 8),
   (7984, 7991, 1, 8), (8000, 8005, 1, 8), (8017, 8023, 2, 8), (8032, 8039, 1, 8),
   (8048, 8049, 1, 74), (8050, 8053, 1, 86), (8054, 8055, 1, 100), (8056, 8057, 1, 128),
   (8058, 8059, 1, 112), (8060, 8061, 1, 126), (8112, 8113, 1, 8), (8126, 8126, 1, -7205),
   (8144, 8145, 1, 8), (8160, 8161, 1, 8), (8165, 8165, 1, 7), (8526, 8526, 1, -28),
   (8560, 8575, 1, -16), (8580, 8580, 1, -1), (9424, 9449, 1, -26), (11312, 11359, 1, -48),
   (11361, 11361, 1, -1), (11365, 11365, 1, -10795), (11366, 11366, 1, -10792),
   (11368, 11372, 2, -1), (11379, 11379, 1, -1), (11382, 11382, 1, -1), (11393, 11491, 2, -1),
   (11500, 11502, 2, -1), (11507, 11507, 1, -1), (11520, 11557, 1, -7264),
   (11559, 11559, 1, -7264), (11565, 11565, 1, -7264), (42561, 42605, 2, -1),
   (42625, 42651, 2, -1), (42787, 42799, 2, -1), (42803, 42863, 2, -1), (42874, 42876, 2, -1),
   (42879, 42887, 2, -1), (42892, 42892, 1, -1), (42897, 42899, 2, -1), (42900, 42900, 1, 48),
   (42903, 42921, 2, -1), (42933, 42947, 2, -1), (42952, 42954, 2, -1), (42961, 42961, 1, -1),
   (42967, 42969, 2, -1), (42998, 42998, 1, -1), (43859, 43859, 1, -928),
   (43888, 43967, 1, -38864), (65345, 65370, 1, -32), (66600, 66639, 1, -40),
   (66776, 66811, 1, -40), (66967, 67003, 2, -39), (66968, 66977, 1, -39),
   (66980, 66993, 1, -39), (66996, 67001, 1, -39), (67004, 67004, 1, -39),
   (68800, 68850, 1, -64), (71872, 71903, 1, -32), (93792, 93823, 1, -32),
   (125218, 125251, 1, -34)]

/-- The characters whose upper case is several characters. -/
def upperSpecials : List (Nat × List Nat) :=
  [(223, [83, 83]), (329, [700, 78]), (496, [74, 780]), (912, [921, 776, 769]),
   (944, [933, 776, 769]), (1415, [1333, 1362]), (7830, [72, 817]), (7831, [84, 776]),
   (7832, [87, 778]), (7833, [89, 778]), (7834, [65, 702]), (8016, [933, 787]),
   (8018, [933, 787, 768]), (8020, [933, 787, 769]), (8022, [933, 787, 834]),
   (8064, [7944, 921]), (8065, [7945, 921]), (8066, [7946, 921]), (8067, [7947, 921]),
   (8068, [7948, 921]), (8069, [7949, 921]), (8070, [7950, 921]), (8071, [7951, 921]),
   (8072, [7944, 921]), (8073, [7945, 921]), (8074, [7946, 921]), (8075, [7947, 921]),
   (8076, [7948, 921]), (8077, [7949, 921]), (8078, [7950, 921]), (8079, [7951, 921]),
   (8080, [7976, 921]), (8081, [7977, 921]), (8082, [7978, 921]), (8083, [7979, 921]),
   (8084, [7980, 921]), (8085, [7981, 921]), (8086, [7982, 921]), (8087, [7983, 921]),
   (8088, [7976, 921]), (8089, [7977, 921]), (8090, [7978, 921]), (8091, [7979, 921]),
   (8092, [7980, 921]), (8093, [7981, 921]), (8094, [7982, 921]), (8095, [7983, 921]),
   (8096, [8040, 921]), (8097, [8041, 921]), (8098, [8042, 921]), (8099, [8043, 921]),
   (8100, [8044, 921]), (8101, [8045, 921]), (8102, [8046, 921]), (8103, [8047, 921]),
   (8104, [8040, 921]), (8105, [8041, 921]), (8106, [8042, 921]), (8107, [8043, 921]),
   (8108, [8044, 921]), (8109, [8045, 921]), (8110, [8046, 921]), (8111, [8047, 921]),
   (8114, [8122, 921]), (8115, [913, 921]), (8116, [902, 921]), (8118, [913, 834]),
   (8119, [913, 834, 921]), (8124, [913, 921]), (8130, [8138, 921]), (8131, [919, 921]),
   (8132, [905, 921]), (8134, [919, 834]), (8135, [919, 834, 921]), (8140, [919, 921]),
   (8146, [921, 776, 768]), (8147, [921, 776, 769]), (8150, [921, 834]),
   (8151, [921, 776, 834]), (8162, [933, 776, 768]), (8163, [933, 776, 769]),
   (8164, [929, 787]), (8166, [933, 834]), (8167, [933, 776, 834]), (8178, [8186, 921]),
   (8179, [937, 921]), (8180, [911, 921]), (8182, [937, 834]), (8183, [937, 834, 921]),
   (8188, [937, 921]), (64256, [70, 70]), (64257, [70, 73]), (64258, [70, 76]),
   (64259, [70, 70, 73]), (64260, [70, 70, 76]), (64261, [83, 84]), (64262, [83, 84]),
   (64275, [1348, 1350]), (64276, [1348, 1333]), (64277, [1348, 1339]), (64278, [1358, 1350]),
   (64279, [1348, 1341])]

/-! ## 2. The map -/

/-- The upper case of a code point outside ASCII. -/
def upperPoint (n : Nat) : List Nat :=
  match upperSpecials.lookup n with
  | some us => us
  | none =>
    match upperRuns.find? (fun r => r.1 ≤ n && n ≤ r.2.1 && (n - r.1) % r.2.2.1 == 0) with
    | some r => [((n : Int) + r.2.2.2).toNat]
    | none => [n]

def upperChar (c : Char) : Text :=
  if c.toNat < 128 then [c.toUpper] else (upperPoint c.toNat).map Char.ofNat

/-- `s.toUpperCase()`. -/
def toUpperCase (s : Text) : Text := s.flatMap upperChar

@[simp] theorem toUpperCase_nil : toUpperCase [] = [] := rfl

@[simp] theorem toUpperCase_cons (c : Char) (s : Text) :
    toUpperCase (c :: s) = upperChar c ++ toUpperCase s := rfl

@[simp] theorem toUpperCase_append (s t : Text) :
    toUpperCase (s ++ t) = toUpperCase s ++ toUpperCase t := flatMap_append

variable {c : Char}

theorem upperChar_ascii (h : c.toNat < 128) : upperChar c = [c.toUpper] := if_pos h

/-- **On ASCII `toUpperCase` is the usual map.** -/
theorem toUpperCase_ascii {s : Text} (h : ∀ c ∈ s, c.toNat < 128) :
    toUpperCase s = s.map Char.toUpper := by
  induction s with
  | nil => rfl
  | cons c s ih =>
    rw [toUpperCase_cons, upperChar_ascii (h c mem_cons_self),
      ih (fun d hd => h d (mem_cons_of_mem _ hd))]
    rfl

/-! ## 3. What the tables hold -/

/-- The code points of every white-space character. -/
def allSpacePoints : List Nat := spacePoints ++ (List.range 11).map (0x2000 + ·)

theorem isSpace_iff (c : Char) : isSpace c = true ↔ c.toNat ∈ allSpacePoints := by
  unfold isSpace allSpacePoints
  simp only [Bool.or_eq_true, Bool.and_eq_true, decide_eq_true_eq, mem_append,
    mem_map, mem_range, contains_iff_mem]
  constructor
  · rintro (h | ⟨h1, h2⟩)
    · exact Or.inl h
    · exact Or.inr ⟨c.toNat - 0x2000, by omega, by omega⟩
  · rintro (h | ⟨k, hk, e⟩)
    · exact Or.inl h
    · exact Or.inr ⟨by omega, by omega⟩

/-- An upper-case code point as the tables write it: a letter of ASCII, or a character outside
    ASCII that is not white space. -/
def goodPoint (u : Nat) : Bool :=
  (decide (65 ≤ u) && decide (u ≤ 90)) ||
    (decide (128 ≤ u) && !allSpacePoints.contains u &&
      (decide (u < 0xD800) || (decide (0xE000 ≤ u) && decide (u < 0x110000))))

/-- A run moves into one interval of such code points, or is a single character. -/
def goodRun (r : Nat × Nat × Nat × Int) : Bool :=
  (decide (r.1 = r.2.1) && goodPoint ((r.1 : Int) + r.2.2.2).toNat) ||
    (decide (128 ≤ (r.1 : Int) + r.2.2.2) &&
      allSpacePoints.all (fun x => decide ((x : Int) < r.1 + r.2.2.2) ||
        decide ((r.2.1 : Int) + r.2.2.2 < x)) &&
      (decide ((r.2.1 : Int) + r.2.2.2 < 0xD800) ||
        (decide (0xE000 ≤ (r.1 : Int) + r.2.2.2) && decide ((r.2.1 : Int) + r.2.2.2 < 0x110000))))

theorem upperRuns_good : upperRuns.all goodRun = true := by decide

theorem upperSpecials_good :
    upperSpecials.all (fun p => !p.2.isEmpty && p.2.all goodPoint) = true := by decide

/-- No white-space character has an upper case of its own. -/
theorem upperPoint_space : ∀ n ∈ allSpacePoints, upperPoint n = [n] := by decide

theorem goodPoint_of_run {r : Nat × Nat × Nat × Int} {n : Nat} (hr : goodRun r = true)
    (h1 : r.1 ≤ n) (h2 : n ≤ r.2.1) : goodPoint ((n : Int) + r.2.2.2).toNat = true := by
  obtain ⟨lo, hi, st, d⟩ := r
  simp only [goodRun, Bool.or_eq_true, Bool.and_eq_true, decide_eq_true_eq, all_eq_true] at hr
  simp only at h1 h2
  rcases hr with ⟨e, hg⟩ | ⟨⟨h128, hsp⟩, hv⟩
  · have : n = lo := by omega
    rw [this]
    exact hg
  · simp only [goodPoint, Bool.or_eq_true, Bool.and_eq_true, decide_eq_true_eq, Bool.not_eq_true',
      contains_eq_mem, decide_eq_false_iff_not]
    refine Or.inr ⟨⟨by omega, fun hmem => ?_⟩, ?_⟩
    · have := hsp _ hmem
      omega
    · rcases hv with hv | ⟨hv1, hv2⟩
      · exact Or.inl (by omega)
      · exact Or.inr ⟨by omega, by omega⟩

/-- **What a character outside ASCII becomes**: nothing but such code points, at least one; a
    character in neither table stays. -/
theorem upperPoint_cases (n : Nat) :
    upperPoint n = [n] ∨ (upperPoint n ≠ [] ∧ ∀ u ∈ upperPoint n, goodPoint u = true) := by
  unfold upperPoint
  split
  · rename_i us hus
    have hall := all_eq_true.mp upperSpecials_good
    obtain ⟨l₁, l₂, e, -⟩ := lookup_eq_some_iff.mp hus
    have hmem : (n, us) ∈ upperSpecials := by rw [e]; simp
    have h := hall _ hmem
    simp only [Bool.and_eq_true, Bool.not_eq_true', isEmpty_eq_false_iff,
      all_eq_true] at h
    exact Or.inr h
  · split
    · rename_i r hr
      have hall := all_eq_true.mp upperRuns_good
      have hmem := mem_of_find?_eq_some hr
      have hp := List.find?_some hr
      simp only [Bool.and_eq_true, decide_eq_true_eq] at hp
      refine Or.inr ⟨by simp, fun u hu => ?_⟩
      rw [mem_singleton] at hu
      rw [hu]
      exact goodPoint_of_run (hall r hmem) hp.1.1 hp.1.2
    · exact Or.inl rfl

/-- An upper-case character: an ASCII letter, or outside ASCII and not white space. -/
def IsUpperOrForeign (d : Char) : Prop :=
  (65 ≤ d.toNat ∧ d.toNat ≤ 90) ∨ (128 ≤ d.toNat ∧ isSpace d = false)

theorem toNat_ofNat_of_good {u : Nat} (h : goodPoint u = true) : (Char.ofNat u).toNat = u := by
  simp only [goodPoint, Bool.or_eq_true, Bool.and_eq_true, decide_eq_true_eq] at h
  have hv : u.isValidChar := by
    unfold Nat.isValidChar
    omega
  unfold Char.ofNat
  rw [dif_pos hv]
  rfl

theorem isUpperOrForeign_of_good {u : Nat} (h : goodPoint u = true) :
    IsUpperOrForeign (Char.ofNat u) := by
  have e := toNat_ofNat_of_good h
  unfold IsUpperOrForeign
  rw [e, ← Bool.not_eq_true, isSpace_iff, e]
  simp only [goodPoint, Bool.or_eq_true, Bool.and_eq_true, decide_eq_true_eq, Bool.not_eq_true',
    contains_eq_mem, decide_eq_false_iff_not] at h
  rcases h with ⟨h1, h2⟩ | ⟨⟨h1, h2⟩, -⟩
  · exact Or.inl ⟨h1, h2⟩
  · exact Or.inr ⟨h1, h2⟩

/-- **The upper case of a character outside ASCII that is not white space.** -/
theorem upperChar_foreign (h : 128 ≤ c.toNat) (hs : isSpace c = false) :
    upperChar c ≠ [] ∧ ∀ d ∈ upperChar c, IsUpperOrForeign d := by
  unfold upperChar
  rw [if_neg (by omega)]
  rcases upperPoint_cases c.toNat with e | ⟨hne, hall⟩
  · rw [e]
    refine ⟨by simp, fun d hd => ?_⟩
    rw [map_singleton, mem_singleton, Char.ofNat_toNat] at hd
    subst hd
    exact Or.inr ⟨h, hs⟩
  · refine ⟨by simpa using hne, fun d hd => ?_⟩
    obtain ⟨u, hu, rfl⟩ := mem_map.mp hd
    exact isUpperOrForeign_of_good (hall u hu)

/-- White space has no upper case. -/
theorem upperChar_space (hs : isSpace c = true) : upperChar c = [c] := by
  have hm := (isSpace_iff c).mp hs
  unfold upperChar
  by_cases h : c.toNat < 128
  · rw [if_pos h]
    have hsmall : ∀ n ∈ allSpacePoints, n < 128 → (Char.ofNat n).toUpper = Char.ofNat n := by
      decide
    have := hsmall _ hm h
    rw [Char.ofNat_toNat] at this
    rw [this]
  · rw [if_neg h, upperPoint_space _ hm, map_singleton, Char.ofNat_toNat]

/-! ## 4. The ASCII letters -/

/-- A fact about the characters of ASCII, checked on each. -/
theorem forall_ascii {P : Char → Prop} (h : ∀ n < 128, P (Char.ofNat n))
    (hc : c.toNat < 128) : P c := by
  have := h c.toNat hc
  rwa [Char.ofNat_toNat] at this

theorem toUpper_foreign (h : 128 ≤ c.toNat) : c.toUpper = c := by
  have hz : ¬ ('a'.val ≤ c.val ∧ c.val ≤ 'z'.val) := by
    rintro ⟨-, hle⟩
    have hle' : c.toNat ≤ 'z'.toNat := UInt32.le_iff_toNat_le.mp hle
    have : 'z'.toNat = 122 := by decide
    omega
  unfold Char.toUpper
  rw [dif_neg hz]

theorem toUpper_lt : c.toUpper.toNat < 128 ↔ c.toNat < 128 := by
  by_cases h : c.toNat < 128
  · exact iff_of_true (forall_ascii (P := fun c => c.toUpper.toNat < 128) (by decide) h) h
  · rw [toUpper_foreign (by omega)]

theorem toUpper_toUpper (c : Char) : c.toUpper.toUpper = c.toUpper := by
  by_cases h : c.toNat < 128
  · exact forall_ascii (P := fun c => c.toUpper.toUpper = c.toUpper) (by decide) h
  · have e : c.toUpper = c := toUpper_foreign (by omega)
    rw [e, e]

/-- **No character of an upper-case text is a lower-case letter.** -/
theorem toUpper_of_mem_toUpperCase {s : Text} {d : Char} (h : d ∈ toUpperCase s) :
    d.toUpper = d := by
  obtain ⟨c, -, hd⟩ := mem_flatMap.mp h
  by_cases hc : c.toNat < 128
  · rw [upperChar_ascii hc, mem_singleton] at hd
    rw [hd, toUpper_toUpper]
  · cases hs : isSpace c with
    | true =>
      rw [upperChar_space hs, mem_singleton] at hd
      rw [hd, toUpper_foreign (by omega)]
    | false =>
      rcases (upperChar_foreign (by omega) hs).2 d hd with ⟨h1, h2⟩ | ⟨h1, -⟩
      · exact forall_ascii (P := fun c => 65 ≤ c.toNat → c.toNat ≤ 90 → c.toUpper = c)
          (by decide) (by omega) h1 h2
      · exact toUpper_foreign h1

theorem isSpace_toUpper (c : Char) : isSpace c.toUpper = isSpace c := by
  by_cases h : c.toNat < 128
  · exact forall_ascii (P := fun c => isSpace c.toUpper = isSpace c) (by decide) h
  · have e : c.toUpper = c := toUpper_foreign (by omega)
    rw [e]

/-- **White space only comes from white space.** -/
theorem upperChar_of_mem_space {c d : Char} (hd : d ∈ upperChar c) (hs : isSpace d = true) :
    isSpace c = true ∧ d = c := by
  cases hc : isSpace c with
  | true =>
    rw [upperChar_space hc, mem_singleton] at hd
    exact ⟨rfl, hd⟩
  | false =>
    by_cases h : c.toNat < 128
    · rw [upperChar_ascii h, mem_singleton] at hd
      rw [hd, isSpace_toUpper, hc] at hs
      cases hs
    · rcases (upperChar_foreign (by omega) hc).2 d hd with ⟨h1, h2⟩ | ⟨-, h2⟩
      · have := forall_ascii (P := fun c => 65 ≤ c.toNat → c.toNat ≤ 90 → isSpace c = false)
          (by decide) (by omega) h1 h2
        rw [this] at hs
        cases hs
      · rw [h2] at hs
        cases hs

theorem upperChar_ne_nil (c : Char) : upperChar c ≠ [] := by
  by_cases h : c.toNat < 128
  · rw [upperChar_ascii h]
    simp
  · cases hs : isSpace c with
    | true => rw [upperChar_space hs]; simp
    | false => exact (upperChar_foreign (by omega) hs).1

/-- White space in front of an upper-case text stood in front of the text. -/
theorem toUpperCase_spaces_inv {r d y : Text} (h : toUpperCase r = d ++ y)
    (hd : ∀ c ∈ d, isSpace c = true) : ∃ r', r = d ++ r' ∧ toUpperCase r' = y := by
  induction d generalizing r with
  | nil => exact ⟨r, rfl, h⟩
  | cons s d ih =>
    cases r with
    | nil => cases h
    | cons c r =>
      rw [toUpperCase_cons] at h
      obtain ⟨u, us, hu⟩ := exists_cons_of_ne_nil (upperChar_ne_nil c)
      rw [hu] at h
      simp only [cons_append, List.cons.injEq] at h
      obtain ⟨hc, rfl⟩ := upperChar_of_mem_space (c := c) (d := u) (by rw [hu]; simp)
        (h.1 ▸ hd s mem_cons_self)
      rw [upperChar_space hc] at hu
      cases hu
      obtain ⟨r', e1, e2⟩ := ih h.2 (fun c hc => hd c (mem_cons_of_mem _ hc))
      exact ⟨r', by rw [h.1, e1]; rfl, e2⟩

end Veesker
