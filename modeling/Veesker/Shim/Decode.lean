/-
  File:      Veesker/Shim/Decode.lean
  Subject:   DECODE BECOMES A CASE.

  * `whenSegs` -- the pairs as arguments between constant texts, the expression again in each;
  * `render_decode` -- that is what the loop over the pairs writes;
  * `refs_decode` -- **every literal of the arguments is in it, in order** (a null key has none);
  * `decode_sound` -- the rewrite is sound, with a default and without.
-/
import Veesker.Shim.Expressions

namespace Veesker.Shim

open List

variable {F : Nat → Prop}

/-! ## 1. Texts without parentheses -/

/-- A text without parentheses and commas. -/
def Level (k : Text) : Prop := ∀ d z, flatFrom d (chars k ++ z) = flatFrom d z

theorem flat_build {segs : List (Text × List Piece)} {last : Text}
    (h : ∀ s ∈ segs, Level s.1 ∧ flatFrom 0 s.2 = true) (hlast : Level last) :
    flatFrom 0 (build segs last) = true := by
  induction segs with
  | nil =>
    have := hlast 0 []
    rwa [append_nil] at this
  | cons s segs ih =>
    obtain ⟨hs, hsegs⟩ := forall_mem_cons.mp h
    rw [build_cons, hs.1, flat_arg hs.2]
    exact ih hsegs

/-! ## 2. The pairs -/

/-- One pair of a `DECODE`. -/
def whenSeg (e : List Piece) (lead : Text) (key val : List Piece) : List (Text × List Piece) :=
  (lead, trimmed e) ::
    if isNullKey (render (trimmed key)) then [(" IS NULL THEN ".toList, trimmed val)]
    else [(" = ".toList, trimmed key), (" THEN ".toList, trimmed val)]

/-- Its pairs, `lead` in front of the first. -/
def whenSegs (e : List Piece) : Text → List (List Piece) → List (Text × List Piece)
  | lead, key :: val :: rest => whenSeg e lead key val ++ whenSegs e " WHEN ".toList rest
  | _, _ => []

theorem joined_append (S S' : List (Text × List Piece)) : joined (S ++ S') = joined S ++ joined S' :=
  flatMap_append

theorem render_whenSeg (k : Text) (e key val : List Piece) :
    ∃ w, whens (render (trimmed e)) [render key, render val] = [w] ∧
      render (joined (whenSeg e (k ++ "WHEN ".toList) key val)) = k ++ w := by
  rw [whens, trim_render, trim_render, whenSeg]
  cases isNullKey (render (trimmed key)) with
  | true => exact ⟨_, rfl, by simp [joined]⟩
  | false => exact ⟨_, rfl, by simp [joined]⟩

theorem whens_cons (expr key val : Text) (rest : List Text) :
    whens expr (key :: val :: rest) = whens expr [key, val] ++ whens expr rest := rfl

theorem render_whenSegs (e : List Piece) (pairs : List (List Piece)) :
    render (joined (whenSegs e " WHEN ".toList pairs)) =
      (whens (render (trimmed e)) (pairs.map render)).flatMap (' ' :: ·) := by
  induction pairs using List.twoStepInduction with
  | nil => rfl
  | singleton p => rfl
  | cons_cons key val rest ih _ =>
    obtain ⟨w, hw, e'⟩ := render_whenSeg [' '] e key val
    rw [whenSegs, joined_append, render_append, ih, map_cons, map_cons, whens_cons, hw,
      flatMap_append, flatMap_singleton]
    exact congrArg (· ++ _) e'

theorem intercalate_space (w : Text) (ws : List Text) :
    List.intercalate " ".toList (w :: ws) = w ++ ws.flatMap (' ' :: ·) := by
  induction ws generalizing w with
  | nil => simp
  | cons v ws ih =>
    rw [intercalate_cons_cons, ih, flatMap_cons]
    simp

theorem render_decode (e key val : List Piece) (rest : List (List Piece)) :
    render (joined (whenSegs e "CASE WHEN ".toList (key :: val :: rest))) = "CASE ".toList ++
      List.intercalate " ".toList (whens (render (trimmed e)) ((key :: val :: rest).map render)) := by
  obtain ⟨w, hw, e'⟩ := render_whenSeg "CASE ".toList e key val
  rw [whenSegs, joined_append, render_append, render_whenSegs, map_cons, map_cons,
    whens_cons, hw, singleton_append, intercalate_space, ← append_assoc]
  exact congrArg (· ++ _) e'

/-- A text in capitals that has no U+0001 in it had none before. -/
theorem refs_of_capitals {ps : List Piece} {t : Text} (h : toUpperCase (render ps) = t)
    (ht : '\x01' ∉ t) : refs ps = [] := by
  have hps : '\x01' ∉ render ps := by
    intro hmem
    refine ht (h ▸ mem_flatMap.mpr ⟨_, hmem, ?_⟩)
    rw [upperChar_ascii (by decide)]
    exact mem_singleton.mpr rfl
  obtain ⟨qs, e, hqs⟩ := render_split hps (append_nil (render ps)).symm
  cases qs with
  | nil => rw [e, append_nil, refs_chars]
  | cons p qs =>
    cases p with
    | char c => cases hqs
    | lit n => cases hqs

theorem refs_whenSeg (e : List Piece) (lead : Text) (key val : List Piece) :
    ((whenSeg e lead key val).flatMap fun s => refs s.2) = refs e ++ (refs key ++ refs val) := by
  rw [whenSeg]
  split
  · rename_i hnull
    have hkey : refs key = [] := by
      rw [isNullKey, trim_render, beq_iff_eq] at hnull
      have := refs_of_capitals hnull (by decide)
      rwa [refs_trimmed, refs_trimmed] at this
    simp [refs_trimmed, hkey]
  · simp [refs_trimmed]

theorem refs_whenSegs (e : List Piece) (lead : Text) {pairs : List (List Piece)}
    (h : pairs.length % 2 = 0) :
    (pairs.flatMap refs).Sublist ((whenSegs e lead pairs).flatMap fun s => refs s.2) := by
  induction pairs using List.twoStepInduction generalizing lead with
  | nil => exact List.Sublist.refl _
  | singleton p => cases h
  | cons_cons key val rest ih _ =>
    have hrest : rest.length % 2 = 0 := by
      rw [length_cons, length_cons] at h
      omega
    rw [whenSegs, flatMap_append, refs_whenSeg, flatMap_cons, flatMap_cons,
      ← append_assoc]
    exact (sublist_append_right _ _).append (ih _ hrest)

theorem refs_decode (e key val : List Piece) (lead : Text) {rest : List (List Piece)}
    (h : rest.length % 2 = 0) : (refs e ++ (key :: val :: rest).flatMap refs).Sublist
      ((whenSegs e lead (key :: val :: rest)).flatMap fun s => refs s.2) := by
  rw [whenSegs, flatMap_append, refs_whenSeg, flatMap_cons, flatMap_cons]
  simp only [append_assoc]
  exact List.Sublist.append_left (List.Sublist.append_left (List.Sublist.append_left
    (refs_whenSegs e _ h) _) _) _

/-! ## 3. The rewrite -/

theorem rewriteDecode_odd {t x d : Text} {pairs : List Text} (h : splitArgs t = x :: (pairs ++ [d]))
    (hne : pairs ≠ []) (heven : pairs.length % 2 = 0) : rewriteDecode t =
      "CASE ".toList ++ List.intercalate " ".toList (whens (trim x) pairs) ++ " ELSE ".toList ++
        trim d ++ " END".toList := by
  have hpos := length_pos_iff.mpr hne
  have hlen : ¬ (pairs ++ [d]).length < 2 := by
    rw [length_append, length_singleton]
    omega
  have hodd : decide ((pairs ++ [d]).length % 2 = 1) = true := by
    rw [length_append, length_singleton]
    exact decide_eq_true (by omega)
  rw [rewriteDecode, h]
  simp only [if_neg hlen, hodd, if_true, List.getLast?_concat, Option.getD_some,
    dropLast_concat]

theorem rewriteDecode_even {t x : Text} {pairs : List Text} (h : splitArgs t = x :: pairs)
    (hne : pairs ≠ []) (heven : pairs.length % 2 = 0) : rewriteDecode t =
      "CASE ".toList ++ List.intercalate " ".toList (whens (trim x) pairs) ++ " ELSE ".toList ++
        "NULL".toList ++ " END".toList := by
  have hpos := length_pos_iff.mpr hne
  have hlen : ¬ pairs.length < 2 := by omega
  have hodd : decide (pairs.length % 2 = 1) = false := decide_eq_false (by omega)
  rw [rewriteDecode, h]
  simp only [if_neg hlen, hodd, Bool.false_eq_true, if_false]

theorem rewriteDecode_short {t x : Text} {rest : List Text} (h : splitArgs t = x :: rest)
    (hlen : rest.length < 2) : rewriteDecode t = unchanged "DECODE".toList t := by
  rw [rewriteDecode, h]
  exact if_pos hlen

theorem seg_caseWhen : Seg "CASE WHEN ".toList :=
  seg_text (c := ' ') (x := 'C') (by decide) rfl rfl rfl (by decide) rfl rfl (by decide)

/-- A text within a `CASE`. -/
structure Mid (k : Text) : Prop where
  seg : Seg k
  level : Level k
  opens : Opens k

theorem mid_when : Mid " WHEN ".toList :=
  ⟨seg_text (c := ' ') (x := 'W') (by decide) rfl rfl rfl (by decide) rfl rfl (by decide),
    fun d z => rfl, ' ', _, rfl, rfl, by decide⟩

theorem mid_equals : Mid " = ".toList :=
  ⟨seg_text (c := ' ') (x := '=') (by decide) rfl rfl rfl (by decide) rfl rfl (by decide),
    fun d z => rfl, ' ', _, rfl, rfl, by decide⟩

theorem mid_isNull : Mid " IS NULL THEN ".toList :=
  ⟨seg_text (c := ' ') (x := 'I') (by decide) rfl rfl rfl (by decide) rfl rfl (by decide),
    fun d z => rfl, ' ', _, rfl, rfl, by decide⟩

theorem mid_then : Mid " THEN ".toList :=
  ⟨seg_text (c := ' ') (x := 'T') (by decide) rfl rfl rfl (by decide) rfl rfl (by decide),
    fun d z => rfl, ' ', _, rfl, rfl, by decide⟩

theorem mid_else : Mid " ELSE ".toList := ⟨seg_else, fun d z => rfl, ' ', _, rfl, rfl, by decide⟩

theorem last_end_odd : Last " END".toList :=
  last_end (k := " ".toList) (x := 'E') (by decide) ⟨' ', _, rfl, rfl, by decide⟩ rfl (by decide)

theorem last_end_even : Last " ELSE NULL END".toList :=
  last_end (k := " ELSE NULL ".toList) (x := 'E') (by decide) ⟨' ', _, rfl, rfl, by decide⟩ rfl
    (by decide)

/-- The segments of the pairs: their texts and whose arguments they are. -/
theorem mem_whenSegs {e : List Piece} {lead : Text} {pairs : List (List Piece)} (hlead : Mid lead)
    {s : Text × List Piece} (hs : s ∈ whenSegs e lead pairs) :
    Mid s.1 ∧ ∃ q ∈ e :: pairs, s.2 = trimmed q := by
  induction pairs using List.twoStepInduction generalizing lead with
  | nil => cases hs
  | singleton p => cases hs
  | cons_cons key val rest ih _ =>
    rw [whenSegs, mem_append] at hs
    obtain hs | hs := hs
    · obtain rfl | hs := mem_cons.mp hs
      · exact ⟨hlead, e, mem_cons_self, rfl⟩
      · split at hs
        · obtain rfl := mem_singleton.mp hs
          exact ⟨mid_isNull, val, by simp, rfl⟩
        · obtain rfl | hs := mem_cons.mp hs
          · exact ⟨mid_equals, key, by simp, rfl⟩
          · obtain rfl := mem_singleton.mp hs
            exact ⟨mid_then, val, by simp, rfl⟩
    · obtain ⟨h, q, hq, e'⟩ := ih mid_when hs
      refine ⟨h, q, ?_, e'⟩
      obtain rfl | hq := mem_cons.mp hq
      · exact mem_cons_self
      · simp [hq]

/-- The lead stands in front of the expression, and nowhere else. -/
theorem whenSegs_cons (e key val : List Piece) {rest : List (List Piece)}
    (h : rest.length % 2 = 0) :
    ∃ T, (∀ lead, whenSegs e lead (key :: val :: rest) = (lead, trimmed e) :: T) ∧
      (∀ s ∈ T, Mid s.1 ∧ ∃ q ∈ e :: key :: val :: rest, s.2 = trimmed q) ∧
      (refs e ++ (key :: val :: rest).flatMap refs).Sublist
        (refs e ++ T.flatMap fun s => refs s.2) := by
  refine ⟨_, fun lead => rfl, fun s hs => ?_, ?_⟩
  · have hs' : s ∈ whenSegs e " WHEN ".toList (key :: val :: rest) := mem_cons_of_mem _ hs
    exact mem_whenSegs mid_when hs'
  · have hkeep := refs_decode e key val [] h
    rw [← refs_trimmed e] at hkeep ⊢
    exact hkeep

/-- A call becomes a `CASE` of its arguments. -/
theorem case_sound {w g : Text} {p : List Piece} {l : List (List Piece)}
    {segs : List (Text × List Piece)} {last : Text} (hw : ∀ c ∈ w, isWordChar c = true)
    (hg : ∀ c ∈ g, isSpace c = true) (hin : insideFrom 0 (p ++ behindCommas l) = true)
    (hflat : ∀ q ∈ p :: l, flatFrom 0 q = true)
    (hsegs : ∀ s ∈ segs, Mid s.1 ∧ ∃ q ∈ p :: l, s.2 = trimmed q) (hlast : Last last)
    (hlevel : Level last) (hkeep : (refs p ++ l.flatMap refs).Sublist
      (refs p ++ segs.flatMap fun s => refs s.2)) :
    Rewrites (call w g (p ++ behindCommas l))
      (build (("CASE WHEN ".toList, trimmed p) :: segs) last) := by
  have hall : ∀ s ∈ ("CASE WHEN ".toList, trimmed p) :: segs,
      (Seg s.1 ∧ Level s.1) ∧ ∃ q ∈ p :: l, s.2 = trimmed q := by
    refine forall_mem_cons.mpr ⟨⟨⟨seg_caseWhen, fun d z => rfl⟩, p, by simp, rfl⟩, ?_⟩
    exact fun s hs => ⟨⟨(hsegs s hs).1.seg, (hsegs s hs).1.level⟩, (hsegs s hs).2⟩
  refine rewrites_args hw hg hin hflat (fun s hs => ⟨(hall s hs).1.1, (hall s hs).2⟩)
    (fun s hs => (hsegs s hs).1.opens) ⟨'C', _, rfl, by decide⟩ hlast ?_ fun u v _ F _ => ?_
  · refine flat_build (fun s hs => ⟨(hall s hs).1.2, ?_⟩) hlevel
    obtain ⟨-, q, hq, e⟩ := hall s hs
    rw [e]
    exact flat_trimmed (hflat q hq)
  · rw [refs_append, refs_behindCommas, refs_build, flatMap_cons, refs_trimmed]
    exact .of_sublist hkeep

theorem decode_sound : CallSound F "DECODE".toList rewriteDecode := by
  intro pre w g args rest _ _ _ hw hg hin
  obtain ⟨e, l, hparts, rfl, hflat⟩ := parts_spec hin
  have hsplit := splitArgs_render (e ++ behindCommas l)
  have hword := word_of_capitals hw (all_eq_true.mp rfl)
  rw [hparts, map_cons] at hsplit
  by_cases hshort : l.length < 2
  · rw [rewriteDecode_short hsplit (by rwa [length_map])]
    exact unchanged_sound hw rfl hg (by decide)
  by_cases hodd : l.length % 2 = 1
  · -- the last argument is the default
    obtain ⟨key, val, rest, d, rfl⟩ : ∃ key val rest d, l = key :: val :: rest ++ [d] := by
      rcases l with _ | ⟨key, _ | ⟨val, _ | ⟨b, rest⟩⟩⟩
      · cases hodd
      · exact (hshort Nat.one_lt_two).elim
      · exact absurd hodd (by simp)
      · obtain ⟨rest, d, e⟩ := eq_nil_or_concat (b :: rest) |>.resolve_left
          (cons_ne_nil _ _)
        exact ⟨key, val, rest, d, by rw [e, concat_eq_append]; rfl⟩
    have heven : rest.length % 2 = 0 := by
      simp only [length_append, length_cons, length_nil] at hodd
      omega
    have hpairs : ((key :: val :: rest).map render).length % 2 = 0 := by
      simp only [length_map, length_cons]
      omega
    obtain ⟨T, hT, hmid, hkeep⟩ := whenSegs_cons e key val heven
    rw [map_append] at hsplit
    refine ⟨build (("CASE WHEN ".toList, trimmed e) :: (T ++ [(" ELSE ".toList, trimmed d)]))
      " END".toList, ?_, ?_⟩
    · rw [rewriteDecode_odd hsplit (cons_ne_nil _ _) hpairs, trim_render, trim_render,
        ← render_decode, hT, ← cons_append, build, joined_append, render_append, render_append]
      simp [joined]
    · refine case_sound hword hg hin hflat (fun s hs => ?_) last_end_odd (fun d z => rfl) ?_
      · obtain hs | hs := mem_append.mp hs
        · obtain ⟨h, q, hq, e'⟩ := hmid s hs
          exact ⟨h, q, mem_append_left [d] hq, e'⟩
        · obtain rfl := mem_singleton.mp hs
          exact ⟨mid_else, d, by simp, rfl⟩
      · rw [flatMap_append, flatMap_append, ← append_assoc, ← append_assoc]
        refine hkeep.append ?_
        simp [refs_trimmed]
  · obtain ⟨key, val, rest, rfl⟩ : ∃ key val rest, l = key :: val :: rest := by
      rcases l with _ | ⟨key, _ | ⟨val, rest⟩⟩
      · exact (hshort (by decide)).elim
      · exact (hshort Nat.one_lt_two).elim
      · exact ⟨key, val, rest, rfl⟩
    have heven : rest.length % 2 = 0 := by
      rw [length_cons, length_cons] at hodd
      omega
    have hpairs : ((key :: val :: rest).map render).length % 2 = 0 := by
      simp only [length_map, length_cons]
      omega
    obtain ⟨T, hT, hmid, hkeep⟩ := whenSegs_cons e key val heven
    refine ⟨build (("CASE WHEN ".toList, trimmed e) :: T) " ELSE NULL END".toList, ?_, ?_⟩
    · rw [rewriteDecode_even hsplit (cons_ne_nil _ _) hpairs, trim_render, ← render_decode, hT,
        build, render_append, render_chars]
      simp
    · exact case_sound hword hg hin hflat hmid last_end_even (fun d z => rfl) hkeep

theorem sound_decode : Sound F (findCall "DECODE".toList rewriteDecode) :=
  sound_call ⟨'D', "ECODE".toList, rfl, by decide⟩ rfl decode_sound

end Veesker.Shim
