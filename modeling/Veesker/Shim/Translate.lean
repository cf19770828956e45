/-
  File:      Veesker/Shim/Translate.lean
  Subject:   WHAT A TRANSLATION LEAVES ALONE (engine/src/oracle-shim/translator.ts, translate).

  A string literal is what `maskStrings` reads as one: from an apostrophe to the next that is not
  doubled. Comments and q-quotes are no literals to it, as the source says.

  * `rewriteSegment_render` -- **the ten passes are a row of rewrites of the masked text**;
  * `inOrder_expand` -- literals that stay in a row of pieces stand in its text in order;
  * `rewriteSegment_id` -- without a keyword no pass finds anything;
  * **`translate_intact`** -- the literals that are no date formats stay, in order; a text without
    keywords stays; masked and unmasked every text stays.
-/
import Veesker.Shim.Decode
import Veesker.Shim.Dates

namespace Veesker.Shim

open List

/-! ## 1. The passes -/

theorem digits_end {n : Text} (hne : n ≠ []) (hn : ∀ c ∈ n, c.isDigit = true) :
    ∃ l y, n = l ++ [y] ∧ Plain l ∧ y.isDigit = true := by
  obtain ⟨l, y, rfl⟩ := (eq_nil_or_concat n).resolve_left hne
  rw [concat_eq_append] at hn ⊢
  refine ⟨l, y, rfl, plain_words fun c hc => isWordChar_of_isDigit (hn c ?_), hn y (by simp)⟩
  exact mem_append_left _ hc

theorem oneLess_end (n : Text) : ∃ l y, oneLess n = l ++ [y] ∧ Plain l ∧ y.isDigit = true := by
  unfold oneLess
  split
  · have hminus : Plain ['-'] := by
      intro c hc
      rw [mem_singleton.mp hc]
      decide
    exact ⟨['-'], '1', rfl, hminus, rfl⟩
  · exact digits_end Nat.toDigits_ne_nil fun c hc => isDigit_of_mem hc

theorem plain_less : Plain "<".toList := by
  intro c hc
  rw [mem_singleton.mp hc]
  decide

theorem plain_atMost : Plain "<=".toList := by
  intro c hc
  obtain rfl | rfl := mem_pair.mp hc
  · decide
  · decide

variable {F : Nat → Prop}

theorem sound_sysdate :
    Sound F (findWord "SYSDATE".toList "CURRENT_TIMESTAMP".toList) :=
  sound_word ⟨'S', "YSDATE".toList, rfl, by decide⟩ rfl

theorem sound_systimestamp :
    Sound F (findWord "SYSTIMESTAMP".toList "CURRENT_TIMESTAMP".toList) :=
  sound_word ⟨'S', "YSTIMESTAMP".toList, rfl, by decide⟩ rfl

theorem sound_atMost : Sound F (findRownum "<=".toList id) :=
  sound_rownum plain_atMost fun _ => digits_end

theorem sound_less : Sound F (findRownum "<".toList oneLess) :=
  sound_rownum plain_less fun n _ _ => oneLess_end n

/-- One more pass. -/
theorem Sound.after {find : Option Char → Text → Found} {ps qs : List Piece}
    (h : Sound (IsFormat ps) find) (hclean : Clean ps) (hqs : Steps ps qs) :
    ∃ out, Shim.scan find (render qs) = render out ∧ Steps ps out := by
  obtain ⟨out, e, hout⟩ := h.scan (steps_clean hqs hclean) (steps_keep hqs).1
  exact ⟨out, e, hqs.trans hout⟩

variable {ps : List Piece}

/-- **The ten passes are a row of rewrites.** -/
theorem rewriteSegment_render {literals : List Text} (hclean : Clean ps)
    (hfmt : ∀ n, IsFormat ps n → ∀ fmt, literals[n]? = some fmt → Sober fmt) :
    ∃ out, rewriteSegment (render ps) literals = render out ∧ Steps ps out := by
  unfold rewriteSegment rewriteCall
  obtain ⟨p₁, e₁, h₁⟩ := sound_fromDual.after hclean .refl
  obtain ⟨p₂, e₂, h₂⟩ := sound_sysdate.after hclean h₁
  obtain ⟨p₃, e₃, h₃⟩ := sound_systimestamp.after hclean h₂
  obtain ⟨p₄, e₄, h₄⟩ := sound_nvl.after hclean h₃
  obtain ⟨p₅, e₅, h₅⟩ := sound_nvl2.after hclean h₄
  obtain ⟨p₆, e₆, h₆⟩ := sound_decode.after hclean h₅
  obtain ⟨p₇, e₇, h₇⟩ := (sound_toDate hfmt).after hclean h₆
  obtain ⟨p₈, e₈, h₈⟩ := (sound_toChar hfmt).after hclean h₇
  obtain ⟨p₉, e₉, h₉⟩ := sound_atMost.after hclean h₈
  obtain ⟨p₁₀, e₁₀, h₁₀⟩ := sound_less.after hclean h₉
  exact ⟨p₁₀, by simp only [e₁, e₂, e₃, e₄, e₅, e₆, e₇, e₈, e₉, e₁₀], h₁₀⟩

/-! ## 2. Literals in order -/

/-- The texts stand in the last one, one behind the other. -/
inductive InOrder : List Text → Text → Prop where
  | nil (t : Text) : InOrder [] t
  | skip (c : Char) {ts : List Text} {t : Text} (h : InOrder ts t) : InOrder ts (c :: t)
  | next (s : Text) {ts : List Text} {t : Text} (h : InOrder ts t) : InOrder (s :: ts) (s ++ t)

theorem InOrder.behind {ts : List Text} {t : Text} (h : InOrder ts t) (s : Text) :
    InOrder ts (s ++ t) := by
  induction s with
  | nil => exact h
  | cons c s ih => exact .skip c ih

/-- **The literals that stay in a row of pieces stand in its text in order.** -/
theorem inOrder_expand (literals : List Text) {ns : List Nat}
    (h : ns.Sublist (refs ps)) : InOrder (ns.filterMap (literals[·]?)) (expand literals ps) := by
  induction ps generalizing ns with
  | nil =>
    rw [eq_nil_of_sublist_nil h]
    exact .nil _
  | cons p ps ih =>
    cases p with
    | char c => exact .skip c (ih h)
    | lit n =>
      have hexpand : expand literals (.lit n :: ps) =
          (literals[n]?).getD "undefined".toList ++ expand literals ps := rfl
      rw [hexpand]
      cases h with
      | cons _ h => exact (ih h).behind _
      | cons_cons _ h =>
        rw [filterMap_cons]
        cases hn : literals[n]? with
        | none => exact (ih h).behind _
        | some l => exact .next l (ih h)

/-! ## 3. Without keywords -/

/-- The words that a translation looks for. -/
def keywords : List Text := [
  "DUAL".toList, "SYSDATE".toList, "SYSTIMESTAMP".toList, "NVL".toList, "NVL2".toList,
  "DECODE".toList, "TO_DATE".toList, "TO_CHAR".toList, "ROWNUM".toList]

theorem lastOf_getLast (u : Text) : lastOf none u = u.getLast? := by
  induction u using List.reverseRecOn with
  | nil => rfl
  | append_singleton u c _ =>
    rw [lastOf_append, List.getLast?_concat]
    rfl

/-- **A word that is found is a run of the text.** -/
theorem run_of_keyword {name u s r : Text} {prev : Option Char} (hne : name ≠ [])
    (hname : name.all isWordChar = true) (hu : EdgeAfter u) (h : keyword name prev s = some r)
    (hr : wordEnds r = true) : ∃ w ∈ runs (u ++ s), w.map Char.toUpper = name := by
  obtain ⟨-, w, rfl, hw⟩ := keyword_eq h
  refine ⟨w, mem_runs.mpr ⟨?_, word_of_capitals hw (all_eq_true.mp hname), u, r, rfl, hu, ?_⟩,
    hw⟩
  · rintro rfl
    exact hne hw.symm
  · intro c hc
    rw [wordEnds, hc] at hr
    simpa using hr

theorem edgeAfter_of_keyword {name u s r : Text} (h : keyword name (lastOf none u) s = some r) :
    EdgeAfter u := by
  intro c hc
  have hprev := (keyword_eq h).1
  rw [lastOf_getLast, hc] at hprev
  simpa using hprev

/-- Behind white space, and in front of what is no word, a word ends. -/
theorem wordEnds_of_drop {r rest : Text} {c : Char} (h : r.dropWhile isSpace = c :: rest)
    (hc : isWordChar c = false) : wordEnds r = true := by
  cases r with
  | nil => rfl
  | cons d r =>
    cases hd : isSpace d with
    | true => simp [wordEnds, isWordChar_of_space hd]
    | false =>
      rw [dropWhile_cons_of_neg (by simp [hd])] at h
      obtain rfl := (List.cons.inj h).1
      simp [wordEnds, hc]

section Silent

variable {t u s : Text} {c : Char}

/-- A word of these that is found in the text. -/
def Spoken (name t : Text) : Prop := ∃ w ∈ runs t, w.map Char.toUpper = name

theorem spoken_word {name replacement : Text} (hne : name ≠ []) (hname : name.all isWordChar = true)
    (h : findWord name replacement (lastOf none u) s ≠ .nothing) : Spoken name (u ++ s) := by
  unfold findWord at h
  split at h
  · rename_i rest hk
    split at h
    · rename_i hr
      exact run_of_keyword hne hname (edgeAfter_of_keyword hk) hk hr
    · exact (h rfl).elim
  · exact (h rfl).elim

theorem spoken_callAt {name inner : Text} (hne : name ≠ []) (hname : name.all isWordChar = true)
    (h : callAt name (lastOf none u) s = some inner) : Spoken name (u ++ s) := by
  unfold callAt at h
  cases hk : keyword name (lastOf none u) s with
  | none => rw [hk] at h; cases h
  | some r =>
    rw [hk, Option.map_some] at h
    split at h
    · rename_i inner' e
      exact run_of_keyword hne hname (edgeAfter_of_keyword hk) hk
        (wordEnds_of_drop (Option.some.inj e) rfl)
    · cases h

theorem spoken_call {name : Text} {rewrite : Text → Text} (hne : name ≠ [])
    (hname : name.all isWordChar = true)
    (h : findCall name rewrite (lastOf none u) s ≠ .nothing) : Spoken name (u ++ s) := by
  cases hc : callAt name (lastOf none u) s with
  | none => exact (h (by rw [findCall, hc])).elim
  | some inner => exact spoken_callAt hne hname hc

theorem spoken_nvl (h : findNvl (lastOf none u) s ≠ .nothing) : Spoken "NVL".toList (u ++ s) := by
  cases hc : callAt "NVL".toList (lastOf none u) s with
  | none => exact (h (by rw [findNvl, hc])).elim
  | some inner => exact spoken_callAt (cons_ne_nil _ _) rfl hc

/-- The second word of two. -/
theorem spoken_behind {name first r r' : Text} {prev prev' : Option Char} (hne : name ≠ [])
    (hname : name.all isWordChar = true) (h : keyword first prev s = some r)
    (hspace : r.head?.any isSpace = true)
    (h' : keyword name prev' (r.dropWhile isSpace) = some r') (hr : wordEnds r' = true) :
    Spoken name (u ++ s) := by
  obtain ⟨-, w, rfl, -⟩ := keyword_eq h
  obtain ⟨g, e, hg⟩ := spaces_split r
  have hedge : EdgeAfter (u ++ w ++ g) := by
    intro c hc
    obtain rfl | ⟨g, d, rfl⟩ := eq_nil_or_concat g
    · -- white space does stand there
      cases r with
      | nil => cases hspace
      | cons d r =>
        have hd : isSpace d = true := hspace
        rw [dropWhile_cons_of_pos hd] at e
        have hlen := congrArg List.length e
        have hle := (dropWhile_suffix (l := r) isSpace).length_le
        simp only [nil_append, length_cons] at hlen
        omega
    · rw [concat_eq_append, ← append_assoc, List.getLast?_concat] at hc
      exact Option.some.inj hc ▸ isWordChar_of_space (hg d (by simp))
  have := run_of_keyword hne hname hedge h' hr
  rw [append_assoc, append_assoc, ← e] at this
  exact this

theorem spoken_dual (h : findFromDual (lastOf none u) s ≠ .nothing) :
    Spoken "DUAL".toList (u ++ s) := by
  unfold findFromDual at h
  split at h
  · exact (h rfl).elim
  rename_i r hk
  split at h
  swap
  · exact (h rfl).elim
  rename_i hspace
  split at h
  swap
  · exact (h rfl).elim
  rename_i rest hk'
  split at h
  · rename_i hr
    exact spoken_behind (cons_ne_nil _ _) rfl hk hspace hk' hr
  · exact (h rfl).elim

theorem spoken_rownum {op : Text} {limit : Text → Text} (hop : ∃ c o, op = c :: o ∧ isWordChar c = false)
    (h : findRownum op limit (lastOf none u) s ≠ .nothing) : Spoken "ROWNUM".toList (u ++ s) := by
  unfold findRownum at h
  split at h
  · exact (h rfl).elim
  rename_i r hk
  split at h
  swap
  · exact (h rfl).elim
  rename_i hspace
  split at h
  · exact (h rfl).elim
  rename_i rest hk'
  dsimp only at h
  split at h
  · rename_i hstart
    obtain ⟨c, o, rfl, hc⟩ := hop
    obtain ⟨r', e⟩ := startsWith_iff.mp hstart
    exact spoken_behind (cons_ne_nil _ _) rfl hk hspace hk' (wordEnds_of_drop e hc)
  · exact (h rfl).elim

/-- A pass that looks for a word that is not there. -/
theorem scan_silent {find : Option Char → Text → Found} {name : Text}
    (hfind : ∀ u s, find (lastOf none u) s ≠ .nothing → Spoken name (u ++ s))
    (ht : ∀ w ∈ runs t, w.map Char.toUpper ∉ keywords) (hname : name ∈ keywords) :
    scan find t = t := by
  refine scan_id fun u c v e => ?_
  by_contra hne
  obtain ⟨w, hw, rfl⟩ := hfind u (c :: v) hne
  exact ht w (e ▸ hw) hname

/-- **Without a keyword no pass finds anything.** -/
theorem rewriteSegment_id (ht : ∀ w ∈ runs t, w.map Char.toUpper ∉ keywords)
    (literals : List Text) : rewriteSegment t literals = t := by
  unfold rewriteSegment rewriteCall
  have h₁ : scan findFromDual t = t := scan_silent (fun u s => spoken_dual) ht (by decide)
  have h₂ : scan (findWord "SYSDATE".toList "CURRENT_TIMESTAMP".toList) t = t :=
    scan_silent (fun u s => spoken_word (cons_ne_nil _ _) rfl) ht (by decide)
  have h₃ : scan (findWord "SYSTIMESTAMP".toList "CURRENT_TIMESTAMP".toList) t = t :=
    scan_silent (fun u s => spoken_word (cons_ne_nil _ _) rfl) ht (by decide)
  have h₄ : scan findNvl t = t := scan_silent (fun u s => spoken_nvl) ht (by decide)
  have hcall : ∀ name rewrite, name ≠ [] → name.all isWordChar = true → name ∈ keywords →
      scan (findCall name rewrite) t = t := fun name rewrite hne hname hmem =>
    scan_silent (fun u s => spoken_call hne hname) ht hmem
  have hrow : ∀ op limit, (∃ c o, op = c :: o ∧ isWordChar c = false) →
      scan (findRownum op limit) t = t := fun op limit hop =>
    scan_silent (fun u s => spoken_rownum hop) ht (by decide)
  simp only [h₁, h₂, h₃, h₄, hcall "NVL2".toList _ (cons_ne_nil _ _) rfl (by decide),
    hcall "DECODE".toList _ (cons_ne_nil _ _) rfl (by decide),
    hcall "TO_DATE".toList _ (cons_ne_nil _ _) rfl (by decide),
    hcall "TO_CHAR".toList _ (cons_ne_nil _ _) rfl (by decide),
    hrow "<=".toList _ ⟨'<', _, rfl, rfl⟩, hrow "<".toList _ ⟨'<', _, rfl, rfl⟩]

end Silent

/-! ## 4. The translation -/

/-- **What every translation leaves alone**, where no characters outside the literals read as a
    placeholder: the literals that are no date formats, in their order; and every text that has no
    keyword outside its literals. Masked and unmasked, each text is what it was. -/
theorem translate_intact {sql : Text} (h : Clean (pieces sql)) :
    unmaskStrings (maskStrings sql).masked (maskStrings sql).literals = sql ∧
    ((∀ n, FormatArgument (pieces sql) n →
        ∀ fmt, (maskStrings sql).literals[n]? = some fmt → Sober fmt) →
      (∃ out, rewriteSegment (maskStrings sql).masked (maskStrings sql).literals = render out ∧
        translate sql = expand (maskStrings sql).literals out) ∧
      ∀ kept : List Nat, kept.Sublist (List.range (maskStrings sql).literals.length) →
        (∀ n ∈ kept, ¬ FormatArgument (pieces sql) n) →
          InOrder (kept.filterMap ((maskStrings sql).literals[·]?)) (translate sql)) ∧
    ((∀ w ∈ runs (maskStrings sql).masked, w.map Char.toUpper ∉ keywords) →
      translate sql = sql) := by
  have hmask := unmask_mask h
  refine ⟨hmask, fun hfmt => ?_, fun hwords => ?_⟩
  · rw [maskStrings_eq] at hfmt ⊢
    have hformat : ∀ n, IsFormat (pieces sql) n →
        ∀ fmt, (literals sql)[n]? = some fmt → Sober fmt := fun n hn =>
      hfmt n (formatArgument_iff.mpr hn)
    obtain ⟨out, e, hsteps⟩ := rewriteSegment_render h hformat
    have htranslate : translate sql = expand (literals sql) out := by
      simp only [translate, maskStrings_eq, e]
      exact unmaskStrings_render (steps_clean hsteps h)
    refine ⟨⟨out, e, htranslate⟩, fun kept hkept hno => ?_⟩
    rw [htranslate]
    refine inOrder_expand (literals sql) ((steps_keep hsteps).2 kept ?_ fun n hn hf => ?_)
    · rwa [refs_pieces]
    · exact hno n hn (formatArgument_iff.mpr hf)
  · rw [translate, rewriteSegment_id hwords, hmask]

/-- No character outside the literals could begin a placeholder. -/
theorem clean_of_none (h : (ps.all fun p => p != .char '\x01') = true) :
    Clean ps := by
  intro t ht hi
  obtain ⟨w, rfl, -⟩ := ht.word
  have := all_eq_true.mp h _ (hi.subset mem_cons_self)
  cases this

/-- No place of the literal is a format argument's. -/
theorem not_formatArgument {n : Nat} (h : ∀ i < ps.length,
    ps[i]? = some (.lit n) → (run (ps.take i) .spaces).accepts = false) : ¬ FormatArgument ps n := by
  intro hf
  obtain ⟨u, v, rfl, hu, -⟩ := formatArgument_iff.mp hf
  have hi : u.length < (u ++ .lit n :: v).length := by simp
  have hno := h u.length hi (by simp)
  rw [take_left, hu] at hno
  cases hno

def nvl2Query : Text := "SELECT NVL2(a, 'it''s', TO_CHAR(d, 'YYYY')) FROM DUAL".toList

theorem translate_intact_nvl2 :
    unmaskStrings (maskStrings nvl2Query).masked (maskStrings nvl2Query).literals = nvl2Query ∧
      InOrder ["'it''s'".toList] (translate nvl2Query) := by
  obtain ⟨hmask, hkept, -⟩ := @translate_intact nvl2Query (clean_of_none rfl)
  refine ⟨hmask, (hkept fun n _ fmt hfmt => ?_).2 [0] (by decide) ?_⟩
  · have hall : ∀ fmt ∈ (maskStrings nvl2Query).literals, Sober fmt := by
      have hlit : (maskStrings nvl2Query).literals = ["'it''s'".toList, "'YYYY'".toList] := by
        decide
      rw [hlit]
      refine forall_mem_cons.mpr ⟨⟨by decide, clean_of_none (by decide)⟩, ?_⟩
      exact forall_mem_singleton.mpr ⟨by decide, clean_of_none (by decide)⟩
    exact hall fmt (mem_of_getElem? hfmt)
  · intro n hn
    obtain rfl := mem_singleton.mp hn
    exact not_formatArgument (by decide)

/-- A keyword in a comment is translated; and a literal of another notation is read as code. -/
theorem comment_translated :
    ("SELECT 1 -- SYSDATE".toList = "SELECT 1 ".toList ++ "-- SYSDATE".toList ∧
      (∀ w ∈ runs "SELECT 1 ".toList, w.map Char.toUpper ∉ keywords) ∧
      translate "SELECT 1 -- SYSDATE".toList ≠ "SELECT 1 -- SYSDATE".toList) ∧
    translate "SELECT q'[it's SYSDATE now]' FROM t".toList =
      "SELECT q'[it's CURRENT_TIMESTAMP now]' FROM t".toList := by
  decide

end Veesker.Shim
