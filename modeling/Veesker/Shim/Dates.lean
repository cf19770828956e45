/-
  File:      Veesker/Shim/Dates.lean
  Subject:   TO_DATE AND TO_CHAR, whose format is written into the query.

  * `Sober` -- what a format's text must be for that;
  * `format_of_call` -- the literal that is taken is a format argument;
  * `date_sound` -- **the rewrite takes that literal, and it alone**.
-/
import Veesker.Shim.Expressions

namespace Veesker.Shim

open List

variable {F : Nat → Prop}

/-! ## 1. The format -/

/-- **A format's text can be written into the query**: its parentheses balance, and no part of it
    reads as a placeholder. -/
def Sober (fmt : Text) : Prop :=
  insideFrom 0 (chars (converted fmt)) = true ∧ Clean (chars (converted fmt))

/-- What reads as a placeholder is a literal. -/
theorem fmtRef_render {ps : List Piece} (h : Clean ps) {n : Nat} (hn : fmtRef (render ps) = some n) :
    ps = [.lit n] := by
  unfold fmtRef at hn
  cases ps with
  | nil => cases hn
  | cons p ps =>
    cases p with
    | char c =>
      rw [render_char, not_placeholderAt h] at hn
      cases hn
    | lit m =>
      rw [render_lit, placeholderAt_placeholder] at hn
      split at hn
      · rename_i m' e
        cases hn
        obtain ⟨rfl, hps⟩ := Prod.mk.inj (Option.some.inj e)
        cases ps with
        | nil => rfl
        | cons q ps =>
          cases q with
          | char c => cases hps
          | lit m => cases hps
      · cases hn

/-! ## 2. The rewrite -/

/-- A literal that is all of a call's second argument is a format argument. -/
theorem format_of_call {u val v : List Piece} {w g g₁ g₂ : Text} {n : Nat} (hu : Edge u)
    (hw : w.map Char.toUpper ∈ dateFunctions) (hval : flatFrom 0 val = true)
    (hg : ∀ c ∈ g, isSpace c = true) (hg₁ : ∀ c ∈ g₁, isSpace c = true)
    (hg₂ : ∀ c ∈ g₂, isSpace c = true) :
    IsFormat (u ++ call w g (val ++ behindCommas [chars g₁ ++ [.lit n] ++ chars g₂]) ++ v) n := by
  refine ⟨_, chars g₂ ++ .char ')' :: v, ?_, accepts_call hu hw hval hg hg₁,
    closes_iff.mpr ⟨g₂, v, rfl, hg₂⟩⟩
  simp [call, behindCommas]

/-- What stands behind the value of a rewritten date. -/
def dateEnd (fmt : Text) : Text := ", '".toList ++ converted fmt ++ "'".toList ++ [')']

theorem last_date {fmt : Text} (h : Sober fmt) : Last (dateEnd fmt) := by
  refine last_close (x := ',') ?_ ⟨',', _, rfl, rfl, by decide⟩ rfl (by decide)
  have hsplit : chars (", '".toList ++ converted fmt ++ "'".toList ++ [')']) =
      chars ", '".toList ++ (chars (converted fmt) ++ chars "')".toList) := by simp
  have hend : Clean (chars "')".toList) := clean_chars (by decide)
  rw [hsplit]
  exact clean_text (by decide) (clean_stop h.2 hend rfl (by decide))

theorem flat_dateEnd {fmt : Text} (h : Sober fmt) : flatFrom 1 (chars (dateEnd fmt)) = true := by
  have hcomma : ∀ z, flatFrom 1 (chars ", '".toList ++ z) = flatFrom 1 z := fun z => rfl
  have hconv : ∀ z, flatFrom 1 (chars (converted fmt) ++ z) = flatFrom 1 z := fun z =>
    flat_inside (d := 0) (e := 0) h.1
  simp only [dateEnd, chars_append, append_assoc]
  rw [hcomma, hconv]
  rfl

/-- The last of some literals goes, which was a format argument. -/
theorem keeps_concat {G : Nat → Prop} {ns : List Nat} {n : Nat} (h : G n) : Keeps G (ns ++ [n]) ns := by
  intro ms hms hnot
  obtain ⟨x, y, rfl, hx, hy⟩ := sublist_append_iff.mp hms
  obtain rfl | rfl := sublist_singleton.mp hy
  · rwa [append_nil]
  · exact (hnot n (by simp) h).elim

theorem date_sound {c : Char} {name target : Text} {literals : List Text}
    (hname : c :: name ∈ dateFunctions) (hseg : Seg (target ++ "(".toList))
    (htarget : ∃ b r, target = b :: r ∧ b ≠ 'V')
    (hopen : ∀ z, flatFrom 0 (chars (target ++ "(".toList) ++ z) = flatFrom 1 z)
    (hfmt : ∀ n, F n → ∀ fmt, literals[n]? = some fmt → Sober fmt) :
    CallSound F (c :: name) (rewriteDate (c :: name) target literals) := by
  intro pre w g args rest hpre hF hclean hw hg hin
  have hword : (c :: name).all isWordChar = true := by
    have hall : dateFunctions.all (fun v => v.all isWordChar) = true := rfl
    exact all_eq_true.mp hall _ hname
  have hV : c ≠ 'V' := by
    rintro rfl
    obtain h | h := mem_pair.mp hname
    · exact absurd (List.cons.inj h).1 (by decide)
    · exact absurd (List.cons.inj h).1 (by decide)
  have hsame := @unchanged_sound c name w g args hw hword hg hV
  obtain ⟨val, l, hparts, rfl, hflat⟩ := parts_spec hin
  have hsplit := splitArgs_render (val ++ behindCommas l)
  rw [hparts] at hsplit
  match l with
  | [] =>
    simp only [rewriteDate, hsplit]
    exact hsame
  | _ :: _ :: _ =>
    simp only [rewriteDate, hsplit]
    exact hsame
  | [ref] =>
    simp only [rewriteDate, hsplit, map_cons, map_nil]
    cases hb : (fmtRef (trim (render ref))).bind fun n => literals[n]? with
    | none => exact hsame
    | some fmt =>
      cases fmt with
      | nil => exact hsame
      | cons q fmt =>
        obtain ⟨n, hn, hlit⟩ := Option.bind_eq_some_iff.mp hb
        rw [trim_render] at hn
        have href := fmtRef_render (clean_trimmed (clean_args hclean (by simp))) hn
        obtain ⟨g₁, g₂, eref, hg₁, hg₂⟩ := trimmed_split ref
        rw [href] at eref
        subst eref
        have hformat : ∀ u v, Edge u → IsFormat (u ++ call w g (val ++
            behindCommas [chars g₁ ++ [.lit n] ++ chars g₂]) ++ v) n := fun u v hu =>
          format_of_call hu (hw ▸ hname) (hflat val (by simp)) hg hg₁ hg₂
        have hsober := hfmt n (hF n (hformat pre rest hpre)) _ hlit
        refine ⟨build [(target ++ "(".toList, trimmed val)] (dateEnd (q :: fmt)), ?_, ?_⟩
        · simp [build, joined, dateEnd, trim_render]
        · refine rewrites_args (word_of_capitals hw (all_eq_true.mp hword)) hg hin hflat
            (forall_mem_singleton.mpr ⟨hseg, val, by simp, rfl⟩) (forall_mem_nil _) ?_
            (last_date hsober) ?_ fun u v hu F' hF' => ?_
          · obtain ⟨b, r, rfl, hb⟩ := htarget
            exact ⟨b, _, rfl, hb⟩
          · rw [build_cons, hopen, flat_arg (flat_trimmed (hflat val (by simp)))]
            exact flat_dateEnd hsober
          · -- the format argument goes, and it alone
            have hrefs : refs (val ++ behindCommas [chars g₁ ++ [.lit n] ++ chars g₂]) =
                refs val ++ [n] := by
              rw [refs_append, refs_behindCommas]
              simp [refs]
            rw [hrefs, refs_build, flatMap_singleton, refs_trimmed]
            exact keeps_concat (hF' n (hformat u v hu))

theorem sound_toDate {literals : List Text}
    (h : ∀ n, F n → ∀ fmt, literals[n]? = some fmt → Sober fmt) :
    Sound F (findCall "TO_DATE".toList (rewriteDate "TO_DATE".toList "strptime".toList literals)) :=
  sound_call ⟨'T', "O_DATE".toList, rfl, by decide⟩ rfl
    (date_sound (by decide)
      (seg_text (c := '(') (x := 's') (by decide) rfl rfl rfl (by decide) rfl rfl (by decide))
      ⟨'s', _, rfl, by decide⟩ (fun z => rfl) h)

theorem sound_toChar {literals : List Text}
    (h : ∀ n, F n → ∀ fmt, literals[n]? = some fmt → Sober fmt) :
    Sound F (findCall "TO_CHAR".toList (rewriteDate "TO_CHAR".toList "strftime".toList literals)) :=
  sound_call ⟨'T', "O_CHAR".toList, rfl, by decide⟩ rfl
    (date_sound (by decide)
      (seg_text (c := '(') (x := 's') (by decide) rfl rfl rfl (by decide) rfl rfl (by decide))
      ⟨'s', _, rfl, by decide⟩ (fun z => rfl) h)

end Veesker.Shim
