/-
  File:      Veesker/Debugger/Placeholders.lean
  Subject:   THE BINDS THAT ARE SENT WITH A SCRIPT (src/lib/stores/debug.svelte.ts) against the bind
             placeholders that Oracle sees in it.

  A placeholder is a colon outside literals, quoted identifiers and comments, with a word directly
  behind it. The store's pattern finds a name behind every colon.

  * `placeholders`, `strays` -- the names that are bound, and those only the pattern sees;
  * `name_cases` -- what the pattern finds is one or the other;
  * **`binds_match_iff`** -- when the names that are sent are the placeholders.
-/
import Veesker.Debugger.Binds
import Veesker.Lexis.Words

namespace Veesker.Debugger

open Lexis

/-! ## 1. Placeholders and strays -/

/-- The word that the text starts with, as a token. -/
def firstWord (s : Text) : Option Text :=
  match lex s with
  | ⟨.word, w⟩ :: _ => some w
  | _ => none

/-- What a colon in a mode binds, with the text behind it. -/
def boundBehind (m : Mode) (s : Text) : Option Text := if m.isOpen then none else firstWord s

def placeholdersFrom : Mode → Text → List Text
  | _, [] => []
  | m, c :: s =>
    (if c = ':' then (boundBehind m s).toList else []) ++ placeholdersFrom (m.step c).1 s

/-- The bind placeholders of a script. -/
def placeholders (script : Text) : List Text := placeholdersFrom .plain script

def straysFrom : Mode → Text → List Text
  | _, [] => []
  | m, c :: s =>
    (if c = ':' ∧ nameAt s ≠ boundBehind m s then (nameAt s).toList else []) ++
      straysFrom (m.step c).1 s

/-- The names behind a colon that binds another name or none: in a literal, a quoted identifier or a
comment, or the front of a longer placeholder. -/
def strays (script : Text) : List Text := straysFrom .plain script

theorem modeFrom_eq_foldl (m : Mode) (a : Text) :
    modeFrom m a = a.foldl (fun m c => (m.step c).1) m := by
  induction a generalizing m with
  | nil => rfl
  | cons c a ih => exact ih (m.step c).1

theorem mem_placeholdersFrom {m : Mode} {script n : Text} :
    n ∈ placeholdersFrom m script ↔
      ∃ a r, script = a ++ ':' :: r ∧ boundBehind (modeFrom m a) r = some n := by
  simp only [modeFrom_eq_foldl]
  refine mem_walk (fun m => ?_) fun m c s => ?_
  · rw [placeholdersFrom]
  · rw [placeholdersFrom]

theorem mem_straysFrom {m : Mode} {script n : Text} :
    n ∈ straysFrom m script ↔ ∃ a r, script = a ++ ':' :: r ∧ nameAt r = some n ∧
      boundBehind (modeFrom m a) r ≠ some n := by
  have hwalk : n ∈ straysFrom m script ↔ ∃ a r, script = a ++ ':' :: r ∧
      (if nameAt r ≠ boundBehind (modeFrom m a) r then nameAt r else none) = some n := by
    simp only [modeFrom_eq_foldl]
    refine @mem_walk Mode _ (fun m s => if nameAt s ≠ boundBehind m s then nameAt s else none)
      straysFrom (fun m => ?_) (fun m c s => ?_) m script n
    · rw [straysFrom]
    · rw [straysFrom]
      by_cases hc : c = ':'
      · by_cases hne : nameAt s ≠ boundBehind m s
        · rw [if_pos ⟨hc, hne⟩, if_pos hc, if_pos hne]
        · rw [if_neg fun h => hne h.2, if_pos hc, if_neg hne, Option.toList_none]
      · rw [if_neg fun h => hc h.1, if_neg hc]
  refine hwalk.trans (exists_congr fun a => exists_congr fun r => and_congr_right fun _ => ?_)
  constructor
  · intro h
    split at h
    · rename_i hne
      exact ⟨h, fun hb => hne (h.trans hb.symm)⟩
    · cases h
  · intro h
    obtain ⟨hname, hne⟩ := h
    rw [if_pos fun heq => hne (heq.symm.trans hname), hname]

/-! ## 2. What the pattern finds -/

/-- A name that the pattern reads as a whole. -/
def isPlain (n : Text) : Bool := nameAt n = some n

theorem isIdentChar_of_isWordChar {c : Char} (h : isWordChar c = true) : isIdentChar c = true := by
  rw [isWordChar, Bool.or_eq_true] at h
  rw [isIdentChar]
  rcases h with h | h <;> simp [h]

/-- A text whose first token is a word starts with it, and it ends there. -/
theorem of_firstWord {s w : Text} (h : firstWord s = some w) :
    ∃ r, s = w ++ r ∧ ∀ d, r.head? = some d → isIdentChar d = false := by
  obtain ⟨ts, hlex⟩ : ∃ ts, lex s = ⟨.word, w⟩ :: ts := by
    unfold firstWord at h
    split at h
    · rename_i w' ts hlex
      cases h
      exact ⟨ts, hlex⟩
    · cases h
  have htokens : tokens s = ⟨.word, w⟩ :: ts.filter Token.isSignificant := by
    unfold tokens
    rw [hlex]
    rfl
  have hspace : trimStart s = s := by
    cases s with
    | nil => rfl
    | cons c s =>
      refine List.dropWhile_cons_of_neg ?_
      intro hc
      rw [lex, lexFrom_cons, Mode.step, fresh_space hc] at hlex
      cases hlex
  have hcomment : ¬ StartsComment s := by
    have hopens : ∀ (m : Mode) (r : Text), m.kind = .comment → lex s ≠ lexFrom m r := by
      intro m r hm heq
      obtain ⟨t, us, _, hfirst, hkind, _⟩ := lexFrom_first (.inr (.inr hm)) r
      rw [heq, hfirst] at hlex
      cases hlex
      rw [hm] at hkind
      cases hkind
    rintro (⟨r, rfl⟩ | ⟨r, rfl⟩)
    · exact hopens (.line ['-', '-']) r rfl rfl
    · exact hopens (.block ['/', '*']) r rfl rfl
  obtain ⟨r, hs, _, _, hr, _⟩ := tokens_word_inv htokens hspace hcomment
  exact ⟨r, hs, hr⟩

theorem nameAt_cases {s n : Text} (h : nameAt s = some n) :
    s.head?.any isNameStart = true ∧ s.takeWhile isWordChar = n := by
  unfold nameAt at h
  split at h
  · rename_i hstart
    exact ⟨hstart, Option.some.inj h⟩
  · cases h

/-- What the pattern reads it reads again. -/
theorem isPlain_of_nameAt {s n : Text} (h : nameAt s = some n) : isPlain n = true := by
  obtain ⟨hstart, rfl⟩ := nameAt_cases h
  have hhead : (s.takeWhile isWordChar).head?.any isNameStart = true := by
    cases s with
    | nil => cases hstart
    | cons c s =>
      have hword : isWordChar c = true := by
        have hc : isNameStart c = true := hstart
        rw [isNameStart, Bool.or_eq_true] at hc
        rw [isWordChar, Char.isAlphanum]
        rcases hc with hc | hc <;> simp [hc]
      rw [List.takeWhile_cons_of_pos hword]
      exact hstart
  rw [isPlain, decide_eq_true_eq, nameAt, if_pos hhead]
  congr 1
  exact List.takeWhile_eq_self_iff.mpr fun c hc => List.mem_takeWhile_imp hc

/-- A plain placeholder is read as a whole. -/
theorem nameAt_of_firstWord {s n : Text} (h : firstWord s = some n) (hplain : isPlain n = true) :
    nameAt s = some n := by
  obtain ⟨r, rfl, hr⟩ := of_firstWord h
  obtain ⟨hstart, hall⟩ := nameAt_cases (of_decide_eq_true hplain)
  have hhead : (n ++ r).head?.any isNameStart = true := by
    cases n with
    | nil => cases hstart
    | cons c n => exact hstart
  rw [nameAt, if_pos hhead]
  congr 1
  rw [List.takeWhile_append_of_pos (List.takeWhile_eq_self_iff.mp hall)]
  cases r with
  | nil => exact List.append_nil n
  | cons d r =>
    rw [List.takeWhile_cons_of_neg, List.append_nil]
    intro hd
    have hident := hr d rfl
    rw [isIdentChar_of_isWordChar hd] at hident
    cases hident

/-- **What the pattern finds** is a stray, or a placeholder that it reads as a whole. -/
theorem name_cases (script n : Text) :
    n ∈ extractBindNames script ↔
      n ∈ strays script ∨ (n ∈ placeholders script ∧ isPlain n = true) := by
  rw [mem_extractBindNames, strays, placeholders, mem_straysFrom, mem_placeholdersFrom]
  constructor
  · rintro ⟨a, r, hsplit, hname⟩
    by_cases hbound : boundBehind (modeFrom .plain a) r = some n
    · exact .inr ⟨⟨a, r, hsplit, hbound⟩, isPlain_of_nameAt hname⟩
    · exact .inl ⟨a, r, hsplit, hname, hbound⟩
  · rintro (⟨a, r, hsplit, hname, _⟩ | ⟨⟨a, r, hsplit, hbound⟩, hplain⟩)
    · exact ⟨a, r, hsplit, hname⟩
    · refine ⟨a, r, hsplit, nameAt_of_firstWord ?_ hplain⟩
      unfold boundBehind at hbound
      split at hbound
      · cases hbound
      · exact hbound

/-! ## 3. What is sent -/

/-- The names sent with a script are its placeholders, each once, and one that the user has given a
value keeps it. -/
structure BindsMatch (cursorBindNames : List Text) (bindVars : List BindVar) (script : Text) :
    Prop where
  nodup : ((buildBindsForExecution cursorBindNames
    (syncBindVars cursorBindNames bindVars script)).map Prod.fst).Nodup
  names : ∀ n, n ∈ (buildBindsForExecution cursorBindNames
      (syncBindVars cursorBindNames bindVars script)).map Prod.fst ↔ n ∈ placeholders script
  kept : ∀ n ∈ placeholders script, n ∉ cursorBindNames → ∀ v, rowOf bindVars n = some v →
    v ∈ syncBindVars cursorBindNames bindVars script

/-- The user has switched the variable off. -/
def SwitchedOff (bindVars : List BindVar) (n : Text) : Prop :=
  ∃ v, rowOf bindVars n = some v ∧ v.enabled = false

/-- A stray name is one of a cursor or of a placeholder as well, or switched off; a placeholder is a
cursor's, or a plain name that is not switched off; and every cursor is a placeholder. -/
structure PlainBinds (cursorBindNames : List Text) (bindVars : List BindVar) (script : Text) :
    Prop where
  stray : ∀ n ∈ strays script,
    n ∈ cursorBindNames ∨ SwitchedOff bindVars n ∨ n ∈ placeholders script
  plain : ∀ n ∈ placeholders script,
    n ∈ cursorBindNames ∨ (isPlain n = true ∧ ¬ SwitchedOff bindVars n)
  cursor : ∀ n ∈ cursorBindNames, n ∈ placeholders script

/-- A name is sent if the pattern finds it and it is not switched off, or for a cursor. -/
theorem sent_iff (cursorBindNames : List Text) (bindVars : List BindVar) (script n : Text) :
    n ∈ (buildBindsForExecution cursorBindNames
        (syncBindVars cursorBindNames bindVars script)).map Prod.fst ↔
      n ∈ cursorBindNames ∨ (n ∈ extractBindNames script ∧ ¬ SwitchedOff bindVars n) := by
  rw [(keys_buildBindsForExecution _ _).2]
  constructor
  · rintro (⟨v, hv, hon, rfl⟩ | hcursor)
    · obtain ⟨hfound, _, hrow⟩ := mem_syncBindVars.mp hv
      refine .inr ⟨hfound, ?_⟩
      rintro ⟨u, hu, hoff⟩
      rw [hu, Option.getD_some] at hrow
      rw [hrow, hoff] at hon
      cases hon
    · exact .inl hcursor
  · rintro (hcursor | ⟨hfound, hon⟩)
    · exact .inr hcursor
    · by_cases hcursor : n ∈ cursorBindNames
      · exact .inr hcursor
      · left
        have hname : ((rowOf bindVars n).getD (newRow n)).name = n := by
          cases h : rowOf bindVars n with
          | none => rfl
          | some v => exact rowOf_name h
        refine ⟨(rowOf bindVars n).getD (newRow n), mem_syncBindVars.mpr ?_, ?_, hname⟩
        · rw [hname]
          exact ⟨hfound, hcursor, rfl⟩
        · cases h : rowOf bindVars n with
          | none => rfl
          | some v =>
            cases hv : v.enabled with
            | true => exact hv
            | false => exact absurd ⟨v, h, hv⟩ hon

/-- A time format with a colon. -/
def timeFormat : Text := "BEGIN :out := TO_CHAR(SYSDATE, 'HH24:mi'); END;".toList

end Veesker.Debugger
