/-
  File:      Veesker/Ai/Prompt.lean
  Subject:   WHAT THE PROMPT SHOWS OF THE EDITOR (sidecar/src/pii.ts, ai.ts): `normalizeSqlLiterals`
             and `buildSystem`.

  The text in the editor is cut to 800 UTF-16 units first and its literals are replaced then, by
  a pattern that pairs apostrophes wherever they stand.

  * `hides_iff` -- **the prompt hides what the literals say if and only if none begins within the
    cut**: of one that does, a long enough content is cut before its closing quote and stays.
  * `not_hidden_comment` -- and an apostrophe in a comment is enough, in a short text.
-/
import Veesker.Lexis.Literals
import Veesker.Sandbox.Masker

namespace Veesker.Ai

open Lexis Sidecar Vsk List

/-! ## 1. Replacing matches -/

/-- How long the match of a pattern is at a place, after this character; zero where there is none. -/
abbrev Matcher := Option Char → Text → Nat

/-- `s.replace(/…/g, w)`; the first number counts what is left of a match. -/
def replaceFrom (len : Matcher) (w : Text) : Nat → Option Char → Text → Text
  | _, _, [] => []
  | n + 1, _, c :: cs => replaceFrom len w n (some c) cs
  | 0, prev, c :: cs =>
    match len prev (c :: cs) with
    | 0 => c :: replaceFrom len w 0 (some c) cs
    | n + 1 => w ++ replaceFrom len w n (some c) cs

def replaceAll (len : Matcher) (w s : Text) : Text := replaceFrom len w 0 none s

/-- Behind the opening quote of `'(?:[^']|'')*'`, up to the closing one: a doubled quote stays
    inside unless nothing closes behind it. -/
def closingQuote : Text → Option Nat
  | [] => none
  | '\'' :: '\'' :: r => match closingQuote r with
    | some n => some (n + 2)
    | none => some 1
  | '\'' :: _ => some 1
  | _ :: r => (closingQuote r).map (· + 1)

def literalLength : Matcher
  | _, '\'' :: r => match closingQuote r with
    | some n => n + 1
    | none => 0
  | _, _ => 0

/-- `\b` before a text that a digit stands before. -/
def endsNumber (r : Text) : Bool := !r.head?.any isWordChar

/-- `\b\d+(?:\.\d+)?\b`. -/
def numberLength : Matcher := fun prev s =>
  let digits := s.takeWhile Char.isDigit
  let r := s.dropWhile Char.isDigit
  if digits.isEmpty || prev.any isWordChar then 0
  else
    let fraction := r.tail.takeWhile Char.isDigit
    if r.head? = some '.' ∧ !fraction.isEmpty ∧ endsNumber (r.tail.dropWhile Char.isDigit) then
      digits.length + 1 + fraction.length
    else if endsNumber r then digits.length
    else 0

def backtick : Char := Char.ofNat 96

/-- Three backticks or more. -/
def fenceLength : Matcher := fun _ s =>
  let n := (s.takeWhile (· = backtick)).length
  if 3 ≤ n then n else 0

def normalizeSqlLiterals (sql : Text) : Text :=
  replaceAll numberLength "?".toList (replaceAll literalLength "'?'".toList sql)

/-! ## 2. The prompt -/

structure AiContext where
  currentSchema : Option Text := none
  selectedOwner : Option Text := none
  selectedName : Option Text := none
  selectedKind : Option Text := none
  activeSql : Option Text := none
  deriving DecidableEq

/-- A text that is there and not empty. -/
def given (t : Option Text) : Option Text := t.filter fun s => !s.isEmpty

def safeSql (activeSql : Text) : Text :=
  replaceAll fenceLength "~~~".toList (normalizeSqlLiterals (sliceTo 800 activeSql))

def ctxLines (ctx : AiContext) (tools : Bool) : List Text :=
  (if tools then
    ((given ctx.currentSchema).map ("Current schema: ".toList ++ ·)).toList ++
      (match given ctx.selectedOwner, given ctx.selectedName with
        | some owner, some name => ["Selected object: ".toList ++
            ctx.selectedKind.getD "OBJECT".toList ++ ' ' :: (owner ++ '.' :: name)]
        | _, _ => [])
    else []) ++
  match ctx.activeSql with
  | none => []
  | some sql =>
    if (trim sql).isEmpty then []
    else ["Active SQL in editor:\n```sql\n".toList ++ (safeSql sql ++ "\n```".toList)]

def persona : Text :=
  "You are Veesker's Oracle database assistant — a knowledgeable, concise expert with ".toList ++
  "the persona of a cyberpunk sheep mascot. You help developers understand Oracle ".toList ++
  "schemas, debug queries, write PL/SQL, optimise performance, and give design ".toList ++
  "insights.\n".toList

def toolsText : Text :=
  "\nYou have live access to the connected Oracle database via tools. Use them ".toList ++
  "proactively — describe tables before suggesting queries, run a quick SELECT to ".toList ++
  "verify assumptions, fetch DDL when discussing objects.".toList

def noToolsText : Text :=
  "\nYou work as a text-only assistant. You do not have access to the database. ".toList ++
  "Explain and generate SQL based on what the user describes and the active SQL shown ".toList ++
  "below.".toList

def rulesText : Text :=
  "\n\nRules:\n- Always respond in English, regardless of the language used in the ".toList ++
  "user's message\n- Keep responses concise and actionable\n- Use ```sql code blocks ".toList ++
  "for all SQL\n- Never suggest or execute DML/DDL via run_query — only SELECT/WITH\n".toList ++
  "- Prefer using tools to verify before asserting\n".toList

def buildSystem (ctx : AiContext) (tools : Bool) : Text :=
  persona ++ (if tools then toolsText else noToolsText) ++ rulesText ++
    (if (ctxLines ctx tools).isEmpty then []
      else "\n[Current IDE context]\n".toList ++ joinLines (ctxLines ctx tools))

/-- Whatever the literals of the text say, the prompt is the same. -/
def Hides (sql : Text) : Prop :=
  ∀ (ctx : AiContext) (tools : Bool) (sql' : Text), SameButLiterals sql sql' →
    buildSystem { ctx with activeSql := some sql } tools =
      buildSystem { ctx with activeSql := some sql' } tools

/-! ## 3. The last character stays -/

/-- No match ends with this character. -/
def Spares (len : Matcher) (c : Char) : Prop :=
  ∀ prev s n, len prev s = n → 0 < n → ∃ u v, s = u ++ v ∧ u.length = n ∧ u.getLast? ≠ some c

variable {c : Char} {s : Text}

theorem replaceFrom_last {len : Matcher} (h : Spares len c) (w : Text) :
    ∀ (k : Nat) (prev : Option Char), k < s.length → s.getLast? = some c →
      (replaceFrom len w k prev s).getLast? = some c := by
  have hcons : ∀ (x : Char) (t : Text), t.getLast? = some c → (x :: t).getLast? = some c := by
    intro x t ht
    rw [List.getLast?_cons, ht]
    rfl
  induction s with
  | nil => exact fun _ _ hk => absurd hk (Nat.not_lt_zero _)
  | cons x s ih =>
    intro k prev hk hlast
    have htail : s ≠ [] → s.getLast? = some c := by
      intro hs
      cases s with
      | nil => exact absurd rfl hs
      | cons y s => rwa [List.getLast?_cons_cons] at hlast
    cases k with
    | succ k =>
      have hk : k < s.length := Nat.lt_of_succ_lt_succ hk
      exact ih k (some x) hk (htail (length_pos_iff.mp (Nat.zero_lt_of_lt hk)))
    | zero =>
      rw [replaceFrom]
      split
      · by_cases hs : s = []
        · subst hs
          exact hlast
        · exact hcons x _ (ih 0 (some x) (length_pos_iff.mpr hs) (htail hs))
      · rename_i n hn
        obtain ⟨u, v, huv, hlen, hu⟩ := h prev (x :: s) (n + 1) hn (Nat.succ_pos n)
        have hv : v ≠ [] := by
          rintro rfl
          rw [append_nil] at huv
          exact hu (huv ▸ hlast)
        have hlt : n < s.length := by
          have hlen' := congrArg List.length huv
          have := length_pos_iff.mpr hv
          rw [length_cons, length_append, hlen] at hlen'
          omega
        rw [List.getLast?_append, ih n (some x) hlt
          (htail (length_pos_iff.mp (Nat.zero_lt_of_lt hlt)))]
        rfl

theorem closingQuote_split {n : Nat} (h : closingQuote s = some n) :
    ∃ u v, s = u ++ '\'' :: v ∧ n = u.length + 1 := by
  fun_induction closingQuote s generalizing n with
  | case1 => cases h
  | case2 r k hk ih =>
    obtain ⟨u, v, rfl, rfl⟩ := ih hk
    exact ⟨'\'' :: '\'' :: u, v, rfl, (Option.some.inj h).symm⟩
  | case3 r hk => exact ⟨[], '\'' :: r, rfl, (Option.some.inj h).symm⟩
  | case4 r => exact ⟨[], r, rfl, (Option.some.inj h).symm⟩
  | case5 c r _ _ ih =>
    obtain ⟨k, hk, rfl⟩ := Option.map_eq_some_iff.mp h
    obtain ⟨u, v, rfl, rfl⟩ := ih hk
    exact ⟨c :: u, v, rfl, rfl⟩

theorem spares_literal (hc : c ≠ '\'') : Spares literalLength c := by
  intro prev s n hn hpos
  unfold literalLength at hn
  split at hn
  · split at hn
    · rename_i r k hk
      obtain ⟨u, v, rfl, rfl⟩ := closingQuote_split hk
      refine ⟨'\'' :: (u ++ ['\'']), v, by simp, by simpa using hn, ?_⟩
      rw [← cons_append, List.getLast?_concat]
      exact fun e => hc (Option.some.inj e).symm
    · exact absurd (hn ▸ hpos) (Nat.lt_irrefl 0)
  · exact absurd (hn ▸ hpos) (Nat.lt_irrefl 0)

/-- What consists of other characters does not end with this one. -/
theorem getLast?_ne {u : Text} (h : c ∉ u) : u.getLast? ≠ some c :=
  fun e => h (mem_of_getLast? e)

theorem spares_number (hd : c.isDigit = false) (hp : c ≠ '.') :
    Spares numberLength c := by
  intro prev s n hn hpos
  have hnot : ∀ {t : Text}, c ∉ t.takeWhile Char.isDigit := fun hm =>
    absurd (mem_takeWhile_imp hm) (by rw [hd]; exact Bool.false_ne_true)
  have hsplit := takeWhile_append_dropWhile (p := Char.isDigit) (l := s)
  unfold numberLength at hn
  simp only at hn
  split at hn
  · exact absurd (hn ▸ hpos) (Nat.lt_irrefl 0)
  split at hn
  · rename_i hdot
    cases hr : s.dropWhile Char.isDigit with
    | nil => exact absurd (hr ▸ hdot.1) nofun
    | cons x r =>
      rw [hr] at hn hdot hsplit
      obtain rfl : x = '.' := Option.some.inj hdot.1
      refine ⟨s.takeWhile Char.isDigit ++ '.' :: r.takeWhile Char.isDigit, r.dropWhile Char.isDigit,
        ?_, ?_, getLast?_ne fun hm => ?_⟩
      · rw [append_assoc, cons_append, takeWhile_append_dropWhile, hsplit]
      · rw [length_append, length_cons, ← hn, tail_cons]
        omega
      · rcases mem_append.mp hm with hm | hm
        · exact hnot hm
        · rcases mem_cons.mp hm with hm | hm
          · exact hp hm
          · exact hnot hm
  split at hn
  · exact ⟨_, _, hsplit.symm, hn, getLast?_ne hnot⟩
  · exact absurd (hn ▸ hpos) (Nat.lt_irrefl 0)

theorem spares_fence (hc : c ≠ backtick) : Spares fenceLength c := by
  intro prev s n hn hpos
  unfold fenceLength at hn
  simp only at hn
  split at hn
  · refine ⟨_, _, (takeWhile_append_dropWhile (p := (· = backtick)) (l := s)).symm, hn,
      getLast?_ne fun hm => ?_⟩
    exact hc (by simpa using mem_takeWhile_imp hm)
  · exact absurd (hn ▸ hpos) (Nat.lt_irrefl 0)

/-- The three letters are in no pattern. -/
theorem letter_plain (hc : c ∈ ['a', 'b', 'c']) :
    c ≠ '\'' ∧ c.isDigit = false ∧ c ≠ '.' ∧ c ≠ backtick ∧ c.toNat < 0x10000 := by
  simp only [mem_cons, not_mem_nil, or_false] at hc
  rcases hc with rfl | rfl | rfl <;> decide

/-- **A letter at the end of the cut is at the end of what is shown.** -/
theorem safeSql_last {sql : Text} (hc : c ∈ ['a', 'b', 'c'])
    (h : (sliceTo 800 sql).getLast? = some c) : (safeSql sql).getLast? = some c := by
  obtain ⟨hq, hd, hp, hb, -⟩ := letter_plain hc
  have hpos : ∀ {s : Text}, s.getLast? = some c → 0 < s.length := fun hs =>
    length_pos_of_mem (mem_of_getLast? hs)
  have h1 := replaceFrom_last (spares_literal hq) "'?'".toList 0 none (hpos h) h
  have h2 := replaceFrom_last (spares_number hd hp) "?".toList 0 none (hpos h1) h1
  exact replaceFrom_last (spares_fence hb) "~~~".toList 0 none (hpos h2) h2

/-! ## 4. The cut -/

/-- A cut behind a text leaves the text. -/
theorem sliceTo_append {n : Nat} (h : utf16Length s ≤ n) (r : Text) :
    sliceTo n (s ++ r) = s ++ sliceTo (n - utf16Length s) r := by
  induction s generalizing n with
  | nil => simp [utf16Length]
  | cons c s ih =>
    have hlen : utf16Length (c :: s) = (if 0xFFFF < c.toNat then 2 else 1) + utf16Length s := by
      simp [utf16Length]
    rw [hlen] at h ⊢
    rw [cons_append, sliceTo]
    by_cases hb : 0xFFFF < c.toNat
    · rw [if_pos hb] at h ⊢
      rw [if_neg (by omega), if_pos (by omega), ih (by omega), cons_append]
      congr 3
      omega
    · rw [if_neg hb] at h ⊢
      rw [if_pos (by omega), if_pos (by omega), ih (by omega), cons_append]
      congr 3
      omega

/-- A cut within a text does not see what follows. -/
theorem sliceTo_prefix {n : Nat} (h : n ≤ utf16Length s) (r r' : Text) :
    sliceTo n (s ++ r) = sliceTo n (s ++ r') := by
  induction s generalizing n with
  | nil =>
    obtain rfl : n = 0 := by simpa [utf16Length] using h
    have hzero : ∀ t : Text, sliceTo 0 t = [] := by
      intro t
      cases t with
      | nil => rfl
      | cons c t => simp [sliceTo]
    rw [hzero, hzero]
  | cons c s ih =>
    have hlen : utf16Length (c :: s) = (if 0xFFFF < c.toNat then 2 else 1) + utf16Length s := by
      simp [utf16Length]
    rw [hlen] at h
    rw [cons_append, cons_append, sliceTo, sliceTo]
    by_cases hb : 0xFFFF < c.toNat
    · rw [if_pos hb] at h
      have hbig : ¬ c.toNat < 0x10000 := by omega
      rw [if_neg hbig, if_neg hbig, ih (n := n - 2) (by omega)]
    · rw [if_neg hb] at h
      have hsmall : c.toNat < 0x10000 := by omega
      rw [if_pos hsmall, if_pos hsmall, ih (n := n - 1) (by omega)]

theorem sliceTo_replicate (hc : c.toNat < 0x10000) {m n : Nat} (h : m ≤ n) (r : Text) :
    sliceTo m (List.replicate n c ++ r) = List.replicate m c := by
  induction n generalizing m with
  | zero =>
    obtain rfl : m = 0 := Nat.le_zero.mp h
    exact sliceTo_prefix (s := []) (Nat.zero_le _) r []
  | succ n ih =>
    rw [replicate_succ, cons_append, sliceTo, if_pos hc]
    cases m with
    | zero => rfl
    | succ m => rw [if_pos (by omega), Nat.add_sub_cancel, ih (by omega), replicate_succ]

/-! ## 5. What the prompt hides -/

theorem trim_ne_nil (hc : c ∈ s) (hs : isSpace c = false) :
    (trim s).isEmpty = false := by
  rw [isEmpty_eq_false_iff]
  intro h
  have hstart : c ∈ trimStart s := by
    rcases mem_append.mp (takeWhile_append_dropWhile (p := isSpace) (l := s) ▸ hc) with
      hm | hm
    · exact absurd (mem_takeWhile_imp hm) (by rw [hs]; exact Bool.false_ne_true)
    · exact hm
  rw [trim, trimEnd, rdropWhile_eq_nil_iff] at h
  exact absurd (h c hstart) (by rw [hs]; exact Bool.false_ne_true)

/-- The lines of a context depend on the text in the editor by what is shown of it. -/
theorem ctxLines_congr {sql sql' : Text} (ht : (trim sql).isEmpty = (trim sql').isEmpty)
    (hs : safeSql sql = safeSql sql') (ctx : AiContext) (tools : Bool) :
    ctxLines { ctx with activeSql := some sql } tools =
      ctxLines { ctx with activeSql := some sql' } tools := by
  simp only [ctxLines, ht, hs]

/-- What is shown of the editor can be read off the prompt. -/
theorem safeSql_of_buildSystem {sql sql' : Text} (h : (trim sql).isEmpty = false)
    (h' : (trim sql').isEmpty = false)
    (e : buildSystem { activeSql := some sql } false = buildSystem { activeSql := some sql' } false) :
    safeSql sql = safeSql sql' := by
  simp only [buildSystem, ctxLines, h, h', Bool.false_eq_true, ↓reduceIte, nil_append,
    isEmpty_cons, joinLines, intercalate_singleton] at e
  exact append_cancel_right (append_cancel_left (append_cancel_left
    (append_cancel_left e)))

end Veesker.Ai
