/-
  File:      Veesker/Editor/SingleText.lean
  Subject:   THE TEXT OF A SINGLE RUN (src/lib/stores/sql-editor.svelte.ts `stripTrailingSemicolon`, as
             `runActive` and `runStatementShared` use it).

  The whole buffer is sent, less one semicolon at its end; only a buffer that begins with `BEGIN` or
  `DECLARE`, behind line comments, keeps it. The splitter, which knows what the statement is, is not
  asked.

  * `sent_at` -- what is sent up to a character inside the buffer;
  * **`single_text_iff`** -- the text that is sent is the statement, but for trailing comments and white
    space, if and only if nothing but the statement and its terminator stands in the buffer and no
    semicolon of its own is taken off;
  * `unit_unterminated` -- a procedure without the semicolon behind its `END`.
-/
import Veesker.Editor.Actions
import Veesker.Format.Url
import Veesker.Splitter.Tail

namespace Veesker.Editor

open Splitter List

/-! ## 1. What is sent -/

/-- The text ends inside a line comment. -/
def EndsInComment (t : Text) : Prop := (lexEnd .code 0 t []).1 = .inLineComment

/-- The buffer is the statement. One that begins like an anonymous block is nothing else; another
    has no semicolon of its own at its end, or one semicolon more. -/
def SentWhole (input st : Text) : Prop :=
  if isPlsqlAnon false (trim input) then trim input = st
  else (trim input = st ∧ (endsWith st [';'] = true → EndsInComment st)) ∨
    ∃ sp, Blank sp ∧ trim input = st ++ sp ++ [';']

variable {x : Char}

theorem trimEnd_at (hx : isSpace x = false) (u z : Text) :
    trimEnd (u ++ x :: z) = u ++ x :: trimEnd z :=
  Format.Url.rdropWhile_stop hx z

theorem trimStart_at (hx : isSpace x = false) (u z : Text) :
    trimStart (u ++ x :: z) = trimStart u ++ x :: z := by
  cases h : trimStart u with
  | nil =>
    have hblank : ∀ c ∈ u, isSpace c = true := fun c hc => dropWhile_eq_nil_iff.mp h c hc
    rw [trimStart, dropWhile_append_of_pos hblank]
    exact dropWhile_cons_of_neg (by rw [hx]; decide)
  | cons c r => rw [← h, trimStart_append (by rw [h]; exact cons_ne_nil c r)]

theorem trim_at (hx : isSpace x = false) (u z : Text) :
    trim (u ++ x :: z) = trimStart u ++ x :: trimEnd z := by
  rw [trim, trimStart_at hx, trimEnd_at hx]

theorem trimStart_trim (s : Text) : trimStart (trim s) = trim s := by
  cases h : trim s with
  | nil => rfl
  | cons c r =>
    obtain ⟨w, hsplit, -⟩ := rdropWhile_split isSpace (trimStart s)
    have hhead : trimStart s = c :: (r ++ w) := by
      rw [← cons_append, ← h]
      exact hsplit
    exact trimStart_of_start (trimStart_head hhead) r

/-- The start of a trimmed text begins with no white space. -/
theorem trimStart_of_trim {s u z : Text} (h : trim s = u ++ z) : trimStart u = u := by
  cases u with
  | nil => rfl
  | cons c u =>
    have hfix := trimStart_trim s
    rw [h] at hfix
    exact trimStart_of_start (trimStart_head hfix) u

/-- What is sent of a buffer goes on up to every character in it that is not the last semicolon. -/
theorem sent_at {input u z : Text} (ht : trim input = u ++ x :: z)
    (hx : isSpace x = false) (hlast : x = ';' → z ≠ []) :
    ∃ z', z' <+: z ∧ stripTrailingSemicolon input = u ++ x :: z' := by
  rw [stripTrailingSemicolon]
  split
  · exact ⟨z, prefix_rfl, ht⟩
  · split
    · rename_i hends
      obtain ⟨b, hb⟩ := endsWith_iff.mp hends
      obtain ⟨z₁, hz⟩ : ∃ z₁, z = z₁ ++ [';'] := by
        rcases eq_nil_or_concat' z with rfl | ⟨z₁, c, rfl⟩
        · rw [ht] at hb
          have hc := (append_inj' hb rfl).2
          exact absurd rfl (hlast (List.cons.inj hc).1)
        · rw [ht, ← cons_append, ← append_assoc] at hb
          have hc := (append_inj' hb rfl).2
          exact ⟨z₁, by rw [(List.cons.inj hc).1]⟩
      subst hz
      have hdrop : (trim input).dropLast = u ++ x :: z₁ := by
        rw [ht, ← cons_append, ← append_assoc, dropLast_concat]
      rw [hdrop, trim_at hx, trimStart_of_trim ht]
      refine ⟨trimEnd z₁, ?_, rfl⟩
      exact (List.rdropWhile_prefix _ _).trans (prefix_append _ _)
    · exact ⟨z, prefix_rfl, ht⟩

/-! ## 2. A semicolon of the statement's own -/

theorem length_withoutTail (s : Text) : (withoutTail s).length = solidLength s :=
  length_take_of_le (solidFrom_le .code 0 false s)

/-- The semicolon at the end of a statement is missed, unless it is in a comment. -/
theorem own_semicolon {b w y : Text} {s s' : Scan} (h : Inside (b ++ [';']) w y s s') :
    withoutTail (trimEnd b) = withoutTail (b ++ [';']) ↔ EndsInComment (b ++ [';']) := by
  have hends : (lexEnd .code 0 (b ++ [';']) []).1 =
      (lexEnd (lexEnd .code 0 b [';']).1 (lexEnd .code 0 b [';']).2 [';'] []).1 := by
    rw [lexEnd_append, append_nil]
  rw [EndsInComment, hends]
  rcases h.semicolon with hcode | ⟨c, sp, hb, hc, hsp, hline, hcomment, hopen⟩
  · rw [hcode]
    refine iff_of_false ?_ nofun
    intro hsame
    have hlong : b.length < solidLength (b ++ [';']) := solid_separator hcode (.inl rfl)
    have hshort : solidLength (trimEnd b) ≤ (trimEnd b).length := solidFrom_le .code 0 false _
    have htrim : (trimEnd b).length ≤ b.length := (List.rdropWhile_prefix isSpace b).length_le
    rw [← length_withoutTail, ← hsame, length_withoutTail] at hlong
    omega
  · rw [hcomment]
    refine iff_of_true ?_ rfl
    have hnone : ∀ counts, solidFrom .inLineComment 0 counts (sp ++ [';']) = 0 := by
      intro counts
      refine solid_comment ?_ counts
      intro hmem
      rcases mem_append.mp hmem with hmem | hmem
      · exact hline hmem
      · exact absurd (mem_singleton.mp hmem) (by decide)
    have hsolid : solidLength (c ++ (sp ++ [';'])) = solidLength c := by
      refine solid_append (Quiet.semicolon hsp) (congrArg Prod.snd hopen) ?_
      rw [hopen]
      exact hnone
    have hle : solidLength c ≤ c.length := solidFrom_le .code 0 false c
    rw [← hc, hb, append_assoc, withoutTail, withoutTail, hsolid,
      take_append_of_le_length hle]

/-! ## 3. A cut inside the buffer -/

variable {r : Scan}

/-- The scan from the first character on that is no white space. -/
theorem kept_trimStart {v u : Text} (h : Kept v {} 0 u r 0) :
    ∃ s, Kept v s 0 (trimStart u) r 0 ∧ Alongside (u.takeWhile isSpace) s {} := by
  have hu : u = u.takeWhile isSpace ++ trimStart u := takeWhile_append_dropWhile.symm
  have hblank : Blank (u.takeWhile isSpace) := fun c hc => mem_takeWhile_imp hc
  rw [hu] at h
  obtain ⟨s, k, hfront, hrest⟩ := h.split
  obtain ⟨hk, hcode, hchecked, hplsql⟩ := hfront.front rfl hblank
  subst hk
  refine ⟨s, hrest, hcode, ?_, hchecked, hplsql⟩
  rw [hfront.buf]
  exact (append_nil _).symm

theorem read_trimStart (hx : IsSeparator x) {z u : Text}
    (h : Kept (x :: z) {} 0 u r 0) (hcode : r.state = .code) :
    lexEnd .code 0 (trimStart u) [x] = (.code, 0) := by
  obtain ⟨s, hkept, hs⟩ := kept_trimStart h
  have hread := hkept.lexed
  rwa [show s.state = .code from hs.state, lexEnd_stable hx, hcode] at hread

theorem head_of_prefix {a b : Text} (h : a <+: b) {c : Char} (hb : b.head? ≠ some c) :
    a.head? ≠ some c := by
  intro ha
  obtain ⟨t, rfl⟩ := h
  cases a with
  | nil => cases ha
  | cons d a => exact hb ha

/-- What is sent goes on behind the cut, and so would a statement with the same text. -/
theorem same_start {input st u e : Text} (hx : x = ';' ∨ x = '/' ∧ e.head? ≠ some '*')
    (ht : trim input = u ++ x :: e) (hlast : x = ';' → e ≠ [])
    (hu : lexEnd .code 0 u [x] = (.code, 0))
    (hsame : withoutTail (stripTrailingSemicolon input) = withoutTail st) :
    u.length < solidLength (stripTrailingSemicolon input) ∧
      (∃ e', e' <+: e ∧ stripTrailingSemicolon input = u ++ x :: e') ∧ ∃ v, st = u ++ x :: v := by
  have hsep : IsSeparator x := hx.imp id And.left
  have hspace : isSpace x = false := by
    rcases hx with rfl | ⟨rfl, -⟩ <;> decide
  obtain ⟨e', he, hsent⟩ := sent_at ht hspace hlast
  have hlong : u.length < solidLength (stripTrailingSemicolon input) := by
    rw [hsent]
    refine solid_separator ?_ ?_
    · rw [lexEnd_stable hsep]
      exact hu
    · exact hx.imp id (And.imp id ( head_of_prefix he))
  refine ⟨hlong, ⟨e', he, hsent⟩, ?_⟩
  have hprefix : u ++ [x] <+: st := by
    refine prefix_of_withoutTail hsame ?_ ?_
    · rw [hsent]
      exact ⟨e', by simp⟩
    · rw [length_append, length_singleton]
      omega
  obtain ⟨v, hv⟩ := hprefix
  exact ⟨v, by rw [← hv]; simp⟩

/-- **A semicolon inside the buffer** that ends a statement stays in what is sent. -/
theorem semicolon_differs {u z st w y : Text} {r s s' : Scan} (h : Kept (';' :: z) {} 0 u r 0)
    (hcode : r.state = .code) (hno : r.checkPlsql.isPlsql = false) (hz : trimEnd z ≠ [])
    (hin : Inside st w y s s') :
    withoutTail (stripTrailingSemicolon (u ++ ';' :: z)) ≠ withoutTail st := by
  intro hsame
  have hsep : IsSeparator ';' := .inl rfl
  obtain ⟨-, -, v, rfl⟩ := same_start (.inl rfl) (trim_at (by decide) u z) (fun _ => hz)
    (read_trimStart hsep h hcode) hsame
  obtain ⟨r₂, hkept, hblock, -⟩ := hin.separator hsep (read_trimStart hsep h hcode) nofun
  obtain ⟨s₁, hkept₁, halong⟩ := kept_trimStart h
  have hblank : Blank (u.takeWhile isSpace) := fun c hc => mem_takeWhile_imp hc
  have heq := Kept.same_block hsep hblank hin.blank hkept₁ halong hkept hin.start
  rw [hno, hblock rfl] at heq
  cases heq

/-- A slash that counts in what is sent begins no comment in a statement with the same text: what
counts would go on behind it. -/
theorem slash_no_comment {u v e sent : Text} (hread : lexEnd .code 0 u ['/'] = (.code, 0))
    (hsent : sent = u ++ '/' :: e) (he : e.head? ≠ some '*') (hlong : u.length < solidLength sent)
    (hsame : withoutTail sent = withoutTail (u ++ '/' :: v)) : v.head? ≠ some '*' := by
  intro hv
  obtain ⟨v', rfl⟩ : ∃ v', v = '*' :: v' := by
    cases v with
    | nil => cases hv
    | cons c v => exact ⟨v, by rw [Option.some.inj hv]⟩
  have hshort : solidLength (u ++ '/' :: '*' :: v') ≠ u.length + 1 := by
    refine solid_blockComment ?_
    rw [lexEnd_stable (.inr rfl)]
    exact hread
  have hlength : solidLength sent = solidLength (u ++ '/' :: '*' :: v') := by
    rw [← length_withoutTail, hsame, length_withoutTail]
  have hprefix : u ++ ['/', '*'] <+: u ++ '/' :: e := by
    rw [← hsent]
    refine prefix_of_withoutTail hsame.symm ⟨v', by simp⟩ ?_
    simp only [length_append, length_cons, length_nil]
    omega
  rw [prefix_append_right_inj, prefix_cons_inj] at hprefix
  obtain ⟨e₁, rfl⟩ := hprefix
  exact he rfl

/-- The slash inside a statement that stands behind the cut counts there too. -/
theorem read_again {u tail z pre v post : Text}
    (hread : lexEnd .code 0 u ['/'] = (.code, 0)) (hcut : Cut r '/' (tail ++ '\n' :: z) z)
    (ht : ∀ c ∈ tail, isSlashTail c = true) (hat : z = pre ++ (u ++ '/' :: v ++ post))
    (hpre : lexEnd .code 0 pre (u ++ '/' :: v ++ post) = (.code, 0)) :
    lexEnd .code 0 (u ++ '/' :: (tail ++ ['\n'] ++ pre) ++ u) ['/'] = (.code, 0) := by
  have hsep : IsSeparator '/' := .inr rfl
  have hgap : Blank (tail ++ ['\n']) := by
    intro d hd
    rcases mem_append.mp hd with hd | hd
    · exact isSlashTail_space ht d hd
    · rw [mem_singleton.mp hd]
      rfl
  have hfirst : lexEnd .code 0 u ('/' :: (tail ++ ['\n'] ++ z)) = (.code, 0) := by
    rw [lexEnd_stable hsep]
    exact hread
  have hcut' : Cut r '/' (tail ++ ['\n'] ++ z) z := by
    rw [append_assoc]
    exact hcut
  have hfront := lexEnd_cut hfirst hcut' hgap hat hpre
  have hbehind : u ++ '/' :: v ++ post = u ++ '/' :: (v ++ post) := by simp
  rw [← lexEnd_stable hsep _ _ _ (v ++ post), lexEnd_append, ← hbehind, hfront]
  exact (lexEnd_stable hsep _ _ _ _).trans hread

/-- **A slash alone on its line** stays in what is sent. -/
theorem slash_differs {u tail z st w y : Text} {r s s' : Scan}
    (h : Kept ('/' :: (tail ++ z)) {} 0 u r 0) (hcode : r.state = .code)
    (hcut : Cut r '/' (tail ++ z) (z.drop 1)) (hline : Blank (lastLine r.buf))
    (ht : ∀ c ∈ tail, isSlashTail c = true) (hz : z.head?.all (· == '\n') = true)
    (hplace : PlacedIn (z.drop 1) st) (hin : Inside st w y s s') :
    withoutTail (stripTrailingSemicolon (u ++ '/' :: (tail ++ z))) ≠ withoutTail st := by
  intro hsame
  have hsep : IsSeparator '/' := .inr rfl
  have hread := read_trimStart hsep h hcode
  have hstar : (tail ++ z).head? ≠ some '*' := by
    rcases hcut.separator with hx | ⟨-, hx⟩
    · cases hx
    · exact hx
  obtain ⟨hlong, ⟨e', he, hsent⟩, v, rfl⟩ := same_start
    (.inr ⟨rfl, head_of_prefix (List.rdropWhile_prefix _ _) hstar⟩) (trim_at (by decide) u _) nofun
    hread hsame
  have hv : v.head? ≠ some '*' := slash_no_comment hread hsent
    ( head_of_prefix (he.trans (List.rdropWhile_prefix _ _)) hstar) hlong hsame
  -- there the slash is not alone on its line
  obtain ⟨r₂, hkept, -, hslash⟩ := hin.separator hsep hread (fun _ => hv)
  have hline₂ : Blank (lastLine r₂.buf) := by
    have hu : u = u.takeWhile isSpace ++ trimStart u := takeWhile_append_dropWhile.symm
    have hbuf : r₂.buf = w ++ trimStart u := by
      rw [hkept.buf, hin.start.buf, append_assoc]
      rfl
    rw [show r.buf = u from h.buf, hu, blank_front (fun c hc => mem_takeWhile_imp hc)] at hline
    rw [hbuf, blank_front hin.blank]
    exact hline
  cases z with
  | nil =>
    obtain ⟨pre, post, hnil, -⟩ := hplace
    simp at hnil
  | cons c z =>
    have hc : c = '\n' := by simpa using hz
    subst hc
    obtain ⟨pre, post, hat, hpre, hpost⟩ := hplace
    -- the slash inside the statement counts where the statement stands
    have hinput : trim (u ++ '/' :: (tail ++ '\n' :: z)) =
        (trimStart u ++ '/' :: (tail ++ ['\n'] ++ pre) ++ trimStart u) ++
          '/' :: trimEnd (v ++ post) := by
      have hsplit : u ++ '/' :: (tail ++ '\n' :: z) =
          (u ++ '/' :: (tail ++ ['\n'] ++ pre ++ trimStart u)) ++ '/' :: (v ++ post) := by
        rw [show z = pre ++ (trimStart u ++ '/' :: v ++ post) from hat]
        simp
      rw [hsplit, trim_at (by decide), trimStart_at (by decide)]
      simp
    have hstar₂ : (trimEnd (v ++ post)).head? ≠ some '*' := by
      refine head_of_prefix (List.rdropWhile_prefix _ _) ?_
      cases v with
      | nil => exact hpost
      | cons c v => exact hv
    obtain ⟨hfar, ⟨e₂, -, hsent₂⟩, -⟩ :=
      same_start (.inr ⟨rfl, hstar₂⟩) hinput nofun (read_again hread hcut ht hat hpre) hsame
    have hprefix : trimStart u ++ '/' :: (tail ++ ['\n']) <+: trimStart u ++ '/' :: v := by
      refine prefix_of_withoutTail hsame ?_ ?_
      · rw [hsent₂]
        exact ⟨pre ++ trimStart u ++ '/' :: e₂, by simp⟩
      · simp only [length_append, length_cons, length_nil] at hfar ⊢
        omega
    rw [prefix_append_right_inj, prefix_cons_inj] at hprefix
    obtain ⟨v', rfl⟩ := hprefix
    have halone : slashAlone r₂.buf (tail ++ ['\n'] ++ v' ++ y) = true := by
      refine slashAlone_iff.mpr ⟨hline₂, ?_⟩
      have hsplit : tail ++ ['\n'] ++ v' ++ y = tail ++ '\n' :: (v' ++ y) := by simp
      rw [hsplit, dropWhile_append_of_pos ht, dropWhile_cons_of_neg (by decide)]
      rfl
    rw [hslash rfl] at halone
    cases halone

/-- Nor is the statement in front of such a slash what is sent. -/
theorem slash_not_front {u tail z : Text}
    (h : Kept ('/' :: (tail ++ z)) {} 0 u r 0) (hcode : r.state = .code)
    (hcut : Cut r '/' (tail ++ z) (z.drop 1)) :
    withoutTail (stripTrailingSemicolon (u ++ '/' :: (tail ++ z))) ≠ withoutTail (trim u) := by
  intro hsame
  have hstar : (tail ++ z).head? ≠ some '*' := by
    rcases hcut.separator with hx | ⟨-, hx⟩
    · cases hx
    · exact hx
  obtain ⟨-, -, v, hv⟩ := same_start
    (.inr ⟨rfl, head_of_prefix (List.rdropWhile_prefix _ _) hstar⟩) (trim_at (by decide) u _) nofun
    (read_trimStart (.inr rfl) h hcode) hsame
  have hlong := congrArg List.length hv
  have hshort : (trim u).length ≤ (trimStart u).length :=
    (List.rdropWhile_prefix isSpace (trimStart u)).length_le
  rw [length_append, length_cons] at hlong
  omega

/-! ## 4. The statement -/

/-- The word that `_PLSQL_ANON_RE` looks for. -/
def anonWord : Pattern :=
  .seq (.alt (.wordI "BEGIN".toList) (.wordI "DECLARE".toList)) .wordEdge

/-- A semicolon behind a word is not read with it. -/
theorem wordI_semicolon {w s : Text} (hw : ';' ∉ w) {p : Option Char} {m : Cursor}
    (h : m ∈ (Pattern.wordI w).ends ⟨p, s ++ [';']⟩) :
    ∃ m' ∈ (Pattern.wordI w).ends ⟨p, s⟩, m'.prev = m.prev ∧ m.rest = m'.rest ++ [';'] := by
  induction w generalizing p s with
  | nil =>
    rw [mem_singleton.mp h]
    exact ⟨⟨p, s⟩, mem_singleton_self _, rfl, rfl⟩
  | cons c w ih =>
    obtain ⟨l, hl, hm⟩ := Pattern.mem_ends_seq.mp h
    obtain ⟨d, cs, hrest, hd, rfl⟩ := Pattern.mem_ends_one.mp hl
    have hup : d.toUpper = c := by simpa using hd
    cases s with
    | nil =>
      have hsemi : d = ';' := (List.cons.inj hrest).1.symm
      rw [hsemi] at hup
      exact absurd (hup ▸ mem_cons_self) hw
    | cons e s =>
      obtain ⟨rfl, rfl⟩ := List.cons.inj hrest
      obtain ⟨m', hm', hprev, hr⟩ := ih (fun hmem => hw (mem_cons_of_mem c hmem)) hm
      refine ⟨m', Pattern.mem_ends_seq.mpr ⟨_, ?_, hm'⟩, hprev, hr⟩
      exact Pattern.mem_ends_one.mpr ⟨e, s, rfl, hd, rfl⟩

theorem anonWord_semicolon {r : Text} (h : anonWord.test (r ++ [';']) = true) :
    anonWord.test r = true := by
  obtain ⟨m, hm⟩ := Pattern.test_iff.mp h
  obtain ⟨l, hl, hedge⟩ := Pattern.mem_ends_seq.mp hm
  obtain ⟨l', hl', hprev, hrest⟩ : ∃ l' ∈ (Pattern.alt (.wordI "BEGIN".toList)
      (.wordI "DECLARE".toList)).ends ⟨none, r⟩, l'.prev = l.prev ∧ l.rest = l'.rest ++ [';'] := by
    rcases Pattern.mem_ends_alt.mp hl with hl | hl
    · obtain ⟨l', hl', hsame⟩ := wordI_semicolon (w := "BEGIN".toList) (by decide) hl
      exact ⟨l', Pattern.mem_ends_alt.mpr (.inl hl'), hsame⟩
    · obtain ⟨l', hl', hsame⟩ := wordI_semicolon (w := "DECLARE".toList) (by decide) hl
      exact ⟨l', Pattern.mem_ends_alt.mpr (.inr hl'), hsame⟩
  have hnext : Pattern.isWordAt l.rest.head? = Pattern.isWordAt l'.rest.head? := by
    rw [hrest]
    cases l'.rest <;> rfl
  refine Pattern.test_iff.mpr ⟨l', Pattern.mem_ends_seq.mpr ⟨l', hl', ?_⟩⟩
  rw [Pattern.ends, hnext, ← hprev] at hedge
  rw [Pattern.ends]
  split at hedge
  · rename_i hword
    rw [if_pos hword]
    exact mem_singleton_self l'
  · cases hedge

/-- A text that begins with one of the words is a block. -/
theorem detects_word {r : Text} (h : anonWord.test r = true) : detectPlsqlStart r = true := by
  obtain ⟨m, hm⟩ := Pattern.test_iff.mp h
  obtain ⟨l, hl, hedge⟩ := Pattern.mem_ends_seq.mp hm
  have hword : ∃ c cs, r = c :: cs ∧ (c.toUpper = 'B' ∨ c.toUpper = 'D') := by
    have hhead : ∀ {d : Char} {w : Text}, l ∈ (Pattern.wordI (d :: w)).ends ⟨none, r⟩ →
        ∃ c cs, r = c :: cs ∧ c.toUpper = d := by
      intro d w hl
      obtain ⟨v, hr, hv⟩ := Pattern.mem_ends_wordI hl
      cases v with
      | nil => cases hv
      | cons c v => exact ⟨c, v ++ l.rest, hr, (List.cons.inj hv).1⟩
    rcases Pattern.mem_ends_alt.mp hl with hl | hl
    · obtain ⟨c, cs, hr, hc⟩ : ∃ c cs, r = c :: cs ∧ c.toUpper = 'B' := hhead hl
      exact ⟨c, cs, hr, .inl hc⟩
    · obtain ⟨c, cs, hr, hc⟩ : ∃ c cs, r = c :: cs ∧ c.toUpper = 'D' := hhead hl
      exact ⟨c, cs, hr, .inr hc⟩
  obtain ⟨c, cs, rfl, hc⟩ := hword
  have hspace : isSpace c = false := by
    rw [← isSpace_toUpper]
    rcases hc with hc | hc <;> rw [hc] <;> decide
  have hnot : ∀ d : Char, d.toUpper = d → d ≠ 'B' → d ≠ 'D' → c ≠ d := by
    intro d hd hB hD he
    rw [he, hd] at hc
    exact hc.elim hB hD
  have hstrip : stripLeadingComments (c :: cs) = c :: cs := by
    have h1 : startsWith (c :: cs) "--".toList = false := by
      simp [startsWith, List.isPrefixOf, (hnot '-' (by decide) (by decide) (by decide)).symm]
    have h2 : startsWith (c :: cs) "/*".toList = false := by
      simp [startsWith, List.isPrefixOf, (hnot '/' (by decide) (by decide) (by decide)).symm]
    rw [strip_eq, trimStart_of_start hspace, h1, h2]
    rfl
  rw [detectPlsqlStart, hstrip, plsqlBlock]
  refine Pattern.test_iff.mpr ⟨m, Pattern.mem_ends_alt.mpr (.inl ?_)⟩
  exact Pattern.mem_ends_seq.mpr ⟨l, Pattern.mem_ends_alt.mpr (Pattern.mem_ends_alt.mp hl).symm, hedge⟩

/-- What the expression reads in front of its word. -/
theorem anon_start {s : Text} {inComment : Bool} (h : isPlsqlAnon inComment s = true) :
    ∃ w F r, Filler F ∧ anonWord.test r = true ∧
      (inComment = true ∧ '\n' ∉ w ∧ s = w ++ '\n' :: (F ++ r) ∨ inComment = false ∧ s = F ++ r) := by
  induction s generalizing inComment with
  | nil => cases inComment <;> cases h
  | cons c cs ih =>
    cases inComment with
    | true =>
      rw [isPlsqlAnon] at h
      split at h
      · rename_i hc
        obtain ⟨_, F, r, hF, hr, hcs⟩ := ih h
        rcases hcs with ⟨hno, -⟩ | ⟨-, rfl⟩
        · cases hno
        · exact ⟨[], F, r, hF, hr, .inl ⟨rfl, not_mem_nil, by rw [hc]; rfl⟩⟩
      · rename_i hc
        obtain ⟨w, F, r, hF, hr, hcs⟩ := ih h
        rcases hcs with ⟨-, hw, rfl⟩ | ⟨hno, -⟩
        · refine ⟨c :: w, F, r, hF, hr, .inl ⟨rfl, ?_, rfl⟩⟩
          intro hmem
          rcases mem_cons.mp hmem with he | hmem
          · exact hc he.symm
          · exact hw hmem
        · cases hno
    | false =>
      rw [isPlsqlAnon] at h
      split at h
      · rename_i hc
        obtain ⟨w, F, r, hF, hr, hcs⟩ := ih h
        rcases hcs with ⟨-, hw, rfl⟩ | ⟨hno, -⟩
        · cases w with
          | nil =>
            have hline : some '\n' = some '-' := hc.2
            cases hline
          | cons d w =>
            have hd : d = '-' := Option.some.inj hc.2
            refine ⟨[], _, r, .comment (fun hmem => hw (mem_cons_of_mem d hmem)) hF, hr,
              .inr ⟨rfl, ?_⟩⟩
            rw [hc.1, hd]
            simp
        · cases hno
      · split at h
        · rename_i hc
          obtain ⟨_, F, r, hF, hr, hcs⟩ := ih h
          rcases hcs with ⟨hno, -⟩ | ⟨-, rfl⟩
          · cases hno
          · exact ⟨[], c :: F, r, .space (isSpace_of_isBlankChar hc) hF, hr, .inr ⟨rfl, rfl⟩⟩
        · exact ⟨[], [], c :: cs, .nil, h, .inr ⟨rfl, rfl⟩⟩

/-- A buffer that begins like an anonymous block is one to the splitter. -/
theorem detects_anon {u : Text} (h : isPlsqlAnon false (u ++ [';']) = true) :
    detectPlsqlStart u = true := by
  obtain ⟨_, F, r, hF, hr, hu⟩ := anon_start h
  rcases hu with ⟨hno, -⟩ | ⟨-, hu⟩
  · cases hno
  · rcases eq_nil_or_concat' r with rfl | ⟨r', c, rfl⟩
    · cases hr
    · rw [← append_assoc] at hu
      obtain ⟨rfl, hc⟩ := append_inj' hu rfl
      obtain rfl : ';' = c := (List.cons.inj hc).1
      rw [detectPlsqlStart_filler hF]
      exact detects_word (anonWord_semicolon hr)

/-- What ends the first statement at a semicolon is no anonymous block. -/
theorem not_anon_of_cut {u z : Text} (h : Kept (';' :: z) {} 0 u r 0)
    (hno : r.checkPlsql.isPlsql = false) : isPlsqlAnon false (trimStart u ++ [';']) = false := by
  by_contra hanon
  have hblank : ∀ c ∈ u.takeWhile isSpace, isSpace c = true := fun c hc => mem_takeWhile_imp hc
  have hu : u = u.takeWhile isSpace ++ trimStart u := takeWhile_append_dropWhile.symm
  have hdetect : detectPlsqlStart r.buf = true := by
    rw [h.buf, nil_append, hu, detectPlsqlStart_filler (filler_spaces hblank)]
    exact detects_anon (by simpa using hanon)
  have hsettled : r.Settled := h.settled nofun
  rw [Scan.checkPlsql] at hno
  split at hno
  · rename_i hchecked
    rw [hsettled hchecked] at hno
    cases hno
  · rw [hdetect] at hno
    cases hno

/-- A statement that the buffer is, is sent. -/
theorem sentWhole_same {input st w y : Text} {s s' : Scan} (h : SentWhole input st)
    (htrim : trim st = st) (hin : Inside st w y s s') :
    withoutTail (stripTrailingSemicolon input) = withoutTail st := by
  rw [SentWhole] at h
  rw [stripTrailingSemicolon]
  split at h
  · rename_i hanon
    rw [if_pos hanon, h]
  · rename_i hanon
    rw [if_neg hanon]
    rcases h with ⟨hst, hends⟩ | ⟨sp, hsp, ht⟩
    · rw [hst]
      split
      · rename_i hsemi
        obtain ⟨b, rfl⟩ := endsWith_iff.mp hsemi
        rw [dropLast_concat, trim, trimStart_of_trim hst]
        exact (own_semicolon hin).mpr (hends hsemi)
      · rfl
    · have hsemi : endsWith (trim input) [';'] = true := endsWith_iff.mpr ⟨st ++ sp, ht⟩
      have hend : trimEnd (st ++ sp) = trimEnd st := rdropWhile_append_of_all hsp
      have hstart : trimStart st = st := trimStart_of_trim (ht.trans (append_assoc _ _ _))
      rw [if_pos hsemi, ht, dropLast_concat, trim, trimStart_of_trim ht, hend]
      rw [trim, hstart] at htrim
      rw [htrim]

/-- Nothing but a semicolon and white space behind the statement. -/
theorem sentWhole_semicolon {u z : Text} (h : Kept (';' :: z) {} 0 u r 0)
    (hno : r.checkPlsql.isPlsql = false) (hz : trimEnd z = []) :
    SentWhole (u ++ ';' :: z) (trim u) := by
  obtain ⟨sp, hsplit, hsp⟩ := rdropWhile_split isSpace (trimStart u)
  have ht : trim (u ++ ';' :: z) = trimStart u ++ [';'] := by
    rw [trim_at (by decide), hz]
  have hanon := not_anon_of_cut h hno
  rw [SentWhole, ht, hanon]
  exact .inr ⟨sp, hsp, congrArg (· ++ [';']) hsplit⟩

/-- What stands in white space is blank. -/
theorem blank_of_placed {z st : Text} (h : PlacedIn z st) (hz : trimEnd z = []) : Blank st := by
  obtain ⟨sp, hsplit, hsp⟩ := rdropWhile_split isSpace z
  have hblank : Blank z := by
    rw [show z = trimEnd z ++ sp from hsplit, hz]
    exact hsp
  obtain ⟨pre, post, hat, -⟩ := h
  intro c hc
  refine hblank c ?_
  rw [hat]
  exact mem_append_right _ (mem_append_left _ hc)

/-- **The text of a single run is the statement** if and only if the buffer is. -/
theorem single_text_iff {input st : Text} (he : (splitSql input).errors = [])
    (hs : (splitSql input).statements = [st]) :
    withoutTail (stripTrailingSemicolon input) = withoutTail st ↔ SentWhole input st := by
  have hst : st ∈ (splitSql input).statements := by
    rw [hs]
    exact mem_singleton_self st
  obtain ⟨hcode, htrim, w, y, s, s', hin⟩ := statement_inside he hst
  refine ⟨?_, fun h => sentWhole_same h htrim hin⟩
  intro hsame
  rw [splitSql_eq, Scan.finish_closed (closed_of_noErrors he)] at hst
  rcases kept_or_cut input {} 0 with ⟨r, l, h⟩ | ⟨u, x, z, r, rfl, h, hcut⟩
  · -- nothing cuts the buffer: it is the statement
    have hr : scanFrom {} 0 0 input = r := by
      have hscan := h.scan
      rwa [append_nil, scanFrom] at hscan
    rw [hr] at hst
    rcases h.flushed rfl hst with hno | hall
    · cases hno
    · rw [SentWhole]
      split
      · exact hall.symm
      · rename_i hanon
        refine .inl ⟨hall.symm, ?_⟩
        intro hsemi
        obtain ⟨b, rfl⟩ := endsWith_iff.mp hsemi
        rw [stripTrailingSemicolon, if_neg hanon, ← hall, if_pos hsemi, dropLast_concat, trim,
          trimStart_of_trim hall.symm] at hsame
        exact (own_semicolon hin).mp hsame
  · obtain ⟨hrcode, z', hcut'⟩ := cut_of_not_keeps hcut
    obtain ⟨r', hscan, hcode', hbuf', hstatements⟩ := scanFrom_cut hrcode hcut'
    rw [h.scan, hscan] at hst
    have hwhere : st = trim u ∨ PlacedIn z' st := by
      rcases statement_place (Nat.le_refl _) hcode' hbuf' hst with hst | hst
      · rw [hstatements] at hst
        exact .inl ((h.flushed rfl hst).resolve_left not_mem_nil)
      · exact .inr hst
    cases hcut' with
    | semicolon hno =>
      by_cases hz : trimEnd z = []
      · have hst' : st = trim u := by
          refine hwhere.resolve_right fun hplace => ?_
          rw [← htrim, trim_eq_nil.mpr (blank_of_placed hplace hz)] at hcode
          cases hcode
        rw [hst']
        exact sentWhole_semicolon h hno hz
      · exact absurd hsame (semicolon_differs h hrcode hno hz hin)
    | @slash tail z hline ht hz =>
      exfalso
      rcases hwhere with rfl | hplace
      · exact slash_not_front h hrcode (.slash hline ht hz) hsame
      · exact slash_differs h hrcode (.slash hline ht hz) hline ht hz hplace hin hsame

theorem single_text_iff_query :
    withoutTail (stripTrailingSemicolon "SELECT 1 FROM dual ;\n".toList) =
        withoutTail "SELECT 1 FROM dual".toList ↔
      SentWhole "SELECT 1 FROM dual ;\n".toList "SELECT 1 FROM dual".toList :=
  single_text_iff (by decide) (by decide)

set_option maxRecDepth 20000 in
/-- A procedure is sent without the semicolon behind its `END`. -/
theorem unit_unterminated :
    let input := "CREATE PROCEDURE p IS BEGIN NULL; END;".toList
    splitSql input = ⟨[input], []⟩ ∧
      (Request.active input).prepared = some (.active, "CREATE PROCEDURE p IS BEGIN NULL; END".toList) ∧
      withoutTail "CREATE PROCEDURE p IS BEGIN NULL; END".toList ≠ withoutTail input := by
  decide

end Veesker.Editor
