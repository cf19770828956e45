/-
  File:      Veesker/Host/TnsNames.lean
  Subject:   WHAT `parse_aliases` FINDS IN A `tnsnames.ora` (src-tauri/src/persistence/tnsnames.rs).

  A well-formed text is a row of entries `alias[, alias...] = descriptor`, each begun in the first
  column; its further lines are indented, blank or comments, and `#` begins a comment on any line.

  * `lineAlias_iff` -- a line gives an alias exactly where the alias, `=` and `(` stand on it.
  * `parseAliases_entries` -- the parser finds the names of the plain entries, and nothing else.
  * **`parseAliases_iff`**: it finds all aliases, each once, exactly where the plain entries name
    them all; where none is named twice: where every entry is plain.
  * `parseAliases_broken` -- an entry whose descriptor begins on the next line.
-/
import Veesker.Host.Wallet
import Veesker.Text.Cut

namespace Veesker.Host

open List

/-! ## 1. Well-formed texts -/

/-- A line without its comment. -/
def bare (line : Text) : Text := line.takeWhile (· != '#')

/-- A line that begins nothing: indented, blank, or a comment. -/
def Continues (line : Text) : Prop :=
  startsWith line [' '] = true ∨ startsWith line ['\t'] = true ∨
    (bare line).all Rust.isWhitespace = true

structure IsName (n : Text) : Prop where
  nonempty : n ≠ []
  plain : ∀ c ∈ n, Rust.isWhitespace c = false ∧ c ∉ [',', '=', '(', ')', '#']

def IsGap (g : Text) : Prop := ∀ c ∈ g, Rust.isWhitespace c = true

/-- `alias[, alias...]`. -/
inductive NameList : Text → List Text → Prop where
  | one {g n g' : Text} (hg : IsGap g) (hn : IsName n) (hg' : IsGap g') :
      NameList (g ++ n ++ g') [n]
  | cons {g n g' t : Text} {ns : List Text} (hg : IsGap g) (hn : IsName n) (hg' : IsGap g')
      (ht : NameList t ns) : NameList (g ++ n ++ g' ++ ',' :: t) (n :: ns)

/-- Every parenthesis has its other one, `depth` of them being open. -/
def balancedFrom : Nat → Text → Bool
  | depth, [] => depth == 0
  | depth, c :: s =>
    if c = '(' then balancedFrom (depth + 1) s
    else if c = ')' then
      match depth with
      | 0 => false
      | depth + 1 => balancedFrom depth s
    else balancedFrom depth s

structure TnsEntry where
  names : List Text
  head : Text
  behind : List Text

/-- What an entry says, its comments left out. -/
def TnsEntry.text (e : TnsEntry) : Text := bare e.head ++ e.behind.flatMap fun l => '\n' :: bare l

def TnsEntry.lines (e : TnsEntry) : List Text := e.head :: e.behind

structure TnsEntry.WellFormed (e : TnsEntry) : Prop where
  /-- The entry begins in the first column. -/
  starts : ∃ c r, e.head = c :: r ∧ Rust.isWhitespace c = false
  behind : ∀ l ∈ e.behind, Continues l
  reads : ∃ t gap body, e.text = t ++ '=' :: (gap ++ '(' :: body) ∧ NameList t e.names ∧
    IsGap gap ∧ balancedFrom 0 ('(' :: body) = true

/-- The lines of a text are these entries, blank lines and comments before them. -/
structure TnsFile (text : Text) (entries : List TnsEntry) : Prop where
  wellFormed : ∀ e ∈ entries, e.WellFormed
  lines : ∃ front, (∀ l ∈ front, (bare l).all Rust.isWhitespace = true) ∧
    Rust.lines text = front ++ entries.flatMap TnsEntry.lines

/-- One alias of ASCII letters, digits and underscores, with `=` and `(` on its line. -/
def TnsEntry.Plain (e : TnsEntry) : Prop :=
  ∃ a gap gap' rest, e.head = a ++ gap ++ '=' :: (gap' ++ '(' :: rest) ∧ a ≠ [] ∧
    a.all isAliasChar = true ∧ IsGap gap ∧ IsGap gap'

/-! ## 2. One line -/

variable {c : Char}

theorem aliasChar_plain (h : isAliasChar c = true) : Rust.isWhitespace c = false ∧
    c ≠ '=' ∧ c ≠ '#' ∧ c ≠ ',' := by
  have hlt : c.toNat < 128 := by
    rw [isAliasChar, Bool.or_eq_true, beq_iff_eq] at h
    rcases h with h | rfl
    · exact isAlphanum_ascii h
    · decide
  have hall : ∀ n < 128, isAliasChar (Char.ofNat n) = true →
      Rust.isWhitespace (Char.ofNat n) = false ∧ Char.ofNat n ≠ '=' ∧ Char.ofNat n ≠ '#' ∧
        Char.ofNat n ≠ ',' := by decide
  have := hall c.toNat hlt
  rw [Char.ofNat_toNat] at this
  exact this h

theorem trim_eq_of_head {r : Text} (hc : Rust.isWhitespace c = false) :
    Rust.trim (c :: r) = (c :: r).rdropWhile Rust.isWhitespace := by
  rw [Rust.trim, dropWhile_cons_of_neg (by rw [hc]; exact Bool.false_ne_true)]

/-- A text without white space at its ends, between gaps. -/
theorem trim_between {g a g' : Text} (hg : IsGap g) (hg' : IsGap g')
    (ha : ∀ c ∈ a, Rust.isWhitespace c = false) (hne : a ≠ []) :
    Rust.trim (g ++ a ++ g') = a := by
  rw [Rust.trim, append_assoc, dropWhile_append_of_pos hg]
  obtain ⟨c, r, rfl⟩ := exists_cons_of_ne_nil hne
  rw [cons_append, dropWhile_cons_of_neg
    (by rw [ha c mem_cons_self]; exact Bool.false_ne_true), ← cons_append,
    rdropWhile_append_of_all hg', rdropWhile_eq_self_iff]
  intro hl
  rw [ha _ (getLast_mem hl)]
  exact Bool.false_ne_true

theorem gap_nil : IsGap [] := nofun

theorem isGap_of_all {g : Text} (h : g.all Rust.isWhitespace = true) : IsGap g :=
  all_eq_true.mp h

/-- Trimming a text that has a solid character in it leaves that character. -/
theorem rdropWhile_keeps {x rest : Text} (hc : Rust.isWhitespace c = false) :
    ∃ rest', (x ++ c :: rest).rdropWhile Rust.isWhitespace = x ++ c :: rest' := by
  obtain ⟨d, hd, hall⟩ := rdropWhile_split Rust.isWhitespace (x ++ c :: rest)
  have h : (x ++ [c]) ++ rest = (x ++ c :: rest).rdropWhile Rust.isWhitespace ++ d := by
    rw [← hd, append_assoc, singleton_append]
  rcases append_eq_append_iff.mp h with ⟨m, hm, -⟩ | ⟨m, hm, hdm⟩
  · exact ⟨m, by rw [hm, append_assoc, singleton_append]⟩
  · -- what is cut off would hold the character
    cases m using List.reverseRecOn with
    | nil =>
      rw [append_nil] at hm
      exact ⟨[], hm.symm⟩
    | append_singleton m b _ =>
      rw [← append_assoc] at hm
      have hb : c = b := by simpa using (append_inj' hm rfl).2
      have := hall b (by rw [hdm]; simp)
      rw [← hb, hc] at this
      cases this

theorem starts_solid {h : Text} {r : Text} (hh : h = c :: r)
    (hc : Rust.isWhitespace c = false) :
    (startsWith h [' '] || startsWith h ['\t']) = false := by
  have h1 : c ≠ ' ' := fun e => by rw [e] at hc; exact absurd hc (by decide)
  have h2 : c ≠ '\t' := fun e => by rw [e] at hc; exact absurd hc (by decide)
  rw [hh]
  simp [startsWith, List.isPrefixOf, h1.symm, h2.symm]

theorem notMem_of_plain {a gap : Text} (ha : a.all isAliasChar = true) (hg : IsGap gap)
    (h1 : isAliasChar c = false) (h2 : Rust.isWhitespace c = false) : c ∉ a ++ gap := by
  intro hm
  rcases mem_append.mp hm with hm | hm
  · rw [all_eq_true.mp ha c hm] at h1
    cases h1
  · rw [hg c hm] at h2
    cases h2

/-- **A line gives an alias exactly where the alias, `=` and `(` stand on it.** -/
theorem lineAlias_iff {h a r : Text} (hh : h = c :: r)
    (hc : Rust.isWhitespace c = false) : lineAlias h = some a ↔
      ∃ gap gap' rest, h = a ++ gap ++ '=' :: (gap' ++ '(' :: rest) ∧ a ≠ [] ∧
        a.all isAliasChar = true ∧ IsGap gap ∧ IsGap gap' := by
  have hsolid := starts_solid hh hc
  constructor
  · intro hl
    rw [lineAlias, if_neg (by rw [hsolid]; exact Bool.false_ne_true)] at hl
    obtain ⟨d, hd, hall⟩ := rdropWhile_split Rust.isWhitespace h
    have htrim : Rust.trim h = h.rdropWhile Rust.isWhitespace := by rw [hh, trim_eq_of_head hc]
    rw [htrim] at hl
    generalize h.rdropWhile Rust.isWhitespace = l at hl hd
    simp only at hl
    split at hl
    · cases hl
    split at hl
    · cases hl
    rename_i _ heq
    split at hl
    · cases hl
    rename_i hcond
    cases hl
    simp only [Bool.or_eq_true, Bool.not_eq_true', not_or, Bool.not_eq_false,
      List.isEmpty_iff] at hcond
    obtain ⟨⟨hne, hname⟩, hopen⟩ := hcond
    rw [Bool.not_eq_true', Bool.not_eq_false, contains_iff_mem] at heq
    obtain ⟨t, u, rfl, ht⟩ := eq_append_cons_of_mem heq
    obtain ⟨hbefore, hbehind⟩ := takeWhile_cut (z := u) ht
    rw [hbehind, drop_one, tail_cons] at hopen
    rw [hbefore] at hne hname ⊢
    obtain ⟨rest, hrest⟩ := startsWith_iff.mp hopen
    -- the part before the sign begins with the first character of the line
    obtain ⟨t', rfl⟩ : ∃ t', t = c :: t' := by
      cases t with
      | nil => exact absurd rfl hne
      | cons b t' =>
        rw [hh] at hd
        exact ⟨t', by rw [(List.cons.inj hd).1]⟩
    rw [trim_eq_of_head hc] at hne hname ⊢
    obtain ⟨gap, hgap, hg⟩ := rdropWhile_split Rust.isWhitespace (c :: t')
    refine ⟨gap, u.takeWhile Rust.isWhitespace, rest ++ d, ?_, hne, hname, hg,
      fun b hb => mem_takeWhile_imp hb⟩
    rw [← hgap, hd, append_assoc, cons_append]
    conv_lhs => rw [← takeWhile_append_dropWhile (p := Rust.isWhitespace) (l := u), hrest]
    simp
  · intro hl
    obtain ⟨gap, gap', rest, he, hne, hname, hg, hg'⟩ := hl
    have hp : Rust.isWhitespace '(' = false := by decide
    obtain ⟨rest', hrest⟩ : ∃ rest',
        (a ++ gap ++ '=' :: gap' ++ '(' :: rest).rdropWhile Rust.isWhitespace =
          a ++ gap ++ '=' :: gap' ++ '(' :: rest' := rdropWhile_keeps hp
    have hline : Rust.trim h = a ++ gap ++ '=' :: (gap' ++ '(' :: rest') := by
      rw [hh, trim_eq_of_head hc, ← hh, he]
      simpa only [append_assoc, cons_append] using hrest
    have heq : '=' ∉ a ++ gap := notMem_of_plain hname hg (by decide) (by decide)
    have hsolid' : ∀ b ∈ a, Rust.isWhitespace b = false := fun b hb =>
      (aliasChar_plain (all_eq_true.mp hname b hb)).1
    have hfirst : startsWith (a ++ gap ++ '=' :: (gap' ++ '(' :: rest')) ['#'] = false := by
      obtain ⟨b, a', rfl⟩ := exists_cons_of_ne_nil hne
      have hb := (aliasChar_plain (all_eq_true.mp hname b mem_cons_self)).2.2.1
      simp [startsWith, List.isPrefixOf, hb.symm]
    have hcut := takeWhile_cut (z := gap' ++ '(' :: rest') heq
    have hnameTrim : Rust.trim (a ++ gap) = a := by
      simpa using trim_between gap_nil hg hsolid' hne
    rw [lineAlias, if_neg (by rw [hsolid]; exact Bool.false_ne_true), hline]
    simp only [hfirst, hcut.1, hcut.2, hnameTrim]
    rw [if_neg (by simp), if_neg (by simp), if_neg]
    rw [drop_one, tail_cons, dropWhile_append_of_pos hg',
      dropWhile_cons_of_neg (by rw [hp]; exact Bool.false_ne_true)]
    simp [hname, hne, startsWith, List.isPrefixOf]

/-- A line that begins nothing gives no alias. -/
theorem lineAlias_continues {l : Text} (h : Continues l) : lineAlias l = none := by
  rw [lineAlias]
  split
  · rfl
  · rename_i hindent
    rw [Bool.or_eq_true, not_or] at hindent
    have hblank : (bare l).all Rust.isWhitespace = true :=
      (h.resolve_left hindent.1).resolve_left hindent.2
    have hg : IsGap (bare l) := all_eq_true.mp hblank
    have hsplit : l = bare l ++ l.dropWhile (· != '#') :=
      (takeWhile_append_dropWhile).symm
    have hstart : ∃ r, Rust.trim l = [] ∨ Rust.trim l = '#' :: r := by
      cases hd : l.dropWhile (· != '#') with
      | nil =>
        rw [hd, append_nil] at hsplit
        refine ⟨[], .inl ?_⟩
        rw [Rust.trim, dropWhile_eq_nil_iff.mpr (by rw [hsplit]; exact hg)]
        rfl
      | cons c r =>
        have hc : c = '#' := by
          have := head_dropWhile_not (· != '#') (l := l) (by rw [hd]; exact cons_ne_nil _ _)
          simpa [hd] using this
        subst hc
        have hsharp : Rust.isWhitespace '#' = false := by decide
        obtain ⟨r', hr'⟩ : ∃ r', ([] ++ '#' :: r).rdropWhile Rust.isWhitespace = [] ++ '#' :: r' :=
          rdropWhile_keeps hsharp
        refine ⟨r', .inr ?_⟩
        rw [hd] at hsplit
        rw [hsplit, Rust.trim, dropWhile_append_of_pos hg,
          dropWhile_cons_of_neg (by rw [hsharp]; exact Bool.false_ne_true)]
        exact hr'
    obtain ⟨r, hr⟩ := hstart
    rcases hr with hr | hr <;> rw [hr] <;> rfl

/-! ## 3. One entry -/

theorem NameList.ne_nil {t : Text} {ns : List Text} (h : NameList t ns) : ns ≠ [] := by
  cases h <;> exact cons_ne_nil _ _

theorem equals_notMem_piece {g n g' : Text} (hg : IsGap g) (hn : IsName n) (hg' : IsGap g') :
    '=' ∉ g ++ n ++ g' := by
  have hws : Rust.isWhitespace '=' = false := by decide
  intro hm
  rcases mem_append.mp hm with hm | hm
  · rcases mem_append.mp hm with hm | hm
    · exact Bool.false_ne_true (hws.symm.trans (hg _ hm))
    · exact absurd (hn.plain _ hm).2 (by decide)
  · exact Bool.false_ne_true (hws.symm.trans (hg' _ hm))

theorem NameList.equals_notMem {t : Text} {ns : List Text} (h : NameList t ns) : '=' ∉ t := by
  induction h with
  | one hg hn hg' => exact equals_notMem_piece hg hn hg'
  | cons hg hn hg' _ ih =>
    intro hm
    rcases mem_append.mp hm with hm | hm
    · exact equals_notMem_piece hg hn hg' hm
    · rcases mem_cons.mp hm with hm | hm
      · exact absurd hm (by decide)
      · exact ih hm

/-- A plain entry has one name, the alias on its line. -/
theorem names_of_plain {e : TnsEntry} (he : e.WellFormed) {a gap gap' rest : Text}
    (hhead : e.head = a ++ gap ++ '=' :: (gap' ++ '(' :: rest)) (hne : a ≠ [])
    (ha : a.all isAliasChar = true) (hg : IsGap gap) : e.names = [a] := by
  have hsolid : ∀ b ∈ a, Rust.isWhitespace b = false := fun b hb =>
    (aliasChar_plain (all_eq_true.mp ha b hb)).1
  obtain ⟨t, gap₁, body, htext, hnames, -, -⟩ := he.reads
  have hsharp : ∀ b ∈ a ++ gap ++ ['='], (b != '#') = true := by
    intro b hb
    rw [bne_iff_ne]
    rintro rfl
    rcases mem_append.mp hb with hb | hb
    · exact notMem_of_plain ha hg (by decide) (by decide) hb
    · exact absurd hb (by decide)
  have hbare : ∃ z, e.text = (a ++ gap) ++ '=' :: z := by
    have hb : (a ++ gap ++ ['='] ++ (gap' ++ '(' :: rest)).takeWhile (· != '#') =
        a ++ gap ++ ['='] ++ (gap' ++ '(' :: rest).takeWhile (· != '#') :=
      takeWhile_append_of_pos hsharp
    rw [append_assoc, singleton_append] at hb
    refine ⟨(gap' ++ '(' :: rest).takeWhile (· != '#') ++
      e.behind.flatMap fun l => '\n' :: bare l, ?_⟩
    rw [TnsEntry.text, bare, hhead, hb]
    simp
  obtain ⟨z, hz⟩ := hbare
  have hcomma : ',' ∉ a ++ gap := notMem_of_plain ha hg (by decide) (by decide)
  have heq : '=' ∉ a ++ gap := notMem_of_plain ha hg (by decide) (by decide)
  obtain ⟨ht, -⟩ := cut_at_first hnames.equals_notMem heq (htext.symm.trans hz)
  have hhead_solid : ∀ {n u : Text}, n ≠ [] → (∀ b ∈ n, Rust.isWhitespace b = false) →
      ∀ c, (n ++ u).head? = some c → Rust.isWhitespace c = false := by
    intro n u hn hall c hc
    obtain ⟨b, n', rfl⟩ := exists_cons_of_ne_nil hn
    exact (Option.some.inj hc) ▸ hall b mem_cons_self
  generalize e.names = names at hnames ⊢
  cases hnames with
  | one hg₀ hn hg₂ =>
    rename_i g n g'
    have hn' : ∀ b ∈ n, Rust.isWhitespace b = false := fun b hb => (hn.plain b hb).1
    rw [append_assoc] at ht
    obtain ⟨rfl, ht⟩ := cut_at_span (x := g) (y := []) hg₀ nofun
      (hhead_solid hn.nonempty hn') (hhead_solid hne hsolid) ht
    have hgaps : ∀ {u : Text}, IsGap u → ∀ c, u.head? = some c → (!Rust.isWhitespace c) = false := by
      intro u hu c hc
      rw [hu c (mem_of_head? hc)]
      rfl
    obtain ⟨rfl, -⟩ := cut_at_span (p := fun b => !Rust.isWhitespace b)
      (fun b hb => by rw [hn' b hb]; rfl) (fun b hb => by rw [hsolid b hb]; rfl)
      (hgaps hg₂) (hgaps hg) ht
    rfl
  | cons hg₀ hn hg₂ hrest =>
    exact absurd (ht ▸ mem_append_right _ mem_cons_self) hcomma

/-- An entry gives its only alias, or nothing. -/
theorem lineAlias_entry {e : TnsEntry} (he : e.WellFormed) :
    (e.Plain → (lineAlias e.head).toList = e.names) ∧
      (¬ e.Plain → (lineAlias e.head).toList = []) := by
  obtain ⟨c, r, hh, hc⟩ := he.starts
  constructor
  · intro hp
    obtain ⟨a, gap, gap', rest, hhead, hne, ha, hg, hg'⟩ := hp
    rw [(lineAlias_iff hh hc).mpr ⟨gap, gap', rest, hhead, hne, ha, hg, hg'⟩,
      names_of_plain he hhead hne ha hg]
    rfl
  · intro hp
    cases hl : lineAlias e.head with
    | none => rfl
    | some a =>
      obtain ⟨gap, gap', rest, hhead, hne, ha, hg, hg'⟩ := (lineAlias_iff hh hc).mp hl
      exact absurd ⟨a, gap, gap', rest, hhead, hne, ha, hg, hg'⟩ hp

theorem filterMap_entry {e : TnsEntry} (he : e.WellFormed) :
    e.lines.filterMap lineAlias = (lineAlias e.head).toList := by
  have hbehind : e.behind.filterMap lineAlias = [] :=
    filterMap_eq_nil_iff.mpr fun l hl => lineAlias_continues (he.behind l hl)
  rw [TnsEntry.lines, filterMap_cons, hbehind]
  cases lineAlias e.head <;> rfl

/-! ## 4. A whole file -/

section

open Classical

/-- **The parser finds the names of the plain entries, and nothing else.** -/
theorem parseAliases_entries {text : Text} {entries : List TnsEntry} (h : TnsFile text entries) :
    parseAliases text = (entries.filter fun e => decide e.Plain).flatMap TnsEntry.names := by
  obtain ⟨front, hfront, hlines⟩ := h.lines
  have hnothing : front.filterMap lineAlias = [] :=
    filterMap_eq_nil_iff.mpr fun l hl => lineAlias_continues (.inr (.inr (hfront l hl)))
  rw [parseAliases, hlines, filterMap_append, hnothing, nil_append]
  have hwf := h.wellFormed
  clear hlines h
  induction entries with
  | nil => rfl
  | cons e es ih =>
    have he := hwf e mem_cons_self
    rw [flatMap_cons, filterMap_append, filterMap_entry he,
      ih fun x hx => hwf x (mem_cons_of_mem _ hx)]
    by_cases hp : e.Plain
    · rw [filter_cons_of_pos (by simpa using hp), flatMap_cons,
        (lineAlias_entry he).1 hp]
    · rw [filter_cons_of_neg (by simpa using hp), (lineAlias_entry he).2 hp, nil_append]

/-- Leaving out an entry loses a name. -/
theorem filter_flatMap_eq_iff {α β : Type} {f : α → List β} {p : α → Prop} :
    ∀ {l : List α}, (∀ x ∈ l, f x ≠ []) →
      ((l.filter fun x => decide (p x)).flatMap f = l.flatMap f ↔ ∀ x ∈ l, p x)
  | [], _ => by simp
  | x :: l, h => by
    have ih := filter_flatMap_eq_iff (p := p) fun y hy => h y (mem_cons_of_mem _ hy)
    by_cases hp : p x
    · rw [filter_cons_of_pos (by simpa using hp), flatMap_cons, flatMap_cons,
        append_cancel_left_eq, ih, forall_mem_cons]
      exact ⟨fun h' => ⟨hp, h'⟩, fun h' => h'.2⟩
    · rw [filter_cons_of_neg (by simpa using hp), flatMap_cons, forall_mem_cons]
      refine iff_of_false (fun he => ?_) fun h' => hp h'.1
      have hle : ((l.filter fun y => decide (p y)).flatMap f).length ≤ (l.flatMap f).length :=
        (List.Sublist.flatMap filter_sublist f).length_le
      have hpos := length_pos_iff.mpr (h x mem_cons_self)
      rw [he, length_append] at hle
      omega

theorem eraseDups_of_nodup {α : Type} [BEq α] [LawfulBEq α] {l : List α} (h : l.Nodup) :
    l.eraseDups = l := by
  induction l with
  | nil => rfl
  | cons a l ih =>
    rw [nodup_cons] at h
    have hkeep : (l.filter fun b => !b == a) = l :=
      filter_eq_self.mpr fun b hb => by
        have : b ≠ a := fun e => h.1 (e ▸ hb)
        simpa using this
    rw [eraseDups_cons, hkeep, ih h.2]

/-- **Exactly when the parser finds all aliases**, each once and in file order: when the plain
    entries name them so; in a file that names no alias twice, when every entry is plain. -/
theorem parseAliases_iff {text : Text} {entries : List TnsEntry} (h : TnsFile text entries) :
    (parseAliases text = (entries.flatMap TnsEntry.names).eraseDups ↔
      (entries.filter fun e => decide e.Plain).flatMap TnsEntry.names =
        (entries.flatMap TnsEntry.names).eraseDups) ∧
    ((entries.flatMap TnsEntry.names).Nodup →
      (parseAliases text = (entries.flatMap TnsEntry.names).eraseDups ↔
        ∀ e ∈ entries, e.Plain)) := by
  rw [parseAliases_entries h]
  refine ⟨Iff.rfl, fun hn => ?_⟩
  rw [eraseDups_of_nodup hn]
  refine filter_flatMap_eq_iff fun e he => ?_
  obtain ⟨t, gap, body, -, hnames, -, -⟩ := (h.wellFormed e he).reads
  exact hnames.ne_nil

end

/-! ## 5. Two files -/

/-- The layout that Oracle's own tools write: the descriptor on the next line. -/
def brokenEntry : TnsEntry where
  names := ["orcl".toList]
  head := "orcl =".toList
  behind := ["  (HOST = h)".toList]

def plainEntry : TnsEntry where
  names := ["orcl".toList]
  head := "orcl = (HOST = h)".toList
  behind := []

theorem isName_orcl : IsName "orcl".toList where
  nonempty := by decide
  plain c hc := by
    have hall : "orcl".toList.all (fun c => !Rust.isWhitespace c &&
        !([',', '=', '(', ')', '#'].contains c)) = true := by decide
    simpa using all_eq_true.mp hall c hc

theorem names_orcl : NameList "orcl ".toList ["orcl".toList] := by
  show NameList ([] ++ "orcl".toList ++ [' ']) ["orcl".toList]
  exact .one gap_nil isName_orcl (isGap_of_all (by decide))

theorem tnsFile_broken : TnsFile "orcl =\n  (HOST = h)\n".toList [brokenEntry] where
  wellFormed e he := by
    obtain rfl := mem_singleton.mp he
    exact ⟨⟨'o', _, rfl, by decide⟩,
      fun l hl => by rw [mem_singleton.mp hl]; exact .inl (by decide),
      "orcl ".toList, "\n  ".toList, "HOST = h)".toList, rfl,
      names_orcl,
      isGap_of_all (by decide), by decide⟩
  lines := ⟨[], nofun, by decide⟩

theorem tnsFile_plain : TnsFile "# wallet\n\norcl = (HOST = h)\n".toList [plainEntry] where
  wellFormed e he := by
    obtain rfl := mem_singleton.mp he
    exact ⟨⟨'o', _, rfl, by decide⟩, nofun,
      "orcl ".toList, " ".toList, "HOST = h)".toList, rfl,
      names_orcl,
      isGap_of_all (by decide), by decide⟩
  lines := ⟨["# wallet".toList, []], by decide, by decide⟩

theorem parseAliases_iff_plain :
    TnsFile "# wallet\n\norcl = (HOST = h)\n".toList [plainEntry] ∧
      parseAliases "# wallet\n\norcl = (HOST = h)\n".toList = ["orcl".toList].eraseDups := by
  refine ⟨tnsFile_plain, ((parseAliases_iff tnsFile_plain).2 (by decide)).mpr fun e he => ?_⟩
  obtain rfl := mem_singleton.mp he
  exact ⟨"orcl".toList, [' '], [' '], "HOST = h)".toList, rfl, by decide, by decide,
    isGap_of_all (by decide), isGap_of_all (by decide)⟩

/-- **An alias that the parser does not find.** -/
theorem parseAliases_broken : TnsFile "orcl =\n  (HOST = h)\n".toList [brokenEntry] ∧
    parseAliases "orcl =\n  (HOST = h)\n".toList = [] ∧
    parseAliases "orcl =\n  (HOST = h)\n".toList ≠
      ([brokenEntry].flatMap TnsEntry.names).eraseDups :=
  ⟨tnsFile_broken, by decide, by decide⟩

end Veesker.Host
