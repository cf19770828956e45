/-
  File:      Veesker/Sandbox/TypeAnswers.lean
  Subject:   WHAT THE TWO TABLES OF TYPES ANSWER (sidecar/src/sandbox/type-guard.ts,
             engine/src/oracle-shim/types.ts), for every type of a column.

  * `announcedType` -- the type a message of the guard announces;
  * `verdict`, `verdict_said` -- the guard's answer with its message read;
  * `zone_found`, `hasTimeZone_mem`, ... -- what the expressions find in the text of a type;
  * **`verdict_spells`, `mapped_spells`** -- both answers as tables over the types.
-/
import Veesker.Sandbox.ColumnTypes

namespace Veesker.Sandbox

open Format Vsk List

variable {ps : List TypePart}

/-! ## 1. What a message announces -/

/-- How a message says what a column becomes. -/
def LEADS : List Text := ["mapped to ", "stored as ", "Stored as "].map String.toList

/-- What stands behind the last of them. -/
def lastSaid : Text → Option Text
  | [] => none
  | c :: r =>
    (lastSaid r).or ((LEADS.find? (startsWith (c :: r))).map fun lead => (c :: r).drop lead.length)

/-- **The type a message announces.** -/
def announcedType (message : Text) : Option DuckType :=
  (lastSaid message).bind fun said => duckType (said.takeWhile fun c => c != ' ' && c != '.')

/-! ## 2. The guard's answer, read -/

inductive Verdict where
  | silent
  | refused
  | warns (d : DuckType)
  deriving DecidableEq

/-- `classifyType` by what it announces. -/
def verdict (t : Text) : Verdict :=
  if t.isEmpty then .silent
  else if FATAL_TYPES.contains t then .refused
  else if t = "NUMBER".toList ∨ t = "FLOAT".toList then .warns (.decimal 38 18)
  else match numberScale t with
  | some scale => if 18 < scale then .warns (.decimal 38 18) else .silent
  | none =>
    if hasTimeZone t then .warns .timestamptz
    else if t = "CLOB".toList ∨ t = "NCLOB".toList then .warns .varchar
    else if t = "LONG".toList then .warns .varchar
    else if isLongRaw t then .warns .blob
    else if startsWith t "INTERVAL".toList then .warns .varchar
    else .silent

def Verdict.Said : Verdict → Option (Bool × Text) → Prop
  | silent, r => r = none
  | refused, r => ∃ m, r = some (true, m)
  | warns d, r => ∃ m, r = some (false, m) ∧ announcedType m = some d

theorem lastSaid_append (before : Text) {message said : Text} (h : lastSaid message = some said) :
    lastSaid (before ++ message) = some said := by
  induction before with
  | nil => exact h
  | cons c before ih =>
    rw [cons_append, lastSaid, ih]
    rfl

/-- Only the end of a message counts. -/
theorem announced_append (before : Text) {message : Text} {d : DuckType}
    (h : announcedType message = some d) : announcedType (before ++ message) = some d := by
  unfold announcedType at h ⊢
  obtain ⟨said, hs, hd⟩ := Option.bind_eq_some_iff.mp h
  rw [lastSaid_append before hs]
  exact hd

/-- **The guard says what the verdict is.** -/
theorem verdict_said (oracleType : Text) :
    (verdict (toUpperCase (trim oracleType))).Said (classifyType oracleType) := by
  unfold verdict classifyType
  generalize toUpperCase (trim oracleType) = t
  by_cases hempty : t.isEmpty = true
  · simp only [hempty, if_true]
    rfl
  by_cases hfatal : FATAL_TYPES.contains t = true
  · simp only [hempty, hfatal, Bool.false_eq_true, if_true, if_false]
    exact ⟨_, rfl⟩
  by_cases hbare : t = "NUMBER".toList ∨ t = "FLOAT".toList
  · simp only [hempty, hfatal, hbare, Bool.false_eq_true, if_true, if_false]
    exact ⟨_, rfl, announced_append _ (by decide +kernel)⟩
  cases hscale : numberScale t with
  | some scale =>
    by_cases hlt : 18 < scale
    · simp only [hempty, hfatal, hbare, hscale, hlt, Bool.false_eq_true, if_true, if_false]
      exact ⟨_, rfl, announced_append _ (by decide +kernel)⟩
    · simp only [hempty, hfatal, hbare, hscale, hlt, Bool.false_eq_true, if_false]
      rfl
  | none =>
    by_cases hzone : hasTimeZone t = true
    · simp only [hempty, hfatal, hbare, hscale, hzone, Bool.false_eq_true, if_true, if_false]
      exact ⟨_, rfl, announced_append _ (by decide +kernel)⟩
    by_cases hclob : t = "CLOB".toList ∨ t = "NCLOB".toList
    · simp only [hempty, hfatal, hbare, hscale, hzone, hclob, Bool.false_eq_true, if_true, if_false]
      exact ⟨_, rfl, announced_append _ (by decide +kernel)⟩
    by_cases hlong : t = "LONG".toList
    · subst hlong
      exact ⟨_, rfl, by decide +kernel⟩
    by_cases hraw : isLongRaw t = true
    · simp only [hempty, hfatal, hbare, hscale, hzone, hclob, hlong, hraw, Bool.false_eq_true, if_true, if_false]
      exact ⟨_, rfl, by decide +kernel⟩
    by_cases hinterval : startsWith t "INTERVAL".toList = true
    · simp only [hempty, hfatal, hbare, hscale, hzone, hclob, hlong, hraw, hinterval, Bool.false_eq_true, if_true, if_false]
      exact ⟨_, rfl, announced_append _ (by decide +kernel)⟩
    · simp only [hempty, hfatal, hbare, hscale, hzone, hclob, hlong, hraw, hinterval, Bool.false_eq_true, if_false]
      rfl

/-! ## 3. Time zones -/

variable {t : Text}

/-- The letter and the white space a time zone needs. -/
theorem hasTimeZone_mem (h : hasTimeZone t = true) :
    (∃ c ∈ t, c.toUpper = 'Z') ∧ ∃ c ∈ t, isSpace c = true := by
  obtain ⟨s, hs, htest⟩ := any_eq_true.mp h
  obtain ⟨m, hm⟩ := Pattern.test_iff.mp htest
  have hsub := (mem_tails _ _).mp hs
  constructor
  · obtain ⟨k, l, hk, hl⟩ := Pattern.mem_ends_all hm (p := .wordI "ZONE".toList) (by simp)
    obtain ⟨v, hrest, hv⟩ := Pattern.mem_ends_wordI hl
    cases v with
    | nil => cases hv
    | cons c v =>
      refine ⟨c, (hk.trans hsub).subset (by simp [hrest]), (List.cons.inj hv).1⟩
  · obtain ⟨k, l, hk, hl⟩ := Pattern.mem_ends_all hm (p := .spaces) (by simp)
    obtain ⟨_, hone, -⟩ := Pattern.mem_ends_seq.mp hl
    obtain ⟨c, r, hrest, hc, -⟩ := Pattern.mem_ends_one.mp hone
    exact ⟨c, (hk.trans hsub).subset (by simp [hrest]), hc⟩

theorem endsInTimeZone_mem (h : endsInTimeZone t = true) :
    (∃ c ∈ t, c.toUpper = 'Z') ∧ ∃ c ∈ t, isSpace c = true := by
  obtain ⟨s, hs, hany⟩ := any_eq_true.mp h
  obtain ⟨m, hm, -⟩ := any_eq_true.mp hany
  have hsub := (mem_tails _ _).mp hs
  constructor
  · obtain ⟨k, l, hk, hl⟩ := Pattern.mem_ends_all hm (p := .word "ZONE".toList) (by simp)
    have hrest := Pattern.mem_ends_word hl
    exact ⟨'Z', (hk.trans hsub).subset (by simp [hrest]), by decide⟩
  · obtain ⟨k, l, hk, hl⟩ := Pattern.mem_ends_all hm (p := .spaces) (by simp)
    obtain ⟨_, hone, -⟩ := Pattern.mem_ends_seq.mp hl
    obtain ⟨c, r, hrest, hc, -⟩ := Pattern.mem_ends_one.mp hone
    exact ⟨c, (hk.trans hsub).subset (by simp [hrest]), hc⟩

open Pattern in
/-- The words of a time zone are matched to their end. -/
theorem stops_zone {word : Text → Pattern} {ps : List Pattern}
    (hword : ∀ w ∈ ["WITH", "LOCAL", "TIME", "ZONE"].map String.toList, ∀ u, Stops (word w) (w ++ u) u)
    (hps : Stops (.all ps) [] []) {z : Zone} (hz : z ≠ .without) {u : Text}
    (h : Spells z.parts u) :
    Stops (.all (word "WITH".toList :: .spaces :: .opt (.all [word "LOCAL".toList, .spaces]) ::
      word "TIME".toList :: .spaces :: word "ZONE".toList :: ps)) u [] := by
  have hzone : ∀ v, Spells [.word "TIME".toList, .word "ZONE".toList] v →
      Stops (.all (word "TIME".toList :: .spaces :: word "ZONE".toList :: ps)) v [] := by
    intro v hv
    obtain ⟨b, w, hne, hb, hw, rfl⟩ := spells_words hv
    obtain rfl : w = "ZONE".toList := hw
    have hlast := hword "ZONE".toList (by decide) []
    rw [append_nil] at hlast
    exact (hword _ (by decide) _).all_cons ((stops_spaces hne hb _).all_cons (hlast.all_cons hps))
  cases z with
  | without => exact absurd rfl hz
  | zoned =>
    obtain ⟨b, v, hne, hb, hv, rfl⟩ := spells_words h
    exact (hword _ (by decide) _).all_cons ((stops_spaces hne hb _).all_cons
      ((stops_skip _ _).all_cons (hzone v hv)))
  | localZoned =>
    obtain ⟨b, v, hne, hb, hv, rfl⟩ := spells_words h
    obtain ⟨b', v', hne', hb', hv', rfl⟩ := spells_words hv
    have hlocal : Stops (.all [word "LOCAL".toList, .spaces]) ("LOCAL".toList ++ (b' ++ v')) v' :=
      (hword _ (by decide) _).all_cons ((stops_spaces hne' hb' _).all_cons (stops_all_nil _))
    exact (hword _ (by decide) _).all_cons ((stops_spaces hne hb _).all_cons
      (hlocal.opt.all_cons (hzone v' hv')))

theorem zone_found {z : Zone} (hz : z ≠ .without)
    (h : Spells (ps ++ z.parts) t) : hasTimeZone t = true ∧ endsInTimeZone t = true := by
  have hne : z.parts ≠ [] := by
    cases z with
    | without => exact absurd rfl hz
    | zoned | localZoned => exact cons_ne_nil _ _
  obtain ⟨u, hu, hs⟩ := spells_suffix h hne
  have hmem := (mem_tails _ _).mpr hu
  constructor
  · have hupper : (["WITH", "LOCAL", "TIME", "ZONE"].map String.toList).all
        (·.all fun c => c.toUpper == c) = true := by decide
    have hword : ∀ w ∈ ["WITH", "LOCAL", "TIME", "ZONE"].map String.toList, ∀ u,
        Pattern.Stops (.wordI w) (w ++ u) u := by
      intro w hw u
      have hw' := all_eq_true.mp hupper w hw
      exact Pattern.stops_wordI (fun c hc => eq_of_beq (all_eq_true.mp hw' c hc)) u
    have hstop := stops_zone hword (Pattern.stops_all_nil []) hz hs
    exact any_eq_true.mpr ⟨u, hmem, hstop.test⟩
  · have hend : Pattern.Stops (.all [.spaces0]) [] [] :=
      (Pattern.stops_many (b := []) (by simp) []).all_cons (Pattern.stops_all_nil [])
    have hstop := stops_zone (fun w _ u => Pattern.stops_word w u) hend hz hs
    obtain ⟨m, hm, hrest⟩ := hstop none
    exact any_eq_true.mpr ⟨u, hmem, any_eq_true.mpr ⟨m, hm, by simp [hrest]⟩⟩

/-! ## 4. A text of more than a word -/

theorem Led.startsWith_eq {w t v : Text} (h : Led w t) (hv : v.all isWordChar = true) :
    startsWith t v = startsWith w v := by
  rw [← startsWith_leading hv, h.lead]

theorem Led.isLongRaw {w t : Text} (h : Led w t) (hw : startsWith w "LONG".toList = false) :
    isLongRaw t = false := by
  rw [Sandbox.isLongRaw, h.startsWith_eq (by decide), hw]
  rfl

theorem Led.isTimestamp {w t : Text} (h : Led w t) (hw : startsWith w "TIMESTAMP".toList = false) :
    isTimestamp t = false := by
  rw [Sandbox.isTimestamp, h.startsWith_eq (by decide), hw]
  rfl

/-- The scale in what stands behind `NUMBER(`. -/
def scaleBehind (t : Text) : Option Int := do
  let t := t.dropWhile isSpace
  guard (t.head?.any Char.isDigit)
  let (_, t) ← readInt t
  let t ← readChar ',' t
  let (scale, t) ← readInt (t.dropWhile isSpace)
  let t ← readChar ')' t
  guard t.isEmpty
  some scale

theorem numberScale_eq (t : Text) :
    numberScale t = (opens "NUMBER".toList t).bind scaleBehind := by
  unfold numberScale opens
  by_cases hw : startsWith t "NUMBER".toList = true
  · rw [if_pos hw]
    simp only [guard, hw, if_true]
    rfl
  · rw [if_neg hw]
    simp only [guard, hw]
    rfl

theorem Led.numberScale {w t : Text} (h : Led w t) (hne : w ≠ "NUMBER".toList) :
    numberScale t = none := by
  rw [numberScale_eq, h.opens_none (by decide) hne]
  rfl

theorem fatal_word : FATAL_TYPES.all (·.all isWordChar) = true := by decide

/-- What is left to decide. -/
theorem verdict_several {w t : Text} (h : Led w t) :
    verdict t = match numberScale t with
      | some scale => if 18 < scale then .warns (.decimal 38 18) else .silent
      | none =>
        if hasTimeZone t then .warns .timestamptz
        else if isLongRaw t then .warns .blob
        else if startsWith w "INTERVAL".toList then .warns .varchar
        else .silent := by
  have hne : ∀ v : Text, v.all isWordChar = true → (t = v) = False := fun v hv => eq_false (h.ne hv)
  unfold verdict
  simp only [h.isEmpty_eq, h.not_listed fatal_word, hne "NUMBER".toList (by decide),
    hne "FLOAT".toList (by decide), hne "CLOB".toList (by decide), hne "NCLOB".toList (by decide),
    hne "LONG".toList (by decide), h.startsWith_eq (v := "INTERVAL".toList) (by decide),
    Bool.false_eq_true, if_false, or_self]

theorem toUpper_digit {c : Char} (h : c.isDigit = true) : c.toUpper = c := by
  unfold Char.toUpper
  simp only [Char.isDigit, Bool.and_eq_true, decide_eq_true_eq, UInt32.le_iff_toNat_le] at h
  rw [dif_neg]
  intro hl
  simp only [UInt32.le_iff_toNat_le] at hl
  have ha : 'a'.val.toNat = 97 := rfl
  have hn : '9'.val.toNat = 57 := rfl
  omega

/-- No letter of the part can begin a time zone. -/
def TypePart.quiet (p : TypePart) : Bool := p.letters.all (·.toUpper != 'Z')

/-- Text of quiet parts has no time zone. -/
theorem zone_none (h : Spells ps t)
    (hquiet : ps.all TypePart.quiet = true) : hasTimeZone t = false ∧ endsInTimeZone t = false := by
  have hno : ¬ ∃ c ∈ t, c.toUpper = 'Z' := by
    intro hex
    obtain ⟨c, hc, hw⟩ := hex
    rcases spells_mem h hc with hd | hd | rfl | ⟨p, hp, hd⟩
    · rw [← isSpace_toUpper, hw] at hd
      cases hd
    · rw [← toUpper_digit hd, hw] at hd
      cases hd
    · cases hw
    · have := all_eq_true.mp (all_eq_true.mp hquiet p hp) c hd
      rw [hw] at this
      cases this
  constructor
  · rw [Bool.eq_false_iff]
    exact fun hz => hno (hasTimeZone_mem hz).1
  · rw [Bool.eq_false_iff]
    exact fun hz => hno (endsInTimeZone_mem hz).1

/-- The word is no `LONG`, and has no letter of a time zone. -/
def ownWord (w : Text) : Bool :=
  w.all isWordChar && (TypePart.word w).quiet && !startsWith w "LONG".toList

variable {w : Text}

theorem ownWord_iff : ownWord w = true ↔ w.all isWordChar = true ∧
    (TypePart.word w).quiet = true ∧ startsWith w "LONG".toList = false := by
  simp only [ownWord, Bool.and_eq_true, Bool.not_eq_true', and_assoc]

/-- The guard's answer to a type whose first word says all that it looks at. -/
theorem quiet_verdict {q : TypePart}
    (h : Spells (.word w :: q :: ps) t) (hw : ownWord w = true)
    (hquiet : (q :: ps).all TypePart.quiet = true)
    (hscale : w = "NUMBER".toList → numberScale t = none) :
    verdict t = if startsWith w "INTERVAL".toList then .warns .varchar else .silent := by
  obtain ⟨hword, hzone, hlong⟩ := ownWord_iff.mp hw
  have hled := spells_led hword h
  have hnone : numberScale t = none := by
    by_cases hn : w = "NUMBER".toList
    · exact hscale hn
    · exact hled.numberScale hn
  rw [verdict_several hled, hnone, (zone_none h (by rw [List.all_cons, hzone, Bool.true_and]; exact hquiet)).1,
    hled.isLongRaw hlong]
  rfl

theorem quiet_mapped {q : TypePart} {oracleType : Text}
    (h : Spells (.word w :: q :: ps) (toUpperCase (trim oracleType))) (hw : ownWord w = true)
    (hquiet : (q :: ps).all TypePart.quiet = true) (hplain : w ∉ SIZED_WORDS)
    (htimestamp : startsWith w "TIMESTAMP".toList = false) :
    mapOracleType oracleType = "VARCHAR".toList := by
  obtain ⟨hword, hzone, hlong⟩ := ownWord_iff.mp hw
  have hled := spells_led hword h
  rw [mapOracleType_plain rfl hled hplain,
    (zone_none h (by rw [List.all_cons, hzone, Bool.true_and]; exact hquiet)).2, hled.isLongRaw hlong,
    hled.isTimestamp htimestamp]
  rfl

/-- What the map makes of a word with a parenthesis behind it. -/
def sizedName (w : Text) : Text :=
  if w = "RAW".toList then "BLOB".toList
  else if w = "FLOAT".toList then "DOUBLE".toList
  else "VARCHAR".toList

theorem sized_mapped {oracleType : Text}
    (h : Spells (.word w :: .mark .opening :: ps) (toUpperCase (trim oracleType)))
    (hw : ownWord w = true) (hquiet : ps.all TypePart.quiet = true)
    (hplain : w ≠ "DECIMAL".toList ∧ w ≠ "VARCHAR".toList ∧ startsWith w "TIMESTAMP".toList = false)
    (hmatch : w = "NUMBER".toList → numberMatch (toUpperCase (trim oracleType)) = none) :
    mapOracleType oracleType = sizedName w := by
  obtain ⟨hword, hzone, hlong⟩ := ownWord_iff.mp hw
  obtain ⟨hdecimal, hvarchar, htimestamp⟩ := hplain
  have hled := spells_led hword h
  have hnone : numberMatch (toUpperCase (trim oracleType)) = none := by
    by_cases hn : w = "NUMBER".toList
    · exact hmatch hn
    · exact hled.numberMatch hn
  have hopen : ∀ v : Text, v.all isWordChar = true →
      (opens v (toUpperCase (trim oracleType))).isSome = decide (w = v) := by
    intro v hv
    by_cases hwv : w = v
    · obtain ⟨_, b, b', u, rfl, hb, -, -, ht⟩ := spells_mark h
      rw [opens_iff.mpr ⟨b, hb, hwv ▸ ht⟩, decide_eq_true hwv, Option.isSome_some]
    · rw [hled.opens_none hv hwv, decide_eq_false hwv, Option.isSome_none]
  rw [mapOracleType_several rfl hled hdecimal hvarchar hnone,
    (zone_none h (by rw [List.all_cons, hzone, Bool.true_and]; exact hquiet)).2,
    hled.isLongRaw hlong, hled.isTimestamp htimestamp]
  simp only [hopen "NVARCHAR".toList (by decide), hopen "NVARCHAR2".toList (by decide),
    hopen "VARCHAR2".toList (by decide), hopen "CHAR".toList (by decide),
    hopen "RAW".toList (by decide), hopen "FLOAT".toList (by decide), decide_eq_true_eq,
    Bool.false_eq_true, if_false]
  rw [sizedName]
  by_cases hraw : w = "RAW".toList
  · subst hraw
    decide
  · by_cases hfloat : w = "FLOAT".toList
    · subst hfloat
      decide
    · simp only [hraw, hfloat, if_false, ite_self]

/-! ## 5. Numbers -/

theorem Mark.solid (m : Mark) : isSpace m.char = false ∧ m.char.isDigit = false := by
  cases m <;> decide

/-- White space and a mark are no digits. -/
theorem Gap.behind_digits {b : Text} (hb : Gap b) (m : Mark) (r : Text) :
    (b ++ m.char :: r).head?.all fun c => !c.isDigit := by
  cases b with
  | nil => simp [m.solid.2]
  | cons c b =>
    have hc : c.isDigit = false := by
      rw [Bool.eq_false_iff]
      intro hd
      have hs := isDigit_solid hd
      rw [hb c mem_cons_self] at hs
      cases hs
    simp [hc]

theorem readInt_reads {n : Int} {w r : Text} (hw : (TypePart.signed n).Reads w)
    (hr : r.head?.all fun c => !c.isDigit) : readInt (w ++ r) = some (n, r) := by
  rcases hw with ⟨k, rfl, hk⟩ | ⟨k, d, rfl, hk, rfl⟩
  · exact readInt_digits hk hr
  · exact readInt_minus hk hr

/-- A signed number begins with no white space. -/
theorem signed_solid {n : Int} (hw : (TypePart.signed n).Reads w) {b : Text} (hb : Gap b)
    (r : Text) : (b ++ (w ++ r)).dropWhile isSpace = w ++ r := by
  rcases hw with ⟨k, -, hk⟩ | ⟨k, d, -, hk, rfl⟩
  · exact hk.behind_gap hb r
  · exact dropWhile_gap hb (by decide) (d ++ r)

theorem digits_head {n : Nat} {d : Text} (hd : Digits n d) (r : Text) :
    (d ++ r).head?.any Char.isDigit = true := by
  obtain ⟨c, d, rfl⟩ := exists_cons_of_ne_nil hd.1
  simpa using hd.2.1 c mem_cons_self

section Number

variable {p : Nat} {s : Int}

theorem closes_closing {b : Text} (hb : Gap b) : closes (b ++ [Mark.closing.char]) = true :=
  closes_iff.mpr ⟨b, hb, rfl⟩

theorem closes_comma {b : Text} (hb : Gap b) (r : Text) :
    closes (b ++ Mark.comma.char :: r) = false := by
  rw [closes, readChar_gap hb (by decide), if_neg (by decide)]
  rfl

theorem opens_number
    (h : Spells (.word "NUMBER".toList :: .mark .opening :: ps) t) :
    ∃ b u, Gap b ∧ Spells ps u ∧ opens "NUMBER".toList t = some (b ++ u) := by
  obtain ⟨_, b, b', u, rfl, hb, hb', hu, rfl⟩ := spells_mark h
  exact ⟨b', u, hb', hu, opens_iff.mpr ⟨b, hb, rfl⟩⟩

/-- A precision alone. -/
theorem number_precise
    (h : Spells [.word "NUMBER".toList, .mark .opening, .digits p, .mark .closing] t) :
    ∃ d, Digits p d ∧ numberMatch t = some (d, 0) ∧ numberScale t = none := by
  obtain ⟨b, u, hb, hu, hopens⟩ := opens_number h
  obtain ⟨d, g, hd, hg, rfl⟩ := spells_mark_last hu
  have hd : Digits p d := hd
  have hbehind := hg.behind_digits .closing []
  refine ⟨d, hd, ?_, ?_⟩
  · simp only [numberMatch, hopens, Option.bind_eq_bind, Option.bind_some,
      readDigits_digits hd hb hbehind, closes_closing hg, if_true]
  · have hcomma : readChar ',' (g ++ [Mark.closing.char]) = none := by
      rw [readChar_gap hg (by decide), if_neg (by decide)]
    rw [numberScale_eq, hopens]
    simp only [Option.bind_some, scaleBehind, hd.behind_gap hb, digits_head hd, guard, if_true,
      readInt_digits hd hbehind, hcomma, Option.bind_eq_bind]
    rfl

/-- A precision and a scale. -/
theorem number_scaled
    (h : Spells [.word "NUMBER".toList, .mark .opening, .digits p, .mark .comma, .signed s,
      .mark .closing] t) :
    ∃ d, Digits p d ∧ numberMatch t = some (d, s) ∧ numberScale t = some s := by
  obtain ⟨b, u, hb, hu, hopens⟩ := opens_number h
  obtain ⟨d, g, g', v, hd, hg, hg', hv, rfl⟩ := spells_mark hu
  obtain ⟨w, e, hw, he, rfl⟩ := spells_mark_last hv
  have hd : Digits p d := hd
  have hbehind := hg.behind_digits .comma (g' ++ (w ++ (e ++ [Mark.closing.char])))
  have hcomma : readChar ',' (g ++ Mark.comma.char :: (g' ++ (w ++ (e ++ [Mark.closing.char])))) =
      some (g' ++ (w ++ (e ++ [Mark.closing.char]))) := by
    rw [readChar_gap hg (by decide), if_pos (by decide)]
  have hread := readInt_reads hw (he.behind_digits .closing [])
  refine ⟨d, hd, ?_, ?_⟩
  · simp only [numberMatch, hopens, Option.bind_eq_bind, Option.bind_some,
      readDigits_digits hd hb hbehind, closes_comma hg, hcomma, signed_solid hw hg', hread,
      closes_closing he, Bool.false_eq_true, if_false, if_true]
  · have hclosing : readChar ')' (e ++ [Mark.closing.char]) = some [] := by
      rw [readChar_gap he (by decide), if_pos (by decide)]
    rw [numberScale_eq, hopens]
    simp only [Option.bind_some, scaleBehind, hd.behind_gap hb, digits_head hd, guard, if_true,
      readInt_digits hd hbehind, hcomma, signed_solid hw hg', hread, hclosing, isEmpty_nil,
      Option.bind_eq_bind]
    rfl

/-- A star in the place of the precision is not read. -/
theorem number_star
    (h : Spells (.word "NUMBER".toList :: .mark .opening :: .mark .star :: ps) t) :
    numberMatch t = none ∧ numberScale t = none := by
  obtain ⟨b, u, hb, hu, hopens⟩ := opens_number h
  obtain ⟨g, v, -, -, rfl⟩ := spells_mark_head hu
  constructor
  · rw [numberMatch, hopens, Option.bind_some, readDigits_mark hb (by decide) (by decide)]
    rfl
  · rw [numberScale_eq, hopens, Option.bind_some, scaleBehind, dropWhile_gap hb (by decide)]
    rfl

end Number

theorem duck_word : DUCK_NAMES.all (·.1.all isWordChar) = true := by decide

/-- The type of a decimal's text. -/
theorem built_decimal {p : Nat} {d : Text} (hd : Digits p d) (s : Int) :
    duckType ("DECIMAL(".toList ++ d ++ ',' :: intText (max 0 s) ++ [')']) =
      if 1 ≤ p ∧ p ≤ 38 ∧ (max 0 s).toNat ≤ p then some (.decimal p (max 0 s).toNat) else none := by
  have hscale : intText (max 0 s) = natText (max 0 s).toNat := by
    rw [intText, if_neg (by omega)]
    congr 1
    omega
  have hk := digits_natText (max 0 s).toNat
  have hgap : Gap [] := by simp [Gap]
  have hsplit : "DECIMAL(".toList ++ d ++ ',' :: intText (max 0 s) ++ [')'] =
      "DECIMAL".toList ++ ([] ++ '(' :: ([] ++ (d ++ ([] ++ Mark.comma.char ::
        ([] ++ (natText (max 0 s).toNat ++ ([] ++ [Mark.closing.char]))))))) := by
    rw [hscale]
    simp [Mark.char]
  rw [hsplit]
  generalize hrest : [] ++ Mark.comma.char ::
    ([] ++ (natText (max 0 s).toNat ++ ([] ++ [Mark.closing.char]))) = rest
  have hopens := opens_iff.mpr ⟨[], hgap, Eq.refl ("DECIMAL".toList ++ ([] ++ '(' :: ([] ++ (d ++ rest))))⟩
  have hcomma : readChar ',' rest =
      some ([] ++ (natText (max 0 s).toNat ++ ([] ++ [Mark.closing.char]))) := by
    rw [← hrest, readChar_gap hgap (by decide), if_pos (by decide)]
  have hfirst := readDigits_digits hd hgap (r := rest) (hrest ▸ hgap.behind_digits .comma _)
  have hsecond := readDigits_digits hk hgap (hgap.behind_digits .closing [])
  have hnames : DUCK_NAMES.find? (fun e =>
      e.1 = "DECIMAL".toList ++ ([] ++ '(' :: ([] ++ (d ++ rest)))) = none := by
    rw [List.find?_eq_none]
    intro e he heq
    have hword := all_eq_true.mp duck_word e he
    exact ne_of_edge (c := '(') (by simp) (by decide) hword (of_decide_eq_true heq).symm
  rw [duckType, hnames, duckDecimal, hopens]
  simp only [Option.bind_eq_bind, Option.bind_some, hfirst, hcomma, hsecond,
    closes_closing hgap, hd.2.2, hk.2.2, true_and, Option.map_none, Option.or_none]

/-! ## 6. Object types -/

section Solid

theorem opens_solid (h : '(' ∉ t) (w : Text) : opens w t = none := by
  rw [Option.eq_none_iff_forall_not_mem]
  intro r hr
  obtain ⟨b, -, rfl⟩ := opens_iff.mp hr
  exact h (by simp)

theorem isLongRaw_solid (h : ∀ c ∈ t, isSpace c = false) : isLongRaw t = false := by
  rw [Bool.eq_false_iff]
  intro hlong
  simp only [isLongRaw, Bool.and_eq_true, Bool.not_eq_true', isEmpty_eq_false_iff,
    all_eq_true] at hlong
  obtain ⟨-, hne, hall⟩ := hlong
  obtain ⟨c, r, hc⟩ := exists_cons_of_ne_nil hne
  have hmem : c ∈ (t.drop 4).take (t.length - 7) := by simp [hc]
  have hspace := hall c hmem
  rw [h c (mem_of_mem_drop (mem_of_mem_take hmem))] at hspace
  cases hspace

theorem isTimestamp_solid (h : ∀ c ∈ t, isSpace c = false) (hopen : '(' ∉ t)
    (hne : t ≠ "TIMESTAMP".toList) : isTimestamp t = false := by
  rw [Bool.eq_false_iff]
  intro hts
  simp only [isTimestamp, Bool.and_eq_true, Bool.or_eq_true] at hts
  obtain ⟨hstart, hrest⟩ := hts
  obtain ⟨u, rfl⟩ := List.isPrefixOf_iff_prefix.mp hstart
  have hdrop : ("TIMESTAMP".toList ++ u).drop 9 = u := drop_left' (by decide)
  rw [hdrop] at hrest
  rcases hrest with hall | hparen
  · cases u with
    | nil => exact hne (by simp)
    | cons c u =>
      have hspace := all_eq_true.mp hall c mem_cons_self
      rw [h c (by simp)] at hspace
      cases hspace
  · cases hr : readChar '(' u with
    | none =>
      rw [hr] at hparen
      cases hparen
    | some r =>
      obtain ⟨b, -, rfl⟩ := (readChar_iff (by decide)).mp hr
      exact hopen (by simp)

end Solid

namespace TypeName

variable (n : TypeName)

theorem solid : ∀ c ∈ n.name, isSpace c = false := by
  intro c hc
  have hplain := all_eq_true.mp n.plain c hc
  simp only [Bool.and_eq_true, Bool.not_eq_true'] at hplain
  exact hplain.1

theorem unopened : '(' ∉ n.name := by
  intro hc
  have hplain := all_eq_true.mp n.plain _ hc
  cases hplain

theorem zone_none : hasTimeZone n.name = false ∧ endsInTimeZone n.name = false := by
  have hno : ¬ ∃ c ∈ n.name, isSpace c = true := by
    intro hex
    obtain ⟨c, hc, hs⟩ := hex
    rw [n.solid c hc] at hs
    cases hs
  constructor
  · rw [Bool.eq_false_iff]
    exact fun hz => hno (hasTimeZone_mem hz).2
  · rw [Bool.eq_false_iff]
    exact fun hz => hno (endsInTimeZone_mem hz).2

theorem ne_word (hw : TYPE_WORDS.contains w = true) : (n.name = w) = False :=
  eq_false fun he => n.free (by simpa [he] using hw)

theorem isEmpty_name : n.name.isEmpty = false := by
  simpa using n.nonempty

theorem verdict_name : verdict n.name =
    if n.name ∈ FATAL_TYPES then .refused
    else if startsWith n.name "INTERVAL".toList then .warns .varchar
    else .silent := by
  have hscale : numberScale n.name = none := by
    rw [numberScale_eq, opens_solid n.unopened]
    rfl
  unfold verdict
  simp only [n.isEmpty_name, n.ne_word (w := "NUMBER".toList) (by decide),
    n.ne_word (w := "FLOAT".toList) (by decide), hscale, n.zone_none.1,
    n.ne_word (w := "CLOB".toList) (by decide), n.ne_word (w := "NCLOB".toList) (by decide),
    n.ne_word (w := "LONG".toList) (by decide), isLongRaw_solid n.solid, contains_iff_mem,
    Bool.false_eq_true, if_false, or_self]

theorem mapped_name {oracleType : Text} (h : toUpperCase (trim oracleType) = n.name) :
    mapOracleType oracleType =
      if n.name ∈ DUCKDB_PASSTHROUGH then n.name else "VARCHAR".toList := by
  have hopens := opens_solid n.unopened
  have hdecimal : isDecimal n.name = false := by
    rw [isDecimal, hopens]
    rfl
  have hvarchar : isSizedVarchar n.name = false := by
    rw [isSizedVarchar, hopens]
    rfl
  have hnumber : numberMatch n.name = none := by
    rw [numberMatch, hopens]
    rfl
  have htimestamp := isTimestamp_solid n.solid n.unopened
    (of_eq_false (n.ne_word (w := "TIMESTAMP".toList) (by decide)))
  unfold mapOracleType
  simp only [h, n.isEmpty_name, hdecimal, hvarchar, hnumber, hopens, n.zone_none.2, htimestamp,
    isLongRaw_solid n.solid, n.ne_word (w := "NUMBER".toList) (by decide),
    n.ne_word (w := "CLOB".toList) (by decide), n.ne_word (w := "NCLOB".toList) (by decide),
    n.ne_word (w := "DATE".toList) (by decide), n.ne_word (w := "BLOB".toList) (by decide),
    n.ne_word (w := "BFILE".toList) (by decide), n.ne_word (w := "FLOAT".toList) (by decide),
    n.ne_word (w := "BINARY_FLOAT".toList) (by decide),
    n.ne_word (w := "BINARY_DOUBLE".toList) (by decide),
    n.ne_word (w := "LONG".toList) (by decide), contains_iff_mem, Option.isSome_none,
    Bool.false_eq_true, if_false, or_self, ite_self]

end TypeName

/-! ## 7. The two tables -/

/-- The type of the built column. -/
def mappedType (oracleType : Text) : Option DuckType := duckType (mapOracleType oracleType)

/-- What the guard says of a column of the type. -/
def OracleType.verdict : OracleType → Verdict
  | clob | nclob | long | intervalYear _ | intervalDay _ _ => .warns .varchar
  | number none | float none => .warns (.decimal 38 18)
  | number (some (_, some s)) => if 18 < s then .warns (.decimal 38 18) else .silent
  | timestamp _ .zoned | timestamp _ .localZoned => .warns .timestamptz
  | longRaw => .warns .blob
  | bfile => .refused
  | object n =>
    if n.name ∈ FATAL_TYPES then .refused
    else if startsWith n.name "INTERVAL".toList then .warns .varchar
    else .silent
  | _ => .silent

/-- A decimal type, if there is one of that width and scale. -/
def decimalType (width : Nat) (scale : Int) : Option DuckType :=
  if 1 ≤ width ∧ width ≤ 38 ∧ (max 0 scale).toNat ≤ width then
    some (.decimal width (max 0 scale).toNat)
  else none

/-- What the map makes of a column of the type. -/
def OracleType.built : OracleType → Option DuckType
  | number none => some (.decimal 38 18)
  | number (some (p, s)) => decimalType p (s.getD 0)
  | float _ | binaryDouble => some .double
  | binaryFloat => some .float
  | date | timestamp _ .without => some .timestamp
  | timestamp _ .zoned | timestamp _ .localZoned => some .timestamptz
  | raw (some _) | longRaw | blob | bfile => some .blob
  | boolean => some .boolean
  | json => some .json
  | long => some (signedInteger 64)
  | object n => if n.name ∈ DUCKDB_PASSTHROUGH then duckType n.name else some .varchar
  | _ => some .varchar

/-- A word alone. -/
theorem mapped_word {w oracleType : Text} (h : Spells [.word w] (toUpperCase (trim oracleType)))
    (hw : toUpperCase (trim w) = w) : mappedType oracleType = mappedType w := by
  have ht : toUpperCase (trim oracleType) = w := h
  unfold mappedType mapOracleType
  rw [ht, hw]

theorem long_raw (h : Spells [.word "LONG".toList, .word "RAW".toList] t) :
    isLongRaw t = true := by
  obtain ⟨b, u, hne, hb, hu, rfl⟩ := spells_words h
  obtain rfl : u = "RAW".toList := hu
  have hbetween : (("LONG".toList ++ (b ++ "RAW".toList)).drop 4).take
      (("LONG".toList ++ (b ++ "RAW".toList)).length - 7) = b := by
    have hlength : ("LONG".toList ++ (b ++ "RAW".toList)).length - 7 = b.length := by simp
    rw [hlength, drop_left' (by decide), take_left]
  have hend : endsWith ("LONG".toList ++ (b ++ "RAW".toList)) "RAW".toList = true := by
    rw [endsWith, isSuffixOf_iff_suffix, ← append_assoc]
    exact suffix_append _ _
  simp only [isLongRaw, hend, hbetween, startsWith,
    List.isPrefixOf_iff_prefix.mpr (prefix_append _ _), Bool.and_true, Bool.true_and,
    Bool.and_eq_true, Bool.not_eq_true', isEmpty_eq_false_iff]
  exact ⟨hne, all_eq_true.mpr hb⟩

theorem long_raw_verdict (h : Spells [.word "LONG".toList, .word "RAW".toList] t) :
    verdict t = .warns .blob := by
  have hled := spells_led (by decide) h
  rw [verdict_several hled, hled.numberScale (by decide), (zone_none h (by decide)).1, long_raw h]
  rfl

theorem zoned_led {z : Zone} (hz : z ≠ .without)
    (h : Spells (.word "TIMESTAMP".toList :: (ps ++ z.parts)) t) : Led "TIMESTAMP".toList t := by
  have hne : ps ++ z.parts ≠ [] := by
    cases z with
    | without => exact absurd rfl hz
    | zoned | localZoned => exact append_ne_nil_of_right_ne_nil _ (cons_ne_nil _ _)
  obtain ⟨q, qs, hq⟩ := exists_cons_of_ne_nil hne
  rw [hq] at h
  exact spells_led (by decide) h

theorem zoned_verdict {z : Zone} (hz : z ≠ .without)
    (h : Spells (.word "TIMESTAMP".toList :: (ps ++ z.parts)) t) :
    verdict t = .warns .timestamptz := by
  have hled := zoned_led hz h
  rw [← cons_append] at h
  rw [verdict_several hled, hled.numberScale (by decide), (zone_found hz h).1]
  rfl

/-- **The guard's table.** -/
theorem verdict_spells (ty : OracleType) (h : Spells ty.parts t) :
    verdict t = ty.verdict := by
  cases ty with
  | character kind size =>
    rcases size with _ | ⟨n, _ | u⟩
    · obtain rfl : t = kind.word := h
      cases kind <;> decide
    · cases kind <;> exact quiet_verdict h (by decide) rfl fun e => absurd e (by decide)
    · cases kind <;> cases u <;>
        exact quiet_verdict h (by decide) rfl fun e => absurd e (by decide)
  | clob => obtain rfl : t = "CLOB".toList := h; decide
  | nclob => obtain rfl : t = "NCLOB".toList := h; decide
  | long => obtain rfl : t = "LONG".toList := h; decide
  | number precision =>
    rcases precision with _ | ⟨p, _ | s⟩
    · obtain rfl : t = "NUMBER".toList := h
      decide
    · obtain ⟨_, -, -, hscale⟩ := number_precise h
      exact quiet_verdict h (by decide) rfl fun _ => hscale
    · obtain ⟨_, -, -, hscale⟩ := number_scaled h
      rw [verdict_several (spells_led (by decide) h), hscale]
      rfl
  | starNumber scale =>
    cases scale <;> exact quiet_verdict h (by decide) rfl fun _ => (number_star h).2
  | float p =>
    cases p with
    | none => obtain rfl : t = "FLOAT".toList := h; decide
    | some b => exact quiet_verdict h (by decide) rfl fun e => absurd e (by decide)
  | binaryFloat => obtain rfl : t = "BINARY_FLOAT".toList := h; decide
  | binaryDouble => obtain rfl : t = "BINARY_DOUBLE".toList := h; decide
  | date => obtain rfl : t = "DATE".toList := h; decide
  | timestamp f z =>
    cases z with
    | without =>
      have h : Spells (.word "TIMESTAMP".toList :: (sized f ++ [])) t := h
      rw [append_nil] at h
      cases f with
      | none => obtain rfl : t = "TIMESTAMP".toList := h; decide
      | some n => exact quiet_verdict h (by decide) rfl fun e => absurd e (by decide)
    | zoned | localZoned => exact zoned_verdict (by decide) h
  | intervalYear d =>
    cases d <;> exact quiet_verdict h (by decide) rfl fun e => absurd e (by decide)
  | intervalDay d f =>
    cases d <;> cases f <;> exact quiet_verdict h (by decide) rfl fun e => absurd e (by decide)
  | raw n =>
    cases n with
    | none => obtain rfl : t = "RAW".toList := h; decide
    | some n => exact quiet_verdict h (by decide) rfl fun e => absurd e (by decide)
  | longRaw => exact long_raw_verdict h
  | blob => obtain rfl : t = "BLOB".toList := h; decide
  | bfile => obtain rfl : t = "BFILE".toList := h; decide
  | rowid => obtain rfl : t = "ROWID".toList := h; decide
  | urowid n =>
    cases n with
    | none => obtain rfl : t = "UROWID".toList := h; decide
    | some n => exact quiet_verdict h (by decide) rfl fun e => absurd e (by decide)
  | boolean => obtain rfl : t = "BOOLEAN".toList := h; decide
  | json => obtain rfl : t = "JSON".toList := h; decide
  | vector n =>
    cases n with
    | none => obtain rfl : t = "VECTOR".toList := h; decide
    | some n => exact quiet_verdict h (by decide) rfl fun e => absurd e (by decide)
  | object n => obtain rfl : t = n.name := h; exact n.verdict_name

section Mapped

variable {oracleType : Text}

theorem timestamp_mapped {n : Nat}
    (h : Spells [.word "TIMESTAMP".toList, .mark .opening, .digits n, .mark .closing]
      (toUpperCase (trim oracleType))) : mapOracleType oracleType = "TIMESTAMP".toList := by
  rw [mapOracleType_plain rfl (spells_led (by decide) h) (by decide), (zone_none h rfl).2]
  have hts : isTimestamp (toUpperCase (trim oracleType)) = true := by
    obtain ⟨_, b, b', u, rfl, hb, hb', hu, ht⟩ := spells_mark h
    obtain ⟨d, g, hd, hg, rfl⟩ := spells_mark_last hu
    have hd : Digits n d := hd
    have hopening : readChar '(' (b ++ Mark.opening.char :: (b' ++ (d ++ (g ++ [Mark.closing.char])))) =
        some (b' ++ (d ++ (g ++ [Mark.closing.char]))) := by
      rw [readChar_gap hb (by decide), if_pos (by decide)]
    have hclosing : readChar ')' (g ++ [Mark.closing.char]) = some [] := by
      rw [readChar_gap hg (by decide), if_pos (by decide)]
    rw [ht, isTimestamp, startsWith,
      List.isPrefixOf_iff_prefix.mpr (prefix_append _ _), drop_left' (by decide)]
    simp only [hopening, Option.bind_some, readDigits_digits hd hb' (hg.behind_digits .closing []),
      Option.any_some, hclosing, all_nil, Bool.or_true, Bool.and_true]
  rw [hts]
  rfl

theorem zoned_mapped {z : Zone} (hz : z ≠ .without)
    (h : Spells (.word "TIMESTAMP".toList :: (ps ++ z.parts)) (toUpperCase (trim oracleType))) :
    mapOracleType oracleType = "TIMESTAMPTZ".toList := by
  have hled := zoned_led hz h
  rw [← cons_append] at h
  rw [mapOracleType_plain rfl hled (by decide), (zone_found hz h).2]
  rfl

theorem long_raw_mapped
    (h : Spells [.word "LONG".toList, .word "RAW".toList] (toUpperCase (trim oracleType))) :
    mapOracleType oracleType = "BLOB".toList := by
  have hled := spells_led (by decide) h
  rw [mapOracleType_plain rfl hled (by decide), (zone_none h (by decide)).2,
    hled.isTimestamp (by decide), long_raw h]
  rfl

theorem number_mapped {p : Nat} {d : Text} {s : Int}
    (h : Spells (.word "NUMBER".toList :: .mark .opening :: ps) (toUpperCase (trim oracleType)))
    (hd : Digits p d) (hmatch : numberMatch (toUpperCase (trim oracleType)) = some (d, s)) :
    mappedType oracleType = decimalType p s := by
  rw [mappedType, mapOracleType_number rfl (spells_led (by decide) h) hmatch, built_decimal hd]
  rfl

theorem mapped_as (name : Text) {d : DuckType} (h : mapOracleType oracleType = name)
    (hd : duckType name = some d) : mappedType oracleType = some d := by
  rw [mappedType, h, hd]

theorem varchar_mapped (h : mapOracleType oracleType = "VARCHAR".toList) :
    mappedType oracleType = some .varchar :=
  mapped_as _ h (by decide)

/-- **The map's table.** -/
theorem mapped_spells (ty : OracleType) (h : ty.SpeltBy oracleType) :
    mappedType oracleType = ty.built := by
  have hclosed : ∀ w : Text, Spells [.word w] (toUpperCase (trim oracleType)) →
      toUpperCase (trim w) = w → mappedType w = ty.built → mappedType oracleType = ty.built :=
    fun w hs hw hb => (mapped_word hs hw).trans hb
  cases ty with
  | character kind size =>
    rcases size with _ | ⟨n, _ | u⟩
    · exact hclosed _ h (by cases kind <;> decide) (by cases kind <;> decide)
    · cases kind <;>
        exact mapped_as _ (sized_mapped h (by decide) rfl (by decide) fun e => absurd e (by decide))
          (by decide)
    · cases kind <;> cases u <;>
        exact mapped_as _ (sized_mapped h (by decide) rfl (by decide) fun e => absurd e (by decide))
          (by decide)
  | clob => exact hclosed _ h (by decide) (by decide)
  | nclob => exact hclosed _ h (by decide) (by decide)
  | long => exact hclosed _ h (by decide) (by decide)
  | number precision =>
    rcases precision with _ | ⟨p, _ | s⟩
    · exact hclosed _ h (by decide) (by decide)
    · obtain ⟨d, hd, hmatch, -⟩ := number_precise h
      exact number_mapped h hd hmatch
    · obtain ⟨d, hd, hmatch, -⟩ := number_scaled h
      exact number_mapped h hd hmatch
  | starNumber scale =>
    cases scale <;>
      exact mapped_as _ (sized_mapped h (by decide) rfl (by decide) fun _ => (number_star h).1)
        (by decide)
  | float p =>
    cases p with
    | none => exact hclosed _ h (by decide) (by decide)
    | some b =>
      exact mapped_as _ (sized_mapped h (by decide) rfl (by decide) fun e => absurd e (by decide))
        (by decide)
  | binaryFloat => exact hclosed _ h (by decide) (by decide)
  | binaryDouble => exact hclosed _ h (by decide) (by decide)
  | date => exact hclosed _ h (by decide) (by decide)
  | timestamp f z =>
    cases z with
    | without =>
      have h : Spells (.word "TIMESTAMP".toList :: (sized f ++ [])) (toUpperCase (trim oracleType)) := h
      rw [append_nil] at h
      cases f with
      | none => exact hclosed _ h (by decide) (by decide)
      | some n =>
        exact mapped_as _ (timestamp_mapped h) (by decide)
    | zoned | localZoned => exact mapped_as _ (zoned_mapped (by decide) h) (by decide)
  | intervalYear d =>
    cases d <;> exact varchar_mapped (quiet_mapped h (by decide) rfl (by decide) (by decide))
  | intervalDay d f =>
    cases d <;> cases f <;>
      exact varchar_mapped (quiet_mapped h (by decide) rfl (by decide) (by decide))
  | raw n =>
    cases n with
    | none => exact hclosed _ h (by decide) (by decide)
    | some n =>
      exact mapped_as _ (sized_mapped h (by decide) rfl (by decide) fun e => absurd e (by decide))
        (by decide)
  | longRaw =>
    exact mapped_as _ (long_raw_mapped h) (by decide)
  | blob => exact hclosed _ h (by decide) (by decide)
  | bfile => exact hclosed _ h (by decide) (by decide)
  | rowid => exact hclosed _ h (by decide) (by decide)
  | urowid n =>
    cases n with
    | none => exact hclosed _ h (by decide) (by decide)
    | some n =>
      exact mapped_as _ (sized_mapped h (by decide) rfl (by decide) fun e => absurd e (by decide))
        (by decide)
  | boolean => exact hclosed _ h (by decide) (by decide)
  | json => exact hclosed _ h (by decide) (by decide)
  | vector n =>
    cases n with
    | none => exact hclosed _ h (by decide) (by decide)
    | some n =>
      exact mapped_as _ (sized_mapped h (by decide) rfl (by decide) fun e => absurd e (by decide))
        (by decide)
  | object n =>
    have hbuilt : (OracleType.object n).built =
      if n.name ∈ DUCKDB_PASSTHROUGH then duckType n.name else some .varchar := rfl
    have hmap := n.mapped_name h
    rw [hbuilt]
    split at hmap
    · next hin => rw [if_pos hin, mappedType, hmap]
    · next hin => rw [if_neg hin, varchar_mapped hmap]

end Mapped

end Veesker.Sandbox
