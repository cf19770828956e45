/-
  File:      Veesker/Sandbox/TypeAgree.lean
  Subject:   WARNINGS THAT SAY WHAT BECOMES OF A COLUMN (sidecar/src/sandbox/type-guard.ts
             against engine/src/oracle-shim/types.ts).

  * `Announced` -- every warning names the type its column gets, and a column without a warning
    loses nothing;
  * **`announced_iff`** -- that is so of a schema if and only if each of its columns has a type that
    is `Kept`: of the numbers those with a precision up to 38 and a scale from 0 to the precision
    and to 18, of the timestamps those with at most six decimals, no LONG, no FLOAT;
  * `long_lost` -- the warning on a LONG speaks of text, and the column is a whole number.
-/
import Veesker.Sandbox.TypeAnswers

namespace Veesker.Sandbox

open Format Vsk

/-! ## 1. The property -/

/-- A column and the type its text names. -/
structure TypedColumn where
  column : ColumnMeta
  type : OracleType
  spelt : type.SpeltBy column.dataType

/-- The schemas the guard is given. -/
def described (schemas : Record (List TypedColumn)) : Record (List ColumnMeta) :=
  schemas.map fun e => (e.1, e.2.map TypedColumn.column)

/-- The guard has something to say of the column. -/
def Mentions (report : TypeGuardReport) (table : Text) (col : ColumnMeta) : Prop :=
  ∃ issue ∈ report.issues,
    issue.table = table ∧ issue.column = col.name ∧ issue.oracleType = col.dataType

/-- **What is promised of a schema**: a warning announces the type the column gets, and a column
    without a word on it loses nothing. -/
structure Announced (schemas : Record (List TypedColumn)) : Prop where
  said : ∀ issue ∈ (guardColumnTypes (described schemas)).issues, issue.fatal = false →
    ∃ d, announcedType issue.message = some d ∧ mappedType issue.oracleType = some d
  kept : ∀ e ∈ schemas, ∀ col ∈ e.2,
    ¬ Mentions (guardColumnTypes (described schemas)) e.1 col.column →
      ∃ d, mappedType col.column.dataType = some d ∧ ∀ v, col.type.Holds v → d.Stores v

namespace OracleType

/-- The types for which that is so. -/
def Kept : OracleType → Prop
  | number (some (p, s)) => 1 ≤ p ∧ p ≤ 38 ∧ 0 ≤ s.getD 0 ∧ s.getD 0 ≤ p ∧ s.getD 0 ≤ 18
  | starNumber _ => False
  | long => False
  -- the warning on a bare FLOAT is wrong; with a precision there is none
  | float p => p = some 0
  | timestamp f .without => f.getD 6 ≤ 6
  | raw n => n ≠ none
  | vector _ => False
  | object n => n.name ∈ FATAL_TYPES ∨ startsWith n.name "INTERVAL".toList = true
  | _ => True

/-- The property, of one type. -/
def Answered (ty : OracleType) : Prop :=
  match ty.verdict with
  | .refused => True
  | .warns d => ty.built = some d
  | .silent => ∃ d, ty.built = some d ∧ ∀ v, ty.Holds v → d.Stores v

/-! ## 2. Numbers and moments -/

theorem number_stored (p : Nat) (s : Int) :
    (∃ d, decimalType p s = some d ∧ ∀ q ∈ Fixed p s, d.Stores (.number q)) ↔
      1 ≤ p ∧ p ≤ 38 ∧ 0 ≤ s ∧ s ≤ p := by
  unfold decimalType
  constructor
  · intro h
    obtain ⟨d, hd, hall⟩ := h
    split at hd
    · next hvalid =>
      cases hd
      have hsub : Fixed p s ⊆ Fixed p (max 0 s).toNat := hall
      rcases fixed_subset_iff.mp hsub with h0 | h0
      · omega
      · omega
    · cases hd
  · intro h
    rw [if_pos (by omega)]
    refine ⟨_, rfl, ?_⟩
    have hscale : ((max 0 s).toNat : Int) = s := by omega
    intro q hq
    change q ∈ Fixed p ((max 0 s).toNat : Int)
    rw [hscale]
    exact hq

theorem decimalDigits_pos {b : Nat} (h : b ≠ 0) : 0 < decimalDigits b := by
  unfold decimalDigits
  omega

/-- Only zero goes into a binary number as it is. -/
theorem float_stored (b : Nat) :
    (∀ q ∈ decimals (decimalDigits b), DuckType.double.Stores (.number q)) ↔ b = 0 := by
  constructor
  · intro h
    by_contra hb
    exact not_floating_two
      (h (1 / 10) (floating_tenth (decimalDigits_pos hb) (by norm_num) (by norm_num)))
  · intro h q hq
    subst h
    obtain rfl := floating_no_digits hq
    exact zero_floating (by norm_num) 53 _ _

/-- A hundred nanoseconds are lost. -/
theorem moment_stored (f : Nat) :
    (∀ n, Ticks f n ∧ inCalendar n → inMicros n) ↔ f ≤ 6 := by
  constructor
  · intro h
    by_contra hf
    have hticks : Ticks f 100 := by
      have hpow : (10 : Int) ^ (9 - f) ∣ 10 ^ 2 := pow_dvd_pow 10 (by omega)
      exact hpow
    have hmicros := (h 100 ⟨hticks, by unfold inCalendar; omega⟩).1
    omega
  · intro hf n hn
    obtain ⟨hticks, hlo, hhi⟩ := hn
    have hmicro : (1000 : Int) ∣ n := by
      have hpow : (10 : Int) ^ 3 ∣ 10 ^ (9 - f) := pow_dvd_pow 10 (by omega)
      exact hpow.trans hticks
    refine ⟨hmicro, ?_, ?_⟩ <;> omega

/-! ## 3. One type after the other -/

variable {ty : OracleType}

/-- A column of texts, built as one. -/
theorem texts_stored (h : ∀ v, ty.Holds v → ∃ t, v = .text t) :
    ∀ v, ty.Holds v → DuckType.varchar.Stores v := by
  intro v hv
  obtain ⟨t, rfl⟩ := h v hv
  trivial

theorem bytes_stored (h : ∀ v, ty.Holds v → ∃ b, v = .bytes b) :
    ∀ v, ty.Holds v → DuckType.blob.Stores v := by
  intro v hv
  obtain ⟨b, rfl⟩ := h v hv
  trivial

/-- A type without a warning is kept if the one type that is built for it stores its values. -/
theorem silent_iff (hv : ty.verdict = .silent) {d : DuckType}
    (hb : ty.built = some d) : ty.Answered ↔ ∀ v, ty.Holds v → d.Stores v := by
  unfold Answered
  rw [hv, hb]
  constructor
  · intro h
    obtain ⟨d', hd, hall⟩ := h
    cases hd
    exact hall
  · intro h
    exact ⟨d, rfl, h⟩

theorem warned_iff {d d' : DuckType} (hv : ty.verdict = .warns d)
    (hb : ty.built = some d') : ty.Answered ↔ d' = d := by
  unfold Answered
  rw [hv, hb]
  exact Option.some_inj

theorem number_answered (p : Nat) (s : Option Int) :
    (number (some (p, s))).Answered ↔ (number (some (p, s))).Kept := by
  have hnumbers : (∃ d, decimalType p (s.getD 0) = some d ∧
      ∀ v, (number (some (p, s))).Holds v → d.Stores v) ↔
      ∃ d, decimalType p (s.getD 0) = some d ∧ ∀ q ∈ Fixed p (s.getD 0), d.Stores (.number q) := by
    constructor
    · intro h
      obtain ⟨d, hd, hall⟩ := h
      exact ⟨d, hd, fun q hq => hall (.number q) hq⟩
    · intro h
      obtain ⟨d, hd, hall⟩ := h
      refine ⟨d, hd, fun v hv => ?_⟩
      cases v with
      | number q => exact hall q hv
      | _ => exact False.elim hv
  cases s with
  | none =>
    have hiff := hnumbers.trans (number_stored p 0)
    exact hiff.trans (by simp [Kept])
  | some s =>
    have hverdict : (number (some (p, some s))).verdict =
      if 18 < s then .warns (.decimal 38 18) else .silent := rfl
    unfold Answered
    rw [hverdict]
    by_cases h18 : 18 < s
    · rw [if_pos h18]
      -- the scale that is built is the column's own
      refine iff_of_false ?_ (fun hk => absurd hk.2.2.2.2 (not_le.mpr h18))
      intro hbuilt
      have hbuilt : decimalType p s = some (.decimal 38 18) := hbuilt
      unfold decimalType at hbuilt
      split at hbuilt
      · have hscale := (DuckType.decimal.inj (Option.some.inj hbuilt)).2
        omega
      · cases hbuilt
    · rw [if_neg h18]
      refine (hnumbers.trans (number_stored p s)).trans ?_
      simp only [Kept, Option.getD_some]
      constructor <;> intro h <;> omega

theorem object_answered (n : TypeName) : (object n).Answered ↔ (object n).Kept := by
  have hverdict : (object n).verdict =
      if n.name ∈ FATAL_TYPES then .refused
      else if startsWith n.name "INTERVAL".toList then .warns .varchar
      else .silent := rfl
  have hbuilt : (object n).built =
      if n.name ∈ DUCKDB_PASSTHROUGH then duckType n.name else some .varchar := rfl
  unfold Answered
  rw [hverdict]
  by_cases hfatal : n.name ∈ FATAL_TYPES
  · rw [if_pos hfatal]
    exact iff_of_true trivial (.inl hfatal)
  rw [if_neg hfatal]
  by_cases hinterval : startsWith n.name "INTERVAL".toList = true
  · rw [if_pos hinterval]
    refine iff_of_true ?_ (.inr hinterval)
    -- the one native name that begins so is no name of an object type
    have hnative : DUCKDB_PASSTHROUGH.all (fun w =>
        !startsWith w "INTERVAL".toList || TYPE_WORDS.contains w) = true := by decide
    have hnot : n.name ∉ DUCKDB_PASSTHROUGH := by
      intro hin
      have hcase := List.all_eq_true.mp hnative _ hin
      rw [hinterval] at hcase
      exact n.free (by simpa using hcase)
    change (object n).built = some .varchar
    rw [hbuilt, if_neg hnot]
  · rw [if_neg hinterval]
    refine iff_of_false ?_ ?_
    · intro h
      obtain ⟨d, -, hall⟩ := h
      have := hall (.object []) trivial
      cases d <;> exact this
    · intro h
      rcases h with h | h
      · exact hfatal h
      · exact hinterval h

/-- **Of every type**: the two tables answer to one another exactly for those that are kept. -/
theorem answered_iff (ty : OracleType) : ty.Answered ↔ ty.Kept := by
  cases ty with
  | character kind size =>
    refine (silent_iff rfl rfl).trans (iff_of_true (texts_stored fun v hv => ?_) trivial)
    cases v with
    | text t => exact ⟨t, rfl⟩
    | _ => exact False.elim hv
  | clob | nclob | intervalYear _ | intervalDay _ _ =>
    exact (warned_iff rfl rfl).trans (iff_of_true rfl trivial)
  | long => exact (warned_iff rfl rfl).trans (iff_of_false (by decide) id)
  | number precision =>
    cases precision with
    | none => exact (warned_iff rfl rfl).trans (iff_of_true rfl trivial)
    | some ps => exact number_answered ps.1 ps.2
  | starNumber scale =>
    refine (silent_iff rfl rfl).trans (iff_of_false ?_ id)
    intro h
    cases scale with
    | none => exact h (.number 0) (zero_floating (by norm_num) 38 _ _)
    | some s => exact h (.number 0) (zero_fixed 38 s)
  | float p =>
    cases p with
    | none => exact (warned_iff rfl rfl).trans (iff_of_false (by decide) (by nofun))
    | some b =>
      refine (silent_iff rfl rfl).trans ?_
      refine Iff.trans ?_ ((float_stored b).trans (by simp [Kept]))
      constructor
      · intro h q hq
        exact h (.number q) hq
      · intro h v hv
        cases v with
        | number q => exact h q hv
        | _ => exact False.elim hv
  | binaryFloat =>
    refine (silent_iff rfl rfl).trans (iff_of_true (fun v hv => ?_) trivial)
    cases v with
    | number _ | infinity _ | notANumber => exact hv
    | _ => exact False.elim hv
  | binaryDouble =>
    refine (silent_iff rfl rfl).trans (iff_of_true (fun v hv => ?_) trivial)
    cases v with
    | number _ | infinity _ | notANumber => exact hv
    | _ => exact False.elim hv
  | date =>
    refine (silent_iff rfl rfl).trans (iff_of_true (fun v hv => ?_) trivial)
    cases v with
    | moment n => exact (moment_stored 0).mpr (by omega) n hv
    | _ => exact False.elim hv
  | timestamp f z =>
    cases z with
    | without =>
      refine (silent_iff rfl rfl).trans ?_
      refine Iff.trans ?_ (moment_stored (f.getD 6))
      constructor
      · intro h n hn
        exact h (.moment n) hn
      · intro h v hv
        cases v with
        | moment n => exact h n hv
        | _ => exact False.elim hv
    | zoned | localZoned => exact (warned_iff rfl rfl).trans (iff_of_true rfl trivial)
  | raw n =>
    cases n with
    | none =>
      refine (silent_iff rfl rfl).trans (iff_of_false ?_ (fun h => h rfl))
      intro h
      exact h (.bytes []) (by nofun)
    | some n =>
      refine (silent_iff rfl rfl).trans (iff_of_true (bytes_stored fun v hv => ?_) (by nofun))
      cases v with
      | bytes b => exact ⟨b, rfl⟩
      | _ => exact False.elim hv
  | longRaw => exact (warned_iff rfl rfl).trans (iff_of_true rfl trivial)
  | blob =>
    refine (silent_iff rfl rfl).trans (iff_of_true (bytes_stored fun v hv => ?_) trivial)
    cases v with
    | bytes b => exact ⟨b, rfl⟩
    | _ => exact False.elim hv
  | bfile => exact iff_of_true trivial trivial
  | rowid | urowid _ =>
    refine (silent_iff rfl rfl).trans (iff_of_true (texts_stored fun v hv => ?_) trivial)
    cases v with
    | text t => exact ⟨t, rfl⟩
    | _ => exact False.elim hv
  | boolean =>
    refine (silent_iff rfl rfl).trans (iff_of_true (fun v hv => ?_) trivial)
    cases v with
    | truth _ => exact hv
    | _ => exact False.elim hv
  | json =>
    refine (silent_iff rfl rfl).trans (iff_of_true (fun v hv => ?_) trivial)
    cases v with
    | document _ => exact hv
    | _ => exact False.elim hv
  | vector n =>
    refine (silent_iff rfl rfl).trans (iff_of_false ?_ id)
    intro h
    exact h (.vector (List.replicate (n.getD 0) 0)) (by
      intro k hk
      obtain rfl : n = some k := hk
      simp)
  | object n => exact object_answered n

end OracleType

/-! ## 4. A schema -/

theorem mem_issues {schemas : Record (List TypedColumn)} {issue : ColumnTypeIssue} :
    issue ∈ (guardColumnTypes (described schemas)).issues ↔
      ∃ e ∈ schemas, ∃ col ∈ e.2, columnIssue e.1 col.column = some issue := by
  simp only [guardColumnTypes, described, List.mem_flatMap, List.mem_map, List.mem_filterMap]
  constructor
  · intro h
    obtain ⟨_, ⟨e, he, rfl⟩, col, hcol, hissue⟩ := h
    obtain ⟨typed, htyped, rfl⟩ := List.mem_map.mp hcol
    exact ⟨e, he, typed, htyped, hissue⟩
  · intro h
    obtain ⟨e, he, col, hcol, hissue⟩ := h
    exact ⟨_, ⟨e, he, rfl⟩, col.column, List.mem_map_of_mem hcol, hissue⟩

theorem TypedColumn.said (col : TypedColumn) :
    col.type.verdict.Said (classifyType col.column.dataType) := by
  have h := verdict_said col.column.dataType
  rwa [verdict_spells col.type col.spelt] at h

theorem TypedColumn.mapped (col : TypedColumn) :
    mappedType col.column.dataType = col.type.built :=
  mapped_spells col.type col.spelt

/-- **The warnings of a schema are true, and its silence too**, if and only if the types of its
    columns are kept. -/
theorem announced_iff (schemas : Record (List TypedColumn)) :
    Announced schemas ↔ ∀ e ∈ schemas, ∀ col ∈ e.2, col.type.Kept := by
  constructor
  · intro h e he col hcol
    refine (OracleType.answered_iff col.type).mp ?_
    have hsaid := col.said
    unfold OracleType.Answered
    cases hv : col.type.verdict with
    | refused => trivial
    | warns d =>
      rw [hv] at hsaid
      obtain ⟨message, hclass, hmessage⟩ := hsaid
      have hissue : columnIssue e.1 col.column =
          some ⟨e.1, col.column.name, col.column.dataType, false, message⟩ := by
        rw [columnIssue, hclass]
        rfl
      obtain ⟨d', hd, hmap⟩ := h.said _ (mem_issues.mpr ⟨e, he, col, hcol, hissue⟩) rfl
      obtain rfl : d = d' := Option.some.inj (hmessage.symm.trans hd)
      exact col.mapped.symm.trans hmap
    | silent =>
      rw [hv] at hsaid
      have hclass : classifyType col.column.dataType = none := hsaid
      obtain ⟨d, hmap, hall⟩ := h.kept e he col hcol (by
        intro hmention
        obtain ⟨issue, hissue, -, -, htype⟩ := hmention
        obtain ⟨e', -, col', -, hissue⟩ := mem_issues.mp hissue
        obtain ⟨r, hr, rfl⟩ := Option.map_eq_some_iff.mp hissue
        -- the issue's column has the same type text
        have htext : col'.column.dataType = col.column.dataType := htype
        rw [htext, hclass] at hr
        cases hr)
      exact ⟨d, col.mapped.symm.trans hmap, hall⟩
  · intro h
    constructor
    · intro issue hissue hfatal
      obtain ⟨e, he, col, hcol, hissue⟩ := mem_issues.mp hissue
      obtain ⟨⟨fatal, message⟩, hclass, rfl⟩ := Option.map_eq_some_iff.mp hissue
      obtain rfl : fatal = false := hfatal
      have hanswer := (OracleType.answered_iff col.type).mpr (h e he col hcol)
      have hsaid := col.said
      unfold OracleType.Answered at hanswer
      cases hv : col.type.verdict with
      | silent =>
        rw [hv, hclass] at hsaid
        cases hsaid
      | refused =>
        rw [hv, hclass] at hsaid
        obtain ⟨_, hcontra⟩ := hsaid
        cases hcontra
      | warns d =>
        rw [hv, hclass] at hsaid
        rw [hv] at hanswer
        obtain ⟨message', hm, hd⟩ := hsaid
        obtain rfl : message = message' := (Prod.mk.inj (Option.some.inj hm)).2
        exact ⟨d, hd, col.mapped.trans hanswer⟩
    · intro e he col hcol hsilent
      have hanswer := (OracleType.answered_iff col.type).mpr (h e he col hcol)
      have hsaid := col.said
      unfold OracleType.Answered at hanswer
      have hmention : ∀ fatal message, classifyType col.column.dataType = some (fatal, message) →
          False := by
        intro fatal message hclass
        have hissue : columnIssue e.1 col.column =
            some ⟨e.1, col.column.name, col.column.dataType, fatal, message⟩ := by
          rw [columnIssue, hclass]
          rfl
        exact hsilent ⟨_, mem_issues.mpr ⟨e, he, col, hcol, hissue⟩, rfl, rfl, rfl⟩
      cases hv : col.type.verdict with
      | silent =>
        rw [hv] at hanswer
        obtain ⟨d, hd, hall⟩ := hanswer
        exact ⟨d, col.mapped.trans hd, hall⟩
      | refused =>
        rw [hv] at hsaid
        obtain ⟨message, hclass⟩ := hsaid
        exact (hmention _ _ hclass).elim
      | warns d =>
        rw [hv] at hsaid
        obtain ⟨message, hclass, -⟩ := hsaid
        exact (hmention _ _ hclass).elim

theorem long_spelt : OracleType.long.SpeltBy "LONG".toList := by
  have ht : toUpperCase (trim "LONG".toList) = "LONG".toList := by decide
  exact ht

/-- A table with a column of the type LONG. -/
def noteSchemas : Record (List TypedColumn) :=
  [("NOTES".toList, [{
    column := ⟨"BODY".toList, "LONG".toList, 0, none, none, true, 1⟩
    type := .long
    spelt := long_spelt }])]

set_option maxRecDepth 20000 in
/-- **The warning on a LONG speaks of text**, and its column is one of whole numbers. -/
theorem long_lost : ¬ Announced noteSchemas := by
  intro h
  have hissues : ∀ issue ∈ (guardColumnTypes (described noteSchemas)).issues, issue.fatal = false ∧
      announcedType issue.message = some .varchar ∧
      mappedType issue.oracleType = some (signedInteger 64) := by decide
  have hone : (guardColumnTypes (described noteSchemas)).issues ≠ [] := by decide
  obtain ⟨issue, rest, hlist⟩ := List.exists_cons_of_ne_nil hone
  have hmem : issue ∈ (guardColumnTypes (described noteSchemas)).issues := by
    rw [hlist]
    exact List.mem_cons_self
  obtain ⟨hfatal, hsaid, hmapped⟩ := hissues issue hmem
  obtain ⟨d, hd, hd'⟩ := h.said issue hmem hfatal
  rw [hsaid] at hd
  rw [hmapped, ← hd] at hd'
  revert hd'
  decide

end Veesker.Sandbox
