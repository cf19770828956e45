/-
  File:      Veesker/Cloud/LastSeen.lean
  Subject:   THE IDS SEEN LAST (createLastSeenStore in sidecar/src/sandbox-cloud/last-seen.ts): any
             number of `markSeen` and `pruneStale`, in every order of their steps.

  A call asks whether the file is there, reads it, and writes the whole of it back; between these
  steps the other calls go on.

  * **`orderly_kept`**: where no call writes over a text that it has not read, and no pruning over
    a marking that came after its start, a marked id is in the file until a later pruning drops it.
  * `readFile_writeFile` -- the file says what was written to it last.
  * `marking_lost` -- without it: the second of two markings drops the ids of the first.
-/
import Veesker.Format.JsonLine
import Veesker.Run.Flight

namespace Veesker.Cloud.LastSeen

open Format Run List

/-! ## 1. The file -/

section

variable {ν : Type} (N : Numbers ν)

structure LastSeenFile (ν : Type) where
  ids : List Text
  /-- As it stands in the file: nobody reads it. -/
  updated_at : Json ν

/-- `new Date(0).toISOString()`. -/
def epoch : Text := "1970-01-01T00:00:00.000Z".toList

def nothingSeen : LastSeenFile ν := ⟨[], .str epoch⟩

/-- `parsed?.key`. -/
def member (key : Text) : Json ν → Option (Json ν)
  | .obj members => members.lookup key
  | _ => none

def asString : Json ν → Option Text
  | .str s => some s
  | _ => none

def ofParsed (parsed : Json ν) : LastSeenFile ν where
  ids := match member "ids".toList parsed with
    | some (.arr items) => items.filterMap asString
    | _ => []
  updated_at := match member "updated_at".toList parsed with
    | some .null | none => .str epoch
    | some v => v

/-- `readFile`, from the text of the file; there is none where the file is not there or its
    reading fails. -/
def readFile (text : Option Text) : LastSeenFile ν :=
  match text.bind (parse N) with
  | some parsed => ofParsed parsed
  | none => nothingSeen

/-- The text that `writeFile` stores. -/
def writeFile (ids : List Text) (now : Text) : Text :=
  stringify N (.obj [("ids".toList, .arr (ids.map .str)), ("updated_at".toList, .str now)])

variable {N}

theorem properItems_str (ids : List Text) : ProperItems N (ids.map .str) := by
  induction ids with
  | nil => trivial
  | cons id ids ih => exact ⟨trivial, ih⟩

theorem filterMap_asString (ids : List Text) :
    (ids.map Json.str).filterMap (asString (ν := ν)) = ids := by
  rw [filterMap_map]
  exact filterMap_some

/-- **The file says what was written to it.** -/
theorem readFile_writeFile (ids : List Text) (now : Text) :
    (readFile N (some (writeFile N ids now))).ids = ids := by
  have hkeys : ["ids".toList, "updated_at".toList].Nodup := by decide
  have hproper : (Json.obj [("ids".toList, .arr (ids.map .str)),
      ("updated_at".toList, .str now)]).Proper N := ⟨hkeys, properItems_str ids, trivial, trivial⟩
  rw [readFile, writeFile, Option.bind_some, parse_stringify hproper]
  exact filterMap_asString ids

end

/-! ## 2. The operations -/

inductive Op where
  | markSeen (ids : List Text)
  | pruneStale (currentIds : List Text)
  deriving DecidableEq

/-- `set.add(id)`. -/
def add (set : List Text) (id : Text) : List Text := if id ∈ set then set else set ++ [id]

/-- What is written back; nothing where no id is stale. -/
def Op.next (data : List Text) : Op → Option (List Text)
  | .markSeen ids => some (ids.foldl add (data.foldl add []))
  | .pruneStale currentIds =>
    if data.length = 0 then none
    else
      let next := data.filter fun id => currentIds.contains id
      if next.length = data.length then none else some next

/-- The ids that a pruning takes out. -/
def dropped (data currentIds : List Text) : List Text :=
  data.filter fun id => !currentIds.contains id

def Op.isMarkSeen : Op → Bool
  | .markSeen _ => true
  | .pruneStale _ => false

theorem mem_add {set : List Text} {id x : Text} : x ∈ add set id ↔ x ∈ set ∨ x = id := by
  rw [add]
  split
  · rename_i hid
    constructor
    · exact Or.inl
    · intro h
      rcases h with h | rfl
      · exact h
      · exact hid
  · rw [mem_append, mem_singleton]

theorem mem_foldl_add {ids set : List Text} {x : Text} :
    x ∈ ids.foldl add set ↔ x ∈ set ∨ x ∈ ids := by
  induction ids generalizing set with
  | nil => simp
  | cons id ids ih => rw [foldl_cons, ih, mem_add, mem_cons, or_assoc]

theorem next_markSeen {data ids next : List Text} (h : Op.next data (.markSeen ids) = some next)
    {x : Text} : x ∈ next ↔ x ∈ data ∨ x ∈ ids := by
  cases h
  rw [mem_foldl_add, mem_foldl_add]
  simp

/-- A pruning keeps an id or drops it. -/
theorem next_pruneStale {data currentIds next : List Text}
    (h : Op.next data (.pruneStale currentIds) = some next) {x : Text} (hx : x ∈ data) :
    x ∈ next ∨ x ∈ dropped data currentIds := by
  rw [Op.next] at h
  split at h
  · cases h
  · dsimp only at h
    split at h
    · cases h
    · cases h
      by_cases hkeep : currentIds.contains x = true
      · exact .inl (mem_filter.mpr ⟨hx, hkeep⟩)
      · exact .inr (mem_filter.mpr ⟨hx, by simpa using hkeep⟩)

/-! ## 3. The state -/

inductive Phase where
  /-- It asks whether the file is there. -/
  | started
  /-- The file is there, its text is awaited. -/
  | found
  /-- What it writes is known, the directory is awaited; then the write. -/
  | computed (next : List Text)
  | made (next : List Text)
  | ended

structure Call where
  op : Op
  phase : Phase := .started
  /-- How many markings were complete at its start. -/
  before : Nat
  /-- The ids it has read, and how many writes had been made by then. -/
  data : List Text := []
  seen : Nat := 0

structure World where
  file : Option Text
  calls : List Call := []
  writes : Nat := 0
  /-- The ids of each complete marking, in their order. -/
  marked : List (List Text) := []
  /-- Of each pruning that has written: the markings complete at its start, and what it dropped. -/
  pruned : List (Nat × List Text) := []

/-! ## 4. The steps -/

inductive Event where
  | starts (op : Op)
  /-- The `k`-th call learns whether the file is there; likewise below. -/
  | checks (k : Nat)
  /-- It gets the text, or the read fails. -/
  | reads (k : Nat) (ok : Bool)
  | makesDir (k : Nat) (ok : Bool)
  | writes (k : Nat) (now : Text)
  /-- The write fails on its way. -/
  | breaks (k : Nat) (left : Option Text)
  deriving DecidableEq

def World.setCall (w : World) (k : Nat) (c : Call) : World := { w with calls := w.calls.set k c }

/-- What follows a read without a pause. -/
def Call.withData (c : Call) (data : List Text) (seen : Nat) : Call :=
  { c with
    phase := match c.op.next data with
      | some next => .computed next
      | none => .ended
    data, seen }

/-- What is on record once a call has written. -/
def World.record (w : World) (c : Call) : World :=
  match c.op with
  | .markSeen ids => { w with marked := w.marked ++ [ids] }
  | .pruneStale currentIds => { w with pruned := w.pruned ++ [(c.before, dropped c.data currentIds)] }

section

variable {ν : Type} (N : Numbers ν)

def step (w : World) : Event → Option World
  | .starts op => some { w with calls := w.calls ++ [{ op, before := w.marked.length }] }
  | .checks k => w.calls[k]?.bind fun c =>
    match c.phase with
    | .started =>
      if w.file.isSome then some (w.setCall k { c with phase := .found })
      else some (w.setCall k (c.withData (readFile N none).ids w.writes))
    | _ => none
  | .reads k ok => w.calls[k]?.bind fun c =>
    match c.phase with
    | .found => some (w.setCall k (c.withData (readFile N (if ok then w.file else none)).ids w.writes))
    | _ => none
  | .makesDir k ok => w.calls[k]?.bind fun c =>
    match c.phase with
    | .computed next => some (w.setCall k { c with phase := if ok then .made next else .ended })
    | _ => none
  | .writes k now => w.calls[k]?.bind fun c =>
    match c.phase with
    | .made next =>
      some { (w.setCall k { c with phase := .ended }).record c with
        file := some (writeFile N next now)
        writes := w.writes + 1 }
    | _ => none
  | .breaks k left => w.calls[k]?.bind fun c =>
    match c.phase with
    | .made _ => some { w.setCall k { c with phase := .ended } with
        file := left
        writes := w.writes + 1 }
    | _ => none

/-- The states of the runs from a file, under a condition on the steps. -/
def Reached (file : Option Text) (allowed : World → Event → Prop) : World → Prop :=
  Runs (fun w e w' => step N w e = some w') allowed { file }

/-! ## 5. What is asked of a run -/

/-- A marked id is in the file, or a pruning that started later has dropped it. -/
def World.Kept (w : World) : Prop :=
  ∀ i ids, w.marked[i]? = some ids → ∀ id ∈ ids,
    id ∈ (readFile N w.file).ids ∨ ∃ p ∈ w.pruned, i < p.1 ∧ id ∈ p.2

end

/-- Nothing was written since the call has read, and to a pruning nothing marked since its start. -/
def Call.upToDate (w : World) (c : Call) : Bool :=
  c.seen == w.writes && (c.op.isMarkSeen || c.before == w.marked.length)

/-- **The condition**: a call that writes is up to date, no marking reads in vain, and no write
    breaks off. -/
def Orderly (w : World) : Event → Prop
  | .writes k _ => w.calls[k]?.all (Call.upToDate w) = true
  | .reads k ok => w.calls[k]?.all (fun c => ok || !c.op.isMarkSeen) = true
  | .breaks _ _ => False
  | _ => True

instance (w : World) : ∀ e, Decidable (Orderly w e)
  | .writes _ _ => inferInstanceAs (Decidable (_ = true))
  | .reads _ _ => inferInstanceAs (Decidable (_ = true))
  | .breaks _ _ => isFalse id
  | .starts _ => isTrue trivial
  | .checks _ => isTrue trivial
  | .makesDir _ _ => isTrue trivial

/-! ## 6. The invariant -/

section

variable {ν : Type} {N : Numbers ν} {w : World}

variable (N) in
/-- A call that is to write holds what it has read, and that is still in the file if nothing was
    written since. -/
def Call.Faithful (w : World) (c : Call) : Prop :=
  ∀ next, c.phase = .computed next ∨ c.phase = .made next →
    c.op.next c.data = some next ∧ c.seen ≤ w.writes ∧
      (c.seen = w.writes → c.data = (readFile N w.file).ids)

variable (N) in
/-- What holds between the steps of an orderly run. -/
structure World.Inv (w : World) : Prop where
  faithful : ∀ c ∈ w.calls, c.Faithful N w
  kept : w.Kept N

theorem inv_start (file : Option Text) : World.Inv N { file } where
  faithful _ hc := absurd hc not_mem_nil
  kept _ _ h := by cases h

/-- A call that has nothing to write. -/
theorem faithful_of_phase {c : Call} (h : ∀ next, c.phase ≠ .computed next ∧ c.phase ≠ .made next) :
    c.Faithful N w := by
  intro next hphase
  rcases hphase with hphase | hphase
  · exact absurd hphase (h next).1
  · exact absurd hphase (h next).2

/-- **What it has just read is in the file.** -/
theorem faithful_withData (c : Call) {data : List Text}
    (h : ∀ next, c.op.next data = some next → data = (readFile N w.file).ids) :
    (c.withData data w.writes).Faithful N w := by
  intro next hphase
  simp only [Call.withData] at hphase ⊢
  cases hnext : c.op.next data with
  | none =>
    rw [hnext] at hphase
    rcases hphase with hphase | hphase <;> cases hphase
  | some next' =>
    rw [hnext] at hphase
    rcases hphase with hphase | hphase
    · cases hphase
      exact ⟨rfl, Nat.le_refl _, fun _ => h next hnext⟩
    · cases hphase

theorem inv_setCall (h : w.Inv N) (k : Nat) {c : Call} (hc : c.Faithful N w) :
    (w.setCall k c).Inv N := by
  refine ⟨fun c' hc' => ?_, h.kept⟩
  rcases mem_or_eq_of_mem_set hc' with hold | rfl
  · exact h.faithful c' hold
  · exact hc

/-- After a write the other calls have read what was there before. -/
theorem faithful_outdated {w' : World} {c : Call} (h : c.Faithful N w)
    (hw : w'.writes = w.writes + 1) : c.Faithful N w' := by
  intro next hphase
  obtain ⟨hnext, hle, -⟩ := h next hphase
  exact ⟨hnext, by omega, fun heq => by omega⟩

theorem record_calls (w : World) (c : Call) : (w.record c).calls = w.calls := by
  rw [World.record]
  split <;> rfl

theorem mem_marked_concat {marked : List (List Text)} {new ids : List Text} {i : Nat}
    (h : (marked ++ [new])[i]? = some ids) : marked[i]? = some ids ∨ i = marked.length ∧ ids = new := by
  rcases Nat.lt_trichotomy i marked.length with hlt | heq | hgt
  · rw [List.getElem?_append_left hlt] at h
    exact .inl h
  · subst heq
    rw [List.getElem?_concat_length] at h
    exact .inr ⟨rfl, (Option.some.inj h).symm⟩
  · rw [List.getElem?_eq_none (by rw [length_append, length_singleton]; omega)] at h
    cases h

/-- **An up-to-date write keeps every marked id or drops it.** -/
theorem kept_write (h : w.Kept N) {c : Call} {next : List Text} {now : Text} {w' : World}
    (hnext : c.op.next (readFile N w.file).ids = some next) (hdata : c.data = (readFile N w.file).ids)
    (hup : c.upToDate w = true) (hfile : w'.file = some (writeFile N next now))
    (hmarked : w'.marked = (w.record c).marked) (hpruned : w'.pruned = (w.record c).pruned) :
    w'.Kept N := by
  intro i ids hi id hid
  rw [hfile, readFile_writeFile, hpruned]
  rw [hmarked] at hi
  cases hop : c.op with
  | markSeen new =>
    rw [hop] at hnext
    simp only [World.record, hop] at hi ⊢
    rcases mem_marked_concat hi with hold | ⟨-, rfl⟩
    · rcases h i ids hold id hid with hin | hgone
      · exact .inl ((next_markSeen hnext).mpr (.inl hin))
      · exact .inr hgone
    · exact .inl ((next_markSeen hnext).mpr (.inr hid))
  | pruneStale currentIds =>
    rw [hop] at hnext
    simp only [World.record, hop] at hi ⊢
    have hbefore : c.before = w.marked.length := by
      simpa [Call.upToDate, hop, Op.isMarkSeen] using (Bool.and_eq_true_iff.mp hup).2
    rcases h i ids hi id hid with hin | ⟨p, hp, hlater, hgone⟩
    · rcases next_pruneStale hnext hin with hkeep | hdrop
      · exact .inl hkeep
      · have hlt : i < w.marked.length := (List.getElem?_eq_some_iff.mp hi).1
        exact .inr ⟨_, mem_append_right _ mem_cons_self, hbefore ▸ hlt, hdata ▸ hdrop⟩
    · exact .inr ⟨p, mem_append_left _ hp, hlater, hgone⟩

theorem inv_reads {w' : World} (h : w.Inv N) {k : Nat} {ok : Bool}
    (hs : step N w (.reads k ok) = some w') (ho : Orderly w (.reads k ok)) : w'.Inv N := by
  obtain ⟨c, hc, hs⟩ := Option.bind_eq_some_iff.mp hs
  rw [Orderly, hc, Option.all_some] at ho
  split at hs
  · obtain rfl := Option.some.inj hs
    refine inv_setCall h k (faithful_withData c fun next hnext => ?_)
    cases ok with
    | true => rfl
    | false =>
      -- a pruning that reads in vain returns
      cases hop : c.op with
      | markSeen ids =>
        rw [hop] at ho
        cases ho
      | pruneStale currentIds =>
        rw [hop] at hnext
        cases hnext
  · cases hs

theorem inv_writes {w' : World} (h : w.Inv N) {k : Nat} {now : Text}
    (hs : step N w (.writes k now) = some w') (ho : Orderly w (.writes k now)) : w'.Inv N := by
  obtain ⟨c, hc, hs⟩ := Option.bind_eq_some_iff.mp hs
  rw [Orderly, hc, Option.all_some] at ho
  split at hs
  · rename_i next hphase
    cases hs
    obtain ⟨hnext, -, hread⟩ := h.faithful c (mem_of_getElem? hc) next (.inr hphase)
    have hseen : c.seen = w.writes := by simpa using (Bool.and_eq_true_iff.mp ho).1
    have hdata := hread hseen
    refine ⟨fun c' hc' => ?_, ?_⟩
    · simp only [record_calls, World.setCall] at hc'
      rcases mem_or_eq_of_mem_set hc' with hold | rfl
      · exact faithful_outdated (h.faithful c' hold) rfl
      · exact faithful_of_phase fun next => ⟨nofun, nofun⟩
    · refine kept_write h.kept (hdata ▸ hnext) hdata ho rfl ?_ ?_
      all_goals cases hop : c.op <;> simp only [World.record, World.setCall, hop]
  · cases hs

/-- **An orderly step keeps the invariant.** -/
theorem inv_step {w' : World} (h : w.Inv N) {e : Event} (hs : step N w e = some w')
    (ho : Orderly w e) : w'.Inv N := by
  cases e with
  | starts op =>
    cases hs
    refine ⟨fun c hc => ?_, h.kept⟩
    rcases mem_append.mp hc with hold | hnew
    · exact h.faithful c hold
    · obtain rfl := mem_singleton.mp hnew
      exact faithful_of_phase fun next => ⟨nofun, nofun⟩
  | checks k =>
    obtain ⟨c, hc, hs⟩ := Option.bind_eq_some_iff.mp hs
    split at hs
    · split at hs
      · obtain rfl := Option.some.inj hs
        exact inv_setCall h k (faithful_of_phase fun next => ⟨nofun, nofun⟩)
      · rename_i hnone
        cases hs
        have hfile : w.file = none := Option.not_isSome_iff_eq_none.mp hnone
        exact inv_setCall h k (faithful_withData c fun _ _ => by rw [hfile])
    · cases hs
  | reads k ok => exact inv_reads h hs ho
  | makesDir k ok =>
    obtain ⟨c, hc, hs⟩ := Option.bind_eq_some_iff.mp hs
    split at hs
    · rename_i next hphase
      cases hs
      refine inv_setCall h k fun next' hphase' => ?_
      cases ok with
      | true =>
        rcases hphase' with hphase' | hphase'
        · cases hphase'
        · obtain rfl := Phase.made.inj hphase'
          exact h.faithful c (mem_of_getElem? hc) next (.inl hphase)
      | false => rcases hphase' with hphase' | hphase' <;> cases hphase'
    · cases hs
  | writes k now => exact inv_writes h hs ho
  | breaks k left => exact ho.elim

variable (N) in
/-- **In an orderly run a marked id stays in the file until a pruning that started after the
    marking drops it.** -/
theorem orderly_kept (file : Option Text) (w : World) (h : Reached N file Orderly w) : w.Kept N :=
  (Runs.inv h (inv_start file) fun _ _ _ hi hs ho => inv_step hi hs ho).kept

end

/-! ## 7. Runs to try it with -/

/-- The steps of a call that finds the file. -/
def callSteps (op : Op) (k : Nat) : List Event :=
  [.starts op, .checks k, .reads k true, .makesDir k true, .writes k []]

/-- Two markings, then a pruning. -/
def oneAfterTheOther : List Event :=
  [.starts (.markSeen ["a".toList]), .checks 0, .makesDir 0 true, .writes 0 []] ++
    callSteps (.markSeen ["b".toList, "c".toList]) 1 ++ callSteps (.pruneStale ["a".toList, "c".toList]) 2

theorem oneAfterTheOther_run :
    ∃ w ∈ oneAfterTheOther.foldlM
        (fun w e => if Orderly w e then step intNumbers w e else none) { file := none },
      w.marked = [["a".toList], ["b".toList, "c".toList]] ∧ w.pruned = [(2, ["b".toList])] := by
  decide

theorem orderly_kept_abc : ∃ w : World, w.marked = [["a".toList], ["b".toList, "c".toList]] ∧
    w.Kept intNumbers := by
  obtain ⟨w, hw, hmarked, -⟩ := oneAfterTheOther_run
  exact ⟨w, hmarked, orderly_kept intNumbers none w (Runs.exec oneAfterTheOther .start hw)⟩

/-- Both markings read the file before either writes. -/
def atTheSameTime : List Event :=
  [.starts (.markSeen ["a".toList]), .starts (.markSeen ["b".toList]), .checks 0, .checks 1,
    .makesDir 0 true, .makesDir 1 true, .writes 0 [], .writes 1 []]

theorem atTheSameTime_run :
    ∃ w ∈ atTheSameTime.foldlM (fun w e => if True then step intNumbers w e else none)
        { file := none },
      w.marked = [["a".toList], ["b".toList]] ∧ w.pruned = [] ∧
      (readFile intNumbers w.file).ids = ["b".toList] := by
  decide

/-- **The second write drops what the first has marked.** -/
theorem marking_lost : ∃ w, Reached intNumbers none (fun _ _ => True) w ∧
    w.marked = [["a".toList], ["b".toList]] ∧ w.pruned = [] ∧ ¬ w.Kept intNumbers := by
  obtain ⟨w, hw, hmarked, hpruned, hids⟩ := atTheSameTime_run
  refine ⟨w, Runs.exec atTheSameTime .start hw, hmarked, hpruned, fun hkept => ?_⟩
  rcases hkept 0 ["a".toList] (by rw [hmarked]; rfl) "a".toList mem_cons_self with hin | ⟨p, hp, -⟩
  · rw [hids] at hin
    exact absurd hin (by decide)
  · rw [hpruned] at hp
    exact absurd hp not_mem_nil

end Veesker.Cloud.LastSeen
