/-
  File:      Veesker/Debugger/Binds.lean
  Subject:   THE BIND VARIABLES OF THE DEBUG STORE (src/lib/stores/debug.svelte.ts): found in the
             script by a pattern, listed for the user to fill in, and sent with the script.

  * `mem_extractBindNames` -- the names the pattern finds, by the places where it finds them;
  * `mem_syncBindVars` -- what is listed; **`foldl_syncBindVars`**: what was entered for a name stays;
  * `keys_buildBindsForExecution` -- what is sent.
-/
import Veesker.Sandbox.Source
import Veesker.Text.Lower

namespace Veesker.Debugger

open List

open Sandbox (Record setEntry)

/-! ## 1. The names -/

/-- `[a-zA-Z_]`. -/
def isNameStart (c : Char) : Bool := c.isAlpha || c == '_'

/-- `[a-zA-Z_][a-zA-Z0-9_]*`, where it matches. -/
def nameAt (s : Text) : Option Text :=
  if s.head?.any isNameStart then some (s.takeWhile isWordChar) else none

/-- The matches of `/:([a-zA-Z_][a-zA-Z0-9_]*)/g`. -/
def bindMatches : Text → List Text
  | [] => []
  | c :: s => (if c = ':' then (nameAt s).toList else []) ++ bindMatches s

def extractBindNames (script : Text) : List Text := (bindMatches script).eraseDups

/-- A walk that looks behind every colon, in the state that it has come to. -/
theorem mem_walk {σ : Type} {next : σ → Char → σ} {found : σ → Text → Option Text}
    {walk : σ → Text → List Text} (hnil : ∀ m, walk m [] = [])
    (hcons : ∀ m c s, walk m (c :: s) =
      (if c = ':' then (found m s).toList else []) ++ walk (next m c) s)
    {m : σ} {script n : Text} :
    n ∈ walk m script ↔
      ∃ a r, script = a ++ ':' :: r ∧ found (a.foldl next m) r = some n := by
  induction script generalizing m with
  | nil => simp [hnil]
  | cons c s ih =>
    rw [hcons, mem_append, ih]
    constructor
    · rintro (h | ⟨a, r, rfl, hr⟩)
      · split at h
        · rename_i hc
          subst hc
          exact ⟨[], s, rfl, Option.mem_toList.mp h⟩
        · cases h
      · exact ⟨c :: a, r, rfl, hr⟩
    · rintro ⟨a, r, hsplit, hr⟩
      rcases cons_eq_append_iff.mp hsplit with ⟨rfl, hcolon⟩ | ⟨a', rfl, rfl⟩
      · obtain ⟨rfl, rfl⟩ := List.cons.inj hcolon
        exact .inl (by rw [if_pos rfl]; exact Option.mem_toList.mpr hr)
      · exact .inr ⟨a', r, rfl, hr⟩

/-- The names stand behind colons, anywhere in the text. -/
theorem mem_extractBindNames {script n : Text} :
    n ∈ extractBindNames script ↔ ∃ a r, script = a ++ ':' :: r ∧ nameAt r = some n := by
  rw [extractBindNames, mem_eraseDups]
  exact @mem_walk Unit (fun _ _ => ()) (fun _ => nameAt) (fun _ => bindMatches) (fun _ => rfl)
    (fun _ _ _ => rfl) () script n

/-! ## 2. The variables -/

structure ParamDef where
  name : Text
  dataType : Text
  deriving DecidableEq

structure BindVar where
  name : Text
  oracleType : Text
  value : Text
  enabled : Bool
  deriving DecidableEq

/-- `/^out_/i`, taken away. -/
def withoutOut (name : Text) : Text :=
  if (name.take 4).map Char.toUpper = "OUT_".toList then name.drop 4 else name

/-- `_buildBindVars`: the variables of a script that was opened. -/
def buildBindVars (cursorBindNames : List Text) (script : Text) (params : List ParamDef) :
    List BindVar :=
  ((extractBindNames script).filter fun name => !cursorBindNames.contains name).map fun name =>
    let bare := withoutOut name
    let param := params.find? fun p => toLowerCase p.name == toLowerCase bare
    ⟨name, param.elim "VARCHAR2".toList ParamDef.dataType, [], true⟩

/-- `existing.get(name)`: the last row of the name. -/
def rowOf (bindVars : List BindVar) (name : Text) : Option BindVar :=
  bindVars.reverse.find? fun v => v.name == name

def newRow (name : Text) : BindVar := ⟨name, "VARCHAR2".toList, [], true⟩

def syncBindVars (cursorBindNames : List Text) (bindVars : List BindVar) (newScript : Text) :
    List BindVar :=
  ((extractBindNames newScript).filter fun name => !cursorBindNames.contains name).map fun name =>
    (rowOf bindVars name).getD (newRow name)

/-- `_buildBindsForExecution`; an empty value is sent as null. -/
def buildBindsForExecution (cursorBindNames : List Text) (bindVars : List BindVar) :
    Record (Option Text) :=
  let result := (bindVars.filter BindVar.enabled).foldl
    (fun result v => setEntry result v.name (if v.value = [] then none else some v.value)) []
  cursorBindNames.foldl (fun result name => setEntry result name none) result

/-! ## 3. What is listed and what is sent -/

theorem rowOf_name {bindVars : List BindVar} {name : Text} {v : BindVar}
    (h : rowOf bindVars name = some v) : v.name = name := by
  have hname := List.find?_some h
  exact beq_iff_eq.mp hname

theorem name_getD_rowOf (bindVars : List BindVar) (name : Text) :
    ((rowOf bindVars name).getD (newRow name)).name = name := by
  cases h : rowOf bindVars name with
  | none => rfl
  | some v => exact rowOf_name h

/-- The row that a name has after the synchronisation. -/
theorem mem_syncBindVars {cursorBindNames : List Text} {bindVars : List BindVar} {script : Text}
    {v : BindVar} :
    v ∈ syncBindVars cursorBindNames bindVars script ↔
      v.name ∈ extractBindNames script ∧ v.name ∉ cursorBindNames ∧
        v = (rowOf bindVars v.name).getD (newRow v.name) := by
  simp only [syncBindVars, mem_map, mem_filter, Bool.not_eq_true',
    contains_eq_mem, decide_eq_false_iff_not]
  constructor
  · rintro ⟨name, ⟨hmem, hcursor⟩, rfl⟩
    rw [name_getD_rowOf]
    exact ⟨hmem, hcursor, rfl⟩
  · rintro ⟨hmem, hcursor, hv⟩
    exact ⟨v.name, ⟨hmem, hcursor⟩, hv.symm⟩

/-- Where every name has its row, its row is found. -/
theorem rowOf_map {row : Text → BindVar} (hrow : ∀ name, (row name).name = name)
    {names : List Text} {name : Text} (h : name ∈ names) :
    rowOf (names.map row) name = some (row name) := by
  rw [rowOf, ← map_reverse, List.find?_map]
  have hfound : names.reverse.find? ((fun v => v.name == name) ∘ row) = some name := by
    have hsome : (names.reverse.find? ((fun v => v.name == name) ∘ row)).isSome = true := by
      rw [List.find?_isSome]
      exact ⟨name, mem_reverse.mpr h, beq_iff_eq.mpr (hrow name)⟩
    obtain ⟨other, hother⟩ := Option.isSome_iff_exists.mp hsome
    have heq : (row other).name = name :=
      beq_iff_eq.mp (List.find?_some (p := fun x => (row x).name == name) hother)
    rw [hother, ← heq, hrow]
  rw [hfound, Option.map_some]

/-- The keys of an object that entries are written to one after the other. -/
theorem keys_foldl {α β : Type} (key : β → Text) (value : β → α) (l : List β) {r : Record α}
    (h : (r.map Prod.fst).Nodup) :
    ((l.foldl (fun r b => setEntry r (key b) (value b)) r).map Prod.fst).Nodup ∧
      ∀ k, k ∈ (l.foldl (fun r b => setEntry r (key b) (value b)) r).map Prod.fst ↔
        k ∈ r.map Prod.fst ∨ ∃ b ∈ l, key b = k := by
  induction l generalizing r with
  | nil => simpa using h
  | cons b l ih =>
    obtain ⟨hnodup, hmem⟩ := Sandbox.nodup_setEntry h (key b) (value b)
    obtain ⟨hnodup', hmem'⟩ := ih hnodup
    refine ⟨hnodup', fun k => ?_⟩
    rw [foldl_cons, hmem', hmem, exists_mem_cons_iff]
    tauto

/-- **The names that are sent**: each once, those of the rows that are switched on and those of the
cursors. -/
theorem keys_buildBindsForExecution (cursorBindNames : List Text) (bindVars : List BindVar) :
    ((buildBindsForExecution cursorBindNames bindVars).map Prod.fst).Nodup ∧
      ∀ n, n ∈ (buildBindsForExecution cursorBindNames bindVars).map Prod.fst ↔
        (∃ v ∈ bindVars, v.enabled = true ∧ v.name = n) ∨ n ∈ cursorBindNames := by
  obtain ⟨hrows, hmemRows⟩ := keys_foldl BindVar.name
    (fun v => if v.value = [] then none else some v.value) (bindVars.filter BindVar.enabled)
    (r := []) nodup_nil
  obtain ⟨hnodup, hmem⟩ := keys_foldl (fun name : Text => name) (fun _ => (none : Option Text))
    cursorBindNames hrows
  refine ⟨hnodup, fun n => (hmem n).trans ?_⟩
  rw [hmemRows]
  simp [and_assoc]

end Veesker.Debugger
