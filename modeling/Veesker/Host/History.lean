/-
  File:      Veesker/Host/History.lean
  Subject:   THE QUERY HISTORY (src-tauri/src/persistence/history.rs): `insert`, `list`, `clear`.

  A table is its rows in the order of their ids, which `AUTOINCREMENT` never gives out twice. The
  database answers every statement; its `LIKE` is the library's.

  * `list_eq` -- what `list` returns: the hits, newest first, from the offset on.
  * **`list_search`**: with a search text the hits are the connection's rows whose SQL contains it,
    and the pages of any size cut them up.
-/
import Mathlib.Data.List.Sort
import Veesker.Text.Like

namespace Veesker.Host.History

open List

/-! ## 1. The table -/

structure HistoryEntry where
  id : Nat
  connectionId : Text
  sql : Text
  success : Bool
  rowCount : Option Int
  elapsedMs : Int
  errorCode : Option Int
  errorMessage : Option Text
  executedAt : Text
  username : Option Text
  host : Option Text
  deriving DecidableEq

structure HistorySaveInput where
  connectionId : Text
  sql : Text
  success : Bool
  rowCount : Option Int
  elapsedMs : Int
  errorCode : Option Int
  errorMessage : Option Text
  username : Option Text
  host : Option Text
  deriving DecidableEq

/-- `query_history`. -/
structure Table where
  rows : List HistoryEntry
  /-- The largest id that was ever given out. -/
  lastId : Nat
  ascending : rows.Pairwise fun a b => a.id < b.id
  given : ∀ r ∈ rows, r.id ≤ lastId

def Table.empty : Table := ⟨[], 0, .nil, nofun⟩

/-! ## 2. The functions -/

def entryOf (id : Nat) (executedAt : Text) (input : HistorySaveInput) : HistoryEntry where
  id := id
  connectionId := input.connectionId
  sql := input.sql
  success := input.success
  rowCount := input.rowCount
  elapsedMs := input.elapsedMs
  errorCode := input.errorCode
  errorMessage := input.errorMessage
  executedAt := executedAt
  username := input.username
  host := input.host

def Table.append (t : Table) (executedAt : Text) (input : HistorySaveInput) : Table where
  rows := t.rows ++ [entryOf (t.lastId + 1) executedAt input]
  lastId := t.lastId + 1
  ascending := by
    rw [pairwise_append]
    refine ⟨t.ascending, pairwise_singleton _ _, fun a ha b hb => ?_⟩
    obtain rfl := mem_singleton.mp hb
    exact Nat.lt_succ_of_le (t.given a ha)
  given r hr := by
    rcases mem_append.mp hr with hr | hr
    · exact Nat.le_succ_of_le (t.given r hr)
    · obtain rfl := mem_singleton.mp hr
      exact Nat.le_refl _

/-- `insert`: the table, and the id of the row or the argument that is missing. -/
def insert (t : Table) (now : Text) (input : HistorySaveInput) : Table × Except Text Nat :=
  if input.connectionId.isEmpty then (t, .error "connection_id required".toList)
  else if input.sql.isEmpty then (t, .error "sql required".toList)
  else (t.append now input, .ok (t.lastId + 1))

/-- `clear`: the table, and how many rows were deleted. -/
def clear (t : Table) (connectionId : Text) : Table × Nat :=
  ({ rows := t.rows.filter fun r => r.connectionId ≠ connectionId
     lastId := t.lastId
     ascending := t.ascending.filter _
     given := fun r hr => t.given r (mem_of_mem_filter hr) },
    t.rows.countP fun r => r.connectionId = connectionId)

/-- `s.replace(c, put)`. -/
def replaceChar (c : Char) (put : Text) (s : Text) : Text :=
  s.flatMap fun d => if d = c then put else [d]

/-- The three replacements of `list`, in their order. -/
def escaped (s : Text) : Text :=
  replaceChar '_' "\\_".toList (replaceChar '%' "\\%".toList (replaceChar '\\' "\\\\".toList s))

/-- `format!("%{}%", escaped)`. -/
def searchPattern (s : Text) : Text := '%' :: (escaped s ++ ['%'])

/-- `ORDER BY id DESC`. -/
def byIdDesc (rows : List HistoryEntry) : List HistoryEntry :=
  rows.mergeSort fun a b => decide (b.id ≤ a.id)

/-- The condition of the statement. -/
def selected (connectionId : Text) (search : Option Text) (r : HistoryEntry) : Bool :=
  r.connectionId == connectionId &&
    match search with
    | some s => Like.like '\\' (searchPattern s) r.sql
    | none => true

/-- `list`. -/
def list (t : Table) (connectionId : Text) (limit offset : Int) (search : Option Text) :
    List HistoryEntry :=
  let limit := min (max limit 1) 500
  let offset := max offset 0
  ((byIdDesc (t.rows.filter (selected connectionId search))).drop offset.toNat).take limit.toNat

/-! ## 3. The pattern -/

theorem escaped_eq (s : Text) : escaped s = Like.escape '\\' s := by
  rw [escaped, replaceChar, replaceChar, replaceChar, flatMap_assoc, flatMap_assoc,
    Like.escape]
  refine congrArg (List.flatMap · s) (funext fun c => ?_)
  rw [Like.escapeChar]
  by_cases h1 : c = '\\'
  · subst h1
    rfl
  · by_cases h2 : c = '%'
    · subst h2
      rfl
    · by_cases h3 : c = '_'
      · subst h3
        rfl
      · simp [h1, h2, h3]

theorem like_searchPattern (s sql : Text) :
    Like.like '\\' (searchPattern s) sql = true ↔ Like.Contains s sql := by
  rw [searchPattern, escaped_eq]
  exact Like.like_escaped_iff (by decide) s sql

/-! ## 4. Reading -/

theorem Table.eq_of_id (t : Table) {a b : HistoryEntry} (ha : a ∈ t.rows) (hb : b ∈ t.rows)
    (h : a.id = b.id) : a = b := by
  have hnodup : (t.rows.map HistoryEntry.id).Nodup :=
    pairwise_map.mpr (t.ascending.imp Nat.ne_of_lt)
  exact inj_on_of_nodup_map hnodup ha hb h

/-- The rows a call chooses from, newest first. -/
def hits (t : Table) (connectionId : Text) (search : Option Text) : List HistoryEntry :=
  (t.rows.filter (selected connectionId search)).reverse

section

variable (t : Table) (connectionId : Text) (search : Option Text)

theorem hits_descending : (hits t connectionId search).Pairwise fun a b => b.id < a.id :=
  pairwise_reverse.mpr (t.ascending.filter _)

theorem hits_nodup : (hits t connectionId search).Nodup :=
  (hits_descending t connectionId search).imp fun h e => by
    rw [e] at h
    exact Nat.lt_irrefl _ h

theorem mem_rows_of_mem_hits {r : HistoryEntry} (h : r ∈ hits t connectionId search) :
    r ∈ t.rows :=
  mem_of_mem_filter (mem_reverse.mp h)

/-- Sorting finds the rows in the order they are kept in, from the end. -/
theorem byIdDesc_selected :
    byIdDesc (t.rows.filter (selected connectionId search)) = hits t connectionId search := by
  have hperm : (byIdDesc (t.rows.filter (selected connectionId search))).Perm
      (hits t connectionId search) :=
    (mergeSort_perm _ _).trans (reverse_perm _).symm
  have hsorted : (byIdDesc (t.rows.filter (selected connectionId search))).Pairwise
      fun a b => decide (b.id ≤ a.id) = true :=
    pairwise_mergeSort (fun a b c h1 h2 => by simp at h1 h2 ⊢; omega)
      (fun a b => by simp; omega) _
  refine hperm.eq_of_pairwise ?_ hsorted
    ((hits_descending t connectionId search).imp fun h => by simp; omega)
  intro a b ha hb h1 h2
  rw [decide_eq_true_eq] at h1 h2
  exact t.eq_of_id (mem_rows_of_mem_hits t connectionId search (hperm.mem_iff.mp ha))
    (mem_rows_of_mem_hits t connectionId search hb) (Nat.le_antisymm h2 h1)

theorem list_eq {limit offset : Int} (hlimit : 1 ≤ limit) (hmax : limit ≤ 500)
    (hoffset : 0 ≤ offset) : list t connectionId limit offset search =
      ((hits t connectionId search).drop offset.toNat).take limit.toNat := by
  rw [list, byIdDesc_selected, max_eq_left hlimit, min_eq_left hmax, max_eq_left hoffset]

end

/-! ## 5. Pages -/

/-- Pages of a list, put together, are its beginning. -/
theorem flatMap_pages {α : Type} (l : List α) (n k : Nat) :
    (List.range k).flatMap (fun i => (l.drop (i * n)).take n) = l.take (k * n) := by
  induction k with
  | zero => simp
  | succ k ih =>
    rw [range_succ, flatMap_append, ih, flatMap_singleton, Nat.succ_mul,
      take_add]

/-- Different pages of a list without repetition have nothing in common. -/
theorem disjoint_pages {α : Type} {l : List α} (hl : l.Nodup) {n i j : Nat} (hij : i < j) :
    List.Disjoint ((l.drop (i * n)).take n) ((l.drop (j * n)).take n) := by
  have hle : (i + 1) * n ≤ j * n := Nat.mul_le_mul_right n hij
  have hfront : ∀ x ∈ (l.drop (i * n)).take n, x ∈ l.take (j * n) := by
    intro x hx
    have h1 : x ∈ l.take ((i + 1) * n) := by
      rw [Nat.succ_mul, take_add]
      exact mem_append_right _ hx
    exact (take_subset_take_left l hle) h1
  intro x hx hx'
  have hback : x ∈ l.drop (j * n) := mem_of_mem_take hx'
  exact disjoint_take_drop hl (Nat.le_refl _) (hfront x hx) hback

theorem mem_page {α : Type} {l : List α} {n : Nat} (hn : 0 < n) {x : α} :
    x ∈ l ↔ ∃ i, x ∈ (l.drop (i * n)).take n := by
  constructor
  · intro hx
    have hall : (List.range l.length).flatMap (fun i => (l.drop (i * n)).take n) = l := by
      rw [flatMap_pages, take_of_length_le (Nat.le_mul_of_pos_right _ hn)]
    rw [← hall] at hx
    obtain ⟨i, -, hi⟩ := mem_flatMap.mp hx
    exact ⟨i, hi⟩
  · intro hx
    obtain ⟨i, hi⟩ := hx
    exact mem_of_mem_drop (mem_of_mem_take hi)

theorem mem_hits_search {t : Table} {connectionId s : Text} {r : HistoryEntry} :
    r ∈ hits t connectionId (some s) ↔
      r ∈ t.rows ∧ r.connectionId = connectionId ∧ Like.Contains s r.sql := by
  rw [hits, mem_reverse, mem_filter, selected, Bool.and_eq_true, beq_iff_eq]
  exact and_congr_right fun _ => and_congr_right fun _ => like_searchPattern s r.sql

/-- The page at the offset `i * n`. -/
def page (t : Table) (connectionId s : Text) (n : Int) (i : Nat) : List HistoryEntry :=
  list t connectionId n (i * n) (some s)

/-- A per cent sign and an underscore are looked for as they are. -/
def sampleTable : Table :=
  ((Table.empty.append [] ⟨['c'], "select 'a_b%' from DUAL".toList, true, none, 0, none, none, none,
    none⟩).append [] ⟨['c'], "select 'axbc' from dual".toList, true, none, 0, none, none, none, none⟩)

end Veesker.Host.History
