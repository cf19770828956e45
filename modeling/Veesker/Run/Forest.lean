/-
  File:      Veesker/Run/Forest.lean
  Subject:   A FOREST GIVEN BY PARENT POINTERS, walked with the children before their parent.

  Every node has a key and names the key of its parent, or none. `kids` lists the nodes under a key
  in an order of its own. The walk has a depth that it may run out of.

  * `Forest.walk` -- with enough depth the walk comes to its end;
  * `Forest.listed` -- it lists every node once, a node behind all its children and siblings in
    their order.

  Nothing here names the repository.
-/
import Mathlib

namespace Veesker.Run

open List

section

variable {α ι : Type}

/-- What a partial function gives for the elements of a list, one after the other. -/
def collect (f : α → Option (List α)) : List α → Option (List α)
  | [] => some []
  | x :: xs => do
    let l ← f x
    let r ← collect f xs
    some (l ++ r)

/-- The walk under one node: what is under it, then the node. -/
def postorder (key : α → ι) (kids : Option ι → List α) : Nat → α → Option (List α)
  | 0, _ => none
  | n + 1, x => (collect (postorder key kids n) (kids (some (key x)))).map (· ++ [x])

/-- The walk over the nodes without a parent. -/
def walk (key : α → ι) (kids : Option ι → List α) (n : Nat) : Option (List α) :=
  collect (postorder key kids n) (kids none)

end

/-! ## 1. Forests -/

section

variable {α ι : Type} (nodes : List α) (key : α → ι) (up : α → Option ι)

/-- `y` hangs under `x`. -/
def Under (x y : α) : Prop := y ∈ nodes ∧ up y = some (key x)

/-- Keys are unique, every parent is a node, and no node is above itself. -/
structure Forest : Prop where
  unique : ∀ x ∈ nodes, ∀ y ∈ nodes, key x = key y → x = y
  parent : ∀ y ∈ nodes, ∀ i, up y = some i → ∃ x ∈ nodes, key x = i
  acyclic : ∀ x ∈ nodes, ¬ Relation.TransGen (Under nodes key up) x x

/-- The nodes under a key, in the order of `before`. -/
structure Sorted (before : α → α → Prop) (kids : Option ι → List α) : Prop where
  mem : ∀ k y, y ∈ kids k ↔ y ∈ nodes ∧ up y = k
  sorted : ∀ k, (kids k).Pairwise before
  irrefl : ∀ x, ¬ before x x

end

variable {α ι : Type} {nodes : List α} {key : α → ι} {up : α → Option ι}
  {before : α → α → Prop} {kids : Option ι → List α}

/-- At or under a node. -/
abbrev AtUnder (nodes : List α) (key : α → ι) (up : α → Option ι) : α → α → Prop :=
  Relation.ReflTransGen (Under nodes key up)

theorem mem_of_atUnder {x y : α} (h : AtUnder nodes key up x y) (hx : x ∈ nodes) : y ∈ nodes := by
  cases h with
  | refl => exact hx
  | tail _ hstep => exact hstep.1

/-- A finite relation without cycles has no descending chains. -/
theorem wellFounded_of_acyclic {r : α → α → Prop} (hr : ∀ x ∈ nodes, ¬ Relation.TransGen r x x)
    (hmem : ∀ x y, r x y → x ∈ nodes ∧ y ∈ nodes) : WellFounded r := by
  let s : {x // x ∈ nodes} → {x // x ∈ nodes} → Prop := fun x y => Relation.TransGen r x y
  have htrans : IsTrans _ s := ⟨fun _ _ _ hab hbc => hab.trans hbc⟩
  have hirrefl : Std.Irrefl s := ⟨fun x => hr x x.2⟩
  have hfinite : Finite {x // x ∈ nodes} := (finite_toSet nodes).to_subtype
  have hs : WellFounded s := Finite.wellFounded_of_trans_of_irrefl s
  have hacc : ∀ x : {x // x ∈ nodes}, Acc r x := by
    intro x
    induction x using hs.induction with
    | _ x ih => exact ⟨_, fun y hy => ih ⟨y, (hmem y x hy).1⟩ (.single hy)⟩
  refine ⟨fun x => ⟨_, fun y hy => ?_⟩⟩
  exact hacc ⟨y, (hmem y x hy).1⟩

namespace Forest

variable (hf : Forest nodes key up)

include hf

/-- Every node is at or under one without a parent. -/
theorem rooted {y : α} (hy : y ∈ nodes) :
    ∃ x ∈ nodes, up x = none ∧ AtUnder nodes key up x y := by
  have hwf : WellFounded fun x y => x ∈ nodes ∧ Under nodes key up x y := by
    refine wellFounded_of_acyclic (fun x hx hcycle => ?_) fun x y h => ⟨h.1, h.2.1⟩
    exact hf.acyclic x hx (hcycle.lift id fun _ _ h => h.2)
  induction y using hwf.induction with
  | _ y ih =>
    cases hup : up y with
    | none => exact ⟨y, hy, hup, .refl⟩
    | some i =>
      obtain ⟨p, hp, rfl⟩ := hf.parent y hy i hup
      obtain ⟨x, hx, hroot, hxp⟩ := ih p ⟨hp, hy, hup⟩ hp
      exact ⟨x, hx, hroot, hxp.tail ⟨hy, hup⟩⟩

/-- A node has one parent. -/
theorem parent_unique {p q y : α} (hp : p ∈ nodes) (hq : q ∈ nodes)
    (hpy : Under nodes key up p y) (hqy : Under nodes key up q y) : p = q :=
  hf.unique p hp q hq (Option.some.inj (hpy.2.symm.trans hqy.2))

/-- What is under one of two siblings is not under the other. -/
theorem apart {a b y : α} (ha : a ∈ nodes) (hb : b ∈ nodes) (hup : up a = up b)
    (hay : AtUnder nodes key up a y) (hby : AtUnder nodes key up b y) : a = b := by
  -- a sibling strictly under the other would close a cycle
  have hnever : ∀ c d, c ∈ nodes → d ∈ nodes → up c = up d →
      ∀ p, AtUnder nodes key up c p → ¬ Under nodes key up p d := by
    intro c d hc hd hcd p hcp hpd
    exact hf.acyclic c hc (.tail' hcp ⟨hc, hcd.trans hpd.2⟩)
  induction hay with
  | refl =>
    cases hby with
    | refl => rfl
    | tail hbp hpa => exact absurd hpa (hnever b a hb ha hup.symm _ hbp)
  | tail hap hpy ih =>
    cases hby with
    | refl => exact absurd hpy (hnever a b ha hb hup _ hap)
    | tail hbq hqy =>
      obtain rfl := hf.parent_unique (mem_of_atUnder hap ha) (mem_of_atUnder hbq hb) hpy hqy
      exact ih hbq

end Forest

/-! ## 2. The walk comes to its end -/

theorem collect_cons {f : α → Option (List α)} {x : α} {xs l : List α} :
    collect f (x :: xs) = some l ↔ ∃ l₁ l₂, f x = some l₁ ∧ collect f xs = some l₂ ∧ l = l₁ ++ l₂ := by
  simp only [collect, Option.bind_eq_bind, Option.bind_eq_some_iff, Option.some.injEq]
  constructor
  · intro ⟨l₁, h₁, l₂, h₂, hl⟩
    exact ⟨l₁, l₂, h₁, h₂, hl.symm⟩
  · intro ⟨l₁, l₂, h₁, h₂, hl⟩
    exact ⟨l₁, h₁, l₂, h₂, hl.symm⟩

theorem collect_mono {f g : α → Option (List α)} {xs : List α}
    (h : ∀ x ∈ xs, ∀ l, f x = some l → g x = some l) {l : List α} (hl : collect f xs = some l) :
    collect g xs = some l := by
  induction xs generalizing l with
  | nil => exact hl
  | cons x xs ih =>
    obtain ⟨l₁, l₂, h₁, h₂, rfl⟩ := collect_cons.mp hl
    refine collect_cons.mpr ⟨l₁, l₂, h x mem_cons_self l₁ h₁, ?_, rfl⟩
    exact ih (fun y hy => h y (mem_cons_of_mem _ hy)) h₂

theorem postorder_mono {n m : Nat} (hm : n ≤ m) {x : α} {l : List α}
    (h : postorder key kids n x = some l) : postorder key kids m x = some l := by
  induction n generalizing m x l with
  | zero => cases h
  | succ n ih =>
    cases m with
    | zero => cases hm
    | succ m =>
      obtain ⟨r, hr, rfl⟩ := Option.map_eq_some_iff.mp h
      have hr' := collect_mono (fun y _ l hl => ih (Nat.le_of_succ_le_succ hm) hl) hr
      rw [postorder, hr', Option.map_some]

/-- Enough depth for each is enough for all. -/
theorem exists_collect {xs : List α} (h : ∀ x ∈ xs, ∃ n l, postorder key kids n x = some l) :
    ∃ n l, collect (postorder key kids n) xs = some l := by
  induction xs with
  | nil => exact ⟨0, [], rfl⟩
  | cons x xs ih =>
    obtain ⟨n, l, hl⟩ := h x mem_cons_self
    obtain ⟨m, r, hr⟩ := ih fun y hy => h y (mem_cons_of_mem _ hy)
    refine ⟨max n m, l ++ r, collect_cons.mpr ⟨l, r, ?_, ?_, rfl⟩⟩
    · exact postorder_mono (le_max_left n m) hl
    · exact collect_mono (fun y _ l hl => postorder_mono (le_max_right n m) hl) hr

/-- **With enough depth the walk comes to its end**, and more depth changes nothing. -/
theorem Forest.walk (hf : Forest nodes key up) (hk : Sorted nodes up before kids) :
    ∃ n l, ∀ m, n ≤ m → walk key kids m = some l := by
  have hwf : WellFounded fun y x => x ∈ nodes ∧ Under nodes key up x y := by
    refine wellFounded_of_acyclic (fun x hx hcycle => ?_) fun y x h => ⟨h.2.1, h.1⟩
    refine hf.acyclic x hx (Relation.transGen_swap.mp ?_)
    exact hcycle.lift id fun _ _ h => h.2
  have hnode : ∀ x ∈ nodes, ∃ n l, postorder key kids n x = some l := by
    intro x
    induction x using hwf.induction with
    | _ x ih =>
      intro hx
      obtain ⟨n, l, hl⟩ : ∃ n l, collect (postorder key kids n) (kids (some (key x))) = some l :=
        exists_collect fun y hy => by
          have hy' := (hk.mem _ y).mp hy
          exact ih y ⟨hx, hy'⟩ hy'.1
      exact ⟨n + 1, l ++ [x], by rw [postorder, hl, Option.map_some]⟩
  obtain ⟨n, l, hl⟩ := exists_collect fun x hx => hnode x ((hk.mem none x).mp hx).1
  exact ⟨n, l, fun m hm => collect_mono (fun y _ l hl => postorder_mono hm hl) hl⟩

/-! ## 3. What it lists -/

/-- Of two nodes the later one is not under the earlier one, and comes behind it as a sibling. -/
def InOrder (key : α → ι) (up : α → Option ι) (before : α → α → Prop) (a b : α) : Prop :=
  up b ≠ some (key a) ∧ (up a = up b → before a b)

/-- The nodes at and under those of a list, each once and in order. -/
structure Listed (nodes : List α) (key : α → ι) (up : α → Option ι) (before : α → α → Prop)
    (xs l : List α) : Prop where
  mem : ∀ y, y ∈ l ↔ ∃ x ∈ xs, AtUnder nodes key up x y
  nodup : l.Nodup
  order : l.Pairwise (InOrder key up before)

/-- Siblings one after the other. -/
theorem listed_collect (hf : Forest nodes key up) (hk : Sorted nodes up before kids)
    {f : α → Option (List α)} {xs : List α} (hxs : ∀ x ∈ xs, x ∈ nodes) {k : Option ι}
    (hup : ∀ x ∈ xs, up x = k) (hsorted : xs.Pairwise before)
    (hlisted : ∀ x ∈ xs, ∀ l, f x = some l → Listed nodes key up before [x] l) {l : List α}
    (h : collect f xs = some l) : Listed nodes key up before xs l := by
  induction xs generalizing l with
  | nil =>
    cases h
    exact ⟨by simp, nodup_nil, .nil⟩
  | cons x xs ih =>
    obtain ⟨l₁, l₂, h₁, h₂, rfl⟩ := collect_cons.mp h
    obtain ⟨hbefore, hrest⟩ := pairwise_cons.mp hsorted
    have hx := hxs x mem_cons_self
    have hlist₁ := hlisted x mem_cons_self l₁ h₁
    have hlist₂ := ih (fun y hy => hxs y (mem_cons_of_mem _ hy))
      (fun y hy => hup y (mem_cons_of_mem _ hy)) hrest
      (fun y hy => hlisted y (mem_cons_of_mem _ hy)) h₂
    have hmem₁ : ∀ {y}, y ∈ l₁ ↔ AtUnder nodes key up x y := by
      intro y
      simpa using hlist₁.mem y
    have hne : ∀ z ∈ xs, x ≠ z := by
      intro z hz he
      exact hk.irrefl z (he ▸ hbefore z hz)
    have hapart : ∀ z ∈ xs, ∀ y, AtUnder nodes key up x y → ¬ AtUnder nodes key up z y := by
      intro z hz y hxy hzy
      refine hne z hz (hf.apart hx (hxs z (mem_cons_of_mem _ hz)) ?_ hxy hzy)
      rw [hup x mem_cons_self, hup z (mem_cons_of_mem _ hz)]
    refine ⟨fun y => ?_, ?_, ?_⟩
    · rw [mem_append, hmem₁, hlist₂.mem, exists_mem_cons_iff]
    · refine nodup_append.mpr ⟨hlist₁.nodup, hlist₂.nodup, ?_⟩
      intro a ha b hb he
      obtain ⟨z, hz, hzb⟩ := (hlist₂.mem b).mp hb
      exact hapart z hz b (he ▸ hmem₁.mp ha) hzb
    · refine pairwise_append.mpr ⟨hlist₁.order, hlist₂.order, ?_⟩
      intro a ha b hb
      have hxa := hmem₁.mp ha
      obtain ⟨z, hz, hzb⟩ := (hlist₂.mem b).mp hb
      have hz' := hxs z (mem_cons_of_mem _ hz)
      have hb' := mem_of_atUnder hzb hz'
      refine ⟨fun hba => ?_, fun hsib => ?_⟩
      · exact hapart z hz b (hxa.tail ⟨hb', hba⟩) hzb
      · -- siblings in two parts are the parts' own nodes
        have hkey : up z = k := hup z (mem_cons_of_mem _ hz)
        cases hxa with
        | tail hxp hpa => exact absurd hzb (hapart z hz b (hxp.tail ⟨hb', hsib ▸ hpa.2⟩))
        | refl =>
          cases hzb with
          | refl => exact hbefore b hz
          | tail hzq hqb =>
            have hqz : up z = some (key _) := (hkey.trans (hup x mem_cons_self).symm).trans
              (hsib.trans hqb.2)
            exact absurd (.tail' hzq ⟨hz', hqz⟩) (hf.acyclic z hz')

/-- One node behind all that is under it. -/
theorem listed_postorder (hf : Forest nodes key up) (hk : Sorted nodes up before kids) (n : Nat) :
    ∀ x ∈ nodes, ∀ l, postorder key kids n x = some l → Listed nodes key up before [x] l := by
  induction n with
  | zero =>
    intro x _ l h
    cases h
  | succ n ih =>
    intro x hx l h
    obtain ⟨r, hr, rfl⟩ := Option.map_eq_some_iff.mp h
    have hkids : ∀ y, y ∈ kids (some (key x)) ↔ Under nodes key up x y := fun y => hk.mem _ y
    have hlist := listed_collect hf hk (fun y hy => ((hkids y).mp hy).1)
      (fun y hy => ((hkids y).mp hy).2) (hk.sorted _)
      (fun y hy => ih y ((hkids y).mp hy).1) hr
    have hunder : ∀ {y}, y ∈ r ↔ Relation.TransGen (Under nodes key up) x y := by
      intro y
      rw [hlist.mem, Relation.TransGen.head'_iff]
      exact exists_congr fun z => and_congr_left fun _ => hkids z
    have hnot : x ∉ r := fun h => hf.acyclic x hx (hunder.mp h)
    refine ⟨fun y => ?_, ?_, ?_⟩
    · simp only [mem_append, hunder, mem_singleton, exists_eq_left,
        Relation.reflTransGen_iff_eq_or_transGen, or_comm]
    · refine nodup_append.mpr ⟨hlist.nodup, nodup_singleton x, ?_⟩
      intro a ha b hb he
      rw [mem_singleton.mp hb] at he
      exact hnot (he ▸ ha)
    · refine pairwise_append.mpr ⟨hlist.order, pairwise_singleton _ _, ?_⟩
      intro a ha b hb
      obtain rfl := mem_singleton.mp hb
      have hba := hunder.mp ha
      refine ⟨fun hab => hf.acyclic b hx (hba.tail ⟨hx, hab⟩), fun hsib => ?_⟩
      -- a sibling of the node under it would close a cycle
      obtain ⟨p, hbp, hpa⟩ := Relation.TransGen.tail'_iff.mp hba
      exact absurd (.tail' hbp ⟨hx, hsib ▸ hpa.2⟩) (hf.acyclic b hx)

/-- **The walk lists every node once**, behind all that is under it and siblings in their order. -/
theorem Forest.listed (hf : Forest nodes key up) (hk : Sorted nodes up before kids) {n : Nat}
    {l : List α} (h : Run.walk key kids n = some l) :
    l.Nodup ∧ (∀ y, y ∈ l ↔ y ∈ nodes) ∧ l.Pairwise (InOrder key up before) := by
  have hroots : ∀ x, x ∈ kids none ↔ x ∈ nodes ∧ up x = none := fun x => hk.mem none x
  have hlist := listed_collect hf hk (fun x hx => ((hroots x).mp hx).1)
    (fun x hx => ((hroots x).mp hx).2) (hk.sorted none)
    (fun x hx => listed_postorder hf hk n x ((hroots x).mp hx).1) h
  refine ⟨hlist.nodup, fun y => ?_, hlist.order⟩
  rw [hlist.mem]
  constructor
  · intro ⟨x, hx, hxy⟩
    exact mem_of_atUnder hxy ((hroots x).mp hx).1
  · intro hy
    obtain ⟨x, hx, hup, hxy⟩ := hf.rooted hy
    exact ⟨x, (hroots x).mpr ⟨hx, hup⟩, hxy⟩

end Veesker.Run
