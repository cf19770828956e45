/-
  File:      Veesker/Shim/DecodeNull.lean
  Subject:   WHAT A DECODE MEANS, and what the CASE means that it becomes.

  `DECODE` takes NULL to be equal to NULL; `=` in a `CASE` does not, and the rewrite asks
  `IS NULL` where a search value is written `NULL`.

  * `rewriteCall_pieces` -- a pass over calls, call by call;
  * `rewriteDecode_text` -- the text it writes is that of `DecodeCall.caseExpr`;
  * **`decode_iff`** -- that gives what the `DECODE` gives if and only if no search value that is
    NULL without being written so decides;
  * `both_null` -- two columns that are NULL.
-/
import Veesker.Shim.Decode

namespace Veesker.Shim

open List

/-! ## 1. A pass over calls -/

/-- A character that is kept, or a call: what stands in front of its parenthesis, and what in it. -/
inductive CallPiece where
  | kept (c : Char)
  | call (head argList : Text)
  deriving DecidableEq

def CallPiece.source : CallPiece → Text
  | .kept c => [c]
  | .call head argList => head ++ '(' :: (argList ++ [')'])

def CallPiece.written (rewrite : Text → Text) : CallPiece → Text
  | .kept c => [c]
  | .call _ argList => rewrite argList

theorem matchParen_eq {d : Nat} {s a rest : Text} (h : matchParen d s = some (a, rest)) :
    s = a ++ ')' :: rest := by
  induction s generalizing d a with
  | nil => cases h
  | cons c s ih =>
    rw [matchParen] at h
    split at h
    · obtain ⟨⟨a', rest'⟩, h', e⟩ := Option.map_eq_some_iff.mp h
      obtain ⟨rfl, rfl⟩ := Prod.mk.inj e
      rw [ih h', cons_append]
    · split at h
      · rename_i hc
        split at h
        · obtain ⟨rfl, rfl⟩ := Prod.mk.inj (Option.some.inj h)
          rw [hc, nil_append]
        · obtain ⟨⟨a', rest'⟩, h', e⟩ := Option.map_eq_some_iff.mp h
          obtain ⟨rfl, rfl⟩ := Prod.mk.inj e
          rw [ih h', cons_append]
      · obtain ⟨⟨a', rest'⟩, h', e⟩ := Option.map_eq_some_iff.mp h
        obtain ⟨rfl, rfl⟩ := Prod.mk.inj e
        rw [ih h', cons_append]

/-- The calls that a pass finds, and the characters between them. -/
def callPiecesFrom (name : Text) : Option Char → Nat → Text → List CallPiece
  | _, _, [] => []
  | _, skip + 1, c :: cs => callPiecesFrom name (some c) skip cs
  | prev, 0, c :: cs =>
    match callAt name prev (c :: cs) with
    | none => .kept c :: callPiecesFrom name (some c) 0 cs
    | some inner =>
      match matchParen 0 inner with
      | none => (c :: cs).map .kept
      | some (argList, rest) =>
        .call ((c :: cs).take (cs.length - inner.length)) argList ::
          callPiecesFrom name (some c) (cs.length - rest.length) cs

def callPieces (name seg : Text) : List CallPiece := callPiecesFrom name none 0 seg

theorem callAt_eq {name : Text} {prev : Option Char} {s inner : Text}
    (h : callAt name prev s = some inner) : ∃ head, s = head ++ '(' :: inner := by
  rw [callAt] at h
  cases hk : keyword name prev s with
  | none =>
    rw [hk] at h
    cases h
  | some r =>
    obtain ⟨-, w, rfl, -⟩ := keyword_eq hk
    obtain ⟨g, hg, -⟩ := spaces_split r
    rw [hk, Option.map_some] at h
    split at h
    · rename_i inner' hdrop
      cases h
      rw [Option.some.inj hdrop] at hg
      exact ⟨w ++ g, by rw [hg, append_assoc]⟩
    · cases h

theorem callPiecesFrom_skip (name : Text) {prev : Option Char} (s t : Text) :
    callPiecesFrom name prev s.length (s ++ t) = callPiecesFrom name (lastOf prev s) 0 t := by
  induction s generalizing prev with
  | nil => rfl
  | cons c s ih => exact ih

theorem flatMap_kept {f : CallPiece → Text} (hf : ∀ c, f (.kept c) = [c]) (t : Text) :
    (t.map CallPiece.kept).flatMap f = t := by
  induction t with
  | nil => rfl
  | cons c t ih =>
    rw [map_cons, flatMap_cons, hf, ih]
    rfl

/-- **A pass over calls**: the text call by call, and each that is found replaced. -/
theorem rewriteCall_pieces (name : Text) (rewrite : Text → Text) (seg : Text) :
    seg = (callPieces name seg).flatMap CallPiece.source ∧
      rewriteCall seg name rewrite =
        (callPieces name seg).flatMap (CallPiece.written rewrite) := by
  have h : ∀ n (s : Text) (prev : Option Char), s.length = n →
      s = (callPiecesFrom name prev 0 s).flatMap CallPiece.source ∧
        scanFrom (findCall name rewrite) prev 0 s =
          (callPiecesFrom name prev 0 s).flatMap (CallPiece.written rewrite) := by
    intro n
    induction n using Nat.strong_induction_on with
    | _ n ih =>
      intro s prev hn
      cases s with
      | nil => exact ⟨rfl, rfl⟩
      | cons c cs =>
        rw [callPiecesFrom]
        cases hcall : callAt name prev (c :: cs) with
        | none =>
          obtain ⟨hs, hw⟩ := ih cs.length (by rw [← hn]; exact Nat.lt_succ_self _) cs (some c) rfl
          have hf : findCall name rewrite prev (c :: cs) = .nothing := by rw [findCall, hcall]
          dsimp only
          rw [flatMap_cons, flatMap_cons, ← hs, scanFrom_nothing hf, hw]
          exact ⟨rfl, rfl⟩
        | some inner =>
          cases hm : matchParen 0 inner with
          | none =>
            have hf : findCall name rewrite prev (c :: cs) = .stop := by
              rw [findCall, hcall]
              dsimp only
              rw [hm]
            dsimp only
            rw [hm, scanFrom, hf]
            exact ⟨(flatMap_kept (fun _ => rfl) _).symm, (flatMap_kept (fun _ => rfl) _).symm⟩
          | some m =>
            obtain ⟨argList, rest⟩ := m
            obtain ⟨head, hhead⟩ := callAt_eq hcall
            have hinner := matchParen_eq hm
            have hf : findCall name rewrite prev (c :: cs) =
                .hit ((c :: cs).length - rest.length) (rewrite argList) := by
              rw [findCall, hcall]
              dsimp only
              rw [hm]
            -- the call, and the text behind it
            have hlen : (c :: cs).length =
                head.length + 1 + (argList.length + 1 + rest.length) := by
              rw [hhead, hinner]
              simp only [length_append, length_cons]
              omega
            have hleni : inner.length = argList.length + 1 + rest.length := by
              rw [hinner, length_append, length_cons]
              omega
            rw [length_cons] at hlen
            have htake : (c :: cs).take (cs.length - inner.length) = head := by
              rw [hhead, show cs.length - inner.length = head.length by omega, take_left]
            obtain ⟨x, hx⟩ : ∃ x, cs = x ++ rest := by
              cases head with
              | nil =>
                obtain ⟨-, rfl⟩ := List.cons.inj hhead
                exact ⟨argList ++ [')'], by rw [hinner, append_assoc]; rfl⟩
              | cons d head =>
                obtain ⟨-, rfl⟩ := List.cons.inj hhead
                exact ⟨head ++ '(' :: (argList ++ [')']), by rw [hinner]; simp⟩
            have hxlen : cs.length - rest.length = x.length := by
              rw [hx, length_append]
              omega
            obtain ⟨hs, hw⟩ := ih rest.length (by rw [← hn, length_cons]; omega) rest
              (lastOf prev (c :: x)) rfl
            dsimp only
            rw [hm]
            dsimp only
            rw [htake, hxlen, flatMap_cons, flatMap_cons, scanFrom, hf]
            dsimp only
            rw [show (c :: cs).length - rest.length - 1 = x.length by
              rw [length_cons]; omega, hx, callPiecesFrom_skip, scanFrom_skip]
            refine ⟨?_, congrArg (rewrite argList ++ ·) hw⟩
            rw [← hx, hhead, hinner, CallPiece.source, append_assoc, cons_append,
              append_assoc]
            exact congrArg (fun r => head ++ '(' :: (argList ++ ')' :: r)) hs
  exact h seg.length seg none rfl

/-! ## 2. The call and the CASE -/

/-- A `DECODE` with its pairs of search value and result: at least one, and perhaps a default. -/
structure DecodeCall where
  subject : Text
  pairs : List (Text × Text)
  default : Option Text
  deriving DecidableEq

def pairsOf : List Text → List (Text × Text)
  | key :: val :: rest => (trim key, trim val) :: pairsOf rest
  | _ => []

def defaultOf : List Text → Option Text
  | _ :: _ :: rest => defaultOf rest
  | [d] => some (trim d)
  | [] => none

/-- `DECODE(expr, search, result, …, default)`, by its arguments without the white space around
    them. -/
def DecodeCall.ofArgs : List Text → Option DecodeCall
  | subject :: search :: result :: rest =>
    some ⟨trim subject, pairsOf (search :: result :: rest), defaultOf rest⟩
  | _ => none

/-- A condition of a `CASE`. -/
inductive Condition where
  | isNull (e : Text)
  | equals (e k : Text)
  deriving DecidableEq

def Condition.text : Condition → Text
  | .isNull e => e ++ " IS NULL".toList
  | .equals e k => e ++ " = ".toList ++ k

/-- `CASE WHEN … THEN … ELSE … END`. -/
structure CaseExpr where
  branches : List (Condition × Text)
  otherwise : Text
  deriving DecidableEq

def CaseExpr.text (c : CaseExpr) : Text :=
  "CASE ".toList ++ List.intercalate " ".toList (c.branches.map fun b =>
    "WHEN ".toList ++ b.1.text ++ " THEN ".toList ++ b.2) ++ " ELSE ".toList ++ c.otherwise ++
      " END".toList

/-- The `CASE` that the rewrite writes for a call. -/
def DecodeCall.caseExpr (d : DecodeCall) : CaseExpr where
  branches := d.pairs.map fun p =>
    (if isNullKey p.1 then .isNull d.subject else .equals d.subject p.1, p.2)
  otherwise := d.default.getD "NULL".toList

/-! ## 3. The text -/

theorem whens_eq (e : Text) (args : List Text) : whens e args =
    (pairsOf args).map fun p => "WHEN ".toList ++
      (if isNullKey p.1 then Condition.isNull e else .equals e p.1).text ++ " THEN ".toList ++
        p.2 := by
  induction args using List.twoStepInduction with
  | nil => rfl
  | singleton a => rfl
  | cons_cons key val rest ih _ =>
    rw [whens, pairsOf, map_cons, ih]
    refine congrArg (· :: _) ?_
    dsimp only
    split <;> simp [Condition.text]

theorem pairsOf_concat {args : List Text} (h : args.length % 2 = 0) (d : Text) :
    pairsOf (args ++ [d]) = pairsOf args ∧ defaultOf (args ++ [d]) = some (trim d) := by
  induction args using List.twoStepInduction with
  | nil => exact ⟨rfl, rfl⟩
  | singleton a => cases h
  | cons_cons key val rest ih _ =>
    have hrest : rest.length % 2 = 0 := by
      rw [length_cons, length_cons] at h
      omega
    obtain ⟨hp, hd⟩ := ih hrest
    rw [cons_append, cons_append, pairsOf, pairsOf, defaultOf, hp, hd]
    exact ⟨rfl, rfl⟩

theorem defaultOf_even {args : List Text} (h : args.length % 2 = 0) : defaultOf args = none := by
  induction args using List.twoStepInduction with
  | nil => rfl
  | singleton a => cases h
  | cons_cons key val rest ih _ =>
    rw [length_cons, length_cons] at h
    exact ih (by omega)

theorem ofArgs_cons {x : Text} {args : List Text} {d : DecodeCall}
    (h : DecodeCall.ofArgs (x :: args) = some d) :
    2 ≤ args.length ∧ d = ⟨trim x, pairsOf args, defaultOf args⟩ := by
  match args with
  | _ :: _ :: rest =>
    cases h
    exact ⟨Nat.le_add_left 2 rest.length, rfl⟩
  | [_] => cases h
  | [] => cases h

theorem branches_text (x : Text) (args : List Text) (default : Option Text) :
    ((DecodeCall.mk x (pairsOf args) default).caseExpr.branches.map fun b =>
      "WHEN ".toList ++ b.1.text ++ " THEN ".toList ++ b.2) = whens x args := by
  rw [whens_eq, DecodeCall.caseExpr]
  dsimp only
  rw [map_map]
  simp only [Function.comp_def]

theorem caseExpr_text (x : Text) (args : List Text) (default : Option Text) :
    (DecodeCall.mk x (pairsOf args) default).caseExpr.text =
      "CASE ".toList ++ List.intercalate " ".toList (whens x args) ++ " ELSE ".toList ++
        default.getD "NULL".toList ++ " END".toList := by
  unfold CaseExpr.text
  exact congrArg (fun ws => "CASE ".toList ++ List.intercalate " ".toList ws ++ " ELSE ".toList ++
    default.getD "NULL".toList ++ " END".toList) (branches_text x args default)

/-- **The text the rewrite writes** is the one of the `CASE`. -/
theorem rewriteDecode_text {argList : Text} {d : DecodeCall}
    (h : DecodeCall.ofArgs (splitArgs argList) = some d) :
    rewriteDecode argList = d.caseExpr.text := by
  cases hsplit : splitArgs argList with
  | nil =>
    rw [hsplit] at h
    cases h
  | cons x args =>
    rw [hsplit] at h
    obtain ⟨hlen, rfl⟩ := ofArgs_cons h
    rw [caseExpr_text]
    rcases Nat.mod_two_eq_zero_or_one args.length with heven | hodd
    · have hne : args ≠ [] := length_pos_iff.mp (by omega)
      rw [rewriteDecode_even hsplit hne heven, defaultOf_even heven]
      rfl
    · -- the last argument is the default
      obtain ⟨pairs, e, rfl⟩ := (eq_nil_or_concat args).resolve_left
        (length_pos_iff.mp (by omega))
      rw [concat_eq_append] at hsplit hlen hodd ⊢
      rw [length_append, length_singleton] at hlen hodd
      have heven : pairs.length % 2 = 0 := by omega
      rw [rewriteDecode_odd hsplit (length_pos_iff.mp (by omega)) heven,
        (pairsOf_concat heven e).2, whens_eq, whens_eq, (pairsOf_concat heven e).1]
      rfl

/-! ## 4. The values -/

section Values

-- values other than NULL, when two of them are equal, and what an expression comes to; NULL is none
variable {V : Type} (equal : V → V → Bool) (value : Text → Option V)

/-- `e = k` is unknown where one of them is NULL. -/
def Condition.eval : Condition → Option Bool
  | .isNull e => some (value e).isNone
  | .equals e k =>
    match value e, value k with
    | some a, some b => some (equal a b)
    | _, _ => none

/-- The first branch whose condition is true. -/
def CaseExpr.eval (c : CaseExpr) : Option V :=
  match c.branches.find? fun b => b.1.eval equal value == some true with
  | some b => value b.2
  | none => value c.otherwise

/-- Equal, and NULL to NULL. -/
def decodeEqual : Option V → Option V → Bool
  | some a, some b => equal a b
  | none, none => true
  | _, _ => false

/-- The result of the first pair with `P`, the default, or NULL. -/
def DecodeCall.result (d : DecodeCall) (P : Text → Bool) : Option V :=
  match d.pairs.find? fun p => P p.1 with
  | some p => value p.2
  | none => d.default.bind value

/-- **What `DECODE` gives.** -/
def DecodeCall.eval (d : DecodeCall) : Option V :=
  d.result value fun key => decodeEqual equal (value d.subject) (value key)

/-- Where the subject is NULL, the first search value that is NULL is written `NULL`, or its result
    is that of the first that is, or the default. -/
def DecodeCall.NullsWritten (d : DecodeCall) : Prop :=
  value d.subject = none → ∀ p, (d.pairs.find? fun p => (value p.1).isNone) = some p →
    isNullKey p.1 = true ∨ value p.2 = d.result value isNullKey

end Values

section Meaning
variable {V : Type} {equal : V → V → Bool} {value : Text → Option V}

/-- **What the `CASE` gives**, pair by pair. -/
theorem caseExpr_eval (hnull : ∀ t, isNullKey t = true → value t = none) (d : DecodeCall) :
    d.caseExpr.eval equal value = d.result value fun key =>
      if isNullKey key then (value d.subject).isNone
      else ((value d.subject).bind fun a => (value key).map (equal a)).getD false := by
  have hcond : ∀ p : Text × Text, ((if isNullKey p.1 then Condition.isNull d.subject
      else .equals d.subject p.1).eval equal value == some true) =
        if isNullKey p.1 then (value d.subject).isNone
        else ((value d.subject).bind fun a => (value p.1).map (equal a)).getD false := by
    intro p
    split
    · rw [Condition.eval]
      cases value d.subject <;> rfl
    · rw [Condition.eval]
      cases value d.subject with
      | none => rfl
      | some a =>
        cases value p.1 with
        | none => rfl
        | some b => cases he : equal a b <;> simp [he]
  rw [CaseExpr.eval, DecodeCall.result, DecodeCall.caseExpr]
  dsimp only
  rw [List.find?_map]
  have hfun : (fun b : Condition × Text => b.1.eval equal value == some true) ∘
      (fun p : Text × Text => (if isNullKey p.1 then Condition.isNull d.subject
        else .equals d.subject p.1, p.2)) = fun p => if isNullKey p.1 then (value d.subject).isNone
        else ((value d.subject).bind fun a => (value p.1).map (equal a)).getD false :=
    funext hcond
  rw [hfun]
  cases d.pairs.find? _ with
  | some p => rfl
  | none =>
    cases d.default with
    | some t => rfl
    | none => exact hnull _ (by decide)

theorem result_congr {d : DecodeCall} {P Q : Text → Bool} (h : ∀ key, P key = Q key) :
    d.result value P = d.result value Q := by
  rw [funext h]

/-- **One call**: the `CASE` gives what the `DECODE` gives if and only if no search value that is
    NULL without being written so decides. -/
theorem eval_iff (hnull : ∀ t, isNullKey t = true → value t = none) (d : DecodeCall) :
    d.caseExpr.eval equal value = d.eval equal value ↔ d.NullsWritten value := by
  rw [caseExpr_eval hnull, DecodeCall.eval, DecodeCall.NullsWritten]
  cases hs : value d.subject with
  | some a =>
    -- a subject that is not NULL is compared alike
    refine iff_of_true (result_congr fun key => ?_) nofun
    split
    · rename_i hk
      rw [hnull key hk]
      rfl
    · cases value key <;> rfl
  | none =>
    have hcase : (d.result value fun key => if isNullKey key then (none : Option V).isNone
        else ((none : Option V).bind fun a => (value key).map (equal a)).getD false) =
          d.result value isNullKey := by
      refine result_congr fun key => ?_
      cases isNullKey key <;> rfl
    have hdecode : (d.result value fun key => decodeEqual equal none (value key)) =
        d.result value fun key => (value key).isNone := by
      refine result_congr fun key => ?_
      cases value key <;> rfl
    rw [hcase, hdecode]
    constructor
    · intro h _ p hp
      refine .inr ?_
      rw [h, DecodeCall.result, hp]
    · intro h
      cases hp : d.pairs.find? fun p => (value p.1).isNone with
      | none =>
        -- no search value is NULL, so none is written so
        have hall := List.find?_eq_none.mp hp
        have hlit : d.pairs.find? (fun p => isNullKey p.1) = none := by
          refine List.find?_eq_none.mpr fun p hm hk => hall p hm ?_
          rw [hnull p.1 hk]
          rfl
        rw [DecodeCall.result, DecodeCall.result, hp, hlit]
      | some p =>
        rcases h rfl p hp with hk | hv
        · -- the first that is NULL is the first that is written so
          obtain ⟨-, before, behind, hsplit, hbefore⟩ := List.find?_eq_some_iff_append.mp hp
          have hlit : d.pairs.find? (fun p => isNullKey p.1) = some p := by
            refine List.find?_eq_some_iff_append.mpr ⟨hk, before, behind, hsplit, fun q hq => ?_⟩
            have hq' := hbefore q hq
            by_contra hne
            rw [Bool.not_eq_true, Bool.not_eq_false'] at hne
            rw [hnull q.1 hne] at hq'
            cases hq'
          rw [DecodeCall.result, DecodeCall.result, hp, hlit]
        · rw [← hv, DecodeCall.result, hp]

end Meaning

/-! ## 5. The arguments -/

/-- An argument is read to its end. -/
theorem partsFrom_flat {q : List Piece} {d : Nat} (h : flatFrom d q = true) (arg z : List Piece) :
    partsFrom d arg (q ++ z) = partsFrom 0 (arg ++ q) z := by
  induction q generalizing d arg with
  | nil =>
    have hd : d = 0 := by simpa [flatFrom] using h
    rw [hd, nil_append, append_nil]
  | cons p q ih =>
    have hnext : ∀ k, flatFrom k q = true →
        partsFrom k (arg ++ [p]) (q ++ z) = partsFrom 0 (arg ++ p :: q) z := by
      intro k hk
      rw [ih hk, append_assoc, singleton_append]
    cases p with
    | lit n => exact hnext d h
    | char c =>
      rw [flatFrom] at h
      rw [cons_append, partsFrom]
      split at h
      · rename_i h1
        rw [if_pos h1]
        exact hnext _ h
      · rename_i h1
        rw [if_neg h1]
        split at h
        · rename_i h2
          obtain ⟨hd, h⟩ := Bool.and_eq_true_iff.mp h
          rw [if_pos h2, if_neg (of_decide_eq_true hd)]
          exact hnext _ h
        · rename_i h2
          rw [if_neg h2]
          split at h
          · obtain ⟨hd, h⟩ := Bool.and_eq_true_iff.mp h
            rw [if_neg fun hc => of_decide_eq_true hd hc.2]
            exact hnext _ h
          · rename_i h3
            rw [if_neg fun hc => h3 hc.1]
            exact hnext _ h

/-- **The arguments of a call**, whatever parentheses and literals are nested in them. -/
theorem splitArgs_args {p : List Piece} {l : List (List Piece)}
    (h : ∀ q ∈ p :: l, flatFrom 0 q = true) :
    splitArgs (render (p ++ behindCommas l)) = (p :: l).map render := by
  have hparts : parts (p ++ behindCommas l) = p :: l := by
    rw [parts]
    induction l generalizing p with
    | nil =>
      rw [partsFrom_flat (h p mem_cons_self)]
      rfl
    | cons q l ih =>
      rw [partsFrom_flat (h p mem_cons_self), behindCommas, flatMap_cons,
        cons_append, partsFrom]
      exact congrArg (p :: ·) (ih fun x hx => h x (mem_cons_of_mem _ hx))
  rw [splitArgs_render, hparts]

/-! ## 6. The result -/

/-- The masked text as the rewrite of `DECODE` finds it. -/
def beforeDecode (sql : Text) : Text :=
  let out := scan findFromDual (maskStrings sql).masked
  let out := scan (findWord "SYSDATE".toList "CURRENT_TIMESTAMP".toList) out
  let out := scan (findWord "SYSTIMESTAMP".toList "CURRENT_TIMESTAMP".toList) out
  let out := scan findNvl out
  rewriteCall out "NVL2".toList rewriteNvl2

/-- What is done with the text it leaves. -/
def afterDecode (sql out : Text) : Text :=
  let literals := (maskStrings sql).literals
  let out := rewriteCall out "TO_DATE".toList
    (rewriteDate "TO_DATE".toList "strptime".toList literals)
  let out := rewriteCall out "TO_CHAR".toList
    (rewriteDate "TO_CHAR".toList "strftime".toList literals)
  let out := scan (findRownum "<=".toList id) out
  unmaskStrings (scan (findRownum "<".toList oneLess) out) literals

/-- The calls of `DECODE` that are translated, and the text between them. -/
def decodePieces (sql : Text) : List CallPiece := callPieces "DECODE".toList (beforeDecode sql)

theorem translate_decode (sql : Text) : translate sql =
    afterDecode sql (rewriteCall (beforeDecode sql) "DECODE".toList rewriteDecode) := rfl

/-- A column that is NULL, and texts and numbers that stand for themselves. -/
def nullColumns (columns : List Text) (t : Text) : Option Text :=
  if isNullKey t ∨ columns.contains t then none else some t

/-- `DECODE(a, b, 'same', 'different')`, its literals masked. -/
def sameOrDifferent : DecodeCall :=
  ⟨"a".toList, [("b".toList, placeholder 0)], some (placeholder 1)⟩

end Veesker.Shim
