/-
  File:      Veesker/Debugger/TestBlock.lean
  Subject:   THE TEST BLOCK OF THE DEBUGGER (generateTestBlock, sidecar/src/debug.ts): a PL/SQL block
             that calls a procedure with every parameter.

  The loop pushes lines to three lists, by the parameter's type and direction. `Block` is what those
  lines say: the items of the DECLARE section, the arguments by name, the values handed back after
  the call. What Oracle takes as a name, a placeholder or a type is a parameter, `Reader`.

  * `testBlockText_eq_render` -- the text is the block's, line by line;
  * `stands_cases` -- whose value a placeholder carries;
  * **`generateTestBlock_yields_iff`** -- when the block is the one that the procedure needs: a
    BOOLEAN parameter never gets it, since its conversion is an assignment among the declarations.
-/
import Veesker.Sidecar.Handlers
import Veesker.Text.Lower

namespace Veesker.Debugger.TestBlock

open List

open Sidecar (quoteIdent isPlainName CallError)

/-! ## 1. The parameters -/

inductive InOut where
  | IN | OUT | IN_OUT
  deriving DecidableEq

structure ParamDef where
  name : Text
  dataType : Text
  inOut : InOut
  deriving DecidableEq

/-- `SYS_REFCURSOR` appears as `REF CURSOR` in `ALL_ARGUMENTS`; LOBs cannot be bound as scalars in
anonymous blocks. -/
def COMPLEX_TYPES : List Text :=
  ["RECORD".toList, "TABLE".toList, "VARRAY".toList, "OBJECT".toList, "REF".toList,
    "REF CURSOR".toList, "CURSOR".toList, "CLOB".toList, "BLOB".toList, "NCLOB".toList]

def lowerBind (name : Text) : Text := toLowerCase name

namespace ParamDef

def bind (p : ParamDef) : Text := lowerBind p.name

def localVar (p : ParamDef) : Text := "v_".toList ++ p.bind

def outBind (p : ParamDef) : Text := "out_".toList ++ p.bind

def dt (p : ParamDef) : Text := toUpperCase p.dataType

def isBoolean (p : ParamDef) : Bool :=
  p.dt == "BOOLEAN".toList || p.dt == "PL/SQL BOOLEAN".toList

def isComplex (p : ParamDef) : Bool := COMPLEX_TYPES.contains p.dt

def isRefCursor (p : ParamDef) : Bool := p.dt == "REF CURSOR".toList || p.dt == "CURSOR".toList

def safeType (p : ParamDef) : Text :=
  if p.dt == "NUMBER".toList || p.dt == "INTEGER".toList || p.dt == "BINARY_INTEGER".toList then
    "NUMBER".toList
  else if p.dt == "DATE".toList then "DATE".toList
  else "VARCHAR2(32767)".toList

def declType (p : ParamDef) : Text :=
  if p.isRefCursor then "SYS_REFCURSOR".toList else p.dataType

end ParamDef

/-- The branches of the loop's body. -/
inductive Branch where
  | boolean
  /-- a reference cursor that comes back: bound as it is -/
  | cursorOut
  /-- a variable that the user fills in -/
  | fillIn
  | scalarIn
  | scalarOut
  | scalarInOut
  deriving DecidableEq

def ParamDef.branch (p : ParamDef) : Branch :=
  if p.isBoolean then .boolean
  else if p.isComplex then
    if p.isRefCursor && (p.inOut == .OUT || p.inOut == .IN_OUT) then .cursorOut else .fillIn
  else match p.inOut with
    | .IN => .scalarIn
    | .OUT => .scalarOut
    | .IN_OUT => .scalarInOut

/-! ## 2. The text -/

structure Lists where
  declares : List Text
  callArgs : List Text
  postCall : List Text

/-- One turn of the loop over the parameters. -/
def push (l : Lists) (p : ParamDef) : Lists :=
  let toVar := "    ".toList ++ p.bind ++ " => ".toList ++ p.localVar
  let handBack := "  :".toList ++ p.outBind ++ " := ".toList ++ p.localVar ++ ";".toList
  match p.branch with
  | .boolean =>
    { l with
      declares := l.declares ++
        ["  ".toList ++ p.localVar ++ " ".toList ++ "BOOLEAN".toList ++ ";".toList,
          "  -- Convert :".toList ++ p.bind ++ " ('TRUE'/'FALSE'/NULL) to BOOLEAN\n  ".toList ++
            p.localVar ++ " := CASE UPPER(:".toList ++ p.bind ++
            ") WHEN 'TRUE' THEN TRUE WHEN 'FALSE' THEN FALSE ELSE NULL END;".toList]
      callArgs := l.callArgs ++ [toVar] }
  | .cursorOut =>
    { l with
      callArgs := l.callArgs ++ ["    ".toList ++ p.bind ++ " => :".toList ++ p.outBind] }
  | .fillIn =>
    { l with
      declares := l.declares ++
        ["  ".toList ++ p.localVar ++ " ".toList ++ p.declType ++ "; -- fill in".toList]
      callArgs := l.callArgs ++ [toVar] }
  | .scalarIn =>
    { l with callArgs := l.callArgs ++ ["    ".toList ++ p.bind ++ " => :".toList ++ p.bind] }
  | .scalarOut =>
    { declares := l.declares ++
        ["  ".toList ++ p.localVar ++ " ".toList ++ p.safeType ++ ";".toList]
      callArgs := l.callArgs ++ [toVar]
      postCall := l.postCall ++ [handBack] }
  | .scalarInOut =>
    { declares := l.declares ++
        ["  ".toList ++ p.localVar ++ " ".toList ++ p.safeType ++
          (" := :".toList ++ p.bind ++ ";".toList)]
      callArgs := l.callArgs ++ [toVar]
      postCall := l.postCall ++ [handBack] }

/-- The names that are quoted, in the order in which they are; an empty package name is none. -/
def targetNames (owner procName : Text) (packageName : Option Text) : List Text :=
  match packageName with
  | none | some [] => [owner, procName]
  | some (c :: cs) => [owner, c :: cs, procName]

def callTarget (owner procName : Text) (packageName : Option Text) : Except CallError Text := do
  return List.intercalate ".".toList (← (targetNames owner procName packageName).mapM quoteIdent)

def declSection (declares : List Text) : Text :=
  if declares.isEmpty then []
  else "DECLARE\n".toList ++ List.intercalate "\n".toList declares ++ "\n".toList

def callSection (callTarget : Text) (callArgs : List Text) : Text :=
  "  ".toList ++ callTarget ++ "(\n".toList ++ List.intercalate ",\n".toList callArgs ++
    "\n  );".toList

def postSection (postCall : List Text) : Text :=
  if postCall.isEmpty then [] else "\n".toList ++ List.intercalate "\n".toList postCall

/-- The block's text, once the target is quoted. -/
def testBlockText (target : Text) (params : List ParamDef) : Text :=
  if params.isEmpty then "BEGIN\n  ".toList ++ target ++ "();\nEND;".toList
  else
    let l := params.foldl push ⟨[], [], []⟩
    declSection l.declares ++ "BEGIN\n".toList ++ callSection target l.callArgs ++
      postSection l.postCall ++ "\nEND;".toList

def generateTestBlock (owner procName : Text) (packageName : Option Text)
    (params : List ParamDef) : Except CallError Text := do
  let target ← callTarget owner procName packageName
  return testBlockText target params

/-! ## 3. What the text says -/

/-- What stands behind a declared variable's type. -/
inductive Start where
  | unset
  | bound (bind : Text)
  /-- for the user to fill in, as a comment says -/
  | fillIn
  deriving DecidableEq

/-- An item of the DECLARE section. -/
inductive DeclItem where
  | declare (name type : Text) (start : Start)
  /-- `name := CASE UPPER(:bind) … END;`, behind a comment: no declaration -/
  | convert (name bind : Text)
  deriving DecidableEq

inductive Actual where
  | localVar (name : Text)
  | placeholder (bind : Text)
  deriving DecidableEq

/-- `formal => actual`. -/
structure Arg where
  formal : Text
  actual : Actual
  deriving DecidableEq

/-- `:bind := name;` behind the call. -/
structure HandBack where
  bind : Text
  name : Text
  deriving DecidableEq

structure Block where
  target : Text
  declares : List DeclItem
  args : List Arg
  handBacks : List HandBack
  deriving DecidableEq

def Start.render : Start → Text
  | .unset => ";".toList
  | .bound bind => " := :".toList ++ bind ++ ";".toList
  | .fillIn => "; -- fill in".toList

def DeclItem.render : DeclItem → Text
  | .declare name type start =>
    "  ".toList ++ name ++ " ".toList ++ type ++ start.render
  | .convert name bind =>
    "  -- Convert :".toList ++ bind ++ " ('TRUE'/'FALSE'/NULL) to BOOLEAN\n  ".toList ++ name ++
      " := CASE UPPER(:".toList ++ bind ++
      ") WHEN 'TRUE' THEN TRUE WHEN 'FALSE' THEN FALSE ELSE NULL END;".toList

def Arg.render (a : Arg) : Text :=
  match a.actual with
  | .localVar name => "    ".toList ++ a.formal ++ " => ".toList ++ name
  | .placeholder bind => "    ".toList ++ a.formal ++ " => :".toList ++ bind

def HandBack.render (h : HandBack) : Text :=
  "  :".toList ++ h.bind ++ " := ".toList ++ h.name ++ ";".toList

def Block.render (b : Block) : Text :=
  if b.args.isEmpty then "BEGIN\n  ".toList ++ b.target ++ "();\nEND;".toList
  else
    declSection (b.declares.map DeclItem.render) ++ "BEGIN\n".toList ++
      callSection b.target (b.args.map Arg.render) ++
      postSection (b.handBacks.map HandBack.render) ++ "\nEND;".toList

def declaresOf (p : ParamDef) : List DeclItem :=
  match p.branch with
  | .boolean => [.declare p.localVar "BOOLEAN".toList .unset, .convert p.localVar p.bind]
  | .cursorOut | .scalarIn => []
  | .fillIn => [.declare p.localVar p.declType .fillIn]
  | .scalarOut => [.declare p.localVar p.safeType .unset]
  | .scalarInOut => [.declare p.localVar p.safeType (.bound p.bind)]

def argOf (p : ParamDef) : Arg where
  formal := p.bind
  actual :=
    match p.branch with
    | .cursorOut => .placeholder p.outBind
    | .scalarIn => .placeholder p.bind
    | .boolean | .fillIn | .scalarOut | .scalarInOut => .localVar p.localVar

def handBacksOf (p : ParamDef) : List HandBack :=
  match p.branch with
  | .scalarOut | .scalarInOut => [⟨p.outBind, p.localVar⟩]
  | .boolean | .cursorOut | .fillIn | .scalarIn => []

def blockOf (target : Text) (params : List ParamDef) : Block where
  target := target
  declares := params.flatMap declaresOf
  args := params.map argOf
  handBacks := params.flatMap handBacksOf

/-- A turn of the loop adds the parameter's own lines. -/
theorem push_eq (l : Lists) (p : ParamDef) :
    push l p =
      ⟨l.declares ++ (declaresOf p).map DeclItem.render, l.callArgs ++ [(argOf p).render],
        l.postCall ++ (handBacksOf p).map HandBack.render⟩ := by
  unfold push declaresOf argOf handBacksOf
  cases p.branch <;> simp only [map_nil, append_nil] <;> rfl

theorem foldl_push (l : Lists) (params : List ParamDef) :
    params.foldl push l =
      ⟨l.declares ++ (params.flatMap declaresOf).map DeclItem.render,
        l.callArgs ++ (params.map argOf).map Arg.render,
        l.postCall ++ (params.flatMap handBacksOf).map HandBack.render⟩ := by
  induction params generalizing l with
  | nil => simp
  | cons p ps ih => simp [ih, push_eq]

/-- **The text is the block's.** -/
theorem testBlockText_eq_render (target : Text) (params : List ParamDef) :
    testBlockText target params = (blockOf target params).render := by
  cases params with
  | nil => rfl
  | cons p ps =>
    unfold testBlockText Block.render
    rw [foldl_push]
    rfl

theorem generateTestBlock_eq (owner procName : Text) (packageName : Option Text)
    (params : List ParamDef) :
    generateTestBlock owner procName packageName params =
      (callTarget owner procName packageName).map (testBlockText · params) := by
  unfold generateTestBlock
  cases callTarget owner procName packageName <;> rfl

/-! ## 4. What Oracle reads -/

/-- Oracle's rules for what a block names: the case that an unquoted name is read in, the names and
the placeholders that it takes as they stand, and the types beside those that the code writes. -/
structure Reader where
  fold : Char → Char
  word : Text → Bool
  placeholder : Text → Bool
  typeName : Text → Bool

def Reader.read (o : Reader) (name : Text) : Text := name.map o.fold

def codeTypes : List Text :=
  ["BOOLEAN".toList, "SYS_REFCURSOR".toList, "NUMBER".toList, "DATE".toList,
    "VARCHAR2(32767)".toList]

def Reader.takesType (o : Reader) (t : Text) : Bool := codeTypes.contains t || o.typeName t

namespace DeclItem

def isDeclaration : DeclItem → Bool
  | .declare .. => true
  | .convert .. => false

def name : DeclItem → Text
  | .declare name _ _ => name
  | .convert name _ => name

def types : DeclItem → List Text
  | .declare _ type _ => [type]
  | .convert .. => []

def placeholders : DeclItem → List Text
  | .declare _ _ (.bound bind) => [bind]
  | .declare _ _ .unset | .declare _ _ .fillIn => []
  | .convert _ bind => [bind]

end DeclItem

namespace Actual

def words : Actual → List Text
  | .localVar name => [name]
  | .placeholder _ => []

def placeholders : Actual → List Text
  | .localVar _ => []
  | .placeholder bind => [bind]

end Actual

namespace Block

def words (b : Block) : List Text :=
  b.declares.map DeclItem.name ++ b.args.flatMap (fun a => a.formal :: a.actual.words) ++
    b.handBacks.map HandBack.name

def placeholders (b : Block) : List Text :=
  b.declares.flatMap DeclItem.placeholders ++ b.args.flatMap (fun a => a.actual.placeholders) ++
    b.handBacks.map HandBack.bind

/-- The block is PL/SQL that Oracle takes: only declarations in the DECLARE section, of distinct
names, the arguments among them, and every word one that may stand where it stands. -/
structure Valid (o : Reader) (b : Block) : Prop where
  declared : ∀ d ∈ b.declares, d.isDeclaration = true
  distinct : (b.declares.map fun d => o.read d.name).Nodup
  inScope : ∀ a ∈ b.args, ∀ v ∈ a.actual.words, v ∈ b.declares.map DeclItem.name
  words : ∀ w ∈ b.words, o.word w = true
  binds : ∀ w ∈ b.placeholders, o.placeholder w = true
  types : ∀ t ∈ b.declares.flatMap DeclItem.types, o.takesType t = true

/-- The placeholder `bind` carries the value of the parameter `name` in a direction: as the actual
argument itself, as the start value of the local variable that is passed, or as what that variable
is handed back to. -/
inductive Stands (o : Reader) (params : List ParamDef) (b : Block) : Text → Text → InOut → Prop
  | actual {f bind : Text} {p : ParamDef} (ha : ⟨f, .placeholder bind⟩ ∈ b.args) (hp : p ∈ params)
    (hf : o.read f = p.name) : Stands o params b bind p.name p.inOut
  | start {v t f v' bind : Text} (hd : .declare v t (.bound bind) ∈ b.declares)
    (ha : ⟨f, .localVar v'⟩ ∈ b.args) (hv : o.read v' = o.read v) :
    Stands o params b bind (o.read f) .IN
  | convert {v f v' bind : Text} (hd : .convert v bind ∈ b.declares)
    (ha : ⟨f, .localVar v'⟩ ∈ b.args) (hv : o.read v' = o.read v) :
    Stands o params b bind (o.read f) .IN
  | handBack {v f v' bind : Text} (hh : ⟨bind, v⟩ ∈ b.handBacks)
    (ha : ⟨f, .localVar v'⟩ ∈ b.args) (hv : o.read v' = o.read v) :
    Stands o params b bind (o.read f) .OUT

/-- What the debugger needs of the block for a procedure with these parameters. -/
structure Serves (o : Reader) (params : List ParamDef) (b : Block) : Prop where
  valid : b.Valid o
  /-- every parameter is passed once, by its name -/
  passed : b.args.map (fun a => o.read a.formal) = params.map ParamDef.name
  /-- a placeholder stands for one parameter and one direction -/
  single : ∀ w w' n n' d d', b.Stands o params w n d → b.Stands o params w' n' d' →
    o.read w = o.read w' → n = n' ∧ d = d'
  /-- what a scalar or BOOLEAN parameter brings back ends in an `out_` bind -/
  handed : ∀ p ∈ params, (p.isBoolean = true ∨ p.isComplex = false) → p.inOut ≠ .IN →
    ∃ f v, o.read f = p.name ∧ ⟨f, .localVar v⟩ ∈ b.args ∧ ⟨p.outBind, v⟩ ∈ b.handBacks

end Block

/-- The call writes a block that serves the procedure. -/
def Yields (o : Reader) (owner procName : Text) (packageName : Option Text)
    (params : List ParamDef) : Prop :=
  ∃ target, callTarget owner procName packageName = .ok target ∧
    generateTestBlock owner procName packageName params = .ok (blockOf target params).render ∧
    (blockOf target params).Serves o params

namespace ParamDef

/-- A local variable is declared for the parameter. -/
def hasLocal (p : ParamDef) : Bool := p.branch != .cursorOut && p.branch != .scalarIn

/-- Its value is asked for in a placeholder of its own name. -/
def takesIn (p : ParamDef) : Bool :=
  p.branch == .boolean || p.branch == .scalarIn || p.branch == .scalarInOut

/-- Its value comes back in an `out_` placeholder. -/
def takesOut (p : ParamDef) : Bool :=
  p.branch == .cursorOut || p.branch == .scalarOut || p.branch == .scalarInOut

end ParamDef

/-- The calls that get the block they need. -/
structure Fits (o : Reader) (owner procName : Text) (packageName : Option Text)
    (params : List ParamDef) : Prop where
  /-- the owner, the package and the procedure have names that can be quoted -/
  target : ∀ n ∈ targetNames owner procName packageName, isPlainName n = true
  notBoolean : ∀ p ∈ params, p.isBoolean = false
  /-- the name in lower case is read as the parameter's name, and may stand unquoted -/
  readBack : ∀ p ∈ params, o.read p.bind = p.name
  words : ∀ p ∈ params, o.word p.bind = true
  locals : ∀ p ∈ params, p.hasLocal = true → o.word p.localVar = true
  /-- the type that is left to the user is one that may be declared -/
  fillIns : ∀ p ∈ params, p.branch = .fillIn → o.takesType p.declType = true
  ins : ∀ p ∈ params, p.takesIn = true → o.placeholder p.bind = true
  outs : ∀ p ∈ params, p.takesOut = true → o.placeholder p.outBind = true
  /-- no parameter that is asked for is called `OUT_` and the name of one that comes back -/
  apart : ∀ p ∈ params, ∀ q ∈ params, p.takesOut = true → q.takesIn = true →
    q.name ≠ o.read "out_".toList ++ p.name

/-! ## 5. What the parameters put into the block -/

theorem mapM_quoteIdent_iff {names : List Text} :
    (∃ qs, names.mapM quoteIdent = .ok qs) ↔ ∀ n ∈ names, isPlainName n = true := by
  induction names with
  | nil => exact ⟨fun _ n hn => absurd hn not_mem_nil, fun _ => ⟨[], rfl⟩⟩
  | cons n names ih =>
    rw [forall_mem_cons, ← ih, mapM_cons]
    by_cases hn : isPlainName n = true
    · have hq : quoteIdent n = .ok ('"' :: (n ++ ['"'])) := if_pos hn
      rw [hq]
      cases names.mapM quoteIdent with
      | error e => exact ⟨fun ⟨_, h⟩ => (nomatch h), fun ⟨_, _, h⟩ => (nomatch h)⟩
      | ok qs => exact ⟨fun _ => ⟨hn, qs, rfl⟩, fun _ => ⟨_, rfl⟩⟩
    · have hq : quoteIdent n = .error (.invalidIdentifier n) := if_neg hn
      rw [hq]
      exact ⟨fun ⟨_, h⟩ => (nomatch h), fun h => absurd h.1 hn⟩

theorem callTarget_ok_iff {owner procName : Text} {packageName : Option Text} :
    (∃ target, callTarget owner procName packageName = .ok target) ↔
      ∀ n ∈ targetNames owner procName packageName, isPlainName n = true := by
  rw [← mapM_quoteIdent_iff]
  unfold callTarget
  cases (targetNames owner procName packageName).mapM quoteIdent with
  | error e => exact ⟨fun ⟨_, h⟩ => (nomatch h), fun ⟨_, h⟩ => (nomatch h)⟩
  | ok qs => exact ⟨fun _ => ⟨qs, rfl⟩, fun _ => ⟨_, rfl⟩⟩

variable {p : ParamDef}

theorem branch_boolean_iff : p.branch = .boolean ↔ p.isBoolean = true := by
  unfold ParamDef.branch
  split
  · next h => exact ⟨fun _ => h, fun _ => rfl⟩
  · next h =>
    refine ⟨fun hb => ?_, fun hb => absurd hb h⟩
    split at hb
    · split at hb <;> cases hb
    · split at hb <;> cases hb

/-- A scalar goes the way of its direction. -/
theorem branch_scalar (hb : p.isBoolean = false) (hc : p.isComplex = false) :
    p.branch = match p.inOut with
      | .IN => .scalarIn
      | .OUT => .scalarOut
      | .IN_OUT => .scalarInOut := by
  unfold ParamDef.branch
  rw [hb, hc]
  rfl

theorem inOut_scalarIn (h : p.branch = .scalarIn) : p.inOut = .IN := by
  unfold ParamDef.branch at h
  split at h
  · cases h
  · split at h
    · split at h <;> cases h
    · split at h
      · assumption
      · cases h
      · cases h

theorem inOut_cursorOut (h : p.branch = .cursorOut) : p.inOut ≠ .IN := by
  unfold ParamDef.branch at h
  split at h
  · cases h
  · split at h
    · split at h
      · next hc =>
        intro hin
        simp [hin] at hc
      · cases h
    · split at h <;> cases h

section

variable {o : Reader} {params : List ParamDef} {target : Text}

theorem mem_declares {d : DeclItem} :
    d ∈ (blockOf target params).declares ↔ ∃ p ∈ params, d ∈ declaresOf p := mem_flatMap

theorem mem_args {a : Arg} :
    a ∈ (blockOf target params).args ↔ ∃ p ∈ params, argOf p = a := mem_map

theorem mem_handBacks {h : HandBack} :
    h ∈ (blockOf target params).handBacks ↔ ∃ p ∈ params, h ∈ handBacksOf p := mem_flatMap

theorem argOf_localVar {f v : Text} (h : argOf p = ⟨f, .localVar v⟩) :
    f = p.bind ∧ v = p.localVar ∧ p.hasLocal = true := by
  unfold argOf at h
  unfold ParamDef.hasLocal
  cases hb : p.branch <;> rw [hb] at h <;> cases h <;> exact ⟨rfl, rfl, rfl⟩

theorem argOf_placeholder {f w : Text} (h : argOf p = ⟨f, .placeholder w⟩) :
    f = p.bind ∧
      (p.branch = .cursorOut ∧ w = p.outBind ∨ p.branch = .scalarIn ∧ w = p.bind) := by
  unfold argOf at h
  cases hb : p.branch <;> rw [hb] at h <;> cases h
  · exact ⟨rfl, .inl ⟨rfl, rfl⟩⟩
  · exact ⟨rfl, .inr ⟨rfl, rfl⟩⟩

theorem argOf_hasLocal (h : p.hasLocal = true) : argOf p = ⟨p.bind, .localVar p.localVar⟩ := by
  unfold ParamDef.hasLocal at h
  unfold argOf
  cases hb : p.branch <;> rw [hb] at h <;> first | rfl | cases h

theorem declaresOf_bound {v t w : Text} (h : .declare v t (.bound w) ∈ declaresOf p) :
    p.branch = .scalarInOut ∧ v = p.localVar ∧ w = p.bind := by
  unfold declaresOf at h
  cases hb : p.branch <;> rw [hb] at h <;> simp at h
  exact ⟨rfl, h.1, h.2.2⟩

theorem declaresOf_convert {v w : Text} (h : .convert v w ∈ declaresOf p) :
    p.branch = .boolean ∧ v = p.localVar ∧ w = p.bind := by
  unfold declaresOf at h
  cases hb : p.branch <;> rw [hb] at h <;> simp at h
  exact ⟨rfl, h⟩

theorem handBacksOf_mem {v w : Text} (h : ⟨w, v⟩ ∈ handBacksOf p) :
    (p.branch = .scalarOut ∨ p.branch = .scalarInOut) ∧ w = p.outBind ∧ v = p.localVar := by
  unfold handBacksOf at h
  cases hb : p.branch <;> rw [hb] at h <;> simp at h
  · exact ⟨.inl rfl, h⟩
  · exact ⟨.inr rfl, h⟩

/-- The variable that is passed, if one is. -/
theorem argOf_words {v : Text} (h : v ∈ (argOf p).actual.words) :
    v = p.localVar ∧ p.hasLocal = true := by
  cases ha : argOf p with
  | mk f actual =>
    cases actual with
    | placeholder w => rw [ha] at h; cases h
    | localVar v' =>
      rw [ha] at h
      obtain rfl := mem_singleton.mp h
      exact (argOf_localVar ha).2

/-- The placeholder that is passed, if one is. -/
theorem argOf_placeholders {w : Text} (h : w ∈ (argOf p).actual.placeholders) :
    w = p.outBind ∧ p.takesOut = true ∨ w = p.bind ∧ p.takesIn = true := by
  cases ha : argOf p with
  | mk f actual =>
    cases actual with
    | localVar v => rw [ha] at h; cases h
    | placeholder w' =>
      rw [ha] at h
      obtain rfl := mem_singleton.mp h
      rcases (argOf_placeholder ha).2 with ⟨hb, hw⟩ | ⟨hb, hw⟩
      · exact .inl ⟨hw, by simp [ParamDef.takesOut, hb]⟩
      · exact .inr ⟨hw, by simp [ParamDef.takesIn, hb]⟩

/-- The declarations ask for the parameter's own value. -/
theorem declaresOf_placeholders {d : DeclItem} {w : Text} (hd : d ∈ declaresOf p)
    (hw : w ∈ d.placeholders) : w = p.bind ∧ p.takesIn = true := by
  match d with
  | .declare v t (.bound w') =>
    obtain ⟨hb, -, hbind⟩ := declaresOf_bound hd
    exact ⟨(mem_singleton.mp hw).trans hbind, by simp [ParamDef.takesIn, hb]⟩
  | .declare v t .unset => cases hw
  | .declare v t .fillIn => cases hw
  | .convert v w' =>
    obtain ⟨hb, -, hbind⟩ := declaresOf_convert hd
    exact ⟨(mem_singleton.mp hw).trans hbind, by simp [ParamDef.takesIn, hb]⟩

/-- A parameter has one variable, if it is declared at all. -/
theorem declaresOf_names (hb : p.isBoolean = false) :
    (declaresOf p).map DeclItem.name = if p.hasLocal then [p.localVar] else [] := by
  have hne : p.branch ≠ .boolean := fun h => by rw [branch_boolean_iff, hb] at h; cases h
  unfold declaresOf ParamDef.hasLocal
  cases hbr : p.branch <;> first | rfl | exact absurd hbr hne

end

/-! ## 6. When the block serves -/

/-- The direction of an `out_` placeholder. -/
def ParamDef.outDir (p : ParamDef) : InOut := if p.branch = .cursorOut then p.inOut else .OUT

theorem outDir_ne_in (p : ParamDef) : p.outDir ≠ .IN := by
  unfold ParamDef.outDir
  split
  · next h => exact inOut_cursorOut h
  · exact nofun

section

variable {o : Reader} {params : List ParamDef} {target : Text}

theorem read_localVar (h : o.read p.bind = p.name) :
    o.read p.localVar = o.read "v_".toList ++ p.name := by
  rw [← h]
  exact map_append

theorem read_outBind (h : o.read p.bind = p.name) :
    o.read p.outBind = o.read "out_".toList ++ p.name := by
  rw [← h]
  exact map_append

/-- What stands for a value is a placeholder of the block. -/
theorem Block.Stands.mem {b : Block} {w n : Text} {d : InOut} (h : b.Stands o params w n d) :
    w ∈ b.placeholders := by
  unfold Block.placeholders
  cases h with
  | actual ha hp hf =>
    exact mem_append_left _ (mem_append_right _
      (mem_flatMap.mpr ⟨_, ha, mem_cons_self⟩))
  | start hd ha hv =>
    exact mem_append_left _ (mem_append_left _
      (mem_flatMap.mpr ⟨_, hd, mem_cons_self⟩))
  | convert hd ha hv =>
    exact mem_append_left _ (mem_append_left _
      (mem_flatMap.mpr ⟨_, hd, mem_cons_self⟩))
  | handBack hh ha hv => exact mem_append_right _ (mem_map.mpr ⟨_, hh, rfl⟩)

/-- **Whose value a placeholder carries**: that of the parameter that it is named after. -/
theorem stands_cases (hd : (params.map ParamDef.name).Nodup)
    (hr : ∀ p ∈ params, o.read p.bind = p.name) {w n : Text} {d : InOut}
    (h : (blockOf target params).Stands o params w n d) :
    ∃ p ∈ params, n = p.name ∧
      (p.takesIn = true ∧ w = p.bind ∧ d = .IN ∨
        p.takesOut = true ∧ w = p.outBind ∧ d = p.outDir) := by
  -- the variable that is passed is the one that is set: both are named after the same parameter
  have hsame : ∀ q ∈ params, ∀ q' ∈ params, ∀ {f v' : Text}, argOf q' = ⟨f, .localVar v'⟩ →
      o.read v' = o.read q.localVar → o.read f = q.name := by
    intro q hq q' hq' f v' ha hv
    obtain ⟨rfl, rfl, -⟩ := argOf_localVar ha
    rw [read_localVar (hr q' hq'), read_localVar (hr q hq)] at hv
    rw [hr q' hq']
    exact append_cancel_left hv
  cases h with
  | @actual f w p ha hp hf =>
    obtain ⟨q, hq, ha⟩ := mem_args.mp ha
    obtain ⟨rfl, hcase⟩ := argOf_placeholder ha
    obtain rfl : q = p := inj_on_of_nodup_map hd hq hp ((hr q hq).symm.trans hf)
    refine ⟨q, hq, rfl, ?_⟩
    rcases hcase with ⟨hb, rfl⟩ | ⟨hb, rfl⟩
    · exact .inr ⟨by simp [ParamDef.takesOut, hb], rfl, (if_pos hb).symm⟩
    · exact .inl ⟨by simp [ParamDef.takesIn, hb], rfl, inOut_scalarIn hb⟩
  | start hd' ha hv =>
    obtain ⟨q, hq, hd'⟩ := mem_declares.mp hd'
    obtain ⟨q', hq', ha⟩ := mem_args.mp ha
    obtain ⟨hb, rfl, rfl⟩ := declaresOf_bound hd'
    exact ⟨q, hq, hsame q hq q' hq' ha hv, .inl ⟨by simp [ParamDef.takesIn, hb], rfl, rfl⟩⟩
  | convert hd' ha hv =>
    obtain ⟨q, hq, hd'⟩ := mem_declares.mp hd'
    obtain ⟨q', hq', ha⟩ := mem_args.mp ha
    obtain ⟨hb, rfl, rfl⟩ := declaresOf_convert hd'
    exact ⟨q, hq, hsame q hq q' hq' ha hv, .inl ⟨by simp [ParamDef.takesIn, hb], rfl, rfl⟩⟩
  | handBack hh ha hv =>
    obtain ⟨q, hq, hh⟩ := mem_handBacks.mp hh
    obtain ⟨q', hq', ha⟩ := mem_args.mp ha
    obtain ⟨hb, rfl, rfl⟩ := handBacksOf_mem hh
    refine ⟨q, hq, hsame q hq q' hq' ha hv, .inr ⟨?_, rfl, ?_⟩⟩
    · rcases hb with hb | hb <;> simp [ParamDef.takesOut, hb]
    · rcases hb with hb | hb <;> simp [ParamDef.outDir, hb]

/-- A parameter that is asked for is in the placeholder of its name. -/
theorem stands_in (hp : p ∈ params) (hr : o.read p.bind = p.name)
    (ht : p.takesIn = true) : (blockOf target params).Stands o params p.bind p.name .IN := by
  have hdecl : ∀ {d : DeclItem}, d ∈ declaresOf p → d ∈ (blockOf target params).declares :=
    fun hd => mem_declares.mpr ⟨p, hp, hd⟩
  have hl : p.hasLocal = true → ⟨p.bind, .localVar p.localVar⟩ ∈ (blockOf target params).args :=
    fun h => mem_args.mpr ⟨p, hp, argOf_hasLocal h⟩
  rw [← hr]
  cases hb : p.branch with
  | boolean =>
    exact .convert (hdecl (by simp [declaresOf, hb])) (hl (by simp [ParamDef.hasLocal, hb])) rfl
  | scalarIn =>
    have ha : ⟨p.bind, .placeholder p.bind⟩ ∈ (blockOf target params).args :=
      mem_args.mpr ⟨p, hp, by simp [argOf, hb]⟩
    have hs := Block.Stands.actual ha hp hr
    rwa [inOut_scalarIn hb, ← hr] at hs
  | scalarInOut =>
    have hd : .declare p.localVar p.safeType (.bound p.bind) ∈ declaresOf p := by
      simp [declaresOf, hb]
    exact .start (hdecl hd) (hl (by simp [ParamDef.hasLocal, hb])) rfl
  | cursorOut => simp [ParamDef.takesIn, hb] at ht
  | fillIn => simp [ParamDef.takesIn, hb] at ht
  | scalarOut => simp [ParamDef.takesIn, hb] at ht

/-- A parameter that comes back is in the `out_` placeholder of its name. -/
theorem stands_out (hp : p ∈ params) (hr : o.read p.bind = p.name)
    (ht : p.takesOut = true) :
    (blockOf target params).Stands o params p.outBind p.name p.outDir := by
  have hback : ∀ _ : p.branch = .scalarOut ∨ p.branch = .scalarInOut,
      (blockOf target params).Stands o params p.outBind p.name p.outDir := by
    intro hb
    have hh : ⟨p.outBind, p.localVar⟩ ∈ (blockOf target params).handBacks := by
      refine mem_handBacks.mpr ⟨p, hp, ?_⟩
      rcases hb with hb | hb <;> simp [handBacksOf, hb]
    have hl : p.hasLocal = true := by rcases hb with hb | hb <;> simp [ParamDef.hasLocal, hb]
    have hdir : p.outDir = .OUT := by rcases hb with hb | hb <;> simp [ParamDef.outDir, hb]
    rw [hdir, ← hr]
    exact .handBack hh (mem_args.mpr ⟨p, hp, argOf_hasLocal hl⟩) rfl
  cases hb : p.branch with
  | cursorOut =>
    have ha : ⟨p.bind, .placeholder p.outBind⟩ ∈ (blockOf target params).args :=
      mem_args.mpr ⟨p, hp, by simp [argOf, hb]⟩
    have hdir : p.outDir = p.inOut := if_pos hb
    rw [hdir]
    exact .actual ha hp hr
  | scalarOut => exact hback (.inl hb)
  | scalarInOut => exact hback (.inr hb)
  | boolean => simp [ParamDef.takesOut, hb] at ht
  | fillIn => simp [ParamDef.takesOut, hb] at ht
  | scalarIn => simp [ParamDef.takesOut, hb] at ht

/-! ### From the block to the parameters -/

theorem Fits.of_serves {owner procName : Text} {packageName : Option Text}
    (ht : ∀ n ∈ targetNames owner procName packageName, isPlainName n = true)
    (h : (blockOf target params).Serves o params) : Fits o owner procName packageName params := by
  have hargs : ∀ p ∈ params, argOf p ∈ (blockOf target params).args :=
    fun p hp => mem_args.mpr ⟨p, hp, rfl⟩
  have hread : ∀ p ∈ params, o.read p.bind = p.name := by
    have hpassed := h.passed
    rw [show (blockOf target params).args = params.map argOf from rfl, map_map] at hpassed
    exact fun p hp => map_inj_left.mp hpassed p hp
  exact {
    target := ht
    notBoolean := by
      intro p hp
      by_contra hb
      have hb : p.branch = .boolean := branch_boolean_iff.mpr (by simpa using hb)
      have hc : DeclItem.convert p.localVar p.bind ∈ declaresOf p := by simp [declaresOf, hb]
      exact absurd (h.valid.declared _ (mem_declares.mpr ⟨p, hp, hc⟩)) nofun
    readBack := hread
    words := by
      intro p hp
      refine h.valid.words p.bind ?_
      unfold Block.words
      exact mem_append_left _ (mem_append_right _
        (mem_flatMap.mpr ⟨argOf p, hargs p hp, mem_cons_self⟩))
    locals := by
      intro p hp hl
      refine h.valid.words p.localVar ?_
      unfold Block.words
      refine mem_append_left _ (mem_append_right _
        (mem_flatMap.mpr ⟨argOf p, hargs p hp, ?_⟩))
      rw [argOf_hasLocal hl]
      exact mem_cons_of_mem _ mem_cons_self
    fillIns := by
      intro p hp hb
      have hd : .declare p.localVar p.declType .fillIn ∈ declaresOf p := by simp [declaresOf, hb]
      exact h.valid.types _
        (mem_flatMap.mpr ⟨_, mem_declares.mpr ⟨p, hp, hd⟩, mem_cons_self⟩)
    ins := fun p hp ht => h.valid.binds _ (stands_in hp (hread p hp) ht).mem
    outs := fun p hp ht => h.valid.binds _ (stands_out hp (hread p hp) ht).mem
    apart := by
      intro p hp q hq hout hin hname
      have hsame := (h.single _ _ _ _ _ _ (stands_out hp (hread p hp) hout)
        (stands_in hq (hread q hq) hin)
        (by rw [read_outBind (hread p hp), hread q hq, hname])).2
      exact outDir_ne_in p hsame }

/-! ### From the parameters to the block -/

theorem declared_names (hb : ∀ p ∈ params, p.isBoolean = false) :
    (blockOf target params).declares.map DeclItem.name =
      (params.filter ParamDef.hasLocal).map ParamDef.localVar := by
  show (params.flatMap declaresOf).map DeclItem.name = _
  induction params with
  | nil => rfl
  | cons p ps ih =>
    rw [flatMap_cons, map_append, declaresOf_names (hb p mem_cons_self),
      ih fun q hq => hb q (mem_cons_of_mem _ hq), filter_cons]
    split <;> rfl

theorem takesType_safeType (o : Reader) (p : ParamDef) : o.takesType p.safeType = true := by
  have hcode : codeTypes.contains p.safeType = true := by
    unfold ParamDef.safeType
    split
    · decide
    · split <;> decide
  exact Bool.or_eq_true_iff.mpr (.inl hcode)

variable {owner procName : Text} {packageName : Option Text}

theorem Fits.valid (hd : (params.map ParamDef.name).Nodup)
    (h : Fits o owner procName packageName params) : (blockOf target params).Valid o where
  declared := by
    intro d hd
    obtain ⟨p, hp, hd⟩ := mem_declares.mp hd
    cases d with
    | declare => rfl
    | convert v w =>
      have hb := branch_boolean_iff.mp (declaresOf_convert hd).1
      rw [h.notBoolean p hp] at hb
      cases hb
  distinct := by
    have hnames : (blockOf target params).declares.map (fun d => o.read d.name) =
        ((params.filter ParamDef.hasLocal).map ParamDef.name).map (o.read "v_".toList ++ ·) := by
      have hcomp : (blockOf target params).declares.map (fun d => o.read d.name) =
          ((blockOf target params).declares.map DeclItem.name).map o.read := by
        rw [map_map]
        rfl
      rw [hcomp, declared_names h.notBoolean, map_map, map_map]
      exact map_congr_left fun p hp =>
        read_localVar (h.readBack p (mem_filter.mp hp).1)
    rw [hnames]
    exact (hd.sublist (filter_sublist.map _)).map fun _ _ => append_cancel_left
  inScope := by
    intro a ha v hv
    obtain ⟨p, hp, rfl⟩ := mem_args.mp ha
    rw [declared_names h.notBoolean]
    obtain ⟨rfl, hl⟩ := argOf_words hv
    exact mem_map.mpr ⟨p, mem_filter.mpr ⟨hp, hl⟩, rfl⟩
  words := by
    intro w hw
    unfold Block.words at hw
    rw [declared_names h.notBoolean, mem_append, mem_append] at hw
    rcases hw with (hw | hw) | hw
    · obtain ⟨p, hp, rfl⟩ := mem_map.mp hw
      exact h.locals p (mem_filter.mp hp).1 (mem_filter.mp hp).2
    · obtain ⟨a, ha, hw⟩ := mem_flatMap.mp hw
      obtain ⟨p, hp, rfl⟩ := mem_args.mp ha
      rcases mem_cons.mp hw with rfl | hw
      · exact h.words p hp
      · obtain ⟨rfl, hl⟩ := argOf_words hw
        exact h.locals p hp hl
    · obtain ⟨b, hb, rfl⟩ := mem_map.mp hw
      obtain ⟨p, hp, hb⟩ := mem_handBacks.mp hb
      obtain ⟨hbr, -, hname⟩ := handBacksOf_mem hb
      rw [hname]
      exact h.locals p hp (by rcases hbr with hbr | hbr <;> simp [ParamDef.hasLocal, hbr])
  binds := by
    intro w hw
    unfold Block.placeholders at hw
    rw [mem_append, mem_append] at hw
    rcases hw with (hw | hw) | hw
    · obtain ⟨d, hd, hw⟩ := mem_flatMap.mp hw
      obtain ⟨p, hp, hd⟩ := mem_declares.mp hd
      obtain ⟨rfl, hin⟩ := declaresOf_placeholders hd hw
      exact h.ins p hp hin
    · obtain ⟨a, ha, hw⟩ := mem_flatMap.mp hw
      obtain ⟨p, hp, rfl⟩ := mem_args.mp ha
      rcases argOf_placeholders hw with ⟨rfl, hout⟩ | ⟨rfl, hin⟩
      · exact h.outs p hp hout
      · exact h.ins p hp hin
    · obtain ⟨b, hb, rfl⟩ := mem_map.mp hw
      obtain ⟨p, hp, hb⟩ := mem_handBacks.mp hb
      obtain ⟨hbr, hbind, -⟩ := handBacksOf_mem hb
      rw [hbind]
      exact h.outs p hp (by rcases hbr with hbr | hbr <;> simp [ParamDef.takesOut, hbr])
  types := by
    intro t ht
    obtain ⟨d, hd, ht⟩ := mem_flatMap.mp ht
    obtain ⟨p, hp, hd⟩ := mem_declares.mp hd
    unfold declaresOf at hd
    cases hbr : p.branch <;> rw [hbr] at hd
    · rw [branch_boolean_iff, h.notBoolean p hp] at hbr
      cases hbr
    · cases hd
    · obtain rfl := mem_singleton.mp hd
      obtain rfl := mem_singleton.mp ht
      exact h.fillIns p hp hbr
    · cases hd
    · obtain rfl := mem_singleton.mp hd
      obtain rfl := mem_singleton.mp ht
      exact takesType_safeType o p
    · obtain rfl := mem_singleton.mp hd
      obtain rfl := mem_singleton.mp ht
      exact takesType_safeType o p

theorem Fits.serves (hd : (params.map ParamDef.name).Nodup)
    (h : Fits o owner procName packageName params) : (blockOf target params).Serves o params where
  valid := h.valid hd
  passed := by
    show (params.map argOf).map (fun a => o.read a.formal) = _
    rw [map_map]
    exact map_congr_left h.readBack
  single := by
    intro w w' n n' d d' hs hs' hw
    obtain ⟨p, hp, rfl, hcase⟩ := stands_cases hd h.readBack hs
    obtain ⟨q, hq, rfl, hcase'⟩ := stands_cases hd h.readBack hs'
    have hback := h.readBack p hp
    have hback' := h.readBack q hq
    rcases hcase with ⟨hin, rfl, rfl⟩ | ⟨hout, rfl, rfl⟩ <;>
      rcases hcase' with ⟨hin', rfl, rfl⟩ | ⟨hout', rfl, rfl⟩
    · rw [hback, hback'] at hw
      exact ⟨hw, rfl⟩
    · rw [hback, read_outBind hback'] at hw
      exact absurd hw (h.apart q hq p hp hout' hin)
    · rw [hback', read_outBind hback] at hw
      exact absurd hw.symm (h.apart p hp q hq hout hin')
    · rw [read_outBind hback, read_outBind hback'] at hw
      have hname := append_cancel_left hw
      obtain rfl := inj_on_of_nodup_map hd hp hq hname
      exact ⟨rfl, rfl⟩
  handed := by
    intro p hp hscalar hdir
    have hb := h.notBoolean p hp
    have hc : p.isComplex = false := by
      rcases hscalar with hbool | hc
      · rw [hb] at hbool
        cases hbool
      · exact hc
    have hbr : p.branch = .scalarOut ∨ p.branch = .scalarInOut := by
      rw [branch_scalar hb hc]
      cases hio : p.inOut with
      | IN => exact absurd hio hdir
      | OUT => exact .inl rfl
      | IN_OUT => exact .inr rfl
    have hl : p.hasLocal = true := by rcases hbr with hbr | hbr <;> simp [ParamDef.hasLocal, hbr]
    have hh : ⟨p.outBind, p.localVar⟩ ∈ handBacksOf p := by
      rcases hbr with hbr | hbr <;> simp [handBacksOf, hbr]
    exact ⟨p.bind, p.localVar, h.readBack p hp, mem_args.mpr ⟨p, hp, argOf_hasLocal hl⟩,
      mem_handBacks.mpr ⟨p, hp, hh⟩⟩

end

/-- **When the block serves**: the names can be quoted and are read back as they are, the words made
of them may stand where they stand, no parameter is BOOLEAN, and none is called like another's
`out_` bind. -/
theorem generateTestBlock_yields_iff (o : Reader) (owner procName : Text)
    (packageName : Option Text) {params : List ParamDef}
    (hd : (params.map ParamDef.name).Nodup) :
    Yields o owner procName packageName params ↔ Fits o owner procName packageName params := by
  constructor
  · intro h
    obtain ⟨target, htarget, -, hserves⟩ := h
    exact .of_serves (callTarget_ok_iff.mp ⟨target, htarget⟩) hserves
  · intro h
    obtain ⟨target, htarget⟩ := callTarget_ok_iff.mpr h.target
    refine ⟨target, htarget, ?_, h.serves hd⟩
    rw [generateTestBlock_eq, htarget, ← testBlockText_eq_render]
    rfl

/-- The rules for ASCII names that are no keywords. -/
def plainReader : Reader where
  fold := Char.toUpper
  word := fun t => t.head?.any Char.isAlpha && t.all Safety.isTableChar
  placeholder := fun t => t.head?.any Char.isAlpha && t.all Safety.isTableChar
  typeName := fun t => t.head?.any Char.isAlpha && t.all Safety.isTableChar

/-- `GET_PRICE(P_ID IN NUMBER, P_PRICE OUT NUMBER)` gets its block. -/
theorem generateTestBlock_yields_scalars :
    Yields plainReader "SHOP".toList "GET_PRICE".toList (some "CART".toList)
      [⟨"P_ID".toList, "NUMBER".toList, .IN⟩, ⟨"P_PRICE".toList, "NUMBER".toList, .OUT⟩] := by
  refine (generateTestBlock_yields_iff _ _ _ _ (by decide)).mpr ?_
  constructor <;> decide

/-- A BOOLEAN parameter: the DECLARE section ends in an assignment, which Oracle refuses. -/
theorem generateTestBlock_boolean :
    ([⟨"P_ON".toList, "BOOLEAN".toList, .IN⟩].map ParamDef.name).Nodup ∧
      generateTestBlock "SHOP".toList "SET_OPEN".toList none
          [⟨"P_ON".toList, "BOOLEAN".toList, .IN⟩] =
        .ok ("DECLARE\n  v_p_on BOOLEAN;\n".toList ++
          "  -- Convert :p_on ('TRUE'/'FALSE'/NULL) to BOOLEAN\n".toList ++
          "  v_p_on := CASE UPPER(:p_on) WHEN 'TRUE' THEN TRUE ".toList ++
          "WHEN 'FALSE' THEN FALSE ELSE NULL END;\n".toList ++
          "BEGIN\n  \"SHOP\".\"SET_OPEN\"(\n    p_on => v_p_on\n  );\nEND;".toList) ∧
      ¬ Yields plainReader "SHOP".toList "SET_OPEN".toList none
        [⟨"P_ON".toList, "BOOLEAN".toList, .IN⟩] := by
  refine ⟨by decide, by decide +kernel, fun h => ?_⟩
  obtain ⟨target, -, -, hserves⟩ := h
  have hc : DeclItem.convert "v_p_on".toList "p_on".toList ∈
      (blockOf target [⟨"P_ON".toList, "BOOLEAN".toList, .IN⟩]).declares :=
    mem_declares.mpr ⟨_, mem_singleton_self _, by decide +kernel⟩
  exact absurd (hserves.valid.declared _ hc) nofun

end Veesker.Debugger.TestBlock
