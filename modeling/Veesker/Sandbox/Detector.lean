/-
  File:      Veesker/Sandbox/Detector.lean
  Subject:   THE DETECTOR OF PERSONAL DATA (sidecar/src/sandbox/pii/patterns.ts, detector.ts): what
             a column is taken for, by its name and by a sample of its values.

  A rate of matches is compared as a fraction, which for the two hundred values of a sample is how
  the source's quotients compare.
-/
import Veesker.Text.Pattern
import Veesker.Text.Lower

namespace Veesker.Sandbox

/-! ## 1. Masks and categories -/

/-- `VskMaskType`. -/
inductive VskMaskType where
  | hash | redact | static | partialMask
  deriving DecidableEq

def VskMaskType.text : VskMaskType → Text
  | .hash => "hash".toList
  | .redact => "redact".toList
  | .static => "static".toList
  | .partialMask => "partial".toList

/-- `DetectableCategory`. -/
inductive Category where
  | email | cpf | cnpj | rg | phone | cep | creditCard | ipv4 | ipv6 | name | address
  deriving DecidableEq

def Category.text : Category → Text
  | .email => "email".toList
  | .cpf => "cpf-br".toList
  | .cnpj => "cnpj-br".toList
  | .rg => "rg-br".toList
  | .phone => "phone-br".toList
  | .cep => "cep-br".toList
  | .creditCard => "credit-card".toList
  | .ipv4 => "ipv4".toList
  | .ipv6 => "ipv6".toList
  | .name => "name-pii".toList
  | .address => "address".toList

inductive DetectionSignal where
  | columnName | sampleValue | both
  deriving DecidableEq

/-! ## 2. The patterns -/

open Pattern in
/-- `^p$`. -/
def matchesAll (p : Pattern) (s : Text) : Bool := (p.ends ⟨none, s⟩).any fun k => k.rest.isEmpty

/-- `\d{n}`. -/
def digits (n : Nat) : Pattern := .all (List.replicate n (.one Char.isDigit))

/-- Up to `n` times. -/
def upTo (n : Nat) (p : Pattern) : Pattern :=
  match n with
  | 0 => .empty
  | n + 1 => .opt (.seq p (upTo n p))

def char (c : Char) : Pattern := .one (· == c)

/-- `[\s-]?`. -/
def gap : Pattern := .opt (.one fun c => isSpace c || c == '-')

def emailPattern : Pattern :=
  let isLocal := fun c : Char => c.isAlphanum || "._%+-".toList.contains c
  let isDomain := fun c : Char => c.isAlphanum || ".-".toList.contains c
  .all [.one isLocal, .many isLocal, char '@', .one isDomain, .many isDomain, char '.',
    .one Char.isAlpha, .one Char.isAlpha, .many Char.isAlpha]

def cpfPattern : Pattern :=
  .alt (.all [digits 3, char '.', digits 3, char '.', digits 3, char '-', digits 2]) (digits 11)

def cnpjPattern : Pattern :=
  .alt (.all [digits 2, char '.', digits 3, char '.', digits 3, char '/', digits 4, char '-',
    digits 2]) (digits 14)

def rgPattern : Pattern :=
  let check := Pattern.one fun c => c.isDigit || c == 'X'
  .alt (.all [digits 2, char '.', digits 3, char '.', digits 3, char '-', check])
    (.all [digits 8, .opt (digits 1), .opt check])

def phonePattern : Pattern :=
  .all [.opt (.seq (.word "+55".toList) .spaces0), .opt (char '('), digits 2, .opt (char ')'), gap,
    digits 4, .opt (digits 1), .opt (char '-'), digits 4]

def cepPattern : Pattern := .all [digits 5, .opt (char '-'), digits 3]

def creditCardPattern : Pattern :=
  let group := Pattern.seq (digits 4) gap
  .alt (.all [group, group, group, .opt group, digits 1, upTo 3 (digits 1)])
    (.seq (digits 13) (upTo 6 (digits 1)))

/-- A number up to 255. -/
def octet : Pattern :=
  .any [.seq (.word "25".toList) (.one fun c => '0' ≤ c ∧ c ≤ '5'),
    .all [char '2', .one fun c => '0' ≤ c ∧ c ≤ '4', digits 1],
    .seq (char '1') (digits 2),
    .seq (.opt (.one fun c => '1' ≤ c ∧ c ≤ '9')) (digits 1)]

def ipv4Pattern : Pattern :=
  .all [octet, char '.', octet, char '.', octet, char '.', octet]

def ipv6Pattern : Pattern :=
  let isHex := fun c : Char => c.isDigit || "abcdefABCDEF:".toList.contains c
  .all [.one isHex, .one isHex, .many isHex]

/-- `CATEGORY_INDEX`; names and addresses have no pattern. -/
def categoryPattern : Category → Option Pattern
  | .email => some emailPattern
  | .cpf => some cpfPattern
  | .cnpj => some cnpjPattern
  | .rg => some rgPattern
  | .phone => some phonePattern
  | .cep => some cepPattern
  | .creditCard => some creditCardPattern
  | .ipv4 => some ipv4Pattern
  | .ipv6 => some ipv6Pattern
  | .name => none
  | .address => none

def matchPattern (category : Category) (value : Text) : Bool :=
  (categoryPattern category).any fun p => matchesAll p (trim value)

/-! ## 3. The name of a column -/

structure ColumnNameHint where
  keyword : Text
  category : Category
  defaultMask : VskMaskType
  deriving DecidableEq

def COLUMN_NAME_HINTS : List ColumnNameHint := [
  ⟨"email".toList, .email, .hash⟩,
  ⟨"e_mail".toList, .email, .hash⟩,
  ⟨"cpf".toList, .cpf, .partialMask⟩,
  ⟨"cnpj".toList, .cnpj, .partialMask⟩,
  ⟨"rg".toList, .rg, .partialMask⟩,
  ⟨"telefone".toList, .phone, .partialMask⟩,
  ⟨"celular".toList, .phone, .partialMask⟩,
  ⟨"phone".toList, .phone, .partialMask⟩,
  ⟨"fone".toList, .phone, .partialMask⟩,
  ⟨"ddd".toList, .phone, .redact⟩,
  ⟨"cep".toList, .cep, .redact⟩,
  ⟨"nome".toList, .name, .redact⟩,
  ⟨"name".toList, .name, .redact⟩,
  ⟨"first_name".toList, .name, .redact⟩,
  ⟨"last_name".toList, .name, .redact⟩,
  ⟨"full_name".toList, .name, .redact⟩,
  ⟨"nome_completo".toList, .name, .redact⟩,
  ⟨"sobrenome".toList, .name, .redact⟩,
  ⟨"endereco".toList, .address, .redact⟩,
  ⟨"address".toList, .address, .redact⟩,
  ⟨"street".toList, .address, .redact⟩,
  ⟨"rua".toList, .address, .redact⟩,
  ⟨"credit_card".toList, .creditCard, .partialMask⟩,
  ⟨"cartao".toList, .creditCard, .partialMask⟩,
  ⟨"card_number".toList, .creditCard, .partialMask⟩,
  ⟨"ip".toList, .ipv4, .redact⟩,
  ⟨"ip_address".toList, .ipv4, .redact⟩]

/-- `[_\-]`. -/
def isJoin (c : Char) : Bool := c == '_' || c == '-'

/-- Whether a keyword stands between joints or ends; the flag says that one is before the text. -/
def hasKeyword (keyword : Text) : Bool → Text → Bool
  | edge, [] => edge && keyword.isEmpty
  | edge, c :: cs =>
    (edge && startsWith (c :: cs) keyword && ((c :: cs).drop keyword.length).head?.all isJoin) ||
      hasKeyword keyword (isJoin c) cs

/-- The runs of characters that meet a test. -/
def runsOf (p : Char → Bool) : Text → List Text
  | [] => []
  | c :: cs =>
    if p c then
      match cs with
      | d :: _ =>
        if p d then
          match runsOf p cs with
          | w :: ws => (c :: w) :: ws
          | [] => [[c]]
        else [c] :: runsOf p cs
      | [] => [[c]]
    else runsOf p cs

def suggestFromColumnName (columnName : Text) : Option ColumnNameHint :=
  let lower := toLowerCase columnName
  let isMulti := fun h : ColumnNameHint => h.keyword.contains '_'
  match COLUMN_NAME_HINTS.find? fun h => isMulti h && hasKeyword h.keyword true lower with
  | some hint => some hint
  | none =>
    (runsOf (fun c => c.isLower || c.isDigit) lower).findSome? fun t =>
      COLUMN_NAME_HINTS.find? fun h => h.keyword == t && !isMulti h

/-! ## 4. The sample -/

structure SampleScanResult where
  category : Category
  matched : Nat
  deriving DecidableEq

/-- The categories in the order in which they are tried. -/
def SCANNED : List Category :=
  [.email, .cpf, .cnpj, .creditCard, .ipv4, .phone, .cep, .rg, .ipv6]

/-- The best category so far, after one more. -/
def scanCategory (nonEmpty : List Text) (best : Option SampleScanResult) (cat : Category) :
    Option SampleScanResult :=
  let matched := nonEmpty.countP (matchPattern cat)
  if 8 * nonEmpty.length ≤ 10 * matched ∧ best.all (fun b => b.matched < matched) then
    some ⟨cat, matched⟩
  else best

def scanSampleValues (samples : List (Option Text)) : Option SampleScanResult :=
  let nonEmpty := samples.filterMap fun s => s.filter fun t => !(trim t).isEmpty
  if nonEmpty.isEmpty then none else SCANNED.foldl (scanCategory nonEmpty) none

/-! ## 5. Both -/

/-- `ColumnPiiResult`, its confidence in hundredths. -/
structure ColumnPiiResult where
  category : Category
  signal : DetectionSignal
  confidence : Nat
  defaultMask : VskMaskType
  deriving DecidableEq

def defaultMaskForCategory : Category → VskMaskType
  | .email | .ipv4 | .ipv6 | .cep => .hash
  | _ => .partialMask

def detectColumnPii (columnName : Text) (samples : List (Option Text)) : Option ColumnPiiResult :=
  match suggestFromColumnName columnName, scanSampleValues samples with
  | some nameSig, some sampleSig =>
    if nameSig.category = sampleSig.category then
      some ⟨nameSig.category, .both, 95, nameSig.defaultMask⟩
    else some ⟨nameSig.category, .columnName, 70, nameSig.defaultMask⟩
  | some nameSig, none => some ⟨nameSig.category, .columnName, 70, nameSig.defaultMask⟩
  | none, some sampleSig =>
    some ⟨sampleSig.category, .sampleValue, 60, defaultMaskForCategory sampleSig.category⟩
  | none, none => none

example : (detectColumnPii "CUSTOMER_EMAIL".toList []).map ColumnPiiResult.defaultMask =
    some .hash := by decide

end Veesker.Sandbox
