/-
  File:      Veesker/Format/EzConnect.lean
  Subject:   EZCONNECT PLUS: how a connect string names where to connect to.

      [[protocol:]//]host{,host}[:port]{;host…}[/[service][:server][/instance]][?name=value{&name=value}]

  An address list is divided from the next by a semicolon, an address by a comma; an IPv6 address
  stands in brackets. A name is what the grammar leaves: no mark of its own, no space, no control.

  * `isHost_of_parse` -- every host that is read is a name or a bracketed IPv6 address;
  * `parse_single` -- one such host, its port and a service are read back.
-/
import Mathlib.Data.List.TakeWhile
import Veesker.Text.Js

namespace Veesker.Format.EzConnect

open List

/-! ## 1. What a connect string says -/

structure Address where
  /-- As it is written; an IPv6 address has its brackets. -/
  host : Text
  port : Option Nat
  deriving DecidableEq

structure Descriptor where
  protocol : Option Text := none
  /-- The address lists. -/
  addresses : List (List Address)
  service : Option Text := none
  server : Option Text := none
  instanceName : Option Text := none
  parameters : List (Text × Text) := []
  deriving DecidableEq

/-- One address and a service, and nothing else. -/
def single (host : Text) (port : Nat) (service : Text) : Descriptor where
  addresses := [[⟨host, some port⟩]]
  service := some service

/-! ## 2. The grammar -/

/-- The marks of the grammar, and those of the descriptor that it stands for. -/
def reserved : List Char :=
  [',', ';', ':', '/', '?', '&', '=', '[', ']', '(', ')', '"', '\'', '\\']

def isPlain (c : Char) : Bool := !reserved.contains c && 32 < c.toNat && c.toNat != 127

def isName (s : Text) : Bool := !s.isEmpty && s.all isPlain

def isHexDigit (c : Char) : Bool :=
  c.isDigit || (decide ('a' ≤ c) && decide (c ≤ 'f')) || (decide ('A' ≤ c) && decide (c ≤ 'F'))

def isIPv6Char (c : Char) : Bool := isHexDigit c || c == ':' || c == '.'

/-- An IPv6 address in brackets. -/
def isBracketed (s : Text) : Bool :=
  match s with
  | '[' :: rest =>
    let inner := rest.takeWhile (· != ']')
    !inner.isEmpty && inner.all isIPv6Char && rest == inner ++ [']']
  | _ => false

def isHost (s : Text) : Bool := isName s || isBracketed s

/-- The part before the first such character, and the part from it on. -/
def cutAt (c : Char) (s : Text) : Text × Text := (s.takeWhile (· != c), s.dropWhile (· != c))

/-- A port, where the digits are one. -/
def readPort (s : Text) : Option Nat :=
  let n := Nat.ofDigitChars 10 s 0
  if !s.isEmpty && s.all Char.isDigit && decide (n < 65536) then some n else none

/-- The host of an address and what follows it. -/
def cutHost (s : Text) : Text × Text :=
  if startsWith s ['['] then
    ((cutAt ']' s).1 ++ (cutAt ']' s).2.take 1, (cutAt ']' s).2.drop 1)
  else cutAt ':' s

/-- The port behind a host, with its colon. -/
def readBehind (host : Text) : Text → Option Address
  | [] => some ⟨host, none⟩
  | ':' :: port => (readPort port).map fun p => ⟨host, some p⟩
  | _ => none

def readAddress (s : Text) : Option Address :=
  if isHost (cutHost s).1 then readBehind (cutHost s).1 (cutHost s).2 else none

/-- The protocol in front, and the rest behind its slashes. -/
def cutProtocol (s : Text) : Option Text × Text :=
  let name := s.takeWhile isPlain
  if startsWith s ['/', '/'] then (none, s.drop 2)
  else if isName name && startsWith (s.drop name.length) [':', '/', '/'] then
    (some name, s.drop (name.length + 3))
  else (none, s)

def servers : List Text := ["dedicated".toList, "shared".toList, "pooled".toList]

def readService (s : Text) : Option (Option Text) :=
  if s.isEmpty then some none else if isName s then some (some s) else none

/-- A part that may be missing, with its mark. -/
def readOptional (ok : Text → Bool) : Text → Option (Option Text)
  | [] => some none
  | _ :: s => if ok s then some (some s) else none

def readParameter (s : Text) : Option (Text × Text) :=
  if isName (cutAt '=' s).1 && !(cutAt '=' s).2.isEmpty then
    some ((cutAt '=' s).1, (cutAt '=' s).2.drop 1)
  else none

/-- The parameters, with the question mark. -/
def readParameters : Text → Option (List (Text × Text))
  | [] => some []
  | _ :: query => (query.splitOn '&').mapM readParameter

def readAddresses (s : Text) : Option (List (List Address)) :=
  (s.splitOn ';').mapM fun list => (list.splitOn ',').mapM readAddress

def parse (s : Text) : Option Descriptor := do
  let front := cutProtocol (cutAt '?' s).1
  let place := (cutAt '/' front.2).2.drop 1
  let addresses ← readAddresses (cutAt '/' front.2).1
  let service ← readService (cutAt ':' (cutAt '/' place).1).1
  let server ← readOptional servers.contains (cutAt ':' (cutAt '/' place).1).2
  let instanceName ← readOptional isName (cutAt '/' place).2
  let parameters ← readParameters (cutAt '?' s).2
  return ⟨front.1, addresses, service, server, instanceName, parameters⟩

/-! ## 3. What is read -/

theorem mapM_some {α β : Type} {f : α → Option β} {l : List α} {ys : List β}
    (h : l.mapM f = some ys) : ∀ y ∈ ys, ∃ x ∈ l, f x = some y := by
  induction l generalizing ys with
  | nil =>
    cases h
    exact fun _ hy => nomatch hy
  | cons x l ih =>
    rw [mapM_cons] at h
    obtain ⟨z, hz, h⟩ := Option.bind_eq_some_iff.mp h
    obtain ⟨zs, hzs, h⟩ := Option.bind_eq_some_iff.mp h
    cases h
    intro y hy
    rcases mem_cons.mp hy with rfl | hy
    · exact ⟨x, mem_cons_self, hz⟩
    · obtain ⟨x', hx', hy⟩ := ih hzs y hy
      exact ⟨x', mem_cons_of_mem _ hx', hy⟩

variable {s : Text}

theorem isHost_of_readAddress {a : Address} (h : readAddress s = some a) :
    isHost a.host = true := by
  rw [readAddress] at h
  split at h
  · rename_i hhost
    have ha : a.host = (cutHost s).1 := by
      unfold readBehind at h
      split at h
      · rw [← Option.some.inj h]
      · obtain ⟨p, -, rfl⟩ := Option.map_eq_some_iff.mp h
        rfl
      · cases h
    rw [ha]
    exact hhost
  · cases h

/-- **Every host that is read** is one of the grammar's. -/
theorem isHost_of_parse {d : Descriptor} (h : parse s = some d) :
    ∀ list ∈ d.addresses, ∀ a ∈ list, isHost a.host = true := by
  obtain ⟨addresses, haddresses, h⟩ := Option.bind_eq_some_iff.mp h
  obtain ⟨service, -, h⟩ := Option.bind_eq_some_iff.mp h
  obtain ⟨server, -, h⟩ := Option.bind_eq_some_iff.mp h
  obtain ⟨instanceName, -, h⟩ := Option.bind_eq_some_iff.mp h
  obtain ⟨parameters, -, h⟩ := Option.bind_eq_some_iff.mp h
  cases h
  intro list hlist a ha
  obtain ⟨t, -, ht⟩ := mapM_some haddresses list hlist
  obtain ⟨u, -, hu⟩ := mapM_some ht a ha
  exact isHost_of_readAddress hu

/-! ## 4. One address and a service -/

theorem isPlain_ne {c : Char} (h : isPlain c = true) {r : Char} (hr : r ∈ reserved) : c ≠ r := by
  rintro rfl
  simp [isPlain, hr] at h

theorem cutAt_append {c : Char} {s t : Text} (h : c ∉ s) : cutAt c (s ++ c :: t) = (s, c :: t) := by
  have hs : ∀ x ∈ s, (x != c) = true := fun x hx => bne_iff_ne.mpr fun e => h (e ▸ hx)
  rw [cutAt, takeWhile_append_of_pos hs, dropWhile_append_of_pos hs]
  simp

theorem cutAt_none {c : Char} (h : c ∉ s) : cutAt c s = (s, []) := by
  have hs : ∀ x ∈ s, (x != c) = true := fun x hx => bne_iff_ne.mpr fun e => h (e ▸ hx)
  rw [cutAt, takeWhile_eq_self_iff.mpr hs, dropWhile_eq_nil_iff.mpr hs]

theorem isBracketed_iff : isBracketed s = true ↔
    ∃ inner, inner ≠ [] ∧ inner.all isIPv6Char = true ∧ s = '[' :: (inner ++ [']']) := by
  constructor
  · intro h
    unfold isBracketed at h
    split at h
    · rename_i rest
      simp only [Bool.and_eq_true, Bool.not_eq_true', isEmpty_eq_false_iff,
        beq_iff_eq] at h
      exact ⟨_, h.1.1, h.1.2, congrArg _ h.2⟩
    · cases h
  · rintro ⟨inner, hne, hall, rfl⟩
    have hin : ∀ c ∈ inner, (c != ']') = true := by
      intro c hc
      have hok := all_eq_true.mp hall c hc
      rw [bne_iff_ne]
      rintro rfl
      exact absurd hok (by decide)
    have htake : (inner ++ [']']).takeWhile (· != ']') = inner := by
      rw [takeWhile_append_of_pos hin]
      simp
    simp [isBracketed, htake, hne, hall]

theorem not_mem_of_isName (h : isName s = true) {r : Char} (hr : r ∈ reserved) :
    r ∉ s := by
  intro hmem
  rw [isName, Bool.and_eq_true] at h
  exact isPlain_ne (all_eq_true.mp h.2 r hmem) hr rfl

/-- The marks between the parts. -/
def dividers : List Char := [',', ';', '/', '?']

theorem reserved_of_dividers : ∀ r ∈ dividers, r ∈ reserved := by
  simp [dividers, reserved]

/-- They are in no host. -/
theorem not_mem_of_isHost (h : isHost s = true) {r : Char} (hr : r ∈ dividers) :
    r ∉ s := by
  rw [isHost, Bool.or_eq_true] at h
  rcases h with h | h
  · exact not_mem_of_isName h (reserved_of_dividers r hr)
  · obtain ⟨inner, -, hall, rfl⟩ := isBracketed_iff.mp h
    have hother : ∀ r ∈ dividers, isIPv6Char r = false ∧ r ≠ '[' ∧ r ≠ ']' := by
      simp [dividers, isIPv6Char, isHexDigit]
    obtain ⟨hinner, hopen, hclose⟩ := hother r hr
    intro hmem
    rcases mem_cons.mp hmem with e | hmem
    · exact hopen e
    rcases mem_append.mp hmem with hmem | hmem
    · rw [all_eq_true.mp hall r hmem] at hinner
      cases hinner
    · exact hclose (mem_singleton.mp hmem)

theorem startsWith_head {c r : Char} {s w : Text} (h : c ≠ r) :
    startsWith (c :: s) (r :: w) = false := by
  simp [startsWith, List.isPrefixOf, h.symm]

theorem cutHost_append {host t : Text} (h : isHost host = true) :
    cutHost (host ++ ':' :: t) = (host, ':' :: t) := by
  rw [isHost, Bool.or_eq_true] at h
  rcases h with h | h
  · have hhead : startsWith (host ++ ':' :: t) ['['] = false := by
      cases host with
      | nil => rfl
      | cons c cs =>
        have hc : c ≠ '[' := by
          rintro rfl
          exact not_mem_of_isName h (by decide) mem_cons_self
        exact startsWith_head hc
    rw [cutHost, hhead, if_neg Bool.false_ne_true, cutAt_append (not_mem_of_isName h (by decide))]
  · obtain ⟨inner, -, hall, rfl⟩ := isBracketed_iff.mp h
    have hin : ']' ∉ '[' :: inner := by
      intro hmem
      rcases mem_cons.mp hmem with e | hmem
      · exact absurd e (by decide)
      · exact absurd (all_eq_true.mp hall _ hmem) (by decide)
    have hcut : cutAt ']' ('[' :: (inner ++ [']']) ++ ':' :: t) =
        ('[' :: inner, ']' :: ':' :: t) := by
      have := cutAt_append (t := ':' :: t) hin
      simpa using this
    have hstart : startsWith ('[' :: (inner ++ [']']) ++ ':' :: t) ['['] = true := by
      simp [startsWith]
    rw [cutHost, hstart, if_pos rfl, hcut]
    simp

theorem cutProtocol_host {host t : Text} (h : isHost host = true)
    (ht : startsWith t ['/'] = false) :
    cutProtocol (host ++ ':' :: t) = (none, host ++ ':' :: t) := by
  have hslash : startsWith (host ++ ':' :: t) ['/', '/'] = false := by
    cases host with
    | nil => rfl
    | cons c cs =>
      have hc : c ≠ '/' := by
        rintro rfl
        exact not_mem_of_isHost h (by decide) mem_cons_self
      exact startsWith_head hc
  rw [isHost, Bool.or_eq_true] at h
  rcases h with h | h
  · have hall : ∀ c ∈ host, isPlain c = true := by
      rw [isName, Bool.and_eq_true] at h
      exact all_eq_true.mp h.2
    have hname : (host ++ ':' :: t).takeWhile isPlain = host := by
      rw [takeWhile_append_of_pos hall, takeWhile_cons_of_neg (by decide), append_nil]
    have hnone : startsWith (':' :: t) [':', '/', '/'] = false := by
      cases t with
      | nil => rfl
      | cons c cs =>
        have hc : c ≠ '/' := by
          rintro rfl
          simp [startsWith] at ht
        simp [startsWith, List.isPrefixOf, hc.symm]
    simp [cutProtocol, hslash, hname, hnone]
  · obtain ⟨inner, -, -, rfl⟩ := isBracketed_iff.mp h
    have hname : ('[' :: (inner ++ [']']) ++ ':' :: t).takeWhile isPlain = [] :=
      takeWhile_cons_of_neg (by decide)
    rw [cutProtocol, hslash, hname]
    rfl

theorem readPort_toDigits {n : Nat} (h : n < 65536) : readPort (Nat.toDigits 10 n) = some n := by
  have hdigits : (Nat.toDigits 10 n).all Char.isDigit = true :=
    all_eq_true.mpr fun c hc => Nat.isDigit_of_mem_toDigits (by decide) (by decide) hc
  rw [readPort, Nat.ofDigitChars_ten_toDigits]
  simp [hdigits, h, Nat.toDigits_ne_nil]

/-- **One host, its port and a service are read back.** -/
theorem parse_single {host service : Text} {port : Nat} (hhost : isHost host = true)
    (hport : port < 65536) (hservice : isName service = true) :
    parse (host ++ ':' :: (Nat.toDigits 10 port ++ '/' :: service)) =
      some (single host port service) := by
  have hdigit : ∀ r ∈ reserved, r ∉ Nat.toDigits 10 port := by
    intro r hr hmem
    have hnone : ∀ r ∈ reserved, r.isDigit = false := by
      simp [reserved]
    exact absurd (Nat.isDigit_of_mem_toDigits (by decide) (by decide) hmem)
      (Bool.eq_false_iff.mp (hnone r hr))
  have hfront : ∀ r ∈ dividers, r ∉ host ++ ':' :: Nat.toDigits 10 port := by
    intro r hr hmem
    rcases mem_append.mp hmem with hmem | hmem
    · exact not_mem_of_isHost hhost hr hmem
    rcases mem_cons.mp hmem with rfl | hmem
    · exact absurd hr (by decide)
    · exact hdigit r (reserved_of_dividers r hr) hmem
  set front := host ++ ':' :: Nat.toDigits 10 port with hdef
  have htext : host ++ ':' :: (Nat.toDigits 10 port ++ '/' :: service) = front ++ '/' :: service := by
    rw [hdef, append_assoc]
    rfl
  have hquery : '?' ∉ front ++ '/' :: service := by
    intro hmem
    rcases mem_append.mp hmem with hmem | hmem
    · exact hfront _ (by decide) hmem
    rcases mem_cons.mp hmem with e | hmem
    · exact absurd e (by decide)
    · exact not_mem_of_isName hservice (by decide) hmem
  have hprotocol : cutProtocol (front ++ '/' :: service) = (none, front ++ '/' :: service) := by
    rw [← htext]
    refine cutProtocol_host hhost ?_
    cases hd : Nat.toDigits 10 port with
    | nil => exact absurd hd Nat.toDigits_ne_nil
    | cons d ds =>
      refine startsWith_head fun e => hdigit '/' (by decide) ?_
      rw [hd, e]
      exact mem_cons_self
  have haddresses : readAddresses front = some [[⟨host, some port⟩]] := by
    have hone : readAddress front = some ⟨host, some port⟩ := by
      rw [readAddress, hdef, cutHost_append hhost, if_pos hhost, readBehind, readPort_toDigits hport]
      rfl
    rw [readAddresses, splitOn_eq_singleton (hfront _ (by decide))]
    simp [splitOn_eq_singleton (hfront ',' (by decide)), hone]
  have hservices : readService service = some (some service) := by
    have hne : service.isEmpty = false := by
      rw [isName, Bool.and_eq_true] at hservice
      simpa using hservice.1
    rw [readService, hne, hservice]
    rfl
  rw [htext, parse, cutAt_none hquery, hprotocol]
  simp only [cutAt_append (hfront '/' (by decide)), drop_one, tail_cons,
    cutAt_none (not_mem_of_isName hservice (by decide : '/' ∈ reserved)),
    cutAt_none (not_mem_of_isName hservice (by decide : ':' ∈ reserved)), haddresses, hservices]
  rfl

end Veesker.Format.EzConnect
