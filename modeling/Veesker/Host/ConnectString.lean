/-
  File:      Veesker/Host/ConnectString.lean
  Subject:   THE CONNECT STRING OF A BASIC CONNECTION (validate_host, validate_service_name in
             src-tauri/src/persistence/connections.rs; buildConnection in sidecar/src/oracle.ts).

  The host refuses a list of characters; the list lacks the comma, the semicolon, and the colon and
  the brackets outside of an IPv6 address.

  * **`connectString_iff`** -- what is accepted is read back exactly if the host has none of these,
    or is an IPv6 address in brackets;
  * `two_addresses` -- an accepted host that is read as two.
-/
import Veesker.Format.EzConnect
import Veesker.Host.Connections
import Veesker.Text.Upper

namespace Veesker.Host

open Format List

/-- `${p.host}:${p.port}/${p.serviceName}`. -/
def connectString (host : Text) (port : UInt16) (serviceName : Text) : Text :=
  host ++ ':' :: (Nat.toDigits 10 port.toNat ++ '/' :: serviceName)

/-- The marks of the grammar that a host is let through with. -/
def marksLeft : List Char := [',', ';', ':', '[', ']']

/-- **The condition**: none of these marks, or an IPv6 address in its brackets. -/
def WithoutMarks (host : Text) : Prop :=
  (∀ c ∈ host, c ∉ marksLeft) ∨ EzConnect.isBracketed host = true

theorem validateHost_char {host : Text} (h : validateHost host = .ok ()) :
    host ≠ [] ∧ ∀ c ∈ host, c ∉ invalidChars ∧ isControl c = false := by
  rw [validateHost] at h
  split at h
  · cases h
  rename_i hblank
  split at h
  · cases h
  split at h
  · cases h
  rename_i hchars
  refine ⟨?_, fun c hc => ?_⟩
  · rintro rfl
    exact hblank rfl
  · rw [Bool.not_eq_true, any_eq_false] at hchars
    simpa using hchars c hc

theorem validateName_char {what s : Text} (h : validateName what s = .ok ()) :
    s ≠ [] ∧ s.all isNameChar = true := by
  rw [validateName] at h
  split at h
  · cases h
  rename_i hblank
  split at h
  · cases h
  split at h
  · cases h
  rename_i hchars
  refine ⟨?_, by simpa using hchars⟩
  rintro rfl
  exact hblank rfl

/-- A character of a service name means nothing to the grammar. -/
theorem isPlain_of_isNameChar {c : Char} (h : isNameChar c = true) : EzConnect.isPlain c = true := by
  have hascii : c.toNat < 128 := by
    simp only [isNameChar, Bool.or_eq_true, beq_iff_eq] at h
    rcases h with ((h | rfl) | rfl) | rfl
    · exact isAlphanum_ascii h
    all_goals decide
  exact forall_ascii (P := fun c => isNameChar c = true → EzConnect.isPlain c = true)
    (by decide) hascii h

theorem isName_of_validated {what s : Text} (h : validateName what s = .ok ()) :
    EzConnect.isName s = true := by
  obtain ⟨hne, hall⟩ := validateName_char h
  rw [EzConnect.isName, Bool.and_eq_true]
  refine ⟨by simpa using hne, all_eq_true.mpr fun c hc => ?_⟩
  exact isPlain_of_isNameChar (all_eq_true.mp hall c hc)

theorem reserved_cases {c : Char} (h : c ∈ EzConnect.reserved) :
    c ∈ invalidChars ∨ c ∈ marksLeft := by
  simp only [EzConnect.reserved, mem_cons, not_mem_nil, or_false] at h
  simp only [invalidChars, marksLeft, mem_cons, not_mem_nil, or_false]
  tauto

/-- What is let through is a name, but for the marks that are left. -/
theorem isPlain_of_accepted {c : Char} (hc : c ∉ invalidChars) (hcontrol : isControl c = false)
    (hmark : c ∉ marksLeft) : EzConnect.isPlain c = true := by
  have hreserved : c ∉ EzConnect.reserved := fun h => (reserved_cases h).elim hc hmark
  have hspace : c.toNat ≠ 32 := by
    intro h
    have : c = ' ' := Char.toNat_inj.mp h
    exact hc (by rw [this]; decide)
  simp only [isControl, Bool.or_eq_false_iff, decide_eq_false_iff_not] at hcontrol
  simp only [EzConnect.isPlain, Bool.and_eq_true, Bool.not_eq_true', contains_eq_mem,
    decide_eq_false_iff_not, decide_eq_true_eq, bne_iff_ne, ne_eq]
  refine ⟨⟨hreserved, ?_⟩, ?_⟩ <;> omega

/-- The hosts that are let through and that the grammar knows. -/
theorem isHost_iff {host : Text} (h : validateHost host = .ok ()) :
    EzConnect.isHost host = true ↔ WithoutMarks host := by
  obtain ⟨hne, hchars⟩ := validateHost_char h
  rw [EzConnect.isHost, Bool.or_eq_true, WithoutMarks, EzConnect.isName, Bool.and_eq_true,
    all_eq_true]
  refine or_congr_left ⟨fun hname c hc hmark => ?_, fun hplain => ⟨by simpa using hne, ?_⟩⟩
  · refine EzConnect.isPlain_ne (hname.2 c hc) ?_ rfl
    simp only [marksLeft, mem_cons, not_mem_nil, or_false] at hmark
    rcases hmark with rfl | rfl | rfl | rfl | rfl <;> decide
  · exact fun c hc => isPlain_of_accepted (hchars c hc).1 (hchars c hc).2 (hplain c hc)

/-- **When the connect string names the connection**, for every host and service that are accepted
    and every port: it is read as one address and the service, and nothing else. -/
theorem connectString_iff {host serviceName : Text} (hhost : validateHost host = .ok ())
    (hservice : validateServiceName serviceName = .ok ()) (port : UInt16) :
    EzConnect.parse (connectString host port serviceName) =
        some (EzConnect.single host port.toNat serviceName) ↔ WithoutMarks host := by
  rw [← isHost_iff hhost]
  constructor
  · intro h
    exact EzConnect.isHost_of_parse h _ mem_cons_self _ mem_cons_self
  · exact fun h => EzConnect.parse_single h port.toNat_lt (isName_of_validated hservice)

theorem connectString_iff_ipv6 :
    EzConnect.parse "[2001:db8::1]:1521/FREEPDB1".toList =
        some (EzConnect.single "[2001:db8::1]".toList 1521 "FREEPDB1".toList) ∧
      WithoutMarks "[2001:db8::1]".toList := by
  have hcondition : WithoutMarks "[2001:db8::1]".toList := .inr (by decide)
  exact ⟨(connectString_iff (by decide) (by decide) 1521).mpr hcondition, hcondition⟩

/-- **A host that is let through, and is two.** -/
theorem two_addresses :
    validateHost "db1,evil.com".toList = .ok () ∧ validateServiceName "orcl".toList = .ok () ∧
      EzConnect.parse (connectString "db1,evil.com".toList 1521 "orcl".toList) = some {
        addresses := [[⟨"db1".toList, none⟩, ⟨"evil.com".toList, some 1521⟩]]
        service := some "orcl".toList } ∧
      EzConnect.parse (connectString "db1,evil.com".toList 1521 "orcl".toList) ≠
        some (EzConnect.single "db1,evil.com".toList 1521 "orcl".toList) := by
  decide

end Veesker.Host
