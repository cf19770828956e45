/-
  File:      Veesker/Format/Url.lean
  Subject:   HTTP URLS: how the URL standard reads the text of an absolute http or https URL.

  The text loses its outer blanks and all tabs and newlines; it is cut into the scheme, the
  authority (up to the first slash, backslash, question mark or hash) and what is behind it; the
  authority is cut at its last `@` and at the colon of its port; the path is walked segment by
  segment, the dot segments being taken out.

  How a host is read (percent-decoding, the mapping to ASCII, IP addresses) is a parameter.

  * `parseUrl_append` -- **a URL text that goes on** behind another is read from where it ended;
  * `userinfo_of_at` -- an authority that is lengthened by an `@` has another userinfo;
  * **`below_iff`** -- what a URL's text may go on with to stay below the URL it is.
-/
import Mathlib.Data.List.TakeWhile
import Veesker.Format.Bytes

namespace Veesker.Format

open List

/-! ## 1. What a URL is -/

inductive Url.Scheme where
  | http
  | https
  deriving DecidableEq

structure Url.Authority where
  username : Text
  password : Text
  host : Text
  /-- `none` where it is the scheme's own. -/
  port : Option Nat
  deriving DecidableEq

structure Url where
  scheme : Url.Scheme
  authority : Url.Authority
  path : List Text
  query : Option Text
  fragment : Option Text
  deriving DecidableEq

namespace Url

/-- A name of lower-case labels, none of them encoded, that is no number. -/
def isPlainDomain (s : Text) : Bool :=
  (s.splitOn '.').all (fun label => !label.isEmpty && !startsWith label "xn--".toList &&
    label.all fun c => c.isLower || c.isDigit || c == '-') &&
  ((s.splitOn '.').getLast?.any fun label => label.head?.any Char.isLower)

/-- How a host is read. -/
structure HostReader where
  read : Text → Option Text
  /-- A plain name is read as it is. -/
  plain : ∀ s, isPlainDomain s = true → read s = some s

/-! ## 2. The characters -/

/-- A C0 control or a space. -/
def isC0OrSpace (c : Char) : Bool := decide (c.toNat ≤ 32)

def isTabOrNewline (c : Char) : Bool := c == '\t' || c == '\n' || c == '\r'

def isSlash (c : Char) : Bool := c == '/' || c == '\\'

/-- The authority ends here. -/
def isDelimiter (c : Char) : Bool := isSlash c || c == '?' || c == '#'

/-- The path ends here. -/
def endsPath (c : Char) : Bool := c == '?' || c == '#'

def isSchemeChar (c : Char) : Bool := c.isAlphanum || c == '+' || c == '-' || c == '.'

def hexDigit (n : Nat) : Char := (Nat.digitChar n).toUpper

def percentByte (b : UInt8) : Text := ['%', hexDigit (b.toNat / 16), hexDigit (b.toNat % 16)]

/-- The text with the characters of a set percent-encoded. -/
def encode (set : Char → Bool) (s : Text) : Text :=
  s.flatMap fun c => if set c then (utf8Char c).flatMap percentByte else [c]

def inQuerySet (c : Char) : Bool :=
  decide (c.toNat < 32 ∨ 126 < c.toNat) || [' ', '"', '#', '<', '>', '\''].contains c

def inFragmentSet (c : Char) : Bool :=
  decide (c.toNat < 32 ∨ 126 < c.toNat) || [' ', '"', '<', '>', Char.ofNat 96].contains c

def inPathSet (c : Char) : Bool :=
  decide (c.toNat < 32 ∨ 126 < c.toNat) ||
    [' ', '"', '#', '<', '>', '?', '^', Char.ofNat 96, '\x7b', '\x7d'].contains c

def inUserinfoSet (c : Char) : Bool :=
  inPathSet c || ['/', ':', ';', '=', '@', '[', '\\', ']', '|'].contains c

/-! ## 3. The pieces of the text -/

/-- The text without its outer blanks and without tabs and newlines. -/
def clean (s : Text) : Text :=
  ((s.dropWhile isC0OrSpace).rdropWhile isC0OrSpace).filter fun c => !isTabOrNewline c

/-- The scheme, and what is behind its colon. -/
def cutScheme (s : Text) : Option (Text × Text) :=
  if s.head?.any Char.isAlpha then
    match s.dropWhile isSchemeChar with
    | ':' :: rest => some ((s.takeWhile isSchemeChar).map Char.toLower, rest)
    | _ => none
  else none

def httpScheme (s : Text) : Option Scheme :=
  if s == "http".toList then some .http else if s == "https".toList then some .https else none

/-- The text up to the authority's end, and the text from there on. -/
def cutAuthority (s : Text) : Text × Text :=
  (s.takeWhile fun c => !isDelimiter c, s.dropWhile fun c => !isDelimiter c)

/-- The text up to the path's end, and the text from there on. -/
def cutPath (s : Text) : Text × Text :=
  (s.takeWhile fun c => !endsPath c, s.dropWhile fun c => !endsPath c)

/-! ## 4. The authority -/

/-- The host is up to the first colon outside of brackets. -/
def cutHost : Bool → Text → Text × Text
  | _, [] => ([], [])
  | inside, c :: s =>
    if c == ':' && !inside then ([], c :: s)
    else
      let rest := cutHost (if c == '[' then true else if c == ']' then false else inside) s
      (c :: rest.1, rest.2)

def Scheme.port : Scheme → Nat
  | .http => 80
  | .https => 443

/-- The port behind its colon. -/
def readPort (scheme : Scheme) : Text → Option (Option Nat)
  | [] => some none
  | _ :: digits =>
    if !digits.all Char.isDigit then none
    else if digits.isEmpty then some none
    else
      let n := Nat.ofDigitChars 10 digits 0
      if 65535 < n then none else if n = scheme.port then some none else some (some n)

def readHostPort (H : HostReader) (scheme : Scheme) (s : Text) : Option (Text × Option Nat) :=
  let cut := cutHost false s
  if cut.1.isEmpty then none
  else match H.read cut.1, readPort scheme cut.2 with
    | some host, some port => some (host, port)
    | _, _ => none

/-- The user name and the password. -/
def readUserinfo (s : Text) : Text × Text :=
  (encode inUserinfoSet (s.takeWhile (· != ':')),
    encode inUserinfoSet ((s.dropWhile (· != ':')).drop 1))

/-- The text in front of the last `@`, where there is one, and the text behind it. -/
def cutUserinfo (s : Text) : Option Text × Text :=
  if '@' ∈ s then (some (s.rdropWhile (· != '@')).dropLast, s.rtakeWhile (· != '@')) else (none, s)

def readAuthority (H : HostReader) (scheme : Scheme) (s : Text) : Option Authority :=
  let cut := cutUserinfo s
  let userinfo := readUserinfo (cut.1.getD [])
  (readHostPort H scheme cut.2).map fun (host, port) => ⟨userinfo.1, userinfo.2, host, port⟩

/-! ## 5. The path -/

def isSingleDot (s : Text) : Bool :=
  [".".toList, "%2e".toList].contains (s.map Char.toLower)

def isDoubleDot (s : Text) : Bool :=
  ["..".toList, ".%2e".toList, "%2e.".toList, "%2e%2e".toList].contains (s.map Char.toLower)

/-- One segment that a slash follows. -/
def enter (dir : List Text) (s : Text) : List Text :=
  if isDoubleDot s then dir.dropLast
  else if isSingleDot s then dir
  else dir ++ [encode inPathSet s]

/-- The last segment. -/
def finish (dir : List Text) (s : Text) : List Text :=
  if isDoubleDot s then dir.dropLast ++ [[]]
  else if isSingleDot s then dir ++ [[]]
  else dir ++ [encode inPathSet s]

/-- The path that the segments lead to. -/
def walk (dir : List Text) : List Text → List Text
  | [] => dir
  | [s] => finish dir s
  | s :: t :: ss => walk (enter dir s) (t :: ss)

/-- The segments of the text, behind its first slash. -/
def segments (s : Text) : List Text := (s.drop 1).splitOnP isSlash

/-! ## 6. The URL -/

/-- What a mark introduces. -/
def readMarked (set : Char → Bool) (mark : Char) : Text → Option Text
  | c :: s => if c == mark then some (encode set s) else none
  | [] => none

/-- The query and the fragment. -/
def readEnd (s : Text) : Option Text × Option Text :=
  (readMarked inQuerySet '?' (s.takeWhile (· != '#')),
    readMarked inFragmentSet '#' (s.dropWhile (· != '#')))

/-- The text behind the scheme's slashes. -/
def readBehind (H : HostReader) (scheme : Scheme) (s : Text) : Option Url :=
  let behind := cutPath (cutAuthority s).2
  (readAuthority H scheme (cutAuthority s).1).map fun authority =>
    ⟨scheme, authority, walk [] (segments behind.1), (readEnd behind.2).1, (readEnd behind.2).2⟩

/-- The scheme of the text, and what is behind the scheme's slashes. -/
def start (s : Text) : Option (Scheme × Text) :=
  match cutScheme (clean s) with
  | none => none
  | some (scheme, rest) => (httpScheme scheme).map fun scheme => (scheme, rest.dropWhile isSlash)

/-- The text of an http or https URL. -/
def parseUrl (H : HostReader) (s : Text) : Option Url :=
  match start s with
  | none => none
  | some (scheme, rest) => readBehind H scheme rest

/-! ## 7. A text that goes on -/

section Stop

variable {α : Type} {p : α → Bool} {l : List α}

theorem takeWhile_stop (h : l.dropWhile p ≠ []) (t : List α) :
    (l ++ t).takeWhile p = l.takeWhile p := by
  induction l with
  | nil => exact absurd rfl h
  | cons x l ih =>
    rw [cons_append]
    cases hx : p x with
    | false =>
      rw [takeWhile_cons_of_neg (by simp [hx]), takeWhile_cons_of_neg (by simp [hx])]
    | true =>
      rw [dropWhile_cons_of_pos hx] at h
      rw [takeWhile_cons_of_pos hx, takeWhile_cons_of_pos hx, ih h]

theorem dropWhile_stop (h : l.dropWhile p ≠ []) (t : List α) :
    (l ++ t).dropWhile p = l.dropWhile p ++ t := by
  rw [dropWhile_append]
  simp [h]

theorem takeWhile_go (h : l.dropWhile p = []) (t : List α) :
    (l ++ t).takeWhile p = l ++ t.takeWhile p :=
  takeWhile_append_of_pos (dropWhile_eq_nil_iff.mp h)

theorem dropWhile_go (h : l.dropWhile p = []) (t : List α) :
    (l ++ t).dropWhile p = t.dropWhile p :=
  dropWhile_append_of_pos (dropWhile_eq_nil_iff.mp h)

theorem rdropWhile_stop {x : α} (hx : p x = false) (t : List α) :
    (l ++ x :: t).rdropWhile p = l ++ x :: t.rdropWhile p := by
  induction t using List.reverseRecOn with
  | nil => rw [rdropWhile_concat_neg _ _ _ (by simp [hx]), rdropWhile_nil]
  | append_singleton t y ih =>
    rw [← cons_append, ← append_assoc]
    by_cases hy : p y = true
    · rw [rdropWhile_concat_pos _ _ _ hy, ih, rdropWhile_concat_pos _ _ _ hy]
    · rw [rdropWhile_concat_neg _ _ _ hy, rdropWhile_concat_neg _ _ _ hy]
      simp

end Stop

/-- What `t` adds to the text that `s` is cleaned to. -/
def addition (s t : Text) : Text :=
  (((s.dropWhile isC0OrSpace).rtakeWhile isC0OrSpace ++ t).rdropWhile isC0OrSpace).filter
    fun c => !isTabOrNewline c

variable {s : Text}

theorem clean_append (h : clean s ≠ []) (t : Text) :
    clean (s ++ t) = clean s ++ addition s t := by
  set core := (s.dropWhile isC0OrSpace).rdropWhile isC0OrSpace with hcore
  have hne : core ≠ [] := by
    intro e
    rw [clean, ← hcore, e] at h
    exact h rfl
  have hs : s.dropWhile isC0OrSpace ≠ [] := by
    intro e
    rw [e] at hcore
    exact hne hcore
  -- the last character of the core is no blank, so that the trimming stops there
  have hlast := rdropWhile_last_not isC0OrSpace (s.dropWhile isC0OrSpace) hne
  have hsplit : s.dropWhile isC0OrSpace ++ t = core.dropLast ++ core.getLast hne ::
      ((s.dropWhile isC0OrSpace).rtakeWhile isC0OrSpace ++ t) := by
    have hparts : core ++ (s.dropWhile isC0OrSpace).rtakeWhile isC0OrSpace =
        s.dropWhile isC0OrSpace := rdropWhile_append_rtakeWhile
    conv_lhs => rw [← hparts, ← dropLast_append_getLast hne]
    simp
  rw [clean, dropWhile_stop hs, hsplit, rdropWhile_stop (by simpa using hlast), addition, clean,
    ← hcore, ← filter_append]
  conv_rhs => rw [← dropLast_append_getLast hne]
  simp

theorem cutScheme_append {s scheme rest : Text} (h : cutScheme s = some (scheme, rest)) (t : Text) :
    cutScheme (s ++ t) = some (scheme, rest ++ t) := by
  rw [cutScheme] at h
  split at h
  · rename_i hhead
    split at h
    · rename_i behind hbehind
      obtain ⟨rfl, rfl⟩ := Prod.mk.inj (Option.some.inj h)
      have hne : s.dropWhile isSchemeChar ≠ [] := by
        rw [hbehind]
        exact cons_ne_nil _ _
      have hhead' : ((s ++ t).head?.any Char.isAlpha) = true := by
        cases s with
        | nil => cases hhead
        | cons c s => exact hhead
      rw [cutScheme, if_pos hhead', dropWhile_stop hne, takeWhile_stop hne, hbehind]
      rfl
    · cases h
  · cases h

variable {scheme : Scheme}

theorem start_append {s rest : Text} (h : start s = some (scheme, rest))
    (hrest : rest ≠ []) (t : Text) : start (s ++ t) = some (scheme, rest ++ addition s t) := by
  rw [start] at h
  split at h
  · cases h
  · rename_i name behind hcut
    obtain ⟨sch, hscheme, he⟩ := Option.map_eq_some_iff.mp h
    obtain ⟨rfl, rfl⟩ := Prod.mk.inj he
    have hclean : clean s ≠ [] := by
      intro e
      rw [e] at hcut
      cases hcut
    rw [start, clean_append hclean, cutScheme_append hcut]
    simp only [hscheme, Option.map_some, dropWhile_stop hrest]

/-- Without an authority there is no URL. -/
theorem readBehind_ne_nil {H : HostReader} {u : Url}
    (h : readBehind H scheme s = some u) : s ≠ [] := by
  rintro rfl
  cases h

/-- **A URL text that goes on** is read from where the one before ended. -/
theorem parseUrl_append {H : HostReader} {u : Url} (h : parseUrl H s = some u)
    (t : Text) :
    ∃ rest, start s = some (u.scheme, rest) ∧ readBehind H u.scheme rest = some u ∧
      parseUrl H (s ++ t) = readBehind H u.scheme (rest ++ addition s t) := by
  rw [parseUrl] at h
  split at h
  · cases h
  · rename_i scheme rest hstart
    have hscheme : u.scheme = scheme := by
      obtain ⟨authority, -, rfl⟩ := Option.map_eq_some_iff.mp h
      rfl
    rw [hscheme]
    refine ⟨rest, hstart, h, ?_⟩
    rw [parseUrl, start_append hstart (readBehind_ne_nil h)]

/-- The base ends in its authority. -/
theorem cutAuthority_open (h : (cutAuthority s).2 = []) (t : Text) :
    cutAuthority (s ++ t) = (s ++ (cutAuthority t).1, (cutAuthority t).2) := by
  rw [cutAuthority] at h
  rw [cutAuthority, takeWhile_go h, dropWhile_go h]
  rfl

theorem cutAuthority_closed (h : (cutAuthority s).2 ≠ []) (t : Text) :
    cutAuthority (s ++ t) = ((cutAuthority s).1, (cutAuthority s).2 ++ t) := by
  rw [cutAuthority] at h
  rw [cutAuthority, takeWhile_stop h, dropWhile_stop h]
  rfl

theorem cutPath_open (h : (cutPath s).2 = []) (t : Text) :
    cutPath (s ++ t) = (s ++ (cutPath t).1, (cutPath t).2) := by
  rw [cutPath] at h
  rw [cutPath, takeWhile_go h, dropWhile_go h]
  rfl

theorem cutPath_closed (h : (cutPath s).2 ≠ []) (t : Text) :
    cutPath (s ++ t) = ((cutPath s).1, (cutPath s).2 ++ t) := by
  rw [cutPath] at h
  rw [cutPath, takeWhile_stop h, dropWhile_stop h]
  rfl

/-! ## 8. A userinfo that grows -/

theorem encode_append (set : Char → Bool) (s t : Text) :
    encode set (s ++ t) = encode set s ++ encode set t := flatMap_append

theorem encode_ne_nil (set : Char → Bool) {c : Char} : encode set (c :: s) ≠ [] := by
  intro h
  rw [encode, flatMap_cons, append_eq_nil_iff] at h
  have hbytes : utf8Char c ≠ [] := by
    rw [utf8Char]
    split_ifs <;> exact cons_ne_nil _ _
  obtain ⟨b, bs, hb⟩ := exists_cons_of_ne_nil hbytes
  cases hset : set c <;> simp [hset, hb, percentByte] at h

/-- How much there is of a userinfo. -/
def userinfoSize (s : Text) : Nat := (readUserinfo s).1.length + (readUserinfo s).2.length

theorem userinfoSize_grows (s t : Text) : userinfoSize s < userinfoSize (s ++ '@' :: t) := by
  have hat : 0 < (encode inUserinfoSet ('@' :: t)).length :=
    length_pos_iff.mpr (encode_ne_nil _)
  by_cases h : s.dropWhile (· != ':') = []
  · have hat' : 0 < (encode inUserinfoSet (('@' :: t).takeWhile (· != ':'))).length := by
      rw [takeWhile_cons_of_pos (by decide)]
      exact length_pos_iff.mpr (encode_ne_nil _)
    have hall : s.takeWhile (· != ':') = s :=
      takeWhile_eq_self_iff.mpr (dropWhile_eq_nil_iff.mp h)
    have hnil : (encode inUserinfoSet ([] : Text)).length = 0 := rfl
    simp only [userinfoSize, readUserinfo, takeWhile_go h, dropWhile_go h, encode_append,
      length_append, hall, h, drop_nil]
    omega
  · obtain ⟨c, r, hr⟩ := exists_cons_of_ne_nil h
    simp only [userinfoSize, readUserinfo, takeWhile_stop h, dropWhile_stop h, hr, cons_append,
      drop_one, tail_cons, encode_append, length_append]
    omega

theorem userinfoSize_pos {c : Char} (hc : c ≠ ':') (s : Text) : 0 < userinfoSize (c :: s) := by
  have : 0 < (encode inUserinfoSet (c :: s.takeWhile (· != ':'))).length :=
    length_pos_iff.mpr (encode_ne_nil _)
  rw [userinfoSize, readUserinfo, takeWhile_cons_of_pos (by simpa using hc)]
  exact Nat.lt_of_lt_of_le this (Nat.le_add_right _ _)

theorem cutUserinfo_append {s t : Text} (h : '@' ∉ t) :
    cutUserinfo (s ++ t) = ((cutUserinfo s).1, (cutUserinfo s).2 ++ t) := by
  have hall : ∀ c ∈ t, (c != '@') = true := fun c hc => bne_iff_ne.mpr fun e => h (e ▸ hc)
  have htake : (s ++ t).rtakeWhile (· != '@') = s.rtakeWhile (· != '@') ++ t := by
    rw [List.rtakeWhile, reverse_append, takeWhile_append_of_pos
      fun c hc => hall c (mem_reverse.mp hc), reverse_append, reverse_reverse]
    rfl
  by_cases hs : '@' ∈ s
  · rw [cutUserinfo, cutUserinfo, if_pos (mem_append_left t hs), if_pos hs,
      rdropWhile_append_of_all hall, htake]
  · rw [cutUserinfo, cutUserinfo, if_neg fun hmem => (mem_append.mp hmem).elim hs h, if_neg hs]

theorem rdropWhile_at (h : '@' ∈ s) :
    ∃ e, s.rdropWhile (· != '@') = e ++ ['@'] := by
  have hne : s.rdropWhile (· != '@') ≠ [] := by
    intro e
    have := rdropWhile_eq_nil_iff.mp e '@' h
    cases this
  have hlast : (s.rdropWhile (· != '@')).getLast hne = '@' := by
    simpa using rdropWhile_last_not (· != '@') s hne
  obtain ⟨e, he⟩ : ∃ e, e = (s.rdropWhile (· != '@')).dropLast := ⟨_, rfl⟩
  refine ⟨e, (dropLast_append_getLast hne).symm.trans ?_⟩
  rw [hlast, he]

/-- The userinfo in front of the last `@`. -/
theorem cutUserinfo_split (h : '@' ∈ s) :
    ∃ w, (cutUserinfo s).1 = some w ∧ s = w ++ '@' :: (cutUserinfo s).2 := by
  obtain ⟨e, he⟩ := rdropWhile_at h
  have hparts : s.rdropWhile (· != '@') ++ s.rtakeWhile (· != '@') = s :=
    rdropWhile_append_rtakeWhile
  refine ⟨e, by rw [cutUserinfo, if_pos h, he, dropLast_concat], ?_⟩
  rw [cutUserinfo, if_pos h]
  conv_lhs => rw [← hparts, he, append_assoc]
  rfl

/-- The userinfo of an authority in which an `@` follows. -/
theorem cutUserinfo_at {t : Text} (h : '@' ∈ t) (s : Text) :
    ∃ e, (cutUserinfo (s ++ t)).1 = some (s ++ e) := by
  obtain ⟨e, he⟩ := rdropWhile_at h
  have hparts : t.rdropWhile (· != '@') ++ t.rtakeWhile (· != '@') = t :=
    rdropWhile_append_rtakeWhile
  have hall : ∀ x ∈ t.rtakeWhile (· != '@'), (x != '@') = true :=
    fun x hx => mem_rtakeWhile_imp (p := (· != '@')) hx
  have hdrop : (s ++ t).rdropWhile (· != '@') = s ++ e ++ ['@'] := by
    rw [he] at hparts
    rw [← hparts, append_assoc e, singleton_append, ← append_assoc,
      rdropWhile_stop (by decide), rdropWhile_eq_nil_iff.mpr hall]
  refine ⟨e, ?_⟩
  rw [cutUserinfo, if_pos (mem_append_right s h), hdrop, dropLast_concat]

/-- A host is not empty, and it does not begin with a colon. -/
theorem readHostPort_head {H : HostReader} {x : Text × Option Nat}
    (h : readHostPort H scheme s = some x) : ∃ c r, s = c :: r ∧ c ≠ ':' := by
  cases s with
  | nil => cases h
  | cons c r =>
    refine ⟨c, r, rfl, ?_⟩
    rintro rfl
    cases h

section Authority

variable {H : HostReader} {scheme : Scheme} {s t : Text} {b u : Authority}

theorem readAuthority_userinfo (h : readAuthority H scheme s = some u) :
    (u.username, u.password) = readUserinfo ((cutUserinfo s).1.getD []) := by
  obtain ⟨x, -, rfl⟩ := Option.map_eq_some_iff.mp h
  rfl

theorem readAuthority_hostPort (h : readAuthority H scheme s = some u) :
    readHostPort H scheme (cutUserinfo s).2 = some (u.host, u.port) := by
  obtain ⟨x, hx, rfl⟩ := Option.map_eq_some_iff.mp h
  exact hx

/-- **A userinfo grows with an `@`.** -/
theorem userinfo_of_at (hb : readAuthority H scheme s = some b) (hat : '@' ∈ t)
    (hu : readAuthority H scheme (s ++ t) = some u) :
    b.username.length + b.password.length < u.username.length + u.password.length := by
  obtain ⟨hbname, hbpass⟩ := Prod.mk.inj (readAuthority_userinfo hb)
  obtain ⟨huname, hupass⟩ := Prod.mk.inj (readAuthority_userinfo hu)
  obtain ⟨e, he⟩ := cutUserinfo_at hat s
  rw [hbname, hbpass, huname, hupass, he]
  by_cases hs : '@' ∈ s
  · obtain ⟨w, hw, hsplit⟩ := cutUserinfo_split hs
    have := userinfoSize_grows w ((cutUserinfo s).2 ++ e)
    rw [hw, hsplit, append_assoc]
    exact this
  · -- without a userinfo the host is in front, and it is not empty
    have hnone : cutUserinfo s = (none, s) := if_neg hs
    have hhost := readAuthority_hostPort hb
    rw [hnone] at hhost ⊢
    obtain ⟨c, r, rfl, hc⟩ := readHostPort_head hhost
    exact userinfoSize_pos hc (r ++ e)

/-- **What an authority may be lengthened by** without another host, port or userinfo. -/
theorem authority_kept_iff (hb : readAuthority H scheme s = some b)
    (hu : readAuthority H scheme (s ++ t) = some u) :
    u.host = b.host ∧ u.port = b.port ∧ ((u.username, u.password) = ([], []) ∨
        (u.username, u.password) = (b.username, b.password)) ↔
      '@' ∉ t ∧ readHostPort H scheme ((cutUserinfo s).2 ++ t) =
        readHostPort H scheme (cutUserinfo s).2 := by
  have hbhost := readAuthority_hostPort hb
  have huhost := readAuthority_hostPort hu
  by_cases hat : '@' ∈ t
  · refine iff_of_false (fun h => ?_) fun h => h.1 hat
    have hsize := userinfo_of_at hb hat hu
    rcases h.2.2 with h | h <;> obtain ⟨hname, hpass⟩ := Prod.mk.inj h <;>
      rw [hname, hpass] at hsize
    · exact absurd hsize (Nat.not_lt_zero _)
    · exact absurd hsize (Nat.lt_irrefl _)
  · rw [cutUserinfo_append hat] at huhost
    have huserinfo : (u.username, u.password) = (b.username, b.password) := by
      rw [readAuthority_userinfo hu, readAuthority_userinfo hb, cutUserinfo_append hat]
    rw [huhost, hbhost]
    constructor
    · exact fun h => ⟨hat, by rw [h.1, h.2.1]⟩
    · intro h
      obtain ⟨hhost, hport⟩ := Prod.mk.inj (Option.some.inj h.2)
      exact ⟨hhost, hport, .inr huserinfo⟩

end Authority

/-! ## 9. One URL below another -/

/-- The path without its empty last segment. -/
def directory (path : List Text) : List Text :=
  if path.getLast? = some [] then path.dropLast else path

/-- The same scheme, host and port, no userinfo of its own, and a path at or below the base's. -/
structure Below (base u : Url) : Prop where
  scheme : u.scheme = base.scheme
  host : u.authority.host = base.authority.host
  port : u.authority.port = base.authority.port
  userinfo : (u.authority.username, u.authority.password) = ([], []) ∨
    (u.authority.username, u.authority.password) =
      (base.authority.username, base.authority.password)
  path : directory base.path <+: u.path

/-- The directories of a path's text, and its last segment, which is not yet read. -/
def unfinished (s : Text) : List Text × Text :=
  ((segments s).dropLast.foldl enter [], (segments s).getLast?.getD [])

/-- What the base's text goes on with keeps it below the base: it ends in its authority, which is
    read alike with what is added; or in its path, which is walked on from its last directory; or
    behind its path. -/
def Keeps (H : HostReader) (base : Url) (s t : Text) : Prop :=
  let authority := (cutAuthority s).1
  let behind := (cutAuthority s).2
  if behind = [] then
    '@' ∉ (cutAuthority t).1 ∧
      readHostPort H base.scheme ((cutUserinfo authority).2 ++ (cutAuthority t).1) =
        readHostPort H base.scheme (cutUserinfo authority).2
  else if (cutPath behind).2 = [] then
    let added := (cutPath t).1.splitOnP isSlash
    directory base.path <+: walk (unfinished behind).1
      (((unfinished behind).2 ++ added.head?.getD []) :: added.tail)
  else True

theorem splitOnP_append {α : Type} (p : α → Bool) (s t : List α) :
    (s ++ t).splitOnP p = (s.splitOnP p).dropLast ++
      ((s.splitOnP p).getLast?.getD [] ++ (t.splitOnP p).head?.getD []) :: (t.splitOnP p).tail := by
  induction s with
  | nil =>
    obtain ⟨x, xs, hx⟩ := exists_cons_of_ne_nil (splitOnP_ne_nil p t)
    simp [hx]
  | cons c s ih =>
    obtain ⟨x, xs, hx⟩ := exists_cons_of_ne_nil (splitOnP_ne_nil p s)
    rw [cons_append, splitOnP_cons_eq_if_modifyHead,
      splitOnP_cons_eq_if_modifyHead, ih, hx]
    cases xs <;> by_cases hc : p c = true <;> simp [hc]

theorem walk_append (dir init : List Text) (s : Text) (ss : List Text) :
    walk dir (init ++ s :: ss) = walk (init.foldl enter dir) (s :: ss) := by
  induction init generalizing dir with
  | nil => rfl
  | cons x init ih =>
    cases init with
    | nil => rfl
    | cons y init => exact ih _

/-- **The path is walked on** from the last directory. -/
theorem walk_segments {c : Char} (s t : Text) :
    walk [] (segments (c :: s ++ t)) = walk (unfinished (c :: s)).1
      (((unfinished (c :: s)).2 ++ (t.splitOnP isSlash).head?.getD []) ::
        (t.splitOnP isSlash).tail) := by
  rw [segments, cons_append, drop_one, tail_cons, splitOnP_append, walk_append]
  rfl

theorem directory_prefix (path : List Text) : directory path <+: path := by
  unfold directory
  split
  · exact dropLast_prefix path
  · exact prefix_refl path

section Below

variable {H : HostReader} {base u : Url} {s t : Text}

theorem readBehind_authority (h : readBehind H scheme s = some u) :
    u.scheme = scheme ∧ readAuthority H scheme (cutAuthority s).1 = some u.authority ∧
      u.path = walk [] (segments (cutPath (cutAuthority s).2).1) := by
  obtain ⟨authority, hauthority, rfl⟩ := Option.map_eq_some_iff.mp h
  exact ⟨rfl, hauthority, rfl⟩

/-- **When a URL whose text goes on is below the other**, for every text and what is added. -/
theorem below_iff (hb : readBehind H base.scheme s = some base)
    (hu : readBehind H base.scheme (s ++ t) = some u) : Below base u ↔ Keeps H base s t := by
  obtain ⟨-, hba, hbp⟩ := readBehind_authority hb
  obtain ⟨hscheme, hua, hup⟩ := readBehind_authority hu
  by_cases hopen : (cutAuthority s).2 = []
  · -- the base ends in its authority, and its path is the root
    have hs : (cutAuthority s).1 = s := by
      have := takeWhile_append_dropWhile (p := fun c => !isDelimiter c) (l := s)
      rw [show s.dropWhile (fun c => !isDelimiter c) = [] from hopen, append_nil] at this
      exact this
    have hroot : directory base.path = [] := by
      rw [hbp, hopen]
      rfl
    rw [cutAuthority_open hopen] at hua
    rw [hs] at hba
    have hkept := authority_kept_iff hba hua
    rw [Keeps]
    simp only [hopen, if_true, hs]
    rw [← hkept]
    constructor
    · exact fun h => ⟨h.host, h.port, h.userinfo⟩
    · exact fun h => ⟨hscheme, h.1, h.2.1, h.2.2, by rw [hroot]; exact nil_prefix⟩
  · rw [cutAuthority_closed hopen] at hua hup
    have hsame : u.authority = base.authority := Option.some.inj (hua.symm.trans hba)
    have hbelow : Below base u ↔ directory base.path <+: u.path := by
      constructor
      · exact Below.path
      · exact fun h => ⟨hscheme, by rw [hsame], by rw [hsame], .inr (by rw [hsame]), h⟩
    rw [hbelow, Keeps]
    simp only [hopen, if_false]
    by_cases hpath : (cutPath (cutAuthority s).2).2 = []
    · -- the base ends in its path
      obtain ⟨c, r, hcr⟩ := exists_cons_of_ne_nil hopen
      simp only [hpath, if_true]
      rw [hup, cutPath_open hpath, hcr]
      rw [show (c :: r ++ (cutPath t).1, (cutPath t).2).1 = c :: r ++ (cutPath t).1 from rfl,
        walk_segments]
    · simp only [hpath, if_false, iff_true]
      rw [hup, cutPath_closed hpath, hbp]
      exact directory_prefix _

end Below

end Url

end Veesker.Format
