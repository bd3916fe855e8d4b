import AgentGrove.Auth.Sessions
import AgentGrove.Wire.Url

namespace AgentGrove.Auth

open Cookies (header)
open Secrets (Cipher)
open Utf8 (encode)

/-- The origins that a request on this host may be answered with. -/
def Configured (cfg : AuthConfig) (host : Text) (origins : Text × Text) : Prop :=
  origins = (cfg.publicUrl, cfg.appUrl) ∨
    ∃ o ∈ cfg.extraOrigins, origins = (o, o) ∧
      ∃ scheme authority, o = scheme ++ ("://".toList ++ authority) ∧ eqIgnoreAsciiCase authority host = true

/-- The characters that `base64_url` prints. -/
def base64UrlChar (x : Char) : Bool := x.isAlphanum || x = '-' || x = '_'

section Origins

variable {cfg : AuthConfig} {host origin : Text} {pat t before rest : Text}

theorem splitOnce_some (h : splitOnce pat t = some (before, rest)) : t = before ++ (pat ++ rest) := by
  obtain ⟨⟨u, v⟩, hbreak, heq⟩ := Option.map_eq_some_iff.mp h
  obtain ⟨rfl, hpre⟩ := Search.breakOn_some hbreak
  cases heq
  rw [List.prefix_append_drop hpre, List.drop_left' rfl]

theorem isFor_authority (h : AuthConfig.isFor host origin = true) :
    ∃ scheme authority, origin = scheme ++ ("://".toList ++ authority) ∧ eqIgnoreAsciiCase authority host = true := by
  unfold AuthConfig.isFor at h
  cases hsplit : splitOnce "://".toList origin with
  | none =>
    rw [hsplit] at h
    cases h
  | some s =>
    rw [hsplit] at h
    exact ⟨s.1, s.2, splitOnce_some hsplit, h⟩

/-- A request steers the redirects to an origin of the configuration only. -/
theorem originsFor_configured (cfg : AuthConfig) (headers : HeaderMap) :
    Configured cfg (AuthConfig.host headers) (cfg.originsFor headers) := by
  unfold AuthConfig.originsFor
  cases hfind : cfg.extraOrigins.find? (AuthConfig.isFor (AuthConfig.host headers)) with
  | none => exact Or.inl rfl
  | some o => exact Or.inr ⟨o, List.mem_of_find?_eq_some hfind, rfl, isFor_authority (List.find?_some hfind)⟩

end Origins

section Consent

variable {cfg : AuthConfig} {origin csrf : Text}

theorem plain_base64Url {x : Char} (h : base64UrlChar x = true) : plain x = true := by
  simp only [base64UrlChar, Bool.or_eq_true, decide_eq_true_eq] at h
  rcases h with (h | rfl) | rfl
  · simp [plain, h]
  · decide
  · decide

theorem formDecode_urlencode (t : Text) : Url.formDecode (urlencode t) = t :=
  Url.formDecode_encodeWith (by decide) (by decide)

theorem formDecode_csrf (h : ∀ x ∈ csrf, base64UrlChar x = true) : Url.formDecode csrf = csrf := by
  have hplain : urlencode csrf = csrf := Percent.encodeWith_kept fun x hx => plain_base64Url (h x hx)
  rw [← hplain, formDecode_urlencode, hplain]

/-- The parameters as the provider reads them. -/
def asked (cfg : AuthConfig) (origin csrf : Text) : List (Text × Text) :=
  [("response_type".toList, "code".toList), ("client_id".toList, cfg.clientId),
    ("redirect_uri".toList, redirectUri origin), ("scope".toList, "openid email profile".toList),
    ("state".toList, csrf), ("access_type".toList, "online".toList), ("prompt".toList, "select_account".toList)]

/-- What stands behind the consent screen in the address. -/
def consentSearch (cfg : AuthConfig) (origin csrf : Text) : Text :=
  '?' :: (Url.query (consentParameters cfg origin csrf) ++ (cfg.allowedDomains.head?.map fun d => "&hd=".toList ++ d).getD [])

theorem consentUrl_eq : consentUrl cfg origin csrf = consentScreen ++ consentSearch cfg origin csrf := by
  simp only [consentUrl, consentSearch, Url.query, List.append_assoc, List.cons_append]

theorem consentParameters_decoded (h : ∀ x ∈ csrf, base64UrlChar x = true) :
    Url.encodeBoth Url.formDecode (consentParameters cfg origin csrf) = asked cfg origin csrf := by
  have hscope : Url.formDecode "openid%20email%20profile".toList = "openid email profile".toList := by decide +kernel
  have hplain : ∀ t ∈ ["response_type", "code", "client_id", "redirect_uri", "scope", "state", "access_type", "online",
      "prompt", "select_account"], Url.formDecode t.toList = t.toList := by decide +kernel
  simp only [List.forall_mem_cons] at hplain
  obtain ⟨h₁, h₂, h₃, h₄, h₅, h₆, h₇, h₈, h₉, h₁₀, -⟩ := hplain
  simp only [Url.encodeBoth, consentParameters, List.map_cons, List.map_nil, formDecode_urlencode, formDecode_csrf h, hscope,
    h₁, h₂, h₃, h₄, h₅, h₆, h₇, h₈, h₉, h₁₀, asked]

/-- A domain of the configuration comes behind the others, where it replaces none of them. -/
theorem searchParams_consent (h : ∀ x ∈ csrf, base64UrlChar x = true) :
    ∃ rest, Url.searchParams (consentSearch cfg origin csrf) = asked cfg origin csrf ++ rest := by
  have hquery : Url.searchParams ('?' :: Url.query (consentParameters cfg origin csrf)) = asked cfg origin csrf := by
    rw [Url.searchParams_query, consentParameters_decoded h]
    · intro p hp
      have hstate : '&' ∉ csrf := fun hm => absurd (h _ hm) (by decide)
      simp only [consentParameters, List.mem_cons, List.not_mem_nil, or_false] at hp
      obtain rfl | rfl | rfl | rfl | rfl | rfl | rfl := hp
      · decide
      · exact ⟨by simp, by simp, Url.not_mem_encodeWith (by decide)⟩
      · exact ⟨by simp, by simp, Url.not_mem_encodeWith (by decide)⟩
      · decide
      · exact ⟨by simp, by simp, hstate⟩
      · decide
      · decide
    · simp [consentParameters]
  unfold consentSearch
  cases cfg.allowedDomains.head? with
  | none => exact ⟨[], by simpa using hquery⟩
  | some d =>
    refine ⟨Url.searchParams ('?' :: ("hd=".toList ++ d)), ?_⟩
    rw [← hquery, ← Url.searchParams_append]
    rfl

end Consent

section Flow

variable {K : Type} {c : Cipher K} {codec : SessionCodec} {key : K} {cfg : AuthConfig} {csrf : Text} {req back : Request}
  {google : Google} {now : Nat} {nonce : Option Nat} {s : Session} {location : Text}

theorem kept_csrfCookie {origin : Text} (h : ';' ∉ csrf) : kept (csrfCookie csrf origin) = csrfName ++ '=' :: csrf := by
  have hsemi : ';' ∉ csrfName ++ '=' :: csrf := by
    rw [List.mem_append, List.mem_cons, not_or, not_or]
    exact ⟨by decide, by decide, h⟩
  have hattributes : "; HttpOnly; SameSite=Lax; Path=/; Max-Age=600".toList =
      ';' :: " HttpOnly; SameSite=Lax; Path=/; Max-Age=600".toList := by decide
  rw [kept, csrfCookie, hattributes, List.append_assoc, List.append_assoc, List.cons_append]
  exact Search.takeWhile_sep hsemi _

theorem base64Url_sent {x : Char} (h : base64UrlChar x = true) :
    printable x = true ∧ x ≠ ';' ∧ isWhitespace x = false := by
  simp only [base64UrlChar, Bool.or_eq_true, decide_eq_true_eq] at h
  rcases h with (h | rfl) | rfl
  · obtain ⟨hprint, hsemi, -, hblank⟩ := base64_printable (x := x) (by simp [base64Char, h])
    exact ⟨hprint, hsemi, hblank⟩
  · decide
  · decide

theorem callback_location (h : (callback c codec key (some cfg) google now nonce back).location = some location) :
    ∃ reason ∈ ["", "/?auth_error=invalid_state", "/?auth_error=forbidden"],
      location = (cfg.originsFor back.headers).2 ++ reason.toList := by
  have hstate : (redirect ((cfg.originsFor back.headers).2 ++ "/?auth_error=invalid_state".toList)).location = some location →
      ∃ reason ∈ ["", "/?auth_error=invalid_state", "/?auth_error=forbidden"],
        location = (cfg.originsFor back.headers).2 ++ reason.toList :=
    fun h => ⟨"/?auth_error=invalid_state", by simp, (Option.some.inj h).symm⟩
  unfold callback callbackSession at h
  dsimp only at h
  split at h
  · rename_i r hr
    split at hr
    · cases hr
      exact hstate h
    · split at hr
      · cases hr
        cases h
      · split at hr
        · cases hr
          cases h
        · unfold admitted at hr
          dsimp only at hr
          split at hr
          · cases hr
            cases h
          · split at hr
            · cases hr
              exact ⟨"/?auth_error=forbidden", by simp, (Option.some.inj h).symm⟩
            · cases hr
  · split at h
    · cases h
    · exact ⟨"", by simp, by simpa [redirect] using h.symm⟩

/-- What a callback needs to end a login. -/
theorem callbackSession_iff : callbackSession cfg google now back = .ok s ↔
    back.code ≠ [] ∧ cookie csrfName back.headers = some back.state ∧
      ∃ idToken claims, google.exchange back.code (redirectUri (cfg.originsFor back.headers).1) = some idToken ∧
        google.tokenInfo idToken = some claims ∧ admitted cfg (cfg.originsFor back.headers).2 now claims = .ok s := by
  unfold callbackSession
  dsimp only
  by_cases hcheck : back.code.isEmpty = true ∨ cookie csrfName back.headers ≠ some back.state
  · have hif : (back.code.isEmpty || decide (cookie csrfName back.headers ≠ some back.state)) = true := by simpa using hcheck
    rw [if_pos hif]
    constructor
    · intro h
      cases h
    · rintro ⟨hcode, hstate, -⟩
      rcases hcheck with hcheck | hcheck
      · exact absurd (List.isEmpty_iff.mp hcheck) hcode
      · exact absurd hstate hcheck
  · have hif : ¬ (back.code.isEmpty || decide (cookie csrfName back.headers ≠ some back.state)) = true := by simpa using hcheck
    rw [not_or, not_not, List.isEmpty_iff] at hcheck
    rw [if_neg hif]
    cases hexchange : google.exchange back.code (redirectUri (cfg.originsFor back.headers).1) with
    | none => simp
    | some idToken =>
      cases hinfo : google.tokenInfo idToken with
      | none => simp [hinfo]
      | some claims => simp [hinfo, hcheck]

theorem originsFor_host {headers headers' : HeaderMap} (h : AuthConfig.host headers' = AuthConfig.host headers) :
    cfg.originsFor headers' = cfg.originsFor headers := by
  unfold AuthConfig.originsFor
  rw [h]

/-- The browser that a login has sent to the provider comes back with what it was sent with: on the same host, with the
cookie of that login, its callback gets as far as the provider and asks with the address that the login has named, and a
session is made for the state of that login only. No header of a request brings it elsewhere than to an origin of the
configuration. -/
theorem login_flow (hcsrf : ∀ x ∈ csrf, base64UrlChar x = true) :
    Configured cfg (AuthConfig.host req.headers) (cfg.originsFor req.headers) ∧
    ∃ search set, login (some cfg) csrf req =
        { status := 302, setCookies := [set], location := some (consentScreen ++ search) } ∧
      (∃ rest, Url.searchParams search = asked cfg (cfg.originsFor req.headers).1 csrf ++ rest) ∧
      ∀ back before after, AuthConfig.host back.headers = AuthConfig.host req.headers →
        (∀ t ∈ before ++ after, Sent t) → (∀ t ∈ before, ¬ csrfName ++ ['='] <+: t) →
        back.headers.lookup "cookie".toList = some (encode (header (before ++ kept set :: after))) →
        ∀ google now, (∀ s, callbackSession cfg google now back = .ok s ↔
            back.code ≠ [] ∧ (Url.searchParams search).lookup "state".toList = some back.state ∧
              ∃ uri idToken claims, (Url.searchParams search).lookup "redirect_uri".toList = some uri ∧
                google.exchange back.code uri = some idToken ∧ google.tokenInfo idToken = some claims ∧
                admitted cfg (cfg.originsFor req.headers).2 now claims = .ok s) ∧
          ∀ nonce location, (callback c codec key (some cfg) google now nonce back).location = some location →
            ∃ reason ∈ ["", "/?auth_error=invalid_state", "/?auth_error=forbidden"],
              location = (cfg.originsFor req.headers).2 ++ reason.toList := by
  refine ⟨originsFor_configured cfg req.headers, ?_⟩
  obtain ⟨rest, hrest⟩ := @searchParams_consent cfg (cfg.originsFor req.headers).1 csrf hcsrf
  refine ⟨consentSearch cfg (cfg.originsFor req.headers).1 csrf, csrfCookie csrf (cfg.originsFor req.headers).1, ?_,
    ⟨rest, hrest⟩, ?_⟩
  · simp only [login, consentUrl_eq]
    rfl
  · intro back before after hhost hall hbefore hheaders google now
    have hsent : Sent (csrfName ++ '=' :: csrf) := sent_named (by decide) fun x hx => base64Url_sent (hcsrf x hx)
    rw [kept_csrfCookie fun hm => (base64Url_sent (hcsrf _ hm)).2.1 rfl] at hheaders
    have hcookie : cookie csrfName back.headers = some csrf := cookie_sent (sent_among hall hsent) hbefore hheaders
    have hstate : (asked cfg (cfg.originsFor req.headers).1 csrf ++ rest).lookup "state".toList = some csrf := rfl
    have huri : (asked cfg (cfg.originsFor req.headers).1 csrf ++ rest).lookup "redirect_uri".toList =
        some (redirectUri (cfg.originsFor req.headers).1) := rfl
    rw [hrest, hstate, huri]
    refine ⟨fun s => ?_, fun nonce location hlocation => ?_⟩
    · rw [callbackSession_iff, hcookie, originsFor_host hhost]
      simp
    · obtain ⟨reason, hreason, hlocation⟩ := callback_location hlocation
      exact ⟨reason, hreason, by rw [hlocation, originsFor_host hhost]⟩

end Flow

theorem login_flow_returning :
    Configured team (AuthConfig.host []) (team.originsFor []) ∧
    ∃ search set, login (some team) "c".toList { method := .get, path := "/api/auth/login".toList, headers := [] } =
        { status := 302, setCookies := [set], location := some (consentScreen ++ search) } ∧
      (∃ rest, Url.searchParams search = asked team (team.originsFor []).1 "c".toList ++ rest) ∧
      ∀ back before after, AuthConfig.host back.headers = AuthConfig.host [] → (∀ t ∈ before ++ after, Sent t) →
        (∀ t ∈ before, ¬ csrfName ++ ['='] <+: t) →
        back.headers.lookup "cookie".toList = some (encode (header (before ++ kept set :: after))) →
        ∀ google now, (∀ s, callbackSession team google now back = .ok s ↔
            back.code ≠ [] ∧ (Url.searchParams search).lookup "state".toList = some back.state ∧
              ∃ uri idToken claims, (Url.searchParams search).lookup "redirect_uri".toList = some uri ∧
                google.exchange back.code uri = some idToken ∧ google.tokenInfo idToken = some claims ∧
                admitted team (team.originsFor []).2 now claims = .ok s) ∧
          ∀ nonce location, (callback hexing jsonCodec 3 (some team) google now nonce back).location = some location →
            ∃ reason ∈ ["", "/?auth_error=invalid_state", "/?auth_error=forbidden"],
              location = (team.originsFor []).2 ++ reason.toList :=
  @login_flow Nat hexing jsonCodec 3 team "c".toList ⟨.get, "/api/auth/login".toList, [], [], []⟩ (List.all_eq_true.mp (by decide))

end AgentGrove.Auth
