import AgentGrove.Model.Secrets
import AgentGrove.Wire.Cookies
import AgentGrove.Wire.Url
import AgentGrove.Wire.Search
import AgentGrove.Wire.Value

namespace AgentGrove.Auth

open Search (breakOn)
open Secrets (Cipher)
open Utf8 (Bytes)
open Wire (Value)

def cookieName : Text := "ag_session".toList

def csrfName : Text := "ag_csrf".toList

def sessionTtlSecs : Nat := 7 * 24 * 60 * 60

structure AuthConfig where
  clientId : Text
  clientSecret : Text
  allowedDomains : List Text
  allowedEmails : List Text
  publicUrl : Text
  appUrl : Text
  extraOrigins : List Text

/-- The header fields of a request, by their names in lower case. -/
abbrev HeaderMap := List (Text × Bytes)

/-- Whether `HeaderValue::to_str` takes a byte. -/
def visible (b : UInt8) : Bool := (0x20 ≤ b && b ≤ 0x7E) || b == 0x09

def toStr (v : Bytes) : Option Text :=
  if v.all visible then some (v.map fun b => Char.ofNat b.toNat) else none

/-- `split_once`. -/
def splitOnce (pat t : Text) : Option (Text × Text) := (breakOn pat t).map fun s => (s.1, s.2.drop pat.length)

namespace AuthConfig

/-- The items of a list that stands in a variable. -/
def csvLower (value : Option Text) : List Text :=
  (((value.getD []).splitOn ',').map fun s => toAsciiLowercase (trim s)).filter fun s => !s.isEmpty

def trimSlashes (t : Text) : Text := t.rdropWhile (· = '/')

/-- The environment has a value for some names. -/
def fromEnv (env : String → Option Text) : Option AuthConfig := do
  let clientId ← env "AGENTGROVE_GOOGLE_CLIENT_ID"
  let clientSecret ← env "AGENTGROVE_GOOGLE_CLIENT_SECRET"
  if (trim clientId).isEmpty || (trim clientSecret).isEmpty then none
  else
    let publicUrl := trimSlashes ((env "AGENTGROVE_PUBLIC_URL").getD "http://localhost:4317".toList)
    some
      { clientId
        clientSecret
        allowedDomains := csvLower (env "AGENTGROVE_AUTH_ALLOWED_DOMAINS")
        allowedEmails := csvLower (env "AGENTGROVE_AUTH_ALLOWED_EMAILS")
        publicUrl
        appUrl := ((env "AGENTGROVE_APP_URL").map trimSlashes).getD publicUrl
        extraOrigins := (csvLower (env "AGENTGROVE_AUTH_EXTRA_ORIGINS")).map trimSlashes }

/-- The host that a request was made to, as its headers say. -/
def host (headers : HeaderMap) : Text :=
  let value := (headers.lookup "x-forwarded-host".toList).or (headers.lookup "host".toList)
  ((value.bind toStr).map fun v => trim (v.takeWhile (· ≠ ','))).getD []

def isFor (host origin : Text) : Bool := (splitOnce "://".toList origin).any fun s => eqIgnoreAsciiCase s.2 host

/-- Where the provider calls back, and where the user lands. -/
def originsFor (cfg : AuthConfig) (headers : HeaderMap) : Text × Text :=
  match cfg.extraOrigins.find? (isFor (host headers)) with
  | some o => (o, o)
  | none => (cfg.publicUrl, cfg.appUrl)

/-- What follows the last `@`. -/
def domain (email : Text) : Option Text :=
  if '@' ∈ email then some (email.rtakeWhile (· ≠ '@')) else none

def emailAllowed (cfg : AuthConfig) (email : Text) : Bool :=
  let email := toAsciiLowercase email
  (cfg.allowedEmails.isEmpty || cfg.allowedEmails.contains email) &&
    (cfg.allowedDomains.isEmpty || (domain email).any cfg.allowedDomains.contains)

end AuthConfig

def csrfCookie (csrf publicUrl : Text) : Text :=
  csrfName ++ '=' :: csrf ++ "; HttpOnly; SameSite=Lax; Path=/; Max-Age=600".toList ++
    (if containsText publicUrl "://localhost".toList then "; Domain=localhost".toList else []) ++
    (if "https".toList.isPrefixOf publicUrl then "; Secure".toList else [])

def redirectUri (publicUrl : Text) : Text := publicUrl ++ "/api/auth/callback".toList

structure Session where
  email : Text
  name : Text
  picture : Text
  exp : Nat
deriving DecidableEq

/-- What `serde_json` does with a session. -/
structure SessionCodec where
  toVec : Session → Bytes
  fromSlice : Bytes → Option Session

def setCookieHeader (value : Text) (maxAge : Nat) (secure : Bool) : Text :=
  cookieName ++ '=' :: value ++ "; HttpOnly; SameSite=Lax; Path=/; Max-Age=".toList ++ showNat maxAge ++
    (if secure then "; Secure".toList else [])

/-- What `urlencode` leaves alone. -/
def plain (c : Char) : Bool := c.isAlphanum || "-_.~".toList.contains c

def urlencode (t : Text) : Text := Percent.encodeWith plain t

inductive Method where
  | get
  | post
  | options
  | other
deriving DecidableEq

/-- A request, with the parameters that the provider calls back with. -/
structure Request where
  method : Method := .get
  path : Text
  headers : HeaderMap
  code : Text := []
  state : Text := []

inductive Body where
  | empty
  | text (t : Text)
  | json (v : Value)

structure Response where
  status : Nat
  setCookies : List Text := []
  location : Option Text := none
  body : Body := .empty

/-- What the provider answers: a token for a code, and what a token says. -/
structure Google where
  exchange : Text → Text → Option Text
  tokenInfo : Text → Option Value

section Sealing

variable {K : Type} (c : Cipher K) (codec : SessionCodec) (key : K)

/-- Encryption fails without a nonce. -/
def sealSession (nonce : Option Nat) (s : Session) : Option Text :=
  nonce.map fun n =>
    let sealing := c.encrypt key n (codec.toVec s)
    sealing.1 ++ '.' :: sealing.2

def openSession (now : Nat) (packed : Text) : Option Session := do
  let (ct, nonce) ← splitOnce ['.'] packed
  let bytes ← (c.decrypt key ct nonce).toOption
  let s ← codec.fromSlice bytes
  if s.exp ≤ now then none else some s

/-- The value of a cookie of the request. -/
def cookie (name : Text) (headers : HeaderMap) : Option Text :=
  ((headers.lookup "cookie".toList).bind toStr).bind (Cookies.find isWhitespace name)

def sessionFromHeaders (now : Nat) (headers : HeaderMap) : Option Session :=
  (cookie cookieName headers).bind (openSession c codec key now)

def unauthorized : Response := { status := 401 }

def redirect (location : Text) : Response := { status := 302, location := some location }

def config (auth : Option AuthConfig) : Response :=
  { status := 200
    body := .json (.object [("enabled".toList, .bool auth.isSome), ("provider".toList, .string "google".toList)]) }

def me (auth : Option AuthConfig) (username : Text) (now : Nat) (req : Request) : Response :=
  match auth with
  | none =>
    { status := 200
      body := .json (.object [("authenticated".toList, .bool false), ("auth_enabled".toList, .bool false),
        ("email".toList, .string username)]) }
  | some _ =>
    match sessionFromHeaders c codec key now req.headers with
    | some s =>
      { status := 200
        body := .json (.object [("authenticated".toList, .bool true), ("auth_enabled".toList, .bool true),
          ("email".toList, .string s.email), ("name".toList, .string s.name), ("picture".toList, .string s.picture)]) }
    | none => unauthorized

/-- The parameters of the consent screen, as they are written. -/
def consentParameters (cfg : AuthConfig) (publicUrl csrf : Text) : List (Text × Text) :=
  [("response_type".toList, "code".toList), ("client_id".toList, urlencode cfg.clientId),
    ("redirect_uri".toList, urlencode (redirectUri publicUrl)), ("scope".toList, "openid%20email%20profile".toList),
    ("state".toList, csrf), ("access_type".toList, "online".toList), ("prompt".toList, "select_account".toList)]

def consentScreen : Text := "https://accounts.google.com/o/oauth2/v2/auth".toList

def consentUrl (cfg : AuthConfig) (publicUrl csrf : Text) : Text :=
  consentScreen ++ '?' :: ['&'].intercalate ((consentParameters cfg publicUrl csrf).map fun p => p.1 ++ '=' :: p.2) ++
    (cfg.allowedDomains.head?.map fun d => "&hd=".toList ++ d).getD []

def login (auth : Option AuthConfig) (csrf : Text) (req : Request) : Response :=
  match auth with
  | none => { status := 404 }
  | some cfg =>
    let publicUrl := (cfg.originsFor req.headers).1
    { redirect (consentUrl cfg publicUrl csrf) with setCookies := [csrfCookie csrf publicUrl] }

/-- A member of the claims, if it is a text. -/
def claim (claims : Value) (name : String) : Option Text := (claims.get name.toList).bind Value.asStr

def verified (claims : Value) : Bool :=
  (claims.get "email_verified".toList).any fun v => v.asStr == some "true".toList || v.asBool == some true

def sessionOf (now : Nat) (email : Text) (claims : Value) : Session :=
  { email
    name := (claim claims "name").getD []
    picture := (claim claims "picture").getD []
    exp := now + sessionTtlSecs }

/-- The end of a login, with what the provider says of the account. -/
def admitted (cfg : AuthConfig) (app : Text) (now : Nat) (claims : Value) : Except Response Session :=
  let email := (claim claims "email").getD []
  if claim claims "aud" ≠ some cfg.clientId then .error { status := 401, body := .text "audience mismatch".toList }
  else if email.isEmpty || !verified claims || !cfg.emailAllowed email then
    .error (redirect (app ++ "/?auth_error=forbidden".toList))
  else .ok (sessionOf now email claims)

/-- `callback` up to the session that it seals. -/
def callbackSession (cfg : AuthConfig) (google : Google) (now : Nat) (req : Request) : Except Response Session :=
  let (publicUrl, app) := cfg.originsFor req.headers
  if req.code.isEmpty || cookie csrfName req.headers ≠ some req.state then
    .error (redirect (app ++ "/?auth_error=invalid_state".toList))
  else
    match google.exchange req.code (redirectUri publicUrl) with
    | none => .error { status := 502, body := .text "token exchange failed".toList }
    | some idToken =>
      match google.tokenInfo idToken with
      | none => .error { status := 502, body := .text "token verification failed".toList }
      | some claims => admitted cfg app now claims

def callback (auth : Option AuthConfig) (google : Google) (now : Nat) (nonce : Option Nat) (req : Request) : Response :=
  match auth with
  | none => { status := 404 }
  | some cfg =>
    match callbackSession cfg google now req with
    | .error r => r
    | .ok s =>
      let (publicUrl, app) := cfg.originsFor req.headers
      match sealSession c codec key nonce s with
      | none => { status := 500, body := .text "session seal failed".toList }
      | some sealing =>
        { redirect app with
          setCookies :=
            [setCookieHeader sealing sessionTtlSecs ("https".toList.isPrefixOf publicUrl),
              "ag_csrf=; HttpOnly; Path=/; Max-Age=0".toList] }

def logout (auth : Option AuthConfig) (req : Request) : Response :=
  let secure := auth.any fun cfg => "https".toList.isPrefixOf (cfg.originsFor req.headers).1
  { status := 204, setCookies := [setCookieHeader [] 0 secure] }

/-- What the guard lets through to anyone. -/
def Request.exempt (req : Request) : Bool :=
  req.method == .options || req.path == "/health".toList || "/api/auth/".toList.isPrefixOf req.path

/-- Whether `guard` passes a request on. -/
def guard (auth : Option AuthConfig) (now : Nat) (req : Request) : Bool :=
  auth.isNone || req.exempt || (sessionFromHeaders c codec key now req.headers).isSome

end Sealing

end AgentGrove.Auth
