import AgentGrove.Model.Auth
import AgentGrove.Secrets.Truth
import AgentGrove.Wire.Value

namespace AgentGrove.Auth

open Secrets (Cipher)
open Utf8 (Bytes)
open Wire (Value)

/-- A request as the server gets it: when, what the provider answers to it, the nonce that is drawn if encryption works,
and what a handler behind the guard would encrypt, which is the secrets that it saves. -/
structure Event where
  now : Nat
  req : Request
  google : Google
  nonce : Option Nat
  secrets : List Bytes

def Event.isCallback (e : Event) : Bool := e.req.method == .get && e.req.path == "/api/auth/callback".toList

def SessionCodec.Reads (codec : SessionCodec) : Prop := ∀ s, codec.fromSlice (codec.toVec s) = some s

section Runs

variable {K : Type} (c : Cipher K) (codec : SessionCodec) (key : K) (cfg : AuthConfig)

/-- A request that reaches a handler behind the guard. -/
def Served (e : Event) : Prop := e.req.exempt = false ∧ guard c codec key (some cfg) e.now e.req = true

/-- What the keyring encrypts while a request is handled. -/
inductive Encrypts (e : Event) : Bytes → Prop
  | session {n : Nat} {s : Session} (hroute : e.isCallback = true) (hs : callbackSession cfg e.google e.now e.req = .ok s)
      (hn : e.nonce = some n) : Encrypts e (codec.toVec s)
  | secret {bytes : Bytes} (hserved : Served c codec key cfg e) (hbytes : bytes ∈ e.secrets) : Encrypts e bytes

/-- Nobody else has the key: of what the requests bring, only what the keyring has encrypted decrypts. -/
def Unforged (events : List Event) : Prop :=
  ∀ done e, done ++ [e] <+: events → ∀ packed ct nonce bytes, cookie cookieName e.req.headers = some packed →
    splitOnce ['.'] packed = some (ct, nonce) → c.decrypt key ct nonce = .ok bytes →
      ∃ e₀ ∈ done, Encrypts c codec key cfg e₀ bytes

/-- A request that ends a login of an allowed account: the browser that brings the code is the one that was sent for it,
and the provider knows the account by a token that was made for this server. -/
structure SignsIn (e : Event) (s : Session) : Prop where
  route : e.isCallback = true
  code : e.req.code ≠ []
  state : cookie csrfName e.req.headers = some e.req.state
  token : ∃ idToken claims, e.google.exchange e.req.code (redirectUri (cfg.originsFor e.req.headers).1) = some idToken ∧
    e.google.tokenInfo idToken = some claims ∧ claim claims "aud" = some cfg.clientId ∧
    claim claims "email" = some s.email ∧ verified claims = true
  email : s.email ≠ []
  allowed : cfg.emailAllowed s.email = true
  lifetime : s.exp = e.now + sessionTtlSecs

end Runs

section Gate

variable {K : Type} {c : Cipher K} {codec : SessionCodec} {key : K} {cfg : AuthConfig} {e : Event} {s : Session}
  {google : Google} {now : Nat} {req : Request} {claims : Value} {app packed : Text} {headers : HeaderMap}

theorem admitted_ok (h : admitted cfg app now claims = .ok s) : claim claims "aud" = some cfg.clientId ∧
    claim claims "email" = some s.email ∧ s.email ≠ [] ∧ verified claims = true ∧ cfg.emailAllowed s.email = true ∧
    s.exp = now + sessionTtlSecs := by
  unfold admitted at h
  split at h
  · cases h
  · rename_i haud
    dsimp only at h
    split at h
    · cases h
    · rename_i hemail
      cases h
      simp only [Bool.or_eq_true, Bool.not_eq_true', not_or, Bool.not_eq_false, List.isEmpty_iff] at hemail
      obtain ⟨⟨hne, hverified⟩, hallowed⟩ := hemail
      cases hclaim : claim claims "email" with
      | none => simp [hclaim] at hne
      | some email =>
        rw [hclaim] at hne hallowed
        exact ⟨not_not.mp haud, rfl, hne, hverified, hallowed, rfl⟩

/-- A login ends with a session only after every check. -/
theorem callbackSession_ok (hroute : e.isCallback = true) (h : callbackSession cfg e.google e.now e.req = .ok s) :
    SignsIn cfg e s := by
  unfold callbackSession at h
  dsimp only at h
  split at h
  · cases h
  · rename_i hchecked
    simp only [Bool.or_eq_true, decide_eq_true_eq, not_or, not_not, List.isEmpty_iff] at hchecked
    obtain ⟨hcode, hstate⟩ := hchecked
    split at h
    · cases h
    · rename_i idToken hexchange
      split at h
      · cases h
      · rename_i claims hinfo
        obtain ⟨haud, hclaim, hemail, hverified, hallowed, hexp⟩ := admitted_ok h
        exact
          { route := hroute
            code := hcode
            state := hstate
            token := ⟨idToken, claims, hexchange, hinfo, haud, hclaim, hverified⟩
            email := hemail
            allowed := hallowed
            lifetime := hexp }

theorem openSession_some (h : openSession c codec key now packed = some s) :
    ∃ ct nonce bytes, splitOnce ['.'] packed = some (ct, nonce) ∧ c.decrypt key ct nonce = .ok bytes ∧
      codec.fromSlice bytes = some s ∧ now < s.exp := by
  simp only [openSession, Option.bind_eq_bind, Option.bind_eq_some_iff] at h
  obtain ⟨⟨ct, nonce⟩, hsplit, bytes, hdecrypt, s', hread, hexp⟩ := h
  split at hexp
  · cases hexp
  · rename_i hlt
    cases hexp
    refine ⟨ct, nonce, bytes, hsplit, ?_, hread, not_le.mp hlt⟩
    cases hres : c.decrypt key ct nonce with
    | error err => simp [hres, Except.toOption] at hdecrypt
    | ok plain =>
      rw [hres] at hdecrypt
      exact congrArg Except.ok (Option.some.inj hdecrypt)

theorem served_session (h : Served c codec key cfg e) :
    ∃ s, sessionFromHeaders c codec key e.now e.req.headers = some s := by
  obtain ⟨hexempt, hguard⟩ := h
  simpa [guard, hexempt, Option.isSome_iff_exists] using hguard

theorem session_opened (h : sessionFromHeaders c codec key now headers = some s) :
    ∃ packed, cookie cookieName headers = some packed ∧ openSession c codec key now packed = some s :=
  Option.bind_eq_some_iff.mp h

variable {events done : List Event}

/-- The session of a request was made by a login, or by a handler that saved it as a secret. -/
theorem session_origin (hcodec : codec.Reads) (hunf : Unforged c codec key cfg events) (hdone : done ++ [e] <+: events)
    (hs : sessionFromHeaders c codec key e.now e.req.headers = some s) : e.now < s.exp ∧
      ((∃ e₀ ∈ done, SignsIn cfg e₀ s) ∨
        ∃ e₁ ∈ done, Served c codec key cfg e₁ ∧ ∃ bytes ∈ e₁.secrets, codec.fromSlice bytes = some s) := by
  obtain ⟨packed, hpacked, hopened⟩ := session_opened hs
  obtain ⟨ct, nonce, bytes, hsplit, hdecrypt, hread, hexp⟩ := openSession_some hopened
  obtain ⟨e₀, he₀, henc⟩ := hunf done e hdone packed ct nonce bytes hpacked hsplit hdecrypt
  refine ⟨hexp, ?_⟩
  cases henc with
  | session hroute hs₀ hn =>
    obtain rfl : _ = s := Option.some.inj ((hcodec _).symm.trans hread)
    exact Or.inl ⟨e₀, he₀, callbackSession_ok hroute hs₀⟩
  | secret hserved hbytes => exact Or.inr ⟨e₀, he₀, hserved, bytes, hbytes, hread⟩

/-- Before the first request that is served somebody has signed in, by induction on how many requests came before. -/
theorem signed_in_before (hcodec : codec.Reads) (hunf : Unforged c codec key cfg events) (hdone : done ++ [e] <+: events)
    (h : Served c codec key cfg e) : ∃ e₀ ∈ done, ∃ s, SignsIn cfg e₀ s := by
  induction hlen : done.length using Nat.strong_induction_on generalizing done e with
  | _ n ih =>
    obtain ⟨s, hs⟩ := served_session h
    obtain ⟨-, ⟨e₀, he₀, hsign⟩ | ⟨e₁, he₁, hserved, -⟩⟩ := session_origin hcodec hunf hdone hs
    · exact ⟨e₀, he₀, s, hsign⟩
    · obtain ⟨earlier, later, rfl⟩ := List.append_of_mem he₁
      have hearlier : earlier ++ [e₁] <+: events := by
        refine List.IsPrefix.trans ?_ hdone
        exact ⟨later ++ [e], by simp⟩
      obtain ⟨e₀, he₀, hsign⟩ := ih earlier.length (by rw [← hlen]; simp) hearlier hserved rfl
      exact ⟨e₀, List.mem_append_left _ he₀, hsign⟩

/-- With logins enabled a request is served only if an allowed account has signed in before it. Its own session is one
that a login made for an allowed account at most seven days ago, or one that a handler behind the guard has encrypted
with the same key in place of a secret. -/
theorem served_signed_in (hcodec : codec.Reads) (hunf : Unforged c codec key cfg events) (hdone : done ++ [e] <+: events)
    (h : Served c codec key cfg e) :
    (∃ e₀ ∈ done, ∃ s, SignsIn cfg e₀ s) ∧
    ∃ s, sessionFromHeaders c codec key e.now e.req.headers = some s ∧ e.now < s.exp ∧
      ((∃ e₀ ∈ done, SignsIn cfg e₀ s ∧ e.now < e₀.now + sessionTtlSecs) ∨
        ∃ e₁ ∈ done, Served c codec key cfg e₁ ∧ ∃ bytes ∈ e₁.secrets, codec.fromSlice bytes = some s) := by
  refine ⟨signed_in_before hcodec hunf hdone h, ?_⟩
  obtain ⟨s, hs⟩ := served_session h
  obtain ⟨hexp, horigin⟩ := session_origin hcodec hunf hdone hs
  refine ⟨s, hs, hexp, ?_⟩
  rcases horigin with ⟨e₀, he₀, hsign⟩ | hsecret
  · exact Or.inl ⟨e₀, he₀, hsign, hsign.lifetime ▸ hexp⟩
  · exact Or.inr hsecret

end Gate

section Login

theorem breakOn_dot {t : Text} (h : '.' ∉ t) (u : Text) : Search.breakOn ['.'] (t ++ '.' :: u) = some (t, '.' :: u) := by
  induction t with
  | nil => exact Search.breakOn_start (by simp)
  | cons y t ih =>
    rw [List.mem_cons, not_or] at h
    have hstart : ¬ ['.'] <+: y :: (t ++ '.' :: u) := by simpa using h.1
    rw [List.cons_append, Search.breakOn_cons hstart, ih h.2]
    rfl

theorem splitOnce_dot {t : Text} (h : '.' ∉ t) (u : Text) : splitOnce ['.'] (t ++ '.' :: u) = some (t, u) := by
  simp [splitOnce, breakOn_dot h]

def printSession (s : Session) : Text :=
  "\x7b\"email\":\"".toList ++ (s.email.flatMap Value.escape ++ '"' ::
    (",\"name\":\"".toList ++ (s.name.flatMap Value.escape ++ '"' ::
      (",\"picture\":\"".toList ++ (s.picture.flatMap Value.escape ++ '"' ::
        (",\"exp\":".toList ++ (showNat s.exp ++ "\x7d".toList)))))))

def readSession (text : Text) : Option Session := do
  let (email, text) ← Value.unquote (text.drop 10)
  let (name, text) ← Value.unquote (text.drop 9)
  let (picture, text) ← Value.unquote (text.drop 12)
  return ⟨email, name, picture, Nat.ofDigitChars 10 ((text.drop 7).takeWhile Char.isDigit) 0⟩

def jsonCodec : SessionCodec where
  toVec s := Utf8.encode (printSession s)
  fromSlice bytes := (Utf8.fromUtf8 bytes).bind readSession

theorem takeWhile_showNat (n : Nat) (t : Text) : (showNat n ++ '}' :: t).takeWhile Char.isDigit = showNat n := by
  rw [List.takeWhile_append_of_pos]
  · simp
  · intro x hx
    rw [showNat, Nat.toList_repr] at hx
    exact Nat.isDigit_of_mem_toDigits (by decide) (by decide) hx

theorem jsonCodec_reads : jsonCodec.Reads := by
  intro s
  have hread : readSession (printSession s) = some s := by
    unfold readSession printSession
    rw [List.drop_left' (by decide), Value.unquote_quote]
    simp only [Option.bind_eq_bind, Option.bind_some]
    rw [List.drop_left' (by decide), Value.unquote_quote]
    simp only [Option.bind_some]
    rw [List.drop_left' (by decide), Value.unquote_quote]
    simp only [Option.bind_some]
    have hbrace : "\x7d".toList = '}' :: [] := by decide
    rw [List.drop_left' (by decide), hbrace, takeWhile_showNat, showNat, Nat.toList_repr, Nat.ofDigitChars_ten_toDigits]
    rfl
  simp only [jsonCodec, Utf8.fromUtf8_encode, Option.bind_some, hread]

def hexByte (b : UInt8) : Text := [Nat.digitChar (b.toNat / 16), Nat.digitChar (b.toNat % 16)]

def readHex : Text → Bytes
  | high :: low :: t => UInt8.ofNat (16 * Value.hexValue high + Value.hexValue low) :: readHex t
  | _ => []

/-- A keyring that prints in sixteen digits, with the key as the nonce. -/
def hexing : Cipher Nat where
  encrypt key _ bytes := (bytes.flatMap hexByte, List.replicate key 'k')
  decrypt key ciphertext nonce := if nonce.length = key then .ok (readHex ciphertext) else .error .decryptFailed

theorem readHex_hexByte (b : UInt8) (t : Text) : readHex (hexByte b ++ t) = b :: readHex t := by
  have hdigit : ∀ n < 16, Value.hexValue (Nat.digitChar n) = n := by decide
  have hlt := b.toNat_lt
  have hvalue : 16 * (b.toNat / 16) + b.toNat % 16 = b.toNat := by omega
  simp [hexByte, readHex, hdigit (b.toNat / 16) (by omega), hdigit (b.toNat % 16) (by omega), hvalue]

theorem hexing_lawful : hexing.Lawful where
  inverse key nonce bytes := by
    simp only [hexing, List.length_replicate, if_true]
    refine congrArg Except.ok ?_
    induction bytes with
    | nil => rfl
    | cons b bytes ih => rw [List.flatMap_cons, readHex_hexByte, ih]
  other key key' nonce bytes hkey := by
    simp only [hexing, List.length_replicate, if_neg hkey]
    exact ⟨_, rfl⟩
  base64 key nonce bytes := by
    have hall : ∀ n < 16, '.' ≠ Nat.digitChar n := by decide
    intro hdot
    obtain ⟨b, -, hb⟩ := List.mem_flatMap.mp hdot
    have hlt := b.toNat_lt
    simp only [hexByte, List.mem_cons, List.not_mem_nil, or_false] at hb
    rcases hb with hb | hb
    · exact hall _ (by omega) hb
    · exact hall _ (by omega) hb

def team : AuthConfig :=
  { clientId := "id".toList
    clientSecret := "secret".toList
    allowedDomains := ["example.com".toList]
    allowedEmails := []
    publicUrl := "https://grove.example.com".toList
    appUrl := "https://grove.example.com".toList
    extraOrigins := [] }

def google : Google where
  exchange _ _ := some "token".toList
  tokenInfo _ :=
    some (.object [("aud".toList, .string "id".toList), ("email".toList, .string "ada@example.com".toList),
      ("email_verified".toList, .string "true".toList)])

def ada : Session := ⟨"ada@example.com".toList, [], [], 100 + sessionTtlSecs⟩

def returning : Event :=
  { now := 100
    req :=
      { method := .get
        path := "/api/auth/callback".toList
        headers := [("cookie".toList, Utf8.encode "ag_csrf=c".toList)]
        code := "code".toList
        state := "c".toList }
    google
    nonce := some 0
    secrets := [] }

def reading : Event :=
  { now := 200
    req :=
      { method := .get
        path := "/api/projects".toList
        headers := [("cookie".toList, Utf8.encode ("ag_session=".toList ++ (jsonCodec.toVec ada).flatMap hexByte ++ ".kkk".toList))] }
    google
    nonce := none
    secrets := [] }

theorem returning_session : callbackSession team google 100 returning.req = .ok ada := rfl

theorem reading_sealed : cookie cookieName reading.req.headers =
    some ((hexing.encrypt 3 0 (jsonCodec.toVec ada)).1 ++ '.' :: (hexing.encrypt 3 0 (jsonCodec.toVec ada)).2) := by
  decide +kernel

theorem login_unforged : Unforged hexing jsonCodec 3 team [returning, reading] := by
  intro done e hdone packed ct nonce bytes hpacked hsplit hdecrypt
  rcases done with _ | ⟨e₀, _ | ⟨e₁, done⟩⟩
  · obtain ⟨rfl, -⟩ := List.cons_prefix_cons.mp hdone
    have hnone : cookie cookieName returning.req.headers = none := by decide +kernel
    rw [hnone] at hpacked
    cases hpacked
  · obtain ⟨hfirst, hdone⟩ := List.cons_prefix_cons.mp hdone
    obtain ⟨rfl, -⟩ := List.cons_prefix_cons.mp hdone
    subst hfirst
    obtain rfl := Option.some.inj (reading_sealed.symm.trans hpacked)
    rw [splitOnce_dot (hexing_lawful.base64 _ _ _)] at hsplit
    cases hsplit
    obtain rfl := Except.ok.inj ((hexing_lawful.inverse 3 0 _).symm.trans hdecrypt)
    exact ⟨_, List.mem_cons_self, .session rfl returning_session rfl⟩
  · have hlength := hdone.length_le
    simp at hlength

theorem served_signed_in_reading :
    (∃ e₀ ∈ [returning], ∃ s, SignsIn team e₀ s) ∧
    ∃ s, sessionFromHeaders hexing jsonCodec 3 reading.now reading.req.headers = some s ∧ reading.now < s.exp ∧
      ((∃ e₀ ∈ [returning], SignsIn team e₀ s ∧ reading.now < e₀.now + sessionTtlSecs) ∨
        ∃ e₁ ∈ [returning], Served hexing jsonCodec 3 team e₁ ∧
          ∃ bytes ∈ e₁.secrets, jsonCodec.fromSlice bytes = some s) :=
  served_signed_in jsonCodec_reads login_unforged (by simp) ⟨by decide +kernel, by decide +kernel⟩

end Login

end AgentGrove.Auth
