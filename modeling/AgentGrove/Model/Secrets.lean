import AgentGrove.Model.Records
import AgentGrove.Wire.Tables
import AgentGrove.Wire.Utf8
import Mathlib.Data.Char
import Mathlib.Data.List.Lex

namespace AgentGrove.Secrets

open Assoc (Table)
open Utf8 (Bytes encode fromUtf8)

inductive SecretError where
  | encryptFailed (e : Text)
  | decryptFailed
  | base64 (e : Text)
deriving DecidableEq

/-- What the keyring does with a key, and with the nonce that is drawn: ciphertext and nonce, printed in base64. -/
structure Cipher (K : Type) where
  encrypt : K → Nat → Bytes → Text × Text
  decrypt : K → Text → Text → Except SecretError Bytes

inductive RepoError where
  | db (e : Text)
  | secret (e : SecretError)
deriving DecidableEq

/-- Whether the keyring encrypts and the database runs the statement. -/
structure Calls where
  nonce : Nat := 0
  refreshNonce : Nat := 0
  encrypt : Except SecretError Unit := .ok ()
  sql : Except Text Unit := .ok ()

structure ProviderRow where
  baseUrl : Text
  ciphertext : Option Text
  nonce : Option Text
  updatedAt : Nat

structure TokenRow where
  accessTokenEnc : Text
  refreshTokenEnc : Option Text
  tokenType : Option Text
  scope : Option Text
  userName : Option Text
  userId : Option Text
  expiresAt : Option Int
  createdAt : Nat
  updatedAt : Nat

/-- The tables, and the key that the keyring has. -/
structure Store (K : Type) where
  key : K
  providers : Table Text ProviderRow
  tokens : Table Text TokenRow

structure ProviderSecret where
  providerId : Text
  baseUrl : Text
  apiKey : Option Text
deriving DecidableEq

structure ProviderSecretSummary where
  providerId : Text
  baseUrl : Text
  hasApiKey : Bool
deriving DecidableEq

structure IntegrationToken where
  provider : Text
  accessToken : Text
  refreshToken : Option Text
  tokenType : Option Text
  scope : Option Text
  userName : Option Text
  userId : Option Text
  expiresAt : Option Int
deriving DecidableEq

structure IntegrationSummary where
  provider : Text
  userName : Option Text
  userId : Option Text
  connected : Bool
deriving DecidableEq

/-- A statement that is not run. -/
def Calls.run {α : Type} (w : Calls) (result : α) : Except RepoError α :=
  match w.sql with
  | .ok () => .ok result
  | .error e => .error (.db e)

/-- `ORDER BY`, of texts by their bytes, which is by their characters. -/
def ordered {V : Type} (t : Table Text V) : List (Text × V) := t.rows.mergeSort (fun a b => decide (a.1 ≤ b.1))

variable {K : Type} (c : Cipher K)

def encryptText (key : K) (w : Calls) (nonce : Nat) (plaintext : Text) : Except RepoError (Text × Text) :=
  match w.encrypt with
  | .ok () => .ok (c.encrypt key nonce (encode plaintext))
  | .error e => .error (.secret e)

def decryptText (key : K) (ciphertext nonce : Text) : Option Text :=
  match c.decrypt key ciphertext nonce with
  | .ok bytes => fromUtf8 bytes
  | .error _ => none

namespace ProviderSecretRepo

def get (s : Store K) (w : Calls) (providerId : Text) : Except RepoError (Option ProviderSecret) :=
  w.run ((s.providers.get providerId).map fun row =>
    { providerId
      baseUrl := row.baseUrl
      apiKey :=
        match row.ciphertext, row.nonce with
        | some ciphertext, some nonce => decryptText c s.key ciphertext nonce
        | _, _ => none })

/-- The columns that are written for a key, unless they are left alone. -/
def sealedKey (key : K) (w : Calls) : Option Text → Except RepoError (Option (Option Text × Option Text))
  | none => .ok none
  | some [] => .ok (some (none, none))
  | some (x :: xs) => (encryptText c key w w.nonce (x :: xs)).map fun e => some (some e.1, some e.2)

def put (s : Store K) (w : Calls) (now : Nat) (providerId baseUrl : Text) (apiKey : Option Text) :
    Except RepoError (Store K) := do
  let columns ← sealedKey c s.key w apiKey
  match columns with
  | some (ciphertext, nonce) =>
    let row : ProviderRow := ⟨baseUrl, ciphertext, nonce, now⟩
    let providers := s.providers.upsert providerId row (fun _ => row)
    w.run { s with providers }
  | none =>
    let row : ProviderRow := ⟨baseUrl, none, none, now⟩
    let providers := s.providers.upsert providerId row (fun old => { old with baseUrl, updatedAt := now })
    w.run { s with providers }

def delete (s : Store K) (w : Calls) (providerId : Text) : Except RepoError (Bool × Store K) :=
  w.run ((s.providers.get providerId).isSome, { s with providers := s.providers.delete providerId })

def listSummaries (s : Store K) (w : Calls) : Except RepoError (List ProviderSecretSummary) :=
  w.run ((ordered s.providers).map fun e => ⟨e.1, e.2.baseUrl, e.2.ciphertext.isSome⟩)

end ProviderSecretRepo

namespace IntegrationRepo

def sealText (key : K) (w : Calls) (nonce : Nat) (plaintext : Text) : Except RepoError Text :=
  (encryptText c key w nonce plaintext).map fun e => e.1 ++ '.' :: e.2

/-- `split_once('.')`. -/
def splitDot (packed : Text) : Option (Text × Text) :=
  match packed.dropWhile (· ≠ '.') with
  | [] => none
  | _ :: nonce => some (packed.takeWhile (· ≠ '.'), nonce)

def openSealed (key : K) (packed : Text) : Option Text :=
  (splitDot packed).bind fun p => decryptText c key p.1 p.2

/-- What is saved of a refresh token. -/
def sealRefresh (key : K) (w : Calls) : Option Text → Except RepoError (Option Text)
  | none | some [] => .ok none
  | some (x :: xs) => (sealText c key w w.refreshNonce (x :: xs)).map some

def saveToken (s : Store K) (w : Calls) (now : Nat) (t : IntegrationToken) : Except RepoError (Store K) := do
  let access ← sealText c s.key w w.nonce t.accessToken
  let refresh ← sealRefresh c s.key w t.refreshToken
  let row : TokenRow :=
    { accessTokenEnc := access
      refreshTokenEnc := refresh
      tokenType := t.tokenType
      scope := t.scope
      userName := t.userName
      userId := t.userId
      expiresAt := t.expiresAt
      createdAt := now
      updatedAt := now }
  let tokens := s.tokens.upsert t.provider row (fun old => { row with createdAt := old.createdAt })
  w.run { s with tokens }

def getToken (s : Store K) (w : Calls) (provider : Text) : Except RepoError (Option IntegrationToken) :=
  w.run ((s.tokens.get provider).bind fun row =>
    (openSealed c s.key row.accessTokenEnc).map fun accessToken =>
      { provider
        accessToken
        refreshToken := row.refreshTokenEnc.bind (openSealed c s.key)
        tokenType := row.tokenType
        scope := row.scope
        userName := row.userName
        userId := row.userId
        expiresAt := row.expiresAt })

def deleteToken (s : Store K) (w : Calls) (provider : Text) : Except RepoError (Bool × Store K) :=
  w.run ((s.tokens.get provider).isSome, { s with tokens := s.tokens.delete provider })

def listConnections (s : Store K) (w : Calls) : Except RepoError (List IntegrationSummary) :=
  w.run ((ordered s.tokens).map fun e => ⟨e.1, e.2.userName, e.2.userId, true⟩)

end IntegrationRepo

end AgentGrove.Secrets
