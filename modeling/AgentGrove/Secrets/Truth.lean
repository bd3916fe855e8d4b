import AgentGrove.Model.Secrets
import AgentGrove.Proofs.Basic
import AgentGrove.Wire.Search
import Mathlib.Logic.Function.Basic

namespace AgentGrove.Secrets

open Assoc (Table)
open Results (bind_ok map_ok)
open Utf8 (encode)

variable {K : Type}

/-- A key decrypts what was encrypted with it, and nothing else. There is no dot in base64. -/
structure Cipher.Lawful (c : Cipher K) : Prop where
  inverse : ∀ key nonce bytes, c.decrypt key (c.encrypt key nonce bytes).1 (c.encrypt key nonce bytes).2 = .ok bytes
  other : ∀ key key' nonce bytes, key ≠ key' →
    ∃ e, c.decrypt key' (c.encrypt key nonce bytes).1 (c.encrypt key nonce bytes).2 = .error e
  base64 : ∀ key nonce bytes, '.' ∉ (c.encrypt key nonce bytes).1

/-- What the two stores are for: a map of secrets, each with the key that it was written under. -/
structure Known (K : Type) where
  providers : Text → Option (Text × Option (K × Text))
  tokens : Text → Option (K × IntegrationToken)

inductive Op (K : Type) where
  | put (w : Calls) (now : Nat) (providerId baseUrl : Text) (apiKey : Option Text)
  | delete (w : Calls) (providerId : Text)
  | saveToken (w : Calls) (now : Nat) (t : IntegrationToken)
  | deleteToken (w : Calls) (provider : Text)
  | replaceKey (key : K)

/-- An empty key clears the one that is there, and none leaves it. -/
def secretAfter (key : K) (old : Option (K × Text)) : Option Text → Option (K × Text)
  | none => old
  | some [] => none
  | some (x :: xs) => some (key, x :: xs)

def Known.after (m : Known K) (key : K) : Op K → Known K
  | .put _ _ providerId baseUrl apiKey =>
    { m with
      providers := Function.update m.providers providerId
        (some (baseUrl, secretAfter key ((m.providers providerId).bind Prod.snd) apiKey)) }
  | .delete _ providerId => { m with providers := Function.update m.providers providerId none }
  | .saveToken _ _ t =>
    { m with
      tokens := Function.update m.tokens t.provider
        (some (key, { t with refreshToken := t.refreshToken.filter (fun r => !r.isEmpty) })) }
  | .deleteToken _ provider => { m with tokens := Function.update m.tokens provider none }
  | .replaceKey _ => m

/-- What of a secret can be read with a key. -/
def readable [DecidableEq K] {α : Type} (key : K) (e : K × α) : Option α := if e.1 = key then some e.2 else none

section Runs

variable (c : Cipher K)

def exec (s : Store K) : Op K → Except RepoError (Store K)
  | .put w now providerId baseUrl apiKey => ProviderSecretRepo.put c s w now providerId baseUrl apiKey
  | .delete w providerId => (ProviderSecretRepo.delete s w providerId).map Prod.snd
  | .saveToken w now t => IntegrationRepo.saveToken c s w now t
  | .deleteToken w provider => (IntegrationRepo.deleteToken s w provider).map Prod.snd
  | .replaceKey key => .ok { s with key }

/-- An operation, and what is known after it. One that fails changes nothing. -/
def serve (σ : Store K × Known K) (op : Op K) : Store K × Known K :=
  match exec c σ.1 op with
  | .ok s => (s, σ.2.after σ.1.key op)
  | .error _ => σ

/-- A run from empty tables. -/
def play (key : K) (ops : List (Op K)) : Store K × Known K :=
  ops.foldl (serve c) (⟨key, Table.empty, Table.empty⟩, ⟨fun _ => none, fun _ => none⟩)

/-- The listings tell of just those secrets that are read. -/
structure Truthful (s : Store K) : Prop where
  providers : ∀ list, ProviderSecretRepo.listSummaries s {} = .ok list → ∀ id,
    (∃ x ∈ list, x.providerId = id ∧ x.hasApiKey = true) ↔
      ∃ secret, ProviderSecretRepo.get c s {} id = .ok (some secret) ∧ secret.apiKey.isSome = true
  tokens : ∀ list, IntegrationRepo.listConnections s {} = .ok list → ∀ provider,
    (∃ x ∈ list, x.provider = provider ∧ x.connected = true) ↔
      ∃ token, IntegrationRepo.getToken c s {} provider = .ok (some token)

end Runs

/-- Every secret that is stored was written under the key that is in use. -/
structure Current (key : K) (m : Known K) : Prop where
  providers : ∀ id e secret, m.providers id = some e → e.2 = some secret → secret.1 = key
  tokens : ∀ provider token, m.tokens provider = some token → token.1 = key

/-- A text that was encrypted with a key, with some nonce. -/
def Sealed (c : Cipher K) (key : K) (plaintext ciphertext nonce : Text) : Prop :=
  ∃ n, c.encrypt key n (encode plaintext) = (ciphertext, nonce)

def Packed (c : Cipher K) (key : K) (plaintext packed : Text) : Prop :=
  ∃ ciphertext nonce, Sealed c key plaintext ciphertext nonce ∧ packed = ciphertext ++ '.' :: nonce

/-- The columns of a secret. -/
inductive Columns (c : Cipher K) : Option (K × Text) → Option Text → Option Text → Prop where
  | none : Columns c none none none
  | some {key : K} {plaintext ciphertext nonce : Text} (h : Sealed c key plaintext ciphertext nonce) :
    Columns c (some (key, plaintext)) (some ciphertext) (some nonce)

structure ProviderRow.Holds (c : Cipher K) (row : ProviderRow) (e : Text × Option (K × Text)) : Prop where
  baseUrl : row.baseUrl = e.1
  columns : Columns c e.2 row.ciphertext row.nonce

structure TokenRow.Holds (c : Cipher K) (provider : Text) (row : TokenRow) (e : K × IntegrationToken) : Prop where
  access : Packed c e.1 e.2.accessToken row.accessTokenEnc
  refresh : Option.Rel (fun packed plaintext => Packed c e.1 plaintext packed) row.refreshTokenEnc e.2.refreshToken
  fields : e.2 = ⟨provider, e.2.accessToken, e.2.refreshToken, row.tokenType, row.scope, row.userName, row.userId,
    row.expiresAt⟩

/-- The tables hold what is known. -/
structure Represents (c : Cipher K) (s : Store K) (m : Known K) : Prop where
  providers : s.providers.Tracks (fun _ => ProviderRow.Holds c) m.providers
  tokens : s.tokens.Tracks (TokenRow.Holds c) m.tokens

section Reading

variable [DecidableEq K] {c : Cipher K} {s : Store K} {m : Known K} {key key' : K}
  {plaintext ciphertext nonce packed : Text}

theorem Sealed.decrypt (hc : c.Lawful) (h : Sealed c key plaintext ciphertext nonce) :
    decryptText c key' ciphertext nonce = readable key' (key, plaintext) := by
  obtain ⟨n, hn⟩ := h
  unfold decryptText readable
  by_cases hkey : key = key'
  · subst hkey
    have hopen := hc.inverse key n (encode plaintext)
    rw [hn] at hopen
    rw [hopen, if_pos rfl]
    exact Utf8.fromUtf8_encode plaintext
  · obtain ⟨e, he⟩ := hc.other key key' n (encode plaintext) hkey
    rw [hn] at he
    rw [he, if_neg hkey]

theorem splitDot_concat (h : '.' ∉ ciphertext) : IntegrationRepo.splitDot (ciphertext ++ '.' :: nonce) =
    some (ciphertext, nonce) := by
  unfold IntegrationRepo.splitDot
  rw [Search.dropWhile_sep h, Search.takeWhile_sep h]

theorem Packed.openSealed (hc : c.Lawful) (h : Packed c key plaintext packed) :
    IntegrationRepo.openSealed c key' packed = readable key' (key, plaintext) := by
  obtain ⟨ciphertext, nonce, hsealed, rfl⟩ := h
  have hdot : '.' ∉ ciphertext := by
    obtain ⟨n, hn⟩ := hsealed
    have hdot := hc.base64 key n (encode plaintext)
    rwa [hn] at hdot
  unfold IntegrationRepo.openSealed
  rw [splitDot_concat hdot, Option.bind_some]
  exact hsealed.decrypt hc

theorem get_eq (hc : c.Lawful) (h : Represents c s m) (id : Text) : ProviderSecretRepo.get c s {} id =
    .ok ((m.providers id).map fun e => ⟨id, e.1, e.2.bind (readable s.key)⟩) := by
  unfold ProviderSecretRepo.get Calls.run
  dsimp only
  generalize hrow : s.providers.get id = row, he : m.providers id = e
  have hrel := h.providers id
  rw [hrow, he] at hrel
  cases hrel with
  | none => rfl
  | @some row e hholds =>
    obtain ⟨url, secret⟩ := e
    obtain ⟨baseUrl, ciphertext, nonce, updatedAt⟩ := row
    obtain ⟨hurl, hcolumns⟩ := hholds
    dsimp only at hurl hcolumns
    cases hcolumns with
    | none => simp [hurl]
    | some hsealed => simp [hurl, hsealed.decrypt hc]

theorem getToken_eq (hc : c.Lawful) (h : Represents c s m) (provider : Text) :
    IntegrationRepo.getToken c s {} provider = .ok ((m.tokens provider).bind (readable s.key)) := by
  unfold IntegrationRepo.getToken Calls.run
  dsimp only
  generalize hrow : s.tokens.get provider = row, he : m.tokens provider = e
  have hrel := h.tokens provider
  rw [hrow, he] at hrel
  cases hrel with
  | none => rfl
  | @some row e hholds =>
    obtain ⟨key, token⟩ := e
    obtain ⟨haccess, hrefresh, hfields⟩ := hholds
    dsimp only at haccess hrefresh hfields
    rw [Option.bind_some, Option.bind_some, haccess.openSealed hc]
    unfold readable
    by_cases hkey : key = s.key
    · have hopen : row.refreshTokenEnc.bind (IntegrationRepo.openSealed c s.key) = token.refreshToken := by
        generalize row.refreshTokenEnc = enc at hrefresh
        generalize token.refreshToken = refresh at hrefresh
        cases hrefresh with
        | none => rfl
        | some hpacked =>
          rw [Option.bind_some, hpacked.openSealed hc]
          exact if_pos hkey
      rw [if_pos hkey, if_pos hkey, Option.map_some, hopen]
      exact congrArg (fun t => Except.ok (some t)) hfields.symm
    · rw [if_neg hkey, if_neg hkey]
      rfl

end Reading

section Writing

variable {c : Cipher K} {s s' : Store K} {m : Known K} {key : K} {w : Calls} {plaintext : Text} {n : Nat} {op : Op K}

theorem run_ok {α : Type} {result out : α} (h : w.run result = .ok out) : out = result := by
  unfold Calls.run at h
  split at h
  · exact (Except.ok.inj h).symm
  · cases h

theorem encryptText_ok {out : Text × Text} (h : encryptText c key w n plaintext = .ok out) :
    Sealed c key plaintext out.1 out.2 := by
  unfold encryptText at h
  split at h
  · exact ⟨n, Except.ok.inj h⟩
  · cases h

theorem sealText_ok {packed : Text} (h : IntegrationRepo.sealText c key w n plaintext = .ok packed) :
    Packed c key plaintext packed := by
  obtain ⟨out, hout, rfl⟩ := map_ok h
  exact ⟨out.1, out.2, encryptText_ok hout, rfl⟩

theorem sealRefresh_ok {refresh enc : Option Text} (h : IntegrationRepo.sealRefresh c key w refresh = .ok enc) :
    Option.Rel (fun packed plaintext => Packed c key plaintext packed) enc (refresh.filter (fun r => !r.isEmpty)) := by
  match refresh with
  | none | some [] =>
    obtain rfl := Except.ok.inj h
    exact .none
  | some (x :: xs) =>
    obtain ⟨packed, hpacked, rfl⟩ := map_ok h
    exact .some (sealText_ok hpacked)

/-- The columns that are written, if any are. -/
theorem sealedKey_ok {apiKey : Option Text} {out : Option (Option Text × Option Text)}
    (h : ProviderSecretRepo.sealedKey c key w apiKey = .ok out) :
    (out = none ∧ apiKey = none) ∨
      ∃ ciphertext nonce, out = some (ciphertext, nonce) ∧
        ∀ old, Columns c (secretAfter key old apiKey) ciphertext nonce := by
  match apiKey with
  | none => exact .inl ⟨(Except.ok.inj h).symm, rfl⟩
  | some [] => exact .inr ⟨none, none, (Except.ok.inj h).symm, fun _ => .none⟩
  | some (x :: xs) =>
    obtain ⟨e, he, rfl⟩ := map_ok h
    exact .inr ⟨some e.1, some e.2, rfl, fun _ => .some (encryptText_ok he)⟩

theorem put_represents {now : Nat} {id url : Text} {apiKey : Option Text} (h : Represents c s m)
    (hput : ProviderSecretRepo.put c s w now id url apiKey = .ok s') :
    Represents c s' (m.after s.key (.put w now id url apiKey)) := by
  obtain ⟨columns, hcolumns, hput⟩ := bind_ok hput
  rcases sealedKey_ok hcolumns with ⟨rfl, rfl⟩ | ⟨ciphertext, nonce, rfl, hnew⟩
  · obtain rfl := run_ok hput
    refine ⟨h.providers.upsert ?_, h.tokens⟩
    have hold := h.providers id
    generalize s.providers.get id = row at hold
    generalize hm : m.providers id = e at hold
    cases hold with
    | none => exact ⟨rfl, by simpa [secretAfter] using Columns.none⟩
    | some hholds => exact ⟨rfl, by simpa [secretAfter] using hholds.columns⟩
  · obtain rfl := run_ok hput
    refine ⟨h.providers.upsert ?_, h.tokens⟩
    generalize s.providers.get id = row
    cases row with
    | none => exact ⟨rfl, hnew _⟩
    | some row => exact ⟨rfl, hnew _⟩

theorem saveToken_represents {now : Nat} {t : IntegrationToken} (h : Represents c s m)
    (hsave : IntegrationRepo.saveToken c s w now t = .ok s') :
    Represents c s' (m.after s.key (.saveToken w now t)) := by
  obtain ⟨access, haccess, hsave⟩ := bind_ok hsave
  obtain ⟨refresh, hrefresh, hsave⟩ := bind_ok hsave
  obtain rfl := run_ok hsave
  refine ⟨h.providers, h.tokens.upsert ?_⟩
  generalize s.tokens.get t.provider = row
  cases row with
  | none => exact ⟨sealText_ok haccess, sealRefresh_ok hrefresh, rfl⟩
  | some row => exact ⟨sealText_ok haccess, sealRefresh_ok hrefresh, rfl⟩

theorem exec_represents (h : Represents c s m) (hexec : exec c s op = .ok s') : Represents c s' (m.after s.key op) := by
  cases op with
  | put w now id url apiKey => exact put_represents h hexec
  | delete w id =>
    obtain ⟨out, hout, rfl⟩ := map_ok hexec
    obtain rfl := run_ok hout
    exact ⟨h.providers.delete, h.tokens⟩
  | saveToken w now t => exact saveToken_represents h hexec
  | deleteToken w provider =>
    obtain ⟨out, hout, rfl⟩ := map_ok hexec
    obtain rfl := run_ok hout
    exact ⟨h.providers, h.tokens.delete⟩
  | replaceKey key =>
    obtain rfl := Except.ok.inj hexec
    exact ⟨h.providers, h.tokens⟩

theorem serve_represents {σ : Store K × Known K} (h : Represents c σ.1 σ.2) (op : Op K) :
    Represents c (serve c σ op).1 (serve c σ op).2 := by
  unfold serve
  split
  · rename_i hexec
    exact exec_represents h hexec
  · exact h

theorem play_represents (c : Cipher K) (key : K) (ops : List (Op K)) :
    Represents c (play c key ops).1 (play c key ops).2 := by
  have hrun {σ : Store K × Known K} (h : Represents c σ.1 σ.2) :
      Represents c (ops.foldl (serve c) σ).1 (ops.foldl (serve c) σ).2 := by
    induction ops generalizing σ with
    | nil => exact h
    | cons op ops ih => exact ih (serve_represents h op)
  exact hrun ⟨fun _ => .none, fun _ => .none⟩

end Writing

section Listing

variable {c : Cipher K} {s : Store K} {m : Known K}

theorem mem_ordered {V : Type} {t : Table Text V} {key : Text} {row : V} :
    (key, row) ∈ ordered t ↔ t.get key = some row := by
  unfold ordered
  rw [List.mem_mergeSort]
  exact Table.mem_rows

/-- A key is listed where one is stored, whichever key wrote it. -/
theorem mem_listSummaries (h : Represents c s m) {list : List ProviderSecretSummary}
    (hlist : ProviderSecretRepo.listSummaries s {} = .ok list) (id : Text) :
    (∃ x ∈ list, x.providerId = id ∧ x.hasApiKey = true) ↔ ∃ url secret, m.providers id = some (url, some secret) := by
  obtain rfl := Except.ok.inj hlist
  have hrel := h.providers id
  constructor
  · rintro ⟨x, hx, rfl, hkey⟩
    obtain ⟨⟨key, row⟩, hrow, rfl⟩ := List.mem_map.mp hx
    rw [mem_ordered.mp hrow] at hrel
    generalize m.providers key = e at hrel
    cases hrel with
    | @some row e hholds =>
      obtain ⟨url, secret⟩ := e
      have hcolumns := hholds.columns
      dsimp only at hkey hcolumns
      generalize row.ciphertext = ciphertext, row.nonce = nonce at hkey hcolumns
      cases hcolumns with
      | none => cases hkey
      | some hsealed => exact ⟨url, _, rfl⟩
  · rintro ⟨url, secret, hm⟩
    rw [hm] at hrel
    generalize hrow : s.providers.get id = row at hrel
    cases hrel with
    | @some row e hholds =>
      refine ⟨_, List.mem_map.mpr ⟨(id, row), mem_ordered.mpr hrow, rfl⟩, rfl, ?_⟩
      have hcolumns := hholds.columns
      dsimp only at hcolumns ⊢
      generalize row.ciphertext = ciphertext, row.nonce = nonce at hcolumns ⊢
      cases hcolumns with
      | some hsealed => rfl

/-- Every provider with a row is listed as connected. -/
theorem mem_listConnections (h : Represents c s m) {list : List IntegrationSummary}
    (hlist : IntegrationRepo.listConnections s {} = .ok list) (provider : Text) :
    (∃ x ∈ list, x.provider = provider ∧ x.connected = true) ↔ ∃ token, m.tokens provider = some token := by
  obtain rfl := Except.ok.inj hlist
  have hrel := h.tokens provider
  constructor
  · rintro ⟨x, hx, rfl, -⟩
    obtain ⟨⟨key, row⟩, hrow, rfl⟩ := List.mem_map.mp hx
    rw [mem_ordered.mp hrow] at hrel
    generalize m.tokens key = e at hrel
    cases hrel with
    | @some _ token _ => exact ⟨token, rfl⟩
  · rintro ⟨token, hm⟩
    rw [hm] at hrel
    generalize hrow : s.tokens.get provider = row at hrel
    cases hrel with
    | @some row _ _ => exact ⟨_, List.mem_map.mpr ⟨(provider, row), mem_ordered.mpr hrow, rfl⟩, rfl, rfl⟩

variable [DecidableEq K]

theorem readable_isSome {α : Type} {key : K} {e : K × α} : (readable key e).isSome = true ↔ e.1 = key := by
  unfold readable
  split <;> simp_all

theorem get_key_iff (hc : c.Lawful) (h : Represents c s m) (id : Text) :
    (∃ secret, ProviderSecretRepo.get c s {} id = .ok (some secret) ∧ secret.apiKey.isSome = true) ↔
      ∃ url secret, m.providers id = some (url, some secret) ∧ secret.1 = s.key := by
  rw [get_eq hc h]
  constructor
  · rintro ⟨out, hout, hkey⟩
    obtain ⟨⟨url, secret⟩, hm, rfl⟩ := Option.map_eq_some_iff.mp (Except.ok.inj hout)
    cases secret with
    | none => cases hkey
    | some secret => exact ⟨url, secret, hm, readable_isSome.mp hkey⟩
  · rintro ⟨url, secret, hm, hkey⟩
    rw [hm]
    exact ⟨_, rfl, readable_isSome.mpr hkey⟩

theorem getToken_iff (hc : c.Lawful) (h : Represents c s m) (provider : Text) :
    (∃ token, IntegrationRepo.getToken c s {} provider = .ok (some token)) ↔
      ∃ token, m.tokens provider = some token ∧ token.1 = s.key := by
  rw [getToken_eq hc h]
  constructor
  · rintro ⟨out, hout⟩
    obtain ⟨token, hm, hread⟩ := Option.bind_eq_some_iff.mp (Except.ok.inj hout)
    exact ⟨token, hm, readable_isSome.mp (Option.isSome_iff_exists.mpr ⟨out, hread⟩)⟩
  · rintro ⟨token, hm, hkey⟩
    rw [hm]
    exact ⟨token.2, congrArg Except.ok (if_pos hkey)⟩

theorem truthful_iff (hc : c.Lawful) (h : Represents c s m) : Truthful c s ↔ Current s.key m := by
  constructor
  · rintro ⟨hproviders, htokens⟩
    refine ⟨?_, ?_⟩
    · rintro id ⟨url, secret⟩ _ hm rfl
      have hlisted := (mem_listSummaries h rfl id).mpr ⟨url, _, hm⟩
      have hread := (hproviders _ rfl id).mp hlisted
      obtain ⟨url', secret', hm', hkey⟩ := (get_key_iff hc h id).mp hread
      rw [hm] at hm'
      cases hm'
      exact hkey
    · intro provider token hm
      have hlisted := (mem_listConnections h rfl provider).mpr ⟨token, hm⟩
      have hread := (htokens _ rfl provider).mp hlisted
      obtain ⟨token', hm', hkey⟩ := (getToken_iff hc h provider).mp hread
      rw [hm] at hm'
      cases hm'
      exact hkey
  · rintro ⟨hproviders, htokens⟩
    refine ⟨?_, ?_⟩
    · intro list hlist id
      rw [mem_listSummaries h hlist, get_key_iff hc h]
      constructor
      · rintro ⟨url, secret, hm⟩
        exact ⟨url, secret, hm, hproviders id _ _ hm rfl⟩
      · rintro ⟨url, secret, hm, -⟩
        exact ⟨url, secret, hm⟩
    · intro list hlist provider
      rw [mem_listConnections h hlist, getToken_iff hc h]
      constructor
      · rintro ⟨token, hm⟩
        exact ⟨token, hm, htokens provider token hm⟩
      · rintro ⟨token, hm, -⟩
        exact ⟨token, hm⟩

end Listing

/-- After any run a secret is what was last written, while the key that wrote it is in use. The listings agree with that
just where no secret of an older key is left. -/
theorem secrets_truthful_iff [DecidableEq K] {c : Cipher K} (hc : c.Lawful) (key : K) (ops : List (Op K)) :
    let σ := play c key ops
    (∀ id, ProviderSecretRepo.get c σ.1 {} id =
      .ok ((σ.2.providers id).map fun e => ⟨id, e.1, e.2.bind (readable σ.1.key)⟩)) ∧
    (∀ provider, IntegrationRepo.getToken c σ.1 {} provider = .ok ((σ.2.tokens provider).bind (readable σ.1.key))) ∧
    (Truthful c σ.1 ↔ Current σ.1.key σ.2) := by
  intro σ
  have hσ : Represents c σ.1 σ.2 := play_represents c key ops
  exact ⟨get_eq hc hσ, getToken_eq hc hσ, truthful_iff hc hσ⟩

/-- A keyring that prints a byte as one character, and the key as the nonce. -/
def printing : Cipher Nat where
  encrypt key _ bytes := (bytes.map (fun b => Char.ofNat (b.toNat + 256)), List.replicate key 'k')
  decrypt key ciphertext nonce :=
    if nonce.length = key then .ok (ciphertext.map (fun x => UInt8.ofNat (x.toNat - 256))) else .error .decryptFailed

theorem printed_byte (b : UInt8) : (Char.ofNat (b.toNat + 256)).toNat = b.toNat + 256 := by
  have hvalid : (b.toNat + 256).isValidChar := by
    have hb := b.toNat_lt
    exact Or.inl (by omega)
  unfold Char.ofNat
  rw [dif_pos hvalid]
  rfl

theorem printing_lawful : printing.Lawful where
  inverse key nonce bytes := by
    simp only [printing, List.length_replicate, if_true, List.map_map]
    refine congrArg Except.ok (List.map_id'' (fun b => ?_) bytes)
    simp [printed_byte]
  other key key' nonce bytes hkey := by
    simp only [printing, List.length_replicate, if_neg hkey]
    exact ⟨_, rfl⟩
  base64 key nonce bytes := by
    intro hdot
    obtain ⟨b, -, hb⟩ := List.mem_map.mp hdot
    have hdot := congrArg Char.toNat hb
    rw [printed_byte] at hdot
    simp at hdot

theorem ordered_singleton {V : Type} {t : Table Text V} {e : Text × V} (h : t.rows = [e]) : ordered t = [e] := by
  rw [ordered, h, List.mergeSort_singleton]

/-- A key and a token that are saved, before the key of the keyring is replaced. -/
def rotation : List (Op Nat) :=
  [.put {} 1 "openai".toList "https://api".toList (some "sk".toList),
    .saveToken {} 2 ⟨"github".toList, "gho".toList, none, none, none, none, none, none⟩, .replaceKey 1]

theorem secrets_truthful_rotation :
    let σ := play printing 0 rotation
    (∀ id, ProviderSecretRepo.get printing σ.1 {} id =
      .ok ((σ.2.providers id).map fun e => ⟨id, e.1, e.2.bind (readable σ.1.key)⟩)) ∧
    (∀ provider, IntegrationRepo.getToken printing σ.1 {} provider = .ok ((σ.2.tokens provider).bind (readable σ.1.key))) ∧
    (Truthful printing σ.1 ↔ Current σ.1.key σ.2) :=
  secrets_truthful_iff printing_lawful 0 rotation

/-- Both are listed, and neither is read. -/
theorem replaced_key_listed :
    let s := (play printing 0 rotation).1
    ProviderSecretRepo.listSummaries s {} = .ok [⟨"openai".toList, "https://api".toList, true⟩] ∧
    ProviderSecretRepo.get printing s {} "openai".toList = .ok (some ⟨"openai".toList, "https://api".toList, none⟩) ∧
    IntegrationRepo.listConnections s {} = .ok [⟨"github".toList, none, none, true⟩] ∧
    IntegrationRepo.getToken printing s {} "github".toList = .ok none ∧
    ¬ Truthful printing s := by
  have hlist : IntegrationRepo.listConnections (play printing 0 rotation).1 {} =
      .ok [⟨"github".toList, none, none, true⟩] := by
    unfold IntegrationRepo.listConnections
    rw [ordered_singleton (t := (play printing 0 rotation).1.tokens) rfl]
    rfl
  have hsummaries : ProviderSecretRepo.listSummaries (play printing 0 rotation).1 {} =
      .ok [⟨"openai".toList, "https://api".toList, true⟩] := by
    unfold ProviderSecretRepo.listSummaries
    rw [ordered_singleton (t := (play printing 0 rotation).1.providers) rfl]
    rfl
  have htoken : IntegrationRepo.getToken printing (play printing 0 rotation).1 {} "github".toList = .ok none := by decide
  refine ⟨hsummaries, by decide, hlist, htoken, ?_⟩
  intro htruthful
  obtain ⟨token, hread⟩ := (htruthful.tokens _ hlist "github".toList).mp ⟨_, List.mem_cons_self, rfl, rfl⟩
  rw [htoken] at hread
  cases hread

end AgentGrove.Secrets
