import AgentGrove.Auth.Gate

namespace AgentGrove.Auth

open Cookies (Crumb header)
open Secrets (Cipher)
open Utf8 (Bytes encode)

def base64Char (x : Char) : Bool := x.isAlphanum || ['+', '/', '='].contains x

/-- The keyring prints in base64. -/
structure Prints {K : Type} (c : Cipher K) : Prop where
  ciphertext : ∀ key n bytes, ∀ x ∈ (c.encrypt key n bytes).1, base64Char x = true
  nonce : ∀ key n bytes, ∀ x ∈ (c.encrypt key n bytes).2, base64Char x = true

/-- The characters that a header field is made of. -/
def printable (x : Char) : Bool := 0x20 ≤ x.toNat && x.toNat ≤ 0x7E

/-- A cookie as a browser sends it. -/
structure Sent (t : Text) : Prop where
  crumb : Crumb isWhitespace t
  printable : ∀ x ∈ t, printable x = true

/-- What a browser keeps of a `Set-Cookie` header and sends back. -/
def kept (setCookie : Text) : Text := setCookie.takeWhile (· ≠ ';')

section Characters

variable {x : Char} {t u : Text}

theorem lt_of_val_le {most : UInt32} (h : x.val ≤ most) (hmost : most.toNat < 128) : x.toNat < 128 :=
  Nat.lt_of_le_of_lt (UInt32.le_iff_toNat_le.mp h) hmost

theorem base64_lt (h : base64Char x = true) : x.toNat < 128 := by
  rcases Bool.or_eq_true _ _ ▸ h with halnum | hother
  · rcases (Bool.or_eq_true x.isAlpha x.isDigit).mp halnum with halpha | hdigit
    · rcases (Bool.or_eq_true x.isUpper x.isLower).mp halpha with hupper | hlower
      · exact lt_of_val_le (of_decide_eq_true hupper).2 (by decide)
      · exact lt_of_val_le (of_decide_eq_true (Bool.and_eq_true_iff.mp hlower).2) (by decide)
    · exact lt_of_val_le (of_decide_eq_true (Bool.and_eq_true_iff.mp hdigit).2) (by decide)
  · have hall : ['+', '/', '='].all (fun y => decide (y.toNat < 128)) = true := by decide
    exact of_decide_eq_true (List.all_eq_true.mp hall x (List.contains_iff_mem.mp hother))

theorem base64_printable (h : base64Char x = true) :
    printable x = true ∧ x ≠ ';' ∧ x ≠ '.' ∧ isWhitespace x = false := by
  have hall : ∀ n < 128, base64Char (Char.ofNat n) = true → printable (Char.ofNat n) = true ∧ Char.ofNat n ≠ ';' ∧
      Char.ofNat n ≠ '.' ∧ isWhitespace (Char.ofNat n) = false := by decide
  simpa using hall x.toNat (base64_lt h) (by simpa using h)

theorem encodeChar_printable (h : printable x = true) : String.utf8EncodeChar x = [UInt8.ofNat x.toNat] := by
  simp only [printable, Bool.and_eq_true, decide_eq_true_eq] at h
  have hle : x.val.toNat ≤ 127 := h.2.trans (by decide)
  unfold String.utf8EncodeChar
  rw [if_pos hle]
  rfl

theorem visible_printable (h : printable x = true) : visible (UInt8.ofNat x.toNat) = true ∧
    Char.ofNat (UInt8.ofNat x.toNat).toNat = x := by
  simp only [printable, Bool.and_eq_true, decide_eq_true_eq] at h
  have hmod : x.toNat % 256 = x.toNat := Nat.mod_eq_of_lt (by omega)
  constructor
  · simp only [visible, Bool.or_eq_true, Bool.and_eq_true, decide_eq_true_eq, UInt8.le_iff_toNat_le, UInt8.toNat_ofNat']
    left
    rw [hmod]
    exact h
  · rw [UInt8.toNat_ofNat', hmod, Char.ofNat_toNat]

/-- A header field of printable characters is read as it was written. -/
theorem toStr_encode (h : ∀ x ∈ t, printable x = true) : toStr (encode t) = some t := by
  have hbytes : encode t = t.map fun x => UInt8.ofNat x.toNat := by
    rw [encode, List.map_eq_flatMap]
    exact List.flatMap_congr fun x hx => encodeChar_printable (h x hx)
  unfold toStr
  rw [hbytes, if_pos, List.map_map]
  · exact congrArg some ((List.map_congr_left fun x hx => (visible_printable (h x hx)).2).trans (List.map_id t))
  · rw [List.all_map, List.all_eq_true]
    exact fun x hx => (visible_printable (h x hx)).1

theorem trim_id (h : ∀ x ∈ t, isWhitespace x = false) : Cookies.trim isWhitespace t = t := by
  have hdrop : t.dropWhile isWhitespace = t := by
    cases t with
    | nil => rfl
    | cons y ys => simp [h y List.mem_cons_self]
  unfold Cookies.trim
  rw [hdrop, List.rdropWhile_eq_self_iff]
  intro hne
  simp [h _ (List.getLast_mem hne)]

end Characters

section Sessions

variable {K : Type} {c : Cipher K} {codec : SessionCodec} {key : K} {cfg : AuthConfig} {s : Session}
  {google : Google} {now later n : Nat} {req : Request} {packed : Text} {headers : HeaderMap} {before after : List Text}

theorem openSession_seal (hc : c.Lawful) (hcodec : codec.Reads) (hseal : sealSession c codec key (some n) s = some packed) :
    openSession c codec key later packed = if later < s.exp then some s else none := by
  obtain rfl := Option.some.inj hseal
  have hsplit := splitOnce_dot (hc.base64 key n (codec.toVec s)) (c.encrypt key n (codec.toVec s)).2
  simp only [openSession, hsplit, Option.bind_eq_bind, Option.bind_some, hc.inverse, Except.toOption, hcodec s]
  by_cases hexp : s.exp ≤ later
  · rw [if_pos hexp, if_neg (not_lt.mpr hexp)]
  · rw [if_neg hexp, if_pos (not_le.mp hexp)]

/-- The sealed session goes through a header as it is. -/
theorem sealed_sent (hb : Prints c) (hseal : sealSession c codec key (some n) s = some packed) :
    ∀ x ∈ packed, printable x = true ∧ x ≠ ';' ∧ isWhitespace x = false := by
  obtain rfl := Option.some.inj hseal
  intro x hx
  rcases List.mem_append.mp hx with hx | hx
  · obtain ⟨hprint, hsemi, -, hblank⟩ := base64_printable (hb.ciphertext _ _ _ x hx)
    exact ⟨hprint, hsemi, hblank⟩
  · rcases List.mem_cons.mp hx with rfl | hx
    · decide
    · obtain ⟨hprint, hsemi, -, hblank⟩ := base64_printable (hb.nonce _ _ _ x hx)
      exact ⟨hprint, hsemi, hblank⟩

theorem kept_setCookie {value : Text} {maxAge : Nat} {secure : Bool} (h : ';' ∉ value) :
    kept (setCookieHeader value maxAge secure) = cookieName ++ '=' :: value := by
  have hsemi : ';' ∉ cookieName ++ '=' :: value := by
    rw [List.mem_append, List.mem_cons, not_or, not_or]
    exact ⟨by decide, by decide, h⟩
  have hattributes : "; HttpOnly; SameSite=Lax; Path=/; Max-Age=".toList =
      ';' :: " HttpOnly; SameSite=Lax; Path=/; Max-Age=".toList := by decide
  rw [kept, setCookieHeader, hattributes, List.append_assoc, List.append_assoc, List.cons_append]
  exact Search.takeWhile_sep hsemi _

theorem sent_named {name value : Text}
    (hname : (name ++ ['=']).all (fun x => printable x && x != ';' && !isWhitespace x) = true)
    (h : ∀ x ∈ value, printable x = true ∧ x ≠ ';' ∧ isWhitespace x = false) : Sent (name ++ '=' :: value) := by
  have hall : ∀ x ∈ name ++ '=' :: value, printable x = true ∧ x ≠ ';' ∧ isWhitespace x = false := by
    intro x hx
    rw [List.append_cons] at hx
    rcases List.mem_append.mp hx with hx | hx
    · simpa [and_assoc] using List.all_eq_true.mp hname x hx
    · exact h x hx
  exact
    { crumb := ⟨fun hm => (hall _ hm).2.1 rfl, trim_id fun x hx => (hall x hx).2.2⟩
      printable := fun x hx => (hall x hx).1 }

theorem sent_among {t : Text} (h : ∀ u ∈ before ++ after, Sent u) (ht : Sent t) : ∀ u ∈ before ++ t :: after, Sent u := by
  intro u hu
  rcases List.mem_append.mp hu with hu | hu
  · exact h u (List.mem_append_left _ hu)
  · rcases List.mem_cons.mp hu with rfl | hu
    · exact ht
    · exact h u (List.mem_append_right _ hu)

theorem mem_header {x : Char} {crumbs : List Text} (h : x ∈ header crumbs) :
    x = ';' ∨ x = ' ' ∨ ∃ t ∈ crumbs, x ∈ t := by
  unfold header at h
  induction crumbs with
  | nil => simp at h
  | cons t ts ih =>
    cases ts with
    | nil => exact Or.inr (Or.inr ⟨t, List.mem_cons_self, by simpa using h⟩)
    | cons u us =>
      rw [List.intercalate_cons_cons] at h
      simp only [List.append_assoc, List.mem_append, List.mem_cons, List.not_mem_nil, or_false] at h
      rcases h with h | (h | h) | h
      · exact Or.inr (Or.inr ⟨t, List.mem_cons_self, h⟩)
      · exact Or.inl h
      · exact Or.inr (Or.inl h)
      · obtain h | h | ⟨v, hv, h⟩ := ih h
        · exact Or.inl h
        · exact Or.inr (Or.inl h)
        · exact Or.inr (Or.inr ⟨v, List.mem_cons_of_mem _ hv, h⟩)

/-- A cookie that is sent among others is found, if none of its name stands in front of it. -/
theorem cookie_sent {name value : Text} (h : ∀ t ∈ before ++ (name ++ '=' :: value) :: after, Sent t)
    (hbefore : ∀ t ∈ before, ¬ name ++ ['='] <+: t)
    (hheaders : headers.lookup "cookie".toList = some (encode (header (before ++ (name ++ '=' :: value) :: after)))) :
    cookie name headers = some value := by
  have hprint : ∀ x ∈ header (before ++ (name ++ '=' :: value) :: after), printable x = true := by
    intro x hx
    obtain rfl | rfl | ⟨t, ht, hx⟩ := mem_header hx
    · decide
    · decide
    · exact (h t ht).printable x hx
  rw [cookie, hheaders, Option.bind_some, toStr_encode hprint, Option.bind_some]
  exact Cookies.find_header (by decide) (fun t ht => (h t ht).crumb) hbefore

/-- What a login sets, sent back among other cookies, is read as the session of that login, for seven days. What a
logout sets is read as none. -/
theorem session_round_trip (hc : c.Lawful) (hb : Prints c) (hcodec : codec.Reads)
    (hs : callbackSession cfg google now req = .ok s) :
    (∃ set rest, (callback c codec key (some cfg) google now (some n) req).setCookies = set :: rest ∧
      ∀ before after headers later, (∀ t ∈ before ++ after, Sent t) → (∀ t ∈ before, ¬ cookieName ++ ['='] <+: t) →
        headers.lookup "cookie".toList = some (encode (header (before ++ kept set :: after))) →
        sessionFromHeaders c codec key later headers = if later < now + sessionTtlSecs then some s else none) ∧
    ∃ set rest, (logout (some cfg) req).setCookies = set :: rest ∧
      ∀ before after headers later, (∀ t ∈ before ++ after, Sent t) → (∀ t ∈ before, ¬ cookieName ++ ['='] <+: t) →
        headers.lookup "cookie".toList = some (encode (header (before ++ kept set :: after))) →
        sessionFromHeaders c codec key later headers = none := by
  have hexp : s.exp = now + sessionTtlSecs := by
    unfold callbackSession at hs
    dsimp only at hs
    split at hs
    · cases hs
    · split at hs
      · cases hs
      · split at hs
        · cases hs
        · exact (admitted_ok hs).2.2.2.2.2
  constructor
  · obtain ⟨packed, hseal⟩ : ∃ packed, sealSession c codec key (some n) s = some packed := ⟨_, rfl⟩
    have hsent := sealed_sent hb hseal
    refine ⟨_, _, by simp only [callback, hs, hseal]; rfl, ?_⟩
    intro before after headers later hall hbefore hheaders
    rw [kept_setCookie fun hm => (hsent _ hm).2.1 rfl] at hheaders
    rw [sessionFromHeaders, cookie_sent (sent_among hall (sent_named (by decide) hsent)) hbefore hheaders, Option.bind_some,
      openSession_seal hc hcodec hseal, hexp]
  · refine ⟨_, _, rfl, ?_⟩
    intro before after headers later hall hbefore hheaders
    rw [kept_setCookie (by simp)] at hheaders
    rw [sessionFromHeaders, cookie_sent (sent_among hall (sent_named (by decide) (by simp))) hbefore hheaders]
    rfl

end Sessions

theorem hexing_prints : Prints hexing where
  ciphertext key n bytes := by
    have hdigit : ∀ n < 16, base64Char (Nat.digitChar n) = true := by decide
    intro x hx
    obtain ⟨b, -, hx⟩ := List.mem_flatMap.mp hx
    have hlt := b.toNat_lt
    simp only [hexByte, List.mem_cons, List.not_mem_nil, or_false] at hx
    rcases hx with rfl | rfl
    · exact hdigit _ (by omega)
    · exact hdigit _ (by omega)
  nonce key n bytes := by
    intro x hx
    rw [List.eq_of_mem_replicate hx]
    decide

theorem session_round_trip_returning :
    (∃ set rest, (callback hexing jsonCodec 3 (some team) google 100 (some 0) returning.req).setCookies = set :: rest ∧
      ∀ before after headers later, (∀ t ∈ before ++ after, Sent t) → (∀ t ∈ before, ¬ cookieName ++ ['='] <+: t) →
        headers.lookup "cookie".toList = some (encode (header (before ++ kept set :: after))) →
        sessionFromHeaders hexing jsonCodec 3 later headers = if later < 100 + sessionTtlSecs then some ada else none) ∧
    ∃ set rest, (logout (some team) returning.req).setCookies = set :: rest ∧
      ∀ before after headers later, (∀ t ∈ before ++ after, Sent t) → (∀ t ∈ before, ¬ cookieName ++ ['='] <+: t) →
        headers.lookup "cookie".toList = some (encode (header (before ++ kept set :: after))) →
        sessionFromHeaders hexing jsonCodec 3 later headers = none :=
  session_round_trip hexing_lawful hexing_prints jsonCodec_reads returning_session

end AgentGrove.Auth
