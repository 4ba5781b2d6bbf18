import EngramMcp.OAuth.Reference
import Mathlib.Data.Set.Function

/-!
# One spelling and one purpose

Every credential the server makes carries a keyed hash of a label and a value. The label says
what the credential is for. Two things keep credentials apart:

* the signed string of a payload has one spelling, because the base64 decoder is strict
* the bytes that are hashed, the label, a zero byte and the value, can be split again, because
  no label contains a zero byte

The first holds for every hash function. For the second to keep two credentials apart, the hash
must not collide on the bytes that are hashed when they are checked. A hash of 32 bytes collides
somewhere, so the assumption names the set of byte strings on which it does not.
-/

namespace EngramMcp

open Infra

/-! ## The hashed bytes -/

/-- What `mac` feeds to the hash function. -/
def macInput (label value : Bytes) : Bytes := label ++ 0 :: value

theorem mac_eq (C : Crates) (S : OAuthSettings) (label value : Bytes) :
    mac C S label value = C.hmacSha256 S.signingKey (macInput label value) := rfl

/-- **The hashed bytes can be split again.** -/
theorem macInput_inj {label label' value value' : Bytes} (hl : 0 ∉ label) (hl' : 0 ∉ label')
    (h : macInput label value = macInput label' value') : label = label' ∧ value = value' := by
  -- the first zero byte ends the label
  have htake := congrArg (List.takeWhile (· != 0)) h
  have hdrop := congrArg (List.dropWhile (· != 0)) h
  rw [macInput, macInput, takeWhile_ne_append hl, takeWhile_ne_append hl'] at htake
  rw [macInput, macInput, dropWhile_ne_append hl, dropWhile_ne_append hl'] at hdrop
  exact ⟨htake, (List.cons.inj hdrop).2⟩

/-- The labels of the server. -/
def macLabels : List Bytes :=
  [dynamicClientLabel, dynamicClientSecretLabel, approvalRequestLabel, accessTokenLabel,
    refreshTokenLabel, tokenHashLabel, refreshTokenIdHashLabel, refreshClientBindingLabel,
    auditFingerprintLabel]

theorem nul_not_mem_macLabels {label : Bytes} (h : label ∈ macLabels) : 0 ∉ label := by
  have hall : macLabels.all (fun label => !label.contains 0) = true := by decide +kernel
  have hlabel := List.all_eq_true.mp hall label h
  simpa using hlabel

theorem nodup_macLabels : macLabels.Nodup := by decide +kernel

/-! ## Purposes -/

/-- What a credential is presented for. A client secret is one for its client. -/
inductive Purpose
  | approvalRequest
  | clientId
  | clientSecret (clientId : String)
  | accessToken
  | refreshToken
  deriving DecidableEq

/-- The bytes that are hashed to check a signed string, if it comes to that. -/
def signedInput (label : Bytes) (value : String) : Option Bytes := do
  let (encodedPayload, _) ← splitOnce '.' value
  let payload ← Base64.urlSafe.decode encodedPayload
  return macInput label payload

namespace Purpose

/-- The label of a purpose. -/
def label : Purpose → Bytes
  | approvalRequest => approvalRequestLabel
  | clientId => dynamicClientLabel
  | clientSecret _ => dynamicClientSecretLabel
  | accessToken => accessTokenLabel
  | refreshToken => refreshTokenLabel

/-- The bytes that are hashed to check a credential, if it comes to that. -/
def input : Purpose → String → Option Bytes
  | approvalRequest, s => signedInput approvalRequestLabel s
  | clientId, s => (stripPrefix "dcr." s).bind (signedInput dynamicClientLabel)
  | clientSecret id, _ => some (macInput dynamicClientSecretLabel (utf8 id))
  | accessToken, s => (stripPrefix accessTokenPrefix s).bind (signedInput accessTokenLabel)
  | refreshToken, s => (stripPrefix refreshTokenPrefix s).bind (signedInput refreshTokenLabel)

/-- A credential passes the check of a purpose. -/
def Accepts (C : Crates) (S : OAuthSettings) : Purpose → String → Prop
  | approvalRequest, s => ∃ r, verify C S C.approvalRequest approvalRequestLabel s = .ok r
  | clientId, s => ∃ client, clientFromId C S s = .ok client
  | clientSecret id, s => checkClientSecret C S id (some s) = .ok ()
  | accessToken, s =>
    ∃ claims, verifyToken C S C.accessClaims accessTokenPrefix accessTokenLabel s = .ok claims
  | refreshToken, s =>
    ∃ claims, verifyToken C S C.refreshClaims refreshTokenPrefix refreshTokenLabel s = .ok claims

theorem label_mem (p : Purpose) : p.label ∈ macLabels := by
  cases p <;> simp [label, macLabels]

/-- The bytes hashed for a purpose start with its label, and those of a secret name the client. -/
theorem input_eq_some {p : Purpose} {s : String} {m : Bytes} (h : p.input s = some m) :
    ∃ value, m = macInput p.label value ∧ ∀ id, p = clientSecret id → value = utf8 id := by
  have hsigned : ∀ {label : Bytes} {t : String}, signedInput label t = some m →
      ∃ value, m = macInput label value := by
    intro label t ht
    obtain ⟨_, _, ht⟩ := Option.bind_eq_some_iff.mp ht
    obtain ⟨payload, _, ht⟩ := Option.bind_eq_some_iff.mp ht
    exact ⟨payload, (Option.some.inj ht).symm⟩
  cases p with
  | approvalRequest =>
    obtain ⟨value, hm⟩ := hsigned h
    exact ⟨value, hm, fun _ he => nomatch he⟩
  | clientSecret id =>
    refine ⟨utf8 id, (Option.some.inj h).symm, ?_⟩
    intro id' he
    rw [clientSecret.inj he]
  | clientId | accessToken | refreshToken =>
    obtain ⟨_, _, h⟩ := Option.bind_eq_some_iff.mp h
    obtain ⟨value, hm⟩ := hsigned h
    exact ⟨value, hm, fun _ he => nomatch he⟩

/-- Only two client secrets share their label. -/
theorem eq_of_label_eq {p q : Purpose} (h : p.label = q.label) :
    p = q ∨ ∃ id id', p = clientSecret id ∧ q = clientSecret id' := by
  have hn := nodup_macLabels
  simp only [macLabels, List.nodup_cons, List.mem_cons, not_or] at hn
  cases p <;> cases q <;> simp_all [label]

/-- **The hashed bytes say what they are hashed for.** -/
theorem eq_of_input_eq {p q : Purpose} {s t : String} {m : Bytes} (hp : p.input s = some m)
    (hq : q.input t = some m) : p = q := by
  -- equal bytes have equal labels, and the label of a secret is followed by its client
  obtain ⟨value, hm, hid⟩ := input_eq_some hp
  obtain ⟨value', hm', hid'⟩ := input_eq_some hq
  obtain ⟨hlabel, hvalue⟩ := macInput_inj (nul_not_mem_macLabels p.label_mem)
    (nul_not_mem_macLabels q.label_mem) (hm.symm.trans hm')
  rcases eq_of_label_eq hlabel with he | ⟨id, id', rfl, rfl⟩
  · exact he
  · have hutf8 : utf8 id = utf8 id' := by
      rw [← hid id rfl, ← hid' id' rfl, hvalue]
    rw [utf8_injective hutf8]

end Purpose

variable {C : Crates} {S : OAuthSettings}

theorem signedInput_sign (label payload : Bytes) :
    signedInput label (sign C S label payload) = some (macInput label payload) := by
  rw [signedInput, splitOnce_sign]
  show (Base64.urlSafe.decode (Base64.urlSafe.encode payload)).bind _ = _
  rw [Base64.Alphabet.decode_encode]
  rfl

/-- **An accepted credential ends with the keyed hash of the bytes hashed to check it.** -/
theorem Purpose.Accepts.ends {p : Purpose} {s : String} (h : p.Accepts C S s) :
    ∃ m start, p.input s = some m ∧
      s = start ++ Base64.urlSafe.encode (C.hmacSha256 S.signingKey m) := by
  have htoken : ∀ {α : Type} {toVec : α → Bytes} {reader : FromSlice toVec} {pre : String}
      {label : Bytes} {a : α}, verifyToken C S reader pre label s = .ok a →
      ∃ m start, (stripPrefix pre s).bind (signedInput label) = some m ∧
        s = start ++ Base64.urlSafe.encode (C.hmacSha256 S.signingKey m) := by
    intro α toVec reader pre label a ha
    obtain ⟨payload, rfl, _⟩ := verifyToken_eq_ok.mp ha
    refine ⟨macInput label payload, pre ++ (Base64.urlSafe.encode payload ++ "."), ?_, ?_⟩
    · rw [stripPrefix_append, Option.bind_some, signedInput_sign]
    · rw [sign, mac_eq]
      simp only [String.append_assoc]
  cases p with
  | approvalRequest =>
    obtain ⟨r, hr⟩ := h
    obtain ⟨payload, rfl, _⟩ := verify_eq_ok.mp hr
    exact ⟨_, _, signedInput_sign _ _, rfl⟩
  | clientId =>
    obtain ⟨client, hc⟩ := h
    obtain ⟨_, payload, p, hid, hread, _⟩ := clientFromId_eq_ok.mp hc
    exact htoken (verifyToken_eq_ok.mpr ⟨payload, hid, hread⟩)
  | clientSecret id =>
    have hs : s = EngramMcp.clientSecret C S id := Option.some.inj (checkClientSecret_eq_ok.mp h)
    exact ⟨_, "dcs_", rfl, hs⟩
  | accessToken =>
    obtain ⟨claims, hv⟩ := h
    exact htoken hv
  | refreshToken =>
    obtain ⟨claims, hv⟩ := h
    exact htoken hv

/-- Strings that end with encoded hashes are equal only if the hashes are. -/
theorem digest_eq_of_append_eq {start start' : String} {d d' : Digest}
    (h : start ++ Base64.urlSafe.encode d = start' ++ Base64.urlSafe.encode d') : d = d' := by
  have hlength : ∀ d : Digest, (Base64.urlSafe.encode d).toList.length = 43 := by
    intro d
    rw [Base64.Alphabet.encode, String.toList_ofList, List.length_map, Base64.length_sextets, d.2]
  have hl := congrArg String.toList h
  rw [String.toList_append, String.toList_append] at hl
  have htail := (List.append_inj' hl ((hlength d).trans (hlength d').symm)).2
  exact Subtype.ext (Base64.urlSafe.encode_injective (String.toList_inj.mp htail))

/-- **One purpose.** Unless the hash collides on the bytes that are hashed to check it, a
credential passes the check of one purpose only. -/
theorem Purpose.Accepts.unique {p q : Purpose} {s : String} {M : Set Bytes}
    (hM : Set.InjOn (C.hmacSha256 S.signingKey) M) (hp : p.Accepts C S s) (hq : q.Accepts C S s)
    (hpM : ∀ m, p.input s = some m → m ∈ M) (hqM : ∀ m, q.input s = some m → m ∈ M) : p = q := by
  obtain ⟨m, start, hm, hs⟩ := hp.ends
  obtain ⟨m', start', hm', hs'⟩ := hq.ends
  have hdigest := digest_eq_of_append_eq (hs.symm.trans hs')
  have hmm : m = m' := hM (hpM m hm) (hqM m' hm') hdigest
  exact Purpose.eq_of_input_eq hm (hmm ▸ hm')

/-- **Signed credentials have one spelling and one purpose.** -/
theorem signed_credentials (C : Crates) (S : OAuthSettings) :
    (∀ (α : Type) (toVec : α → Bytes) (reader : FromSlice toVec) (label : Bytes) (s : String)
        (a : α), verify C S reader label s = .ok a ↔
      ∃ p, s = Base64.urlSafe.encode p ++ "." ++ Base64.urlSafe.encode (mac C S label p) ∧
        reader.read p = some a) ∧
    (∀ (α : Type) (toVec : α → Bytes) (reader : FromSlice toVec) (label : Bytes) (v : α),
      verify C S reader label (sign C S label (toVec v)) = .ok v) ∧
    (∀ label label' value value' : Bytes, 0 ∉ label → 0 ∉ label' →
      macInput label value = macInput label' value' → label = label' ∧ value = value') ∧
    ∀ M : Set Bytes, Set.InjOn (C.hmacSha256 S.signingKey) M →
      (∀ label ∈ macLabels, ∀ label' ∈ macLabels, ∀ value value',
        macInput label value ∈ M → macInput label' value' ∈ M →
        mac C S label value = mac C S label' value' → label = label' ∧ value = value') ∧
      ∀ (p q : Purpose) (s : String), p.Accepts C S s → p ≠ q →
        (∀ m, p.input s = some m → m ∈ M) → (∀ m, q.input s = some m → m ∈ M) →
        ¬ q.Accepts C S s := by
  refine ⟨?_, ?_, ?_, ?_⟩
  · intro α toVec reader label s a
    exact verify_eq_ok
  · intro α toVec reader label v
    exact verify_sign reader label v
  · intro label label' value value' hl hl' h
    exact macInput_inj hl hl' h
  · intro M hM
    refine ⟨?_, ?_⟩
    · intro label hl label' hl' value value' hv hv' h
      exact macInput_inj (nul_not_mem_macLabels hl) (nul_not_mem_macLabels hl') (hM hv hv' h)
    · intro p q s hp hne hpM hqM hq
      exact hne (hp.unique hM hq hpM hqM)

/-- The secret of one client is not accepted for another, and an access token is read back. -/
theorem signed_credentials_neighbour :
    ¬ (Purpose.clientSecret "b").Accepts Reference.crates Reference.settings
        (clientSecret Reference.crates Reference.settings "a") ∧
      verify Reference.crates Reference.settings Reference.crates.accessClaims accessTokenLabel
        (sign Reference.crates Reference.settings accessTokenLabel
          Reference.accessClaims.toVec) = .ok Reference.accessClaims := by
  have hne : Reference.crates.hmacSha256 Reference.settings.signingKey
        (macInput dynamicClientSecretLabel (utf8 "a"))
      ≠ Reference.crates.hmacSha256 Reference.settings.signingKey
        (macInput dynamicClientSecretLabel (utf8 "b")) := by decide +kernel
  have hM : Set.InjOn (Reference.crates.hmacSha256 Reference.settings.signingKey)
      {macInput dynamicClientSecretLabel (utf8 "a"),
        macInput dynamicClientSecretLabel (utf8 "b")} :=
    Set.injOn_pair.mpr fun h => absurd h hne
  obtain ⟨_, hread, _, h⟩ := signed_credentials Reference.crates Reference.settings
  refine ⟨?_, hread _ _ _ _ _⟩
  refine (h _ hM).2 (.clientSecret "a") (.clientSecret "b") _ ?_ (by decide) ?_ ?_
  · exact checkClientSecret_eq_ok.mpr rfl
  · intro m hm
    exact Or.inl (Option.some.inj hm).symm
  · intro m hm
    exact Or.inr (Option.some.inj hm).symm

end EngramMcp
