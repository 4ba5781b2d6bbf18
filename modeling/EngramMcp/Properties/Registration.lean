import EngramMcp.OAuth.Client
import EngramMcp.OAuth.Reference

/-!
# The registration round trip

Registration bounds each redirect URI and their number, and reading the client id back bounds the
length of the whole id. The two bounds do not agree.

* `registration_roundtrip_iff` — an accepted registration gives a client id that is read back, to
  exactly the registered client, if and only if its payload has at most 6108 bytes
* `registration_not_roundtrip` — three redirect URIs of the permitted length are too many
-/

namespace EngramMcp

open Infra

/-! ## The size of a client id -/

/--
Bytes of the payload of an accepted request: the URIs and the name of the method as they were
sent, the scopes that are left of the scope field, and the time in decimal.
-/
def registrationSize (request : RegistrationRequest) (now : UInt64) : Nat :=
  85 + ((request.redirectUris.map fun uri => Json.escapedLength uri + 2).sum
      + (request.redirectUris.length - 1) + 2)
    + Json.escapedLength (request.tokenEndpointAuthMethod.getD "none")
    + (registeredScopes request.scope).jsonSize + (Nat.toDigits 10 now.toNat).length

/-- A method that was parsed is serialized under the name it was sent with. -/
theorem asStr_of_parse {value : Option String} {m : ClientAuthenticationMethod}
    (h : ClientAuthenticationMethod.parse value = .ok m) : m.asStr = value.getD "none" := by
  unfold ClientAuthenticationMethod.parse at h
  split at h
  · next hv => cases h; exact hv.symm
  · next hv => cases h; exact hv.symm
  · next hv => cases h; exact hv.symm
  · simp at h

theorem jsonSize_registeredPayload {request : RegistrationRequest}
    {method : ClientAuthenticationMethod} (now : UInt64)
    (hm : ClientAuthenticationMethod.parse request.tokenEndpointAuthMethod = .ok method)
    (hn : request.redirectUris.Nodup) :
    (registeredPayload request method now).jsonSize = registrationSize request now := by
  have hp := BTreeSet.perm_collect hn
  have hone : (Nat.toDigits 10 (1 : UInt8).toNat).length = 1 := by decide
  simp only [ClientIdPayload.jsonSize, registeredPayload, registrationSize, hp.length_eq, hone,
    asStr_of_parse hm]
  rw [(hp.map fun uri => Json.escapedLength uri + 2).sum_eq]

/-! ## The round trip -/

/--
The client id of a registration response is accepted, and the client it stands for has the
redirect URIs, the authentication method and the scopes the response reports.
-/
def RegistrationRoundTrips (C : Crates) (S : OAuthSettings) (response : RegistrationResponse) :
    Prop :=
  ∃ client, clientFromId C S response.clientId = .ok client ∧
    client.redirectUris.toList = response.redirectUris ∧
    client.tokenEndpointAuthMethod.asStr = response.tokenEndpointAuthMethod ∧
    client.scopes.asString = response.scope ∧
    ScopeGrant.parse response.scope = .ok client.scopes

/--
**The registration round trip.** The client id of an accepted registration is read back, to the
registered client, if and only if the payload has at most 6108 bytes, which is what fits into a
client id of 8192.
-/
theorem registration_roundtrip_iff {C : Crates} {S : OAuthSettings} {request : RegistrationRequest}
    {now : UInt64} {response : RegistrationResponse}
    (h : registerClient C S request now = .ok response) :
    RegistrationRoundTrips C S response ↔ registrationSize request now ≤ 6108 := by
  obtain ⟨method, hm, hne, hmax, hn, hvalid, hid, huris, hmethod, hscope⟩ := registerClient_eq_ok h
  have hsize : response.clientId.utf8ByteSize
      = (4 * registrationSize request now + 2) / 3 + 48 := by
    rw [hid, utf8ByteSize_clientIdOf, jsonSize_registeredPayload now hm hn]
  constructor
  · rintro ⟨client, hc, _⟩
    have hlen := (clientFromId_eq_ok.mp hc).1
    rw [hsize, maxClientIdLength] at hlen
    omega
  · intro hle
    have hlen : response.clientId.utf8ByteSize ≤ maxClientIdLength := by
      rw [hsize, maxClientIdLength]
      omega
    rw [hid] at hlen
    have hc := clientFromId_registered hne hmax hn hvalid hlen
    rw [← hid] at hc
    have hv := isValid_registeredScopes request.scope
    refine ⟨_, hc, huris.symm, hmethod.symm, hscope.symm, ?_⟩
    rw [hscope]
    exact ScopeGrant.parse_asString hv

/-! ## Two registrations -/

theorem registrationSize_padded {hosts : List Char}
    (hhosts : ∀ host ∈ hosts, Json.escapedLen host = 1) (padding : Nat) (now : UInt64) :
    registrationSize (Reference.paddedRegistration hosts padding) now
      = 115 + hosts.length * (20 + padding) + (hosts.length - 1)
        + (Nat.toDigits 10 now.toNat).length := by
  have hmap : (hosts.map fun host => Reference.paddedUri host padding).map
      (fun uri => Json.escapedLength uri + 2) = List.replicate hosts.length (20 + padding) := by
    rw [List.map_map, List.eq_replicate_iff]
    refine ⟨List.length_map _, fun n hn => ?_⟩
    obtain ⟨host, hmem, rfl⟩ := List.mem_map.mp hn
    rw [Function.comp, Reference.escapedLength_paddedUri (hhosts host hmem)]
    omega
  have hmethod : Json.escapedLength ((some "none").getD "none") = 4 := by decide
  have hscopes : (registeredScopes none).jsonSize = 24 := by decide
  simp only [registrationSize, Reference.paddedRegistration, hmap, List.sum_replicate_nat,
    List.length_map, hmethod, hscopes]
  omega

/-- The shortest registration round-trips. -/
theorem registration_roundtrip_short :
    ∃ response, registerClient Reference.crates Reference.settings
        (Reference.paddedRegistration ['a'] 8) 1790000000 = .ok response ∧
      RegistrationRoundTrips Reference.crates Reference.settings response := by
  have hhosts : ∀ host ∈ ['a'], Reference.hostChar host = true ∧ host.utf8Size = 1 := by
    intro host hmem
    rw [List.mem_singleton.mp hmem]
    exact ⟨by decide, by decide⟩
  have hescaped : ∀ host ∈ ['a'], Json.escapedLen host = 1 := by
    intro host hmem
    rw [List.mem_singleton.mp hmem]
    decide
  obtain ⟨response, h⟩ := Reference.exists_registerClient_padded (List.cons_ne_nil 'a' [])
    (by decide) (by decide) hhosts (show 8 ≤ 2030 by decide) 1790000000
  refine ⟨response, h, (registration_roundtrip_iff h).mpr ?_⟩
  have hnow : (Nat.toDigits 10 (1790000000 : UInt64).toNat).length = 10 := by decide
  rw [registrationSize_padded hescaped, hnow]
  decide

/-- **A registration that is accepted and then refused**: three URIs of 2048 bytes each. -/
theorem registration_not_roundtrip :
    ∃ response, registerClient Reference.crates Reference.settings
        (Reference.paddedRegistration ['a', 'b', 'c'] 2030) 1790000000 = .ok response ∧
      ¬ RegistrationRoundTrips Reference.crates Reference.settings response := by
  have hhosts : ∀ host ∈ ['a', 'b', 'c'],
      Reference.hostChar host = true ∧ host.utf8Size = 1 := by
    simp only [List.forall_mem_cons, List.not_mem_nil, false_implies, implies_true, and_true]
    exact ⟨⟨by decide, by decide⟩, ⟨by decide, by decide⟩, by decide, by decide⟩
  have hescaped : ∀ host ∈ ['a', 'b', 'c'], Json.escapedLen host = 1 := by
    simp only [List.forall_mem_cons, List.not_mem_nil, false_implies, implies_true, and_true]
    exact ⟨by decide, by decide, by decide⟩
  obtain ⟨response, h⟩ := Reference.exists_registerClient_padded (List.cons_ne_nil 'a' ['b', 'c'])
    (by decide) (by decide) hhosts (show 2030 ≤ 2030 by decide) 1790000000
  refine ⟨response, h, fun hr => ?_⟩
  have hle := (registration_roundtrip_iff h).mp hr
  rw [registrationSize_padded hescaped] at hle
  simp only [List.length_cons, List.length_nil] at hle
  omega

end EngramMcp
