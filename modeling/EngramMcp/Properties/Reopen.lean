import EngramMcp.Infra.Base64
import EngramMcp.OAuth.RefreshRun
import EngramMcp.OAuth.Signing

/-!
# Reopening the state file

Only the loader bounds the state file; the writer does not. So a store can be reopened exactly
when its map is short enough, and a store with many families cannot.

* `reopens_iff` — after any run of calls, the directory is reopened to an equal map, and every
  later answer is the same, if and only if the serialized map has at most `maxRefreshStateBytes`
* `not_reopens_issuedFamilies` — 7000 families of the size the server creates are too many
-/

namespace EngramMcp

open Infra

/-! ## The size of a map -/

/-- Bytes of a family in the state file. -/
def RefreshTokenFamily.jsonSize (f : RefreshTokenFamily) : Nat :=
  Json.escapedLength f.activeTokenHash + (Nat.toDigits 10 f.expiresAt.toNat).length
    + (if f.revoked then 4 else 5) + 49

/-- Bytes of an entry of the map: the family id, three characters around it, and the family. -/
def entrySize (e : (_ : String) × RefreshTokenFamily) : Nat :=
  Json.escapedLength e.1 + 3 + e.2.jsonSize

/-- Bytes of a map in the state file. -/
def RefreshTokenState.jsonSize (s : RefreshTokenState) : Nat :=
  26 + (Nat.toDigits 10 s.version.toNat).length + (s.families.entries.map entrySize).sum
    + (s.families.entries.length - 1)

theorem utf8Len_family (f : RefreshTokenFamily) : utf8Len f.toJson = f.jsonSize := by
  have hb : utf8Len (Json.bool f.revoked) = if f.revoked then 4 else 5 := by
    cases f.revoked <;> decide
  have hh : Json.escapedLength "active_token_hash" = 17 := by decide
  have he : Json.escapedLength "expires_at" = 10 := by decide
  have hr : Json.escapedLength "revoked" = 7 := by decide
  simp only [RefreshTokenFamily.toJson, Json.utf8Len_obj, List.map_cons, List.map_nil,
    List.sum_cons, List.sum_nil, List.length_cons, List.length_nil, Json.utf8Len_member, hh, he,
    hr, Json.utf8Len_str, Json.utf8Len_num, hb, RefreshTokenFamily.jsonSize]
  omega

/-- **The length of the state file**, as arithmetic on the map. -/
theorem length_toVec (s : RefreshTokenState) : s.toVec.length = s.jsonSize := by
  have hv : Json.escapedLength "version" = 7 := by decide
  have hf : Json.escapedLength "families" = 8 := by decide
  have hentries : (s.families.entries.map fun e => Json.member e.1 e.2.toJson).map utf8Len
      = s.families.entries.map entrySize := by
    rw [List.map_map]
    apply List.map_congr_left
    intro e _
    rw [Function.comp, Json.utf8Len_member, utf8Len_family, entrySize]
  rw [RefreshTokenState.toVec, length_utf8, utf8ByteSize_ofList, RefreshTokenState.toJson]
  simp only [Json.utf8Len_obj, List.map_cons, List.map_nil, List.sum_cons, List.sum_nil,
    List.length_cons, List.length_nil, Json.utf8Len_member, hv, hf, Json.utf8Len_num, hentries,
    List.length_map, RefreshTokenState.jsonSize]
  omega

/-- Equal maps take the same space, in whatever order their entries stand. -/
theorem jsonSize_eq_of_same {s t : RefreshTokenState} (h : s.Same t) : s.jsonSize = t.jsonSize := by
  have hp := h.2.perm
  rw [RefreshTokenState.jsonSize, RefreshTokenState.jsonSize, h.1, (hp.map entrySize).sum_eq,
    hp.length_eq]

/-! ## The same store after a restart -/

/-- A request to a store; `persist` goes as `io` says. -/
inductive StoreRequest
  | call (c : StoreCall) (io : PersistIo)
  | isActive (familyId : String) (now : UInt64)

/-- The answers of a store to a sequence of requests. -/
def RefreshTokenStore.answers (s : RefreshTokenStore) :
    List StoreRequest → List (Except OAuthError Unit ⊕ Bool)
  | [] => []
  | .call c io :: rest => .inl (s.call io c).2 :: (s.call io c).1.answers rest
  | .isActive familyId now :: rest => .inr (s.isActive familyId now) :: s.answers rest

theorem answers_congr {s t : RefreshTokenStore} (h : s.state.Same t.state)
    (requests : List StoreRequest) : s.answers requests = t.answers requests := by
  induction requests generalizing s t with
  | nil => rfl
  | cons r rest ih =>
    cases r with
    | call c io =>
      obtain ⟨ha, hs⟩ := RefreshTokenStore.call_congr h io c
      rw [RefreshTokenStore.answers, RefreshTokenStore.answers, ha, ih hs]
    | isActive familyId now =>
      rw [RefreshTokenStore.answers, RefreshTokenStore.answers,
        RefreshTokenStore.isActive_congr h, ih h]

/-- The directory is reopened to an equal map, and a restart changes no later answer. -/
def Reopens (reader : RefreshStateReader) (s : RefreshTokenStore) : Prop :=
  ∃ s', RefreshTokenStore.«open» reader s.dir = .ok s' ∧ s'.state.Same s.state ∧
    ∀ requests, s'.answers requests = s.answers requests

theorem inSync_calls {s : RefreshTokenStore} (hs : s.InSync) :
    ∀ cs : List StoreCall, (s.calls cs).InSync := by
  intro cs
  induction cs using List.reverseRecOn with
  | nil => exact hs
  | append_singleton cs c ih =>
    rw [RefreshTokenStore.calls_concat]
    exact RefreshTokenStore.inSync_call ih .completes c

/--
**What can be reopened.** After every run of `create_family` and `rotate` calls, each `persist`
succeeding, the store is reopened to an equal map with equal later answers if and only if the
serialized map is no longer than the loader accepts.
-/
theorem reopens_iff (reader : RefreshStateReader) (cs : List StoreCall) :
    Reopens reader (RefreshTokenStore.fresh.calls cs) ↔
      (RefreshTokenStore.fresh.calls cs).state.jsonSize ≤ maxRefreshStateBytes := by
  have hsync := inSync_calls RefreshTokenStore.inSync_fresh cs
  generalize RefreshTokenStore.fresh.calls cs = s at hsync ⊢
  constructor
  · rintro ⟨s', hopen, _, _⟩
    obtain ⟨_, _, hf⟩ := RefreshTokenStore.open_eq_ok hopen
    have hfile := hsync.file
    cases hb : s.dir.file with
    | none =>
      simp only [hb] at hfile
      rw [hfile]
      decide
    | some bytes =>
      simp only [hb] at hf hfile
      obtain ⟨t, rfl, ht⟩ := hfile
      rw [← jsonSize_eq_of_same ht, ← length_toVec]
      exact hf.1
  · intro hsize
    have hlen : ∀ bytes, s.dir.file = some bytes → bytes.length ≤ maxRefreshStateBytes := by
      intro bytes hb
      have hfile := hsync.file
      simp only [hb] at hfile
      obtain ⟨t, rfl, ht⟩ := hfile
      rw [length_toVec, jsonSize_eq_of_same ht]
      exact hsize
    obtain ⟨s', hopen⟩ := RefreshTokenStore.exists_open reader hsync hlen
    obtain ⟨_, hsame⟩ := RefreshTokenStore.open_inSync hsync hopen
    exact ⟨s', hopen, hsame, answers_congr hsame⟩

/-! ## Many families -/

/-- 32 bytes that stand for the `i`-th random draw. -/
def draw (i : Nat) : Bytes :=
  List.replicate 30 0 ++ [UInt8.ofNat (i / 256), UInt8.ofNat (i % 256)]

/-- The `i`-th family: an id and a hash of the lengths the server makes, live for 30 days. -/
def issuedFamily (i : Nat) : StoreCall :=
  .createFamily ("rf_" ++ Base64.urlSafe.encode (draw i)) (Base64.urlSafe.encode (draw i))
    1792592000 1790000000

/-- The calls that create `n` families. -/
def issuedFamilies (n : Nat) : List StoreCall := (List.range n).map issuedFamily

/-- The entry of the `i`-th family. -/
def issuedEntry (i : Nat) : (_ : String) × RefreshTokenFamily :=
  ⟨"rf_" ++ Base64.urlSafe.encode (draw i), ⟨Base64.urlSafe.encode (draw i), 1792592000, false⟩⟩

theorem draw_injective {i j : Nat} (hi : i < 65536) (hj : j < 65536) (h : draw i = draw j) :
    i = j := by
  have hl := List.append_cancel_left h
  simp only [List.cons.injEq, and_true] at hl
  have h1 := congrArg UInt8.toNat hl.1
  have h2 := congrArg UInt8.toNat hl.2
  simp only [UInt8.toNat_ofNat'] at h1 h2
  omega

theorem issuedEntry_injective {i j : Nat} (hi : i < 65536) (hj : j < 65536)
    (h : (issuedEntry i).1 = (issuedEntry j).1) : i = j := by
  have he : Base64.urlSafe.encode (draw i) = Base64.urlSafe.encode (draw j) := by
    rw [← String.toList_inj]
    have hl := congrArg String.toList h
    simpa [issuedEntry] using hl
  exact draw_injective hi hj (Base64.urlSafe.encode_injective he)

theorem entrySize_issuedEntry (i : Nat) : entrySize (issuedEntry i) = 156 := by
  have hlen : (draw i).length = 32 := by simp [draw]
  have hrf : Json.escapedLength "rf_" = 3 := by decide
  have hdigits : (Nat.toDigits 10 (1792592000 : UInt64).toNat).length = 10 := by decide
  rw [entrySize, issuedEntry, RefreshTokenFamily.jsonSize, Json.escapedLength_append,
    escapedLength_encode, hlen, hrf, hdigits]
  rfl

/-- One more family, with an id the map does not have: nothing is pruned, one entry is added. -/
theorem entries_call_issuedFamily {s : RefreshTokenStore} {n : Nat} (hn : n < 65536)
    (hs : s.state.families.entries = ((List.range n).map issuedEntry).reverse) :
    (s.call .completes (issuedFamily n)).1.state.families.entries
      = issuedEntry n :: ((List.range n).map issuedEntry).reverse := by
  have hlive : s.state.families.retain
      (fun _ family => decide (family.expiresAt > 1790000000)) = s.state.families := by
    apply AList.ext
    refine List.filter_eq_self.mpr fun e he => ?_
    rw [hs, List.mem_reverse, List.mem_map] at he
    obtain ⟨i, _, rfl⟩ := he
    rfl
  have hpruned : s.state.pruned 1790000000 = s.state := by rw [RefreshTokenState.pruned, hlive]
  have hnew : s.state.families.lookup (issuedEntry n).1 = none := by
    rw [AList.lookup_eq_none, AList.mem_keys, AList.keys, hs, List.mem_keys]
    rintro ⟨f, hf⟩
    rw [List.mem_reverse, List.mem_map] at hf
    obtain ⟨i, hi, he⟩ := hf
    have hin : i < n := List.mem_range.mp hi
    have hieq : i = n := issuedEntry_injective (by omega) hn (by rw [he])
    omega
  have hplan : (issuedFamily n).plan s.state
      = ⟨some (s.state.set (issuedEntry n).1 (issuedEntry n).2), .ok ()⟩ := by
    rcases createFamilyPlan_cases s.state (issuedEntry n).1 (issuedEntry n).2.activeTokenHash
      1792592000 1790000000 with ⟨⟨f, hf⟩, _⟩ | ⟨_, h⟩
    · rw [hpruned, hnew] at hf
      exact absurd hf (by simp)
    · rw [hpruned] at h
      exact h
  rw [RefreshTokenStore.call_eq_commit, hplan]
  simp only [RefreshTokenStore.commit, RefreshTokenStore.persist, RefreshTokenState.set]
  rw [AList.entries_insert_of_notMem (AList.lookup_eq_none.mp hnew), hs]

/-- Every family that was created is still in the map. -/
theorem entries_issuedFamilies {n : Nat} (hn : n ≤ 65536) :
    (RefreshTokenStore.fresh.calls (issuedFamilies n)).state.families.entries
      = ((List.range n).map issuedEntry).reverse := by
  induction n with
  | zero => rfl
  | succ n ih =>
    have hcalls : issuedFamilies (n + 1) = issuedFamilies n ++ [issuedFamily n] := by
      rw [issuedFamilies, List.range_succ, List.map_append, List.map_singleton, issuedFamilies]
    rw [hcalls, RefreshTokenStore.calls_concat,
      entries_call_issuedFamily (by omega) (ih (by omega)), List.range_succ, List.map_append,
      List.map_singleton, List.reverse_append, List.reverse_singleton, List.singleton_append]

theorem jsonSize_issuedFamilies {n : Nat} (hn : n ≤ 65536) :
    (RefreshTokenStore.fresh.calls (issuedFamilies n)).state.jsonSize = 27 + 156 * n + (n - 1) := by
  have hv : (RefreshTokenStore.fresh.calls (issuedFamilies n)).state.version
      = refreshStateVersion := (inSync_calls RefreshTokenStore.inSync_fresh _).version
  have hsum : ((List.range n).map (entrySize ∘ issuedEntry)).sum = 156 * n := by
    have hconst : (List.range n).map (entrySize ∘ issuedEntry) = List.replicate n 156 := by
      rw [List.eq_replicate_iff]
      refine ⟨by simp, fun b hb => ?_⟩
      obtain ⟨i, _, rfl⟩ := List.mem_map.mp hb
      exact entrySize_issuedEntry i
    rw [hconst, List.sum_replicate_nat, Nat.mul_comm]
  have hdigits : (Nat.toDigits 10 refreshStateVersion.toNat).length = 1 := by decide
  rw [RefreshTokenState.jsonSize, hv, entries_issuedFamilies hn, List.map_reverse,
    List.sum_reverse, List.map_map, hsum, List.length_reverse, List.length_map, List.length_range,
    hdigits]

/-- **A file the store wrote and cannot open**: 7000 families, created by 7000 logins. -/
theorem not_reopens_issuedFamilies :
    ¬ Reopens .strict (RefreshTokenStore.fresh.calls (issuedFamilies 7000)) := by
  rw [reopens_iff, jsonSize_issuedFamilies (by decide)]
  decide

end EngramMcp
