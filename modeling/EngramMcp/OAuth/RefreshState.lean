import EngramMcp.Infra.HashMap
import EngramMcp.OAuth.Scope

/-!
# The persisted refresh-token state

`RefreshTokenState` and `RefreshTokenFamily` of `oauth.rs`, and the JSON they are stored as.

* `toVec` — the bytes `serde_json::to_vec` writes
* `RefreshStateReader` — what is used of `serde_json::from_slice`
* `RefreshStateReader.strict` — a reader, so that the results about all of them speak of one
-/

namespace EngramMcp

open Infra

/-- `REFRESH_STATE_VERSION`. -/
def refreshStateVersion : UInt8 := 1

/-- `RefreshTokenFamily`. -/
structure RefreshTokenFamily where
  activeTokenHash : String
  expiresAt : UInt64
  revoked : Bool
  deriving DecidableEq

/-- `RefreshTokenState`. -/
structure RefreshTokenState where
  version : UInt8
  families : HashMap String RefreshTokenFamily

/-! ## Serialization -/

/-- `Serialize` for `RefreshTokenFamily`. -/
def RefreshTokenFamily.toJson (f : RefreshTokenFamily) : Json.Text :=
  Json.obj [Json.member "active_token_hash" (Json.str f.activeTokenHash),
    Json.member "expires_at" (Json.num f.expiresAt.toNat),
    Json.member "revoked" (Json.bool f.revoked)]

namespace RefreshTokenState

/-- `RefreshTokenState::default`. -/
def default : RefreshTokenState := ⟨refreshStateVersion, ∅⟩

/-- `Serialize` for `RefreshTokenState`. The families stand in the order of iteration. -/
def toJson (s : RefreshTokenState) : Json.Text :=
  Json.obj [Json.member "version" (Json.num s.version.toNat),
    Json.member "families"
      (Json.obj (s.families.entries.map fun e => Json.member e.1 e.2.toJson))]

/-- `serde_json::to_vec`. -/
def toVec (s : RefreshTokenState) : Bytes := utf8 (String.ofList s.toJson)

/-- Two states are the same when their versions and their maps are. -/
def Same (s t : RefreshTokenState) : Prop :=
  s.version = t.version ∧ s.families.Same t.families

theorem Same.refl (s : RefreshTokenState) : s.Same s := ⟨rfl, .refl _⟩

theorem Same.symm {s t : RefreshTokenState} (h : s.Same t) : t.Same s := ⟨h.1.symm, h.2.symm⟩

theorem Same.trans {s t u : RefreshTokenState} (h1 : s.Same t) (h2 : t.Same u) : s.Same u :=
  ⟨h1.1.trans h2.1, h1.2.trans h2.2⟩

/-- `next.families.retain(|_, family| family.expires_at > now)`. -/
def pruned (s : RefreshTokenState) (now : UInt64) : RefreshTokenState :=
  { s with families := s.families.retain fun _ family => decide (family.expiresAt > now) }

/-- Writes the entry of one family. -/
def set (s : RefreshTokenState) (familyId : String) (family : RefreshTokenFamily) :
    RefreshTokenState :=
  { s with families := s.families.insert familyId family }

@[simp] theorem version_pruned (s : RefreshTokenState) (now : UInt64) :
    (s.pruned now).version = s.version := rfl

@[simp] theorem version_set (s : RefreshTokenState) (k : String) (f : RefreshTokenFamily) :
    (s.set k f).version = s.version := rfl

theorem lookup_pruned_eq_some {s : RefreshTokenState} {now : UInt64} {k : String}
    {f : RefreshTokenFamily} :
    (s.pruned now).families.lookup k = some f ↔
      s.families.lookup k = some f ∧ now < f.expiresAt := by
  rw [pruned, HashMap.lookup_retain_eq_some, decide_eq_true_eq]

@[simp] theorem lookup_set_self (s : RefreshTokenState) (k : String) (f : RefreshTokenFamily) :
    (s.set k f).families.lookup k = some f := AList.lookup_insert _

theorem lookup_set_ne (s : RefreshTokenState) {k k' : String} (f : RefreshTokenFamily)
    (h : k' ≠ k) : (s.set k f).families.lookup k' = s.families.lookup k' :=
  AList.lookup_insert_ne h

/-- Pruning and then writing one family adds nothing elsewhere. -/
theorem lookup_of_lookup_set_pruned {s : RefreshTokenState} {now : UInt64} {k k' : String}
    {f g : RefreshTokenFamily} (hk : k' ≠ k)
    (h : ((s.pruned now).set k g).families.lookup k' = some f) :
    s.families.lookup k' = some f := by
  rw [lookup_set_ne _ _ hk] at h
  exact (lookup_pruned_eq_some.mp h).1

@[simp] theorem lookup_default (k : String) : default.families.lookup k = none :=
  AList.lookup_empty k

theorem Same.pruned {s t : RefreshTokenState} (h : s.Same t) (now : UInt64) :
    (s.pruned now).Same (t.pruned now) := ⟨h.1, h.2.retain _⟩

theorem Same.set {s t : RefreshTokenState} (h : s.Same t) (k : String) (f : RefreshTokenFamily) :
    (s.set k f).Same (t.set k f) := ⟨h.1, h.2.insert k f⟩

end RefreshTokenState

/--
`serde_json::from_slice::<RefreshTokenState>`.

Of the reader only this is used: it reads what `to_vec` wrote and returns an equal map. The
iteration order of the map it returns is its own.
-/
structure RefreshStateReader where
  fromSlice : Bytes → Option RefreshTokenState
  fromSlice_toVec : ∀ s, ∃ s', fromSlice s.toVec = some s' ∧ s'.Same s

/-! ## A strict reader -/

/-- Reads what `RefreshTokenFamily.toJson` writes. -/
def readFamily : Json.Reader RefreshTokenFamily :=
  (Json.readField '{' "active_token_hash" Json.readStr).andThen fun activeTokenHash =>
    (Json.readField ',' "expires_at" Json.readU64).andThen fun expiresAt =>
      (Json.readField ',' "revoked" Json.readBool).andThen fun revoked =>
        Json.closing ⟨activeTokenHash, expiresAt, revoked⟩

theorem reads_family : Json.Reads readFamily RefreshTokenFamily.toJson := by
  intro f rest _
  rw [RefreshTokenFamily.toJson, Json.obj_cons_cons]
  simp only [List.flatMap_cons, List.flatMap_nil, List.cons_append, List.append_assoc,
    List.nil_append]
  rw [readFamily, Json.readField_andThen Json.reads_str _ (Json.stops_comma _),
    Json.readField_andThen Json.reads_u64 _ (Json.stops_comma _),
    Json.readField_andThen Json.reads_bool _ (Json.stops_brace _), Json.closing_eq]

/-- The families as the list of pairs the object lists. -/
def RefreshTokenState.pairs (s : RefreshTokenState) : List (String × RefreshTokenFamily) :=
  s.families.entries.map fun e => (e.1, e.2)

/-- Reads the object of families. -/
def readFamilies : Json.Reader (List (String × RefreshTokenFamily)) :=
  Json.readBracketed '{' '}' (Json.readMember readFamily)

theorem reads_families : Json.Reads readFamilies
    (fun l => Json.obj (l.map fun e => Json.member e.1 e.2.toJson)) :=
  Json.reads_bracketed (by decide) (by decide) (Json.reads_member reads_family)
    fun e => ⟨'"', _, rfl, by decide⟩

/-- Reads what `RefreshTokenState.toJson` writes. -/
def readState : Json.Reader RefreshTokenState :=
  (Json.readField '{' "version" Json.readU8).andThen fun version =>
    (Json.readField ',' "families" readFamilies).andThen fun l =>
      Json.closing ⟨version, (l.map fun e => ⟨e.1, e.2⟩).toAList⟩

/-- A map rebuilt from its entries is the same map. -/
theorem same_toAList (m : HashMap String RefreshTokenFamily) :
    HashMap.Same m.entries.toAList m := fun _ => AList.lookup_to_alist m.entries

theorem readAll_readState (s : RefreshTokenState) :
    Json.readAll readState s.toJson = some ⟨s.version, s.families.entries.toAList⟩ := by
  have hfam : s.families.entries.map (fun e => Json.member e.1 e.2.toJson)
      = s.pairs.map fun e => Json.member e.1 e.2.toJson := by
    rw [RefreshTokenState.pairs, List.map_map]; rfl
  have hback : (s.pairs.map fun e => (⟨e.1, e.2⟩ : (_ : String) × RefreshTokenFamily))
      = s.families.entries := by
    rw [RefreshTokenState.pairs, List.map_map]
    exact List.map_id _
  have hread : readState s.toJson = some (⟨s.version, s.families.entries.toAList⟩, []) := by
    rw [RefreshTokenState.toJson, Json.obj_cons_cons, hfam]
    simp only [List.flatMap_nil, List.nil_append]
    rw [readState, Json.readField_andThen Json.reads_u8 _ (Json.stops_comma _),
      Json.readField_andThen reads_families _ (Json.stops_brace _), Json.closing_eq, hback]
  rw [Json.readAll, hread]

/-- The strict reader. -/
def RefreshStateReader.strict : RefreshStateReader where
  fromSlice bytes := (fromUtf8 bytes).bind fun text => Json.readAll readState text.toList
  fromSlice_toVec s := by
    refine ⟨⟨s.version, s.families.entries.toAList⟩, ?_, rfl, same_toAList s.families⟩
    rw [RefreshTokenState.toVec, fromUtf8_utf8, Option.bind_some, String.toList_ofList,
      readAll_readState]

end EngramMcp
