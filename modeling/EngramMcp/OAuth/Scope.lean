import EngramMcp.Infra.BTreeSet
import EngramMcp.Infra.Json

/-!
# Scopes and errors

`OAuthError`, `AccessScope` (`auth.rs`) and `ScopeGrant` (`oauth.rs`).

There are three comparisons of grants, and they are different relations.

* `allows` — what a client registration or a refresh token permits; `kb:private` permits `kb:tech`
* `isSubsetOf` — plain inclusion, used between the consent form and the approval request
* `isValid` — nonempty and made of the two known scopes, checked on token claims
-/

namespace EngramMcp

open Infra

universe u

/-- `OAuthError`. -/
inductive OAuthError
  | invalidConfiguration
  | invalidAuthorizationRequest
  | invalidClient
  | invalidGrant
  | invalidScope
  | invalidTarget
  | invalidRequest
  | invalidOwner
  | entropy
  | internal
  deriving DecidableEq, Repr

/-- `Option::ok_or`. -/
def okOr {α : Type*} (o : Option α) (e : OAuthError) : Except OAuthError α :=
  match o with
  | some a => .ok a
  | none => .error e

@[simp] theorem okOr_eq_ok {α : Type*} {o : Option α} {e : OAuthError} {a : α} :
    okOr o e = .ok a ↔ o = some a := by
  cases o <;> simp [okOr]

/-- Inversion of a sequence of fallible steps. -/
theorem bind_eq_ok {ε : Type*} {α β : Type u} {x : Except ε α} {f : α → Except ε β} {b : β} :
    (x >>= f) = .ok b ↔ ∃ a, x = .ok a ∧ f a = .ok b := by
  cases x with
  | error e => simp [bind, Except.bind]
  | ok a => simp [bind, Except.bind]

theorem bind_eq_error {ε : Type*} {α β : Type u} {x : Except ε α} {f : α → Except ε β} {e : ε} :
    (x >>= f) = .error e ↔ x = .error e ∨ ∃ a, x = .ok a ∧ f a = .error e := by
  cases x with
  | error e' => simp [bind, Except.bind]
  | ok a => simp [bind, Except.bind]

/-- `if condition { return Err(error) }`. -/
def rejectIf (condition : Bool) (e : OAuthError) : Except OAuthError Unit :=
  if condition then .error e else .ok ()

@[simp] theorem rejectIf_eq_ok {b : Bool} {e : OAuthError} {u : Unit} :
    rejectIf b e = .ok u ↔ b = false := by
  cases b <;> simp [rejectIf]

/-- Checking every element of a list and keeping it. -/
theorem mapM_check_eq_ok {ε α : Type} {check : α → Except ε Unit} {l l' : List α} :
    (l.mapM fun a => (check a).map fun _ => a) = .ok l' ↔ l' = l ∧ ∀ a ∈ l, check a = .ok () := by
  induction l generalizing l' with
  | nil =>
    simp only [List.mapM_nil, pure, Except.pure, Except.ok.injEq, List.not_mem_nil,
      false_implies, implies_true, and_true]
    exact eq_comm
  | cons a l ih =>
    rw [List.mapM_cons, bind_eq_ok]
    constructor
    · rintro ⟨b, hb, h⟩
      obtain ⟨bs, hbs, hcons⟩ := bind_eq_ok.mp h
      obtain ⟨rfl, hl⟩ := ih.mp hbs
      cases hc : check a with
      | error e => rw [hc] at hb; simp [Except.map] at hb
      | ok u =>
        rw [hc] at hb
        simp only [Except.map, Except.ok.injEq] at hb
        subst hb
        refine ⟨(Except.ok.inj hcons).symm, fun x hx => ?_⟩
        rcases List.mem_cons.mp hx with rfl | hx
        · exact hc
        · exact hl x hx
    · rintro ⟨rfl, hl⟩
      refine ⟨a, by rw [hl a List.mem_cons_self]; rfl, ?_⟩
      rw [ih.mpr ⟨rfl, fun x hx => hl x (List.mem_cons_of_mem _ hx)⟩]
      rfl

/-- `constant_time_equal`: equality that first compares the lengths. -/
def constantTimeEqual (left right : Bytes) : Bool :=
  left.length == right.length && decide (left = right)

@[simp] theorem constantTimeEqual_iff {left right : Bytes} :
    constantTimeEqual left right = true ↔ left = right := by
  unfold constantTimeEqual
  constructor
  · intro h
    simpa using (Bool.and_eq_true_iff.mp h).2
  · intro h; simp [h]

@[simp] theorem constantTimeEqual_eq_false_iff {left right : Bytes} :
    constantTimeEqual left right = false ↔ left ≠ right := by
  rw [← Bool.not_eq_true, constantTimeEqual_iff]

/-- `u64::saturating_add`. -/
def saturatingAdd (a b : UInt64) : UInt64 := UInt64.ofNatClamp (a.toNat + b.toNat)

example : saturatingAdd 3 4 = 7 ∧ saturatingAdd 18446744073709551615 1 = 18446744073709551615 := by
  decide

/-! ## Access scopes -/

/-- `AccessScope`. -/
inductive AccessScope
  | tech
  | «private»
  deriving DecidableEq, Repr

namespace AccessScope

/-- `AccessScope::allows_private`. -/
def allowsPrivate : AccessScope → Bool
  | tech => false
  | «private» => true

/-- The scope `a` is no higher than `b`. -/
instance : LE AccessScope := ⟨fun a b => a.allowsPrivate = true → b.allowsPrivate = true⟩

theorem le_def {a b : AccessScope} :
    a ≤ b ↔ (a.allowsPrivate = true → b.allowsPrivate = true) := Iff.rfl

protected theorem le_refl (a : AccessScope) : a ≤ a := fun h => h

protected theorem le_trans {a b c : AccessScope} (h1 : a ≤ b) (h2 : b ≤ c) : a ≤ c :=
  fun h => h2 (h1 h)

theorem allowsPrivate_iff {a : AccessScope} : a.allowsPrivate = true ↔ a = «private» := by
  cases a <;> simp [allowsPrivate]

/-- Nothing is above the private scope. -/
theorem eq_private_of_le {a : AccessScope} (h : «private» ≤ a) : a = «private» :=
  allowsPrivate_iff.mp (h rfl)

end AccessScope

/-! ## Grants -/

/-- `SCOPE_TECH`. -/
def scopeTech : String := "kb:tech"

/-- `SCOPE_PRIVATE`. -/
def scopePrivate : String := "kb:private"

/-- `ScopeGrant`, a set of scope names. -/
structure ScopeGrant where
  scopes : BTreeSet String
  deriving DecidableEq

namespace ScopeGrant

/-- The test the source repeats: `scope == SCOPE_TECH || scope == SCOPE_PRIVATE`. -/
def known (scope : String) : Bool := scope == scopeTech || scope == scopePrivate

/-- `ScopeGrant::parse`. -/
def parse (value : String) : Except OAuthError ScopeGrant :=
  if value.utf8ByteSize > 256 then .error .invalidScope
  else
    let scopes := BTreeSet.collect (splitWhitespace value)
    if scopes.isEmpty || scopes.toList.any (fun scope => !known scope) then .error .invalidScope
    else .ok ⟨scopes⟩

/-- An optional scope field: `map(ScopeGrant::parse).transpose()?.unwrap_or_else(default)`. -/
def parseOr (default : ScopeGrant) (scope : Option String) : Except OAuthError ScopeGrant :=
  match scope with
  | none => .ok default
  | some value => parse value

/-- `ScopeGrant::default_for_new_client`. -/
def defaultForNewClient : ScopeGrant := ⟨BTreeSet.collect [scopeTech, scopePrivate]⟩

/-- `ScopeGrant::parse_lenient`. -/
def parseLenient (value : String) : ScopeGrant :=
  let scopes := BTreeSet.collect ((splitWhitespace value).filter known)
  if scopes.isEmpty then defaultForNewClient else ⟨scopes⟩

/-- `ScopeGrant::access_scope`. -/
def accessScope (g : ScopeGrant) : AccessScope :=
  if scopePrivate ∈ g.scopes then .«private» else .tech

/-- `ScopeGrant::allows`. -/
def allows (g requested : ScopeGrant) : Bool :=
  requested.scopes.toList.all fun scope =>
    decide (scope ∈ g.scopes) || (scope == scopeTech && decide (scopePrivate ∈ g.scopes))

/-- `ScopeGrant::is_subset_of`. -/
def isSubsetOf (g requested : ScopeGrant) : Bool := g.scopes.isSubset requested.scopes

/-- `ScopeGrant::is_valid`. -/
def isValid (g : ScopeGrant) : Bool :=
  !g.scopes.isEmpty && g.scopes.toList.all known

/-- `ScopeGrant::values`: the known scopes of the grant, `kb:tech` first. -/
def values (g : ScopeGrant) : List String :=
  [scopeTech, scopePrivate].filter fun scope => decide (scope ∈ g.scopes)

/-- `ScopeGrant::as_string`. -/
def asString (g : ScopeGrant) : String := " ".intercalate g.values

/-- `Serialize` for the newtype: the array of its elements. -/
def toJson (g : ScopeGrant) : Json.Text := Json.arr (g.scopes.toList.map Json.str)

theorem accessScope_eq_private_iff {g : ScopeGrant} :
    g.accessScope = .«private» ↔ scopePrivate ∈ g.scopes := by
  unfold accessScope; split <;> simp_all

theorem allowsPrivate_accessScope {g : ScopeGrant} :
    g.accessScope.allowsPrivate = true ↔ scopePrivate ∈ g.scopes := by
  rw [AccessScope.allowsPrivate_iff, accessScope_eq_private_iff]

theorem allows_iff {g r : ScopeGrant} : g.allows r = true ↔
    ∀ s ∈ r.scopes, s ∈ g.scopes ∨ (s = scopeTech ∧ scopePrivate ∈ g.scopes) := by
  simp [allows, BTreeSet.mem_def]

theorem isSubsetOf_iff {g r : ScopeGrant} :
    g.isSubsetOf r = true ↔ ∀ s ∈ g.scopes, s ∈ r.scopes := BTreeSet.isSubset_iff

/-- A grant is never higher than one that allows it. -/
theorem accessScope_le_of_allows {g r : ScopeGrant} (h : g.allows r = true) :
    r.accessScope ≤ g.accessScope := by
  intro hr
  rw [allowsPrivate_accessScope] at hr ⊢
  rcases allows_iff.mp h _ hr with hm | ⟨-, hm⟩
  · exact hm
  · exact hm

theorem parse_eq_ok {value : String} {g : ScopeGrant} (h : parse value = .ok g) :
    value.utf8ByteSize ≤ 256 ∧ g = ⟨BTreeSet.collect (splitWhitespace value)⟩ ∧
      g.isValid = true := by
  unfold parse at h
  split at h
  · simp at h
  · next hlen =>
    simp only at h
    split at h
    · simp at h
    · next hv =>
      rw [Except.ok.injEq] at h
      refine ⟨by omega, h.symm, ?_⟩
      rw [← h]
      simpa [isValid] using hv

/-- A scope is in the grant when it is one of the words of the field. -/
theorem mem_of_parse {value : String} {g : ScopeGrant} (h : parse value = .ok g) {s : String} :
    s ∈ g.scopes ↔ s ∈ splitWhitespace value := by
  rw [(parse_eq_ok h).2.1]; exact BTreeSet.mem_collect

theorem isValid_of_parse {value : String} {g : ScopeGrant} (h : parse value = .ok g) :
    g.isValid = true := (parse_eq_ok h).2.2

theorem mem_values {g : ScopeGrant} {s : String} :
    s ∈ g.values ↔ known s = true ∧ s ∈ g.scopes := by
  simp [values, known]

/-- A known scope on its own is a grant of exactly that scope. -/
theorem parse_known {s : String} (h : known s = true) :
    parse s = .ok ⟨BTreeSet.collect [s]⟩ := by
  simp only [known, Bool.or_eq_true, beq_iff_eq] at h
  rcases h with rfl | rfl <;> rfl

theorem isValid_defaultForNewClient : defaultForNewClient.isValid = true := by decide

theorem isValid_parseLenient (value : String) : (parseLenient value).isValid = true := by
  unfold parseLenient
  simp only
  split
  · exact isValid_defaultForNewClient
  · next h =>
    simp only [isValid, h, Bool.not_false, Bool.true_and, List.all_eq_true]
    intro s hs
    have hm : s ∈ BTreeSet.collect ((splitWhitespace value).filter known) := hs
    rw [BTreeSet.mem_collect, List.mem_filter] at hm
    exact hm.2

/-- There are three valid grants. -/
theorem isValid_cases {g : ScopeGrant} (h : g.isValid = true) :
    g = ⟨.collect [scopeTech]⟩ ∨ g = ⟨.collect [scopePrivate]⟩ ∨
      g = ⟨.collect [scopeTech, scopePrivate]⟩ := by
  obtain ⟨⟨l, hl⟩⟩ := g
  simp only [isValid, BTreeSet.isEmpty, Bool.and_eq_true, Bool.not_eq_true',
    List.isEmpty_eq_false_iff, List.all_eq_true, known, Bool.or_eq_true, beq_iff_eq] at h
  have eqOf : ∀ m : List String, (∀ s, s ∈ l ↔ s ∈ m) →
      (⟨⟨l, hl⟩⟩ : ScopeGrant) = ⟨.collect m⟩ := by
    intro m hm
    congr 1
    refine BTreeSet.ext fun s => ?_
    rw [BTreeSet.mem_collect]
    exact hm s
  obtain ⟨x, hx⟩ := List.exists_mem_of_ne_nil l h.1
  by_cases ht : scopeTech ∈ l
  · by_cases hp : scopePrivate ∈ l
    · refine Or.inr (Or.inr (eqOf _ fun s => ⟨fun hs => ?_, fun hs => ?_⟩))
      · simpa using h.2 s hs
      · rcases (by simpa using hs : s = scopeTech ∨ s = scopePrivate) with rfl | rfl
        · exact ht
        · exact hp
    · refine Or.inl (eqOf _ fun s => ⟨fun hs => ?_, fun hs => ?_⟩)
      · rcases h.2 s hs with rfl | rfl
        · simp
        · exact absurd hs hp
      · rw [List.mem_singleton.mp hs]; exact ht
  · refine Or.inr (Or.inl (eqOf _ fun s => ⟨fun hs => ?_, fun hs => ?_⟩))
    · rcases h.2 s hs with rfl | rfl
      · exact absurd hs ht
      · simp
    · rw [List.mem_singleton.mp hs]
      rcases h.2 x hx with rfl | rfl
      · exact absurd hx ht
      · exact hx

/-- A valid grant is read back from its string. -/
theorem parse_asString {g : ScopeGrant} (h : g.isValid = true) : parse g.asString = .ok g := by
  rcases isValid_cases h with rfl | rfl | rfl
  · rfl
  · rfl
  · rfl

/-- A private grant permits a request for `kb:tech`, and no tech grant one for `kb:private`. -/
example : (ScopeGrant.mk (.collect [scopePrivate])).allows ⟨.collect [scopeTech]⟩ = true ∧
    (ScopeGrant.mk (.collect [scopeTech])).allows ⟨.collect [scopePrivate]⟩ = false := by decide

end ScopeGrant

end EngramMcp
