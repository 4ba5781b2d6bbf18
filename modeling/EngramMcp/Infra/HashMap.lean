import Mathlib.Data.List.AList

/-!
# Hash maps

`std::collections::HashMap` as Mathlib's `AList`: an association list that carries the proof
that no key occurs twice. The order of the list is the iteration order, which a hash map
leaves unspecified, so two maps are compared by `Same` (equal lookups) and never by the list.

Mathlib has the lookups of `insert` and `erase`. This file adds `retain`, and `Same` with the
operations it is a congruence for.
-/

namespace Infra

variable {κ α : Type*}

/-- A map from `κ` to `α`. -/
abbrev HashMap (κ α : Type*) := AList (fun _ : κ => α)

namespace HashMap

/-- `HashMap::len`. -/
def len (m : HashMap κ α) : Nat := m.entries.length

/-- `HashMap::retain`: keeps the entries that satisfy `p`. -/
def retain (m : HashMap κ α) (p : κ → α → Bool) : HashMap κ α where
  entries := m.entries.filter (fun e => p e.1 e.2)
  nodupKeys := List.NodupKeys.sublist List.filter_sublist m.nodupKeys

theorem mem_entries_retain {m : HashMap κ α} {p : κ → α → Bool} {e : (_ : κ) × α} :
    e ∈ (m.retain p).entries ↔ e ∈ m.entries ∧ p e.1 e.2 = true := List.mem_filter

/-- Nothing was dropped exactly when the length did not change. -/
theorem len_retain_eq_iff (m : HashMap κ α) (p : κ → α → Bool) :
    (m.retain p).len = m.len ↔ m.retain p = m := by
  constructor
  · intro h
    exact AList.ext (List.filter_eq_self.mpr (List.length_filter_eq_length_iff.mp h))
  · intro h; rw [h]

section Lookup

variable [DecidableEq κ]

theorem lookup_eq_some_iff {m : HashMap κ α} {k : κ} {a : α} :
    m.lookup k = some a ↔ (⟨k, a⟩ : (_ : κ) × α) ∈ m.entries :=
  List.mem_dlookup_iff m.nodupKeys

/-- Looking up after `retain` filters the entry that was there. -/
@[simp] theorem lookup_retain (m : HashMap κ α) (p : κ → α → Bool) (k : κ) :
    (m.retain p).lookup k = (m.lookup k).filter (p k) := by
  ext a
  rw [lookup_eq_some_iff, mem_entries_retain, Option.filter_eq_some_iff, lookup_eq_some_iff]

theorem lookup_retain_eq_some {m : HashMap κ α} {p : κ → α → Bool} {k : κ} {a : α} :
    (m.retain p).lookup k = some a ↔ m.lookup k = some a ∧ p k a = true := by
  rw [lookup_retain, Option.filter_eq_some_iff]

/-! ## Equality of maps -/

/-- Two maps are the same when every key has the same value in both. -/
def Same (m n : HashMap κ α) : Prop := ∀ k, m.lookup k = n.lookup k

namespace Same

variable {m n l : HashMap κ α}

@[refl] theorem refl (m : HashMap κ α) : Same m m := fun _ => rfl

@[symm] theorem symm (h : Same m n) : Same n m := fun k => (h k).symm

@[trans] theorem trans (h1 : Same m n) (h2 : Same n l) : Same m l :=
  fun k => (h1 k).trans (h2 k)

theorem perm (h : Same m n) : m.entries.Perm n.entries :=
  List.lookup_ext m.nodupKeys n.nodupKeys fun k a => by
    have hk := h k
    unfold AList.lookup at hk
    rw [hk]

theorem len_eq (h : Same m n) : m.len = n.len := h.perm.length_eq

theorem retain (h : Same m n) (p : κ → α → Bool) : Same (m.retain p) (n.retain p) := by
  intro k; rw [lookup_retain, lookup_retain, h k]

theorem insert (h : Same m n) (k : κ) (a : α) : Same (m.insert k a) (n.insert k a) := by
  intro k'
  by_cases hk : k' = k
  · subst hk; rw [AList.lookup_insert, AList.lookup_insert]
  · rw [AList.lookup_insert_ne hk, AList.lookup_insert_ne hk, h k']

end Same

end Lookup

end HashMap

end Infra
