import Mathlib.Data.List.Dedup
import Mathlib.Data.List.Sort
import Mathlib.Data.String.Basic

/-!
# Ordered sets

`std::collections::BTreeSet`: a list in strictly increasing order. The order is part of the
type, so a set has one representation and two sets with the same elements are equal.
-/

namespace Infra

/-- A finite set, kept as its elements in increasing order. -/
structure BTreeSet (α : Type*) [LinearOrder α] where
  /-- The elements in increasing order, which is the order of iteration. -/
  toList : List α
  sorted : toList.Pairwise (· < ·)
  deriving DecidableEq

namespace BTreeSet

variable {α : Type*} [LinearOrder α]

/-- `iter.collect::<BTreeSet<_>>()`. -/
def collect (l : List α) : BTreeSet α where
  toList := l.dedup.insertionSort (· ≤ ·)
  sorted := by
    have hle := List.pairwise_insertionSort (· ≤ ·) l.dedup
    have hne : (l.dedup.insertionSort (· ≤ ·)).Nodup :=
      (List.perm_insertionSort (· ≤ ·) l.dedup).nodup_iff.mpr l.nodup_dedup
    exact (hle.and hne).imp fun h => lt_of_le_of_ne h.1 h.2

instance : Membership α (BTreeSet α) := ⟨fun s a => a ∈ s.toList⟩

instance (a : α) (s : BTreeSet α) : Decidable (a ∈ s) := inferInstanceAs (Decidable (a ∈ s.toList))

theorem mem_def {a : α} {s : BTreeSet α} : a ∈ s ↔ a ∈ s.toList := Iff.rfl

@[simp] theorem mem_collect {a : α} {l : List α} : a ∈ collect l ↔ a ∈ l := by
  rw [mem_def, collect, List.mem_insertionSort, List.mem_dedup]

theorem nodup (s : BTreeSet α) : s.toList.Nodup := s.sorted.imp fun h => ne_of_lt h

@[ext] theorem ext {s t : BTreeSet α} (h : ∀ a, a ∈ s ↔ a ∈ t) : s = t := by
  have hp : s.toList.Perm t.toList := (List.perm_ext_iff_of_nodup s.nodup t.nodup).mpr h
  have heq : s.toList = t.toList :=
    hp.eq_of_pairwise (fun _ _ _ _ hab hba => absurd hab (not_lt.mpr hba.le)) s.sorted t.sorted
  cases s; cases t; cases heq; rfl

/-- Collecting the elements of a set gives the set back. -/
@[simp] theorem collect_toList (s : BTreeSet α) : collect s.toList = s :=
  ext fun _ => mem_collect

/-- `BTreeSet::len`. -/
def len (s : BTreeSet α) : Nat := s.toList.length

/-- `BTreeSet::is_empty`. -/
def isEmpty (s : BTreeSet α) : Bool := s.toList.isEmpty

/-- `BTreeSet::is_subset`. -/
def isSubset (s t : BTreeSet α) : Bool := s.toList.all (fun a => decide (a ∈ t))

@[simp] theorem isSubset_iff {s t : BTreeSet α} : s.isSubset t = true ↔ ∀ a ∈ s, a ∈ t := by
  simp [isSubset, mem_def]

/-- Collecting loses no element exactly when none was repeated. -/
theorem len_collect_eq_iff {l : List α} : (collect l).len = l.length ↔ l.Nodup := by
  rw [len, collect, List.length_insertionSort]
  constructor
  · intro h
    have heq : l.dedup = l := l.dedup_sublist.eq_of_length h
    rw [← heq]; exact l.nodup_dedup
  · intro h; rw [h.dedup]

/-- Without repetitions the set lists the elements of the list, in its own order. -/
theorem perm_collect {l : List α} (h : l.Nodup) : (collect l).toList.Perm l := by
  have hp : (collect l).toList.Perm l.dedup := List.perm_insertionSort (· ≤ ·) l.dedup
  rwa [h.dedup] at hp

end BTreeSet

end Infra
