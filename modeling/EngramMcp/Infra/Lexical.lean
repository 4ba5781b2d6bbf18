import EngramMcp.Infra.FileSystem

/-!
# Lexical resolution

Where a path leads when its segments are followed one by one and nothing is looked up: an empty
segment and `.` stay, `..` goes up, and every other segment goes down.

* `resolveLexically_of_resolveBeneath` — the kernel arrives where the segments lead
* `resolveLexically_of_not_mem` — without `..` a path leads to its names
-/

namespace Infra

/-- What one segment does. -/
inductive LexicalStep
  | stay
  | up
  | down (name : Bytes)
  deriving DecidableEq, Repr

/-- The step of a segment. -/
def lexicalStep (seg : Bytes) : LexicalStep :=
  if seg = [] ∨ seg = [dot] then .stay
  else if seg = [dot, dot] then .up
  else .down seg

/-- The steps of a path. -/
def lexicalSteps (p : Bytes) : List LexicalStep := (segments p).map lexicalStep

/-- One step from a position below the start; nothing once the start was left. -/
def follow (position : Option (List Bytes)) (step : LexicalStep) : Option (List Bytes) :=
  match position, step with
  | none, _ => none
  | some below, .stay => some below
  | some below, .down name => some (below ++ [name])
  | some [], .up => none
  | some (name :: below), .up => some (name :: below).dropLast

/-- Where a path leads: the names below the start, or nothing if it leads out. -/
def resolveLexically (p : Bytes) : Option (List Bytes) :=
  if p.head? = some slash then none else (lexicalSteps p).foldl follow (some [])

theorem lexicalStep_eq_up {seg : Bytes} (h : lexicalStep seg = .up) : seg = [dot, dot] := by
  unfold lexicalStep at h
  split at h
  · simp at h
  · split at h
    · assumption
    · simp at h

theorem follow_up (below : List Bytes) (name : Bytes) :
    follow (some (below ++ [name])) .up = some below := by
  cases below with
  | nil => rfl
  | cons first rest =>
    show some ((first :: (rest ++ [name])).dropLast) = _
    rw [← List.cons_append, List.dropLast_concat]

/-- One step of the kernel below the start is the step of the segment. -/
theorem follow_of_step {start : Node} {trail trail' : Trail} {seg : Bytes}
    (h : step true start trail seg = .ok trail') :
    follow (some (trail.names.map Name.bytes)) (lexicalStep seg)
      = some (trail'.names.map Name.bytes) := by
  by_cases hup : seg = [dot, dot]
  · -- one directory up, which the kernel refuses at the start
    subst hup
    unfold step at h
    split at h
    · rw [if_neg (by simp), if_pos (Or.inr rfl)] at h
      split at h
      · simp at h
      · rw [if_neg (by simp)] at h
        cases trail with
        | nil => simp at h
        | cons entry up =>
          cases h
          have hnames : Trail.names (entry :: trail') = Trail.names trail' ++ [entry.1] := by
            simp [Trail.names]
          rw [hnames, List.map_append]
          exact follow_up _ _
    · simp at h
  · rcases step_cases hup h with ⟨rfl, hstay⟩ | ⟨h0, h1, name, node, hname, rfl⟩
    · rw [lexicalStep, if_pos hstay]
      rfl
    · rw [lexicalStep, if_neg (by simp [h0, h1]), if_neg hup]
      simp [follow, Trail.names, hname]

theorem foldl_follow_of_walk {start : Node} {segs : List Bytes} {trail trail' : Trail}
    (h : walk true start trail segs = .ok trail') :
    (segs.map lexicalStep).foldl follow (some (trail.names.map Name.bytes))
      = some (trail'.names.map Name.bytes) := by
  induction segs generalizing trail with
  | nil =>
    cases h
    rfl
  | cons seg rest ih =>
    unfold walk at h
    split at h
    · next next hstep =>
      rw [List.map_cons, List.foldl_cons, follow_of_step hstep]
      exact ih h
    · simp at h

/-- The kernel arrives where the segments lead. -/
theorem resolveLexically_of_resolveBeneath {start : Node} {p : Bytes} {trail : Trail}
    (h : resolveBeneath start p = .ok trail) :
    resolveLexically p = some (trail.names.map Name.bytes) := by
  unfold resolveBeneath at h
  split at h
  · simp at h
  · split at h
    · simp at h
    · next hroot =>
      rw [resolveLexically, if_neg hroot]
      exact foldl_follow_of_walk h

theorem foldl_follow_of_not_mem {segs below : List Bytes} (h : [dot, dot] ∉ segs) :
    (segs.map lexicalStep).foldl follow (some below)
      = some (below ++ segs.filter fun seg => decide (seg ≠ [] ∧ seg ≠ [dot])) := by
  induction segs generalizing below with
  | nil => simp
  | cons seg rest ih =>
    rw [List.mem_cons, not_or] at h
    rw [List.map_cons, List.foldl_cons, List.filter_cons]
    by_cases hs : seg = [] ∨ seg = [dot]
    · rw [lexicalStep, if_pos hs, if_neg (by rcases hs with rfl | rfl <;> simp)]
      exact ih h.2
    · rw [lexicalStep, if_neg hs, if_neg (Ne.symm h.1)]
      rw [not_or] at hs
      rw [if_pos (by simpa using hs)]
      show (rest.map lexicalStep).foldl follow (some (below ++ [seg])) = _
      rw [ih h.2, List.append_assoc, List.singleton_append]

/-- Without `..` a path leads to its names. -/
theorem resolveLexically_of_not_mem {p : Bytes} (hroot : p.head? ≠ some slash)
    (h : [dot, dot] ∉ segments p) : resolveLexically p = some (names p) := by
  rw [resolveLexically, if_neg hroot, lexicalSteps, foldl_follow_of_not_mem h]
  rfl

end Infra
