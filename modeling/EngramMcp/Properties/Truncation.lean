import EngramMcp.Infra.Utf8Prefix
import EngramMcp.Kb.Document

/-!
# Reading under a limit

A file that is longer than the limit is cut there, and bytes are taken off the end until the rest
decodes. That leaves the longest text that the first bytes begin with. For a well-formed file this
is the cut at the last character boundary. An ill-formed one is cut in front of its first error,
however far that is from the limit, and nobody is told: only a file that fits is refused.

* `readUtf8Limited_cases` — the two paths of a read
* `readUtf8Limited_exact` — truncating well-formed text
* `reports_illFormed_iff` — when an ill-formed file is reported
-/

namespace EngramMcp

open Infra

/-- Taking bytes off the end leaves the longest text. -/
theorem popIllFormed_spec (b : Bytes) :
    ∃ s, (popIllFormed b.reverse).reverse = utf8 s ∧ IsLongestText b s := by
  induction b using List.reverseRecOn with
  | nil => exact ⟨"", rfl, IsLongestText.of_utf8 ""⟩
  | append_singleton b x ih =>
    rw [List.reverse_append, List.reverse_singleton, List.singleton_append]
    unfold popIllFormed
    rw [List.reverse_cons, List.reverse_reverse]
    by_cases hx : (fromUtf8 (b ++ [x])).isSome = true
    · obtain ⟨s, hs⟩ := isUtf8_iff.mpr hx
      rw [if_pos hx, List.reverse_cons, List.reverse_reverse, ← hs]
      exact ⟨s, rfl, IsLongestText.of_utf8 s⟩
    · obtain ⟨s, hs, hprefix, hlongest⟩ := ih
      rw [if_neg hx]
      refine ⟨s, hs, hprefix.trans (List.prefix_append b [x]), ?_⟩
      intro t ht
      rcases List.prefix_concat_iff.mp ht with he | ht
      · exact absurd (isUtf8_iff.mp ⟨t, he⟩) hx
      · exact hlongest t ht

/-- The two paths of a read: a file that fits is decoded, any other is cut. -/
theorem readUtf8Limited_cases (content : Bytes) (maxBytes : Nat) :
    (content.length ≤ maxBytes ∧ readUtf8Limited none content maxBytes =
      match fromUtf8 content with
      | some text => .ok (text, false)
      | none => .error .invalidUtf8) ∨
    (maxBytes < content.length ∧ ∃ text, IsLongestText (content.take maxBytes) text ∧
      readUtf8Limited none content maxBytes = .ok (text, true)) := by
  unfold readUtf8Limited
  by_cases h : content.length ≤ maxBytes
  · refine Or.inl ⟨h, ?_⟩
    have htake : content.take (maxBytes + 1) = content := List.take_of_length_le (by omega)
    have hfits : decide (maxBytes < content.length) = false := decide_eq_false (Nat.not_lt.mpr h)
    cases htext : fromUtf8 content with
    | none => simp only [htake, hfits, Bool.false_eq_true, if_false, htext]
    | some text => simp only [htake, hfits, Bool.false_eq_true, if_false, htext]
  · refine Or.inr ⟨by omega, ?_⟩
    have hlen : maxBytes < (content.take (maxBytes + 1)).length := by
      rw [List.length_take]; omega
    obtain ⟨text, htext, hlongest⟩ := popIllFormed_spec (content.take maxBytes)
    refine ⟨text, hlongest, ?_⟩
    simp only [hlen, decide_true, if_true, List.take_take,
      Nat.min_eq_left (Nat.le_succ maxBytes), htext, fromUtf8_utf8]

/-! ## Well-formed files -/

/-- The longest prefix of at most `limit` bytes that ends on a character boundary. -/
structure IsLongestWithin (limit : Nat) (content : Bytes) (text : String) : Prop where
  isPrefix : utf8 text <+: content
  length_le : text.utf8ByteSize ≤ limit
  boundary : isCharBoundary content text.utf8ByteSize = true
  longest : ∀ n ≤ limit, isCharBoundary content n = true → n ≤ text.utf8ByteSize

/-- The longest text among the first bytes of a text is cut at a boundary. -/
theorem isLongestWithin_of_isLongestText {s text : String} {limit : Nat}
    (h : IsLongestText ((utf8 s).take limit) text) : IsLongestWithin limit (utf8 s) text where
  isPrefix := (List.prefix_take_iff.mp h.1).1
  length_le := by
    have hle := (List.prefix_take_iff.mp h.1).2
    rw [length_utf8] at hle
    exact hle
  boundary := isCharBoundary_utf8_iff.mpr
    ⟨text, h.toList_prefix (List.take_prefix limit _), rfl⟩
  longest := by
    intro n hn hb
    obtain ⟨t, ht, rfl⟩ := isCharBoundary_utf8_iff.mp hb
    have hprefix := h.2 t (List.prefix_take_iff.mpr ⟨utf8_prefix_iff.mpr ht, by
      rw [length_utf8]; exact hn⟩)
    have hle := (utf8_prefix_iff.mpr hprefix).length_le
    rw [length_utf8, length_utf8] at hle
    exact hle

/-- Truncating well-formed text is exact. -/
theorem readUtf8Limited_exact {content : Bytes} {s : String} (h : fromUtf8 content = some s)
    (maxBytes : Nat) :
    ∃ text truncated, readUtf8Limited none content maxBytes = .ok (text, truncated) ∧
      (truncated = true ↔ maxBytes < content.length) ∧
      IsLongestWithin maxBytes content text ∧
      (truncated = false → utf8 text = content) ∧
      (truncated = true → maxBytes ≤ text.utf8ByteSize + 3) := by
  obtain rfl := fromUtf8_eq_some_iff.mp h
  rcases readUtf8Limited_cases (utf8 s) maxBytes with ⟨hfit, hread⟩ | ⟨hlong, text, htext, hread⟩
  · rw [h] at hread
    refine ⟨s, false, hread, iff_of_false Bool.false_ne_true (Nat.not_lt.mpr hfit), ?_,
      fun _ => rfl, fun hf => absurd hf Bool.false_ne_true⟩
    refine isLongestWithin_of_isLongestText ?_
    rw [List.take_of_length_le hfit]
    exact IsLongestText.of_utf8 s
  · refine ⟨text, true, hread, iff_of_true rfl hlong, isLongestWithin_of_isLongestText htext,
      fun hf => absurd hf.symm Bool.false_ne_true, fun _ => htext.le_add_three ?_⟩
    rw [length_utf8] at hlong
    exact hlong

/-- A limit that cuts the last character: it is left out. -/
theorem readUtf8Limited_exact_cut :
    fromUtf8 (utf8 "ab😀") = some "ab😀" ∧
      ∃ text truncated, readUtf8Limited none (utf8 "ab😀") 5 = .ok (text, truncated) ∧
        (truncated = true ↔ 5 < (utf8 "ab😀").length) ∧
        IsLongestWithin 5 (utf8 "ab😀") text ∧
        (truncated = false → utf8 text = utf8 "ab😀") ∧
        (truncated = true → 5 ≤ text.utf8ByteSize + 3) :=
  ⟨fromUtf8_utf8 _, readUtf8Limited_exact (fromUtf8_utf8 _) 5⟩

example : (readUtf8Limited none (utf8 "ab😀") 5).toOption = some ("ab", true) := by decide +kernel

/-! ## Ill-formed files -/

/--
Among the bytes that are read there is an ill-formed sequence. A character that the limit cuts
short is none; the end of the file cuts nothing short.
-/
def IllFormedBelow (content : Bytes) (maxBytes : Nat) : Prop :=
  if maxBytes < content.length then ¬BeginsUtf8 (content.take maxBytes) else ¬IsUtf8 content

/-- A file that is cut is read, whatever it holds. -/
theorem isOk_of_cut {content : Bytes} {maxBytes : Nat} (h : maxBytes < content.length) :
    ∃ text, readUtf8Limited none content maxBytes = .ok (text, true) := by
  rcases readUtf8Limited_cases content maxBytes with ⟨hfit, -⟩ | ⟨-, text, -, hread⟩
  · omega
  · exact ⟨text, hread⟩

/-- A file that fits and is ill-formed is reported. -/
theorem error_of_fits {content : Bytes} {maxBytes : Nat} (h : content.length ≤ maxBytes)
    (hbad : IllFormedBelow content maxBytes) :
    readUtf8Limited none content maxBytes = .error .invalidUtf8 := by
  unfold IllFormedBelow at hbad
  rw [if_neg (Nat.not_lt.mpr h)] at hbad
  rcases readUtf8Limited_cases content maxBytes with ⟨-, hread⟩ | ⟨hlong, -⟩
  · have hnone : fromUtf8 content = none := by
      rw [← Option.not_isSome_iff_eq_none]
      exact fun hsome => hbad (isUtf8_iff.mpr hsome)
    rw [hread, hnone]
  · omega

/-- An ill-formed file is reported exactly if it is not cut. -/
theorem error_iff_fits {content : Bytes} {maxBytes : Nat}
    (hbad : IllFormedBelow content maxBytes) :
    readUtf8Limited none content maxBytes = .error .invalidUtf8 ↔ content.length ≤ maxBytes := by
  refine ⟨?_, fun h => error_of_fits h hbad⟩
  intro h
  by_contra hlong
  obtain ⟨text, hread⟩ := isOk_of_cut (Nat.lt_of_not_le hlong)
  rw [hread] at h
  cases h

/-- The limits agree on whether the file is readable. -/
def LimitsAgree (content : Bytes) (maxRead maxSearch : Nat) : Prop :=
  (readUtf8Limited none content maxRead = .error .invalidUtf8 ↔
    readUtf8Limited none content maxSearch = .error .invalidUtf8)

/--
An ill-formed file is reported exactly if it is not cut behind the error, and two limits above the
error agree exactly if both cut the file or neither does.
-/
theorem reports_illFormed_iff (content : Bytes) (maxBytes maxRead maxSearch : Nat) :
    ((IllFormedBelow content maxBytes →
        readUtf8Limited none content maxBytes = .error .invalidUtf8) ↔
      (content.length ≤ maxBytes ∨ BeginsUtf8 (content.take maxBytes))) ∧
    (IllFormedBelow content maxRead → IllFormedBelow content maxSearch →
      (LimitsAgree content maxRead maxSearch ↔
        (content.length ≤ maxRead ↔ content.length ≤ maxSearch))) := by
  constructor
  · by_cases hfit : content.length ≤ maxBytes
    · exact iff_of_true (fun hbad => error_of_fits hfit hbad) (Or.inl hfit)
    · have hlong := Nat.lt_of_not_le hfit
      have hiff : IllFormedBelow content maxBytes ↔ ¬BeginsUtf8 (content.take maxBytes) := by
        unfold IllFormedBelow
        rw [if_pos hlong]
      constructor
      · intro h
        refine Or.inr ?_
        by_contra hbegins
        have hbad := hiff.mpr hbegins
        exact hfit ((error_iff_fits hbad).mp (h hbad))
      · rintro (h | h) hbad
        · exact absurd h hfit
        · exact absurd h (hiff.mp hbad)
  · intro hread hsearch
    unfold LimitsAgree
    rw [error_iff_fits hread, error_iff_fits hsearch]

/-- A file that begins with an error and is one byte too long: an empty text, and no error. -/
theorem not_reports_illFormed :
    ¬((∀ content maxBytes, IllFormedBelow content maxBytes →
        readUtf8Limited none content maxBytes = .error .invalidUtf8) ∧
      ∀ content maxRead maxSearch, IllFormedBelow content maxRead →
        IllFormedBelow content maxSearch → LimitsAgree content maxRead maxSearch) := by
  rintro ⟨h, -⟩
  have hbad : IllFormedBelow [0x80, 0x41] 1 := by
    unfold IllFormedBelow
    rw [if_pos (by decide)]
    exact not_beginsUtf8_cons (by decide) []
  have hcut : 1 < ([0x80, 0x41] : Bytes).length := by decide
  obtain ⟨text, hread⟩ := isOk_of_cut hcut
  rw [h _ _ hbad] at hread
  cases hread

end EngramMcp
