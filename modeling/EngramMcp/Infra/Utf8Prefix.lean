import EngramMcp.Infra.Utf8

/-!
# Prefixes of a text, in bytes

A prefix of the bytes of a text need not be a text: its last character may be cut short. A prefix
that is one is the encoding of a prefix of the text, so the encoding is a prefix code. A cut at a
character boundary gives such a prefix, and every other cut does not.

* `utf8_prefix_iff` — an encoding begins another one iff the text begins the other text
* `isCharBoundary_utf8_iff` — the boundaries of a text are the lengths of its prefixes
* `IsLongestText.mono` — the longest text that begins more bytes is longer
-/

namespace Infra

/-- Bytes that decode. -/
def IsUtf8 (b : Bytes) : Prop := ∃ s : String, utf8 s = b

/-- What some text begins with: nothing is wrong but that the last character may be cut short. -/
def BeginsUtf8 (b : Bytes) : Prop := ∃ s : String, b <+: utf8 s

theorem isUtf8_iff {b : Bytes} : IsUtf8 b ↔ (fromUtf8 b).isSome = true := by
  rw [Option.isSome_iff_exists]
  exact exists_congr fun s => fromUtf8_eq_some_iff.symm

/-! ## A prefix code -/

theorem utf8_ofList (l : List Char) :
    utf8 (String.ofList l) = l.flatMap String.utf8EncodeChar := by
  rw [utf8_eq_flatMap, String.toList_ofList]

/-- An encoding begins another one iff the text begins the other text. -/
theorem utf8_prefix_iff {s t : String} : utf8 s <+: utf8 t ↔ s.toList <+: t.toList := by
  constructor
  · rintro ⟨rest, h⟩
    refine List.isPrefix_of_utf8Encode_append_eq_utf8Encode rest.toByteArray ?_
    rw [String.utf8Encode_toList, String.utf8Encode_toList]
    apply ByteArray.ext
    apply Array.toList_inj.mp
    simpa [utf8] using h
  · rintro ⟨rest, h⟩
    refine ⟨utf8 (String.ofList rest), ?_⟩
    rw [← utf8_append, utf8_inj, ← String.toList_inj, String.toList_append, String.toList_ofList]
    exact h

/-! ## Character boundaries -/

/-- `str::is_char_boundary`: the start of a character, or the end of the text. -/
def isCharBoundary (content : Bytes) (n : Nat) : Bool :=
  match content[n]? with
  | some b => !isContinuation b
  | none => decide (n = content.length)

theorem isContinuation_iff {b : UInt8} :
    isContinuation b = true ↔ 128 ≤ b.toNat ∧ b.toNat < 192 := by
  unfold isContinuation
  rw [Bool.and_eq_true, decide_eq_true_eq, decide_eq_true_eq, UInt8.le_iff_toNat_le,
    UInt8.le_iff_toNat_le]
  exact and_congr_right fun _ => Nat.lt_succ_iff.symm

/-- The bytes after the first one of a character. -/
theorem isContinuation_tail (x : UInt8) : isContinuation (x &&& 0x3f ||| 0x80) = true := by
  have hlow : (x &&& 0x3f).toNat < 64 := by
    rw [UInt8.toNat_and]
    exact lt_of_le_of_lt Nat.and_le_right (by decide)
  have hor : (x &&& 0x3f ||| 0x80).toNat = (x &&& 0x3f).toNat ||| 128 := by
    rw [UInt8.toNat_or]; rfl
  rw [isContinuation_iff, hor]
  refine ⟨Nat.right_le_or, ?_⟩
  have h := Nat.two_pow_add_eq_or_of_lt (i := 6) hlow 2
  rw [Nat.or_comm, show (128 : Nat) = 2 ^ 6 * 2 from rfl, ← h]
  omega

theorem not_isContinuation_or {x y : UInt8} (hy : 192 ≤ y.toNat) :
    isContinuation (x ||| y) = false := by
  rw [← Bool.not_eq_true, isContinuation_iff, UInt8.toNat_or]
  intro h
  have hle : y.toNat ≤ x.toNat ||| y.toNat := Nat.right_le_or
  omega

/-- The first byte of a character is told from the others. -/
theorem exists_utf8EncodeChar_eq_cons (c : Char) :
    ∃ b rest, String.utf8EncodeChar c = b :: rest ∧ isContinuation b = false ∧
      ∀ x ∈ rest, isContinuation x = true := by
  have hpos := c.utf8Size_pos
  have hfour := c.utf8Size_le_four
  have hcases : c.utf8Size = 1 ∨ c.utf8Size = 2 ∨ c.utf8Size = 3 ∨ c.utf8Size = 4 := by omega
  rcases hcases with h | h | h | h
  · rcases utf8EncodeChar_cases c with ⟨hc, he⟩ | ⟨hc, -⟩
    · refine ⟨_, _, he, ?_, by simp⟩
      rw [← Bool.not_eq_true, isContinuation_iff, show UInt8.ofNat c.toNat = ascii c from rfl,
        toNat_ascii hc]
      omega
    · have hsmall := Char.utf8Size_eq_one_iff.mp h
      rw [UInt32.le_iff_toNat_le] at hsmall
      exact absurd (show c.toNat ≤ 127 from hsmall) (by omega)
  · refine ⟨_, _, String.utf8EncodeChar_eq_cons_cons h, not_isContinuation_or (by decide), ?_⟩
    simp only [List.forall_mem_cons]
    exact ⟨isContinuation_tail _, by simp⟩
  · refine ⟨_, _, String.utf8EncodeChar_eq_cons_cons_cons h, not_isContinuation_or (by decide), ?_⟩
    simp only [List.forall_mem_cons]
    exact ⟨isContinuation_tail _, isContinuation_tail _, by simp⟩
  · refine ⟨_, _, String.utf8EncodeChar_eq_cons_cons_cons_cons h,
      not_isContinuation_or (by decide), ?_⟩
    simp only [List.forall_mem_cons]
    exact ⟨isContinuation_tail _, isContinuation_tail _, isContinuation_tail _, by simp⟩

/-- The start of a text is a boundary. -/
theorem isCharBoundary_zero (s : String) : isCharBoundary (utf8 s) 0 = true := by
  rw [utf8_eq_flatMap]
  cases s.toList with
  | nil => rfl
  | cons c l =>
    obtain ⟨b, rest, he, hb, -⟩ := exists_utf8EncodeChar_eq_cons c
    rw [List.flatMap_cons, he]
    simp [isCharBoundary, hb]

/-- No text begins within a character. -/
theorem not_beginsUtf8_cons {b : UInt8} (hb : isContinuation b = true) (rest : Bytes) :
    ¬BeginsUtf8 (b :: rest) := by
  rintro ⟨s, hs⟩
  have h := isCharBoundary_zero s
  obtain ⟨more, hmore⟩ := hs
  rw [← hmore] at h
  simp [isCharBoundary, hb] at h

/-- A cut behind the first character is a cut of the rest. -/
theorem isCharBoundary_append_add (a b : Bytes) (n : Nat) :
    isCharBoundary (a ++ b) (a.length + n) = isCharBoundary b n := by
  unfold isCharBoundary
  rw [List.getElem?_append_right (Nat.le_add_right _ _), Nat.add_sub_cancel_left,
    List.length_append]
  congr 1
  simp

/-- The boundaries of a text are the lengths of its prefixes. -/
theorem isCharBoundary_utf8_iff {s : String} {n : Nat} :
    isCharBoundary (utf8 s) n = true ↔
      ∃ t : String, t.toList <+: s.toList ∧ t.utf8ByteSize = n := by
  rw [utf8_eq_flatMap]
  generalize s.toList = l
  induction l generalizing n with
  | nil =>
    constructor
    · intro h
      refine ⟨"", List.nil_prefix, ?_⟩
      simpa [isCharBoundary, eq_comm] using h
    · rintro ⟨t, ht, rfl⟩
      rw [List.prefix_nil] at ht
      rw [← utf8Len_toList, ht]
      rfl
  | cons c l ih =>
    obtain ⟨b, rest, he, hb, hrest⟩ := exists_utf8EncodeChar_eq_cons c
    have hsize : (String.utf8EncodeChar c).length = c.utf8Size := String.length_utf8EncodeChar c
    rw [List.flatMap_cons]
    by_cases hn : c.utf8Size ≤ n
    · -- the cut is behind the first character
      obtain ⟨k, rfl⟩ := Nat.exists_eq_add_of_le hn
      rw [← hsize, isCharBoundary_append_add, ih, hsize]
      constructor
      · rintro ⟨t, ht, hk⟩
        refine ⟨String.ofList (c :: t.toList), ?_, ?_⟩
        · rw [String.toList_ofList, List.cons_prefix_cons]
          exact ⟨rfl, ht⟩
        · rw [utf8ByteSize_ofList, utf8Len_cons, utf8Len_toList, hk]
      · rintro ⟨t, ht, hk⟩
        rw [← utf8Len_toList] at hk
        have hpos := c.utf8Size_pos
        cases htl : t.toList with
        | nil => rw [htl, utf8Len_nil] at hk; omega
        | cons d tail =>
          rw [htl, List.cons_prefix_cons] at ht
          rw [htl, utf8Len_cons, ht.1] at hk
          refine ⟨String.ofList tail, ?_, ?_⟩
          · rw [String.toList_ofList]; exact ht.2
          · rw [utf8ByteSize_ofList]; omega
    · -- it is in front of the first character, or within it
      cases n with
      | zero =>
        refine iff_of_true ?_ ⟨"", List.nil_prefix, rfl⟩
        rw [he]
        simp [isCharBoundary, hb]
      | succ k =>
        rw [he, List.length_cons] at hsize
        refine iff_of_false ?_ ?_
        · have hk : k < rest.length := by omega
          rw [he, List.cons_append, isCharBoundary, List.getElem?_cons_succ,
            List.getElem?_append_left hk, List.getElem?_eq_getElem hk]
          simp [hrest _ (List.getElem_mem hk)]
        · rintro ⟨t, ht, hk⟩
          rw [← utf8Len_toList] at hk
          cases htl : t.toList with
          | nil => rw [htl, utf8Len_nil] at hk; omega
          | cons d tail =>
            rw [htl, List.cons_prefix_cons] at ht
            rw [htl, utf8Len_cons, ht.1] at hk
            omega

/-! ## The longest text -/

/-- The longest text that begins a byte string. -/
def IsLongestText (b : Bytes) (s : String) : Prop :=
  utf8 s <+: b ∧ ∀ t, utf8 t <+: b → t.toList <+: s.toList

namespace IsLongestText

variable {a b : Bytes} {s t : String}

/-- More bytes hold more text. -/
theorem mono (hs : IsLongestText a s) (ht : IsLongestText b t) (h : a <+: b) :
    s.toList <+: t.toList := ht.2 s (hs.1.trans h)

theorem of_utf8 (s : String) : IsLongestText (utf8 s) s :=
  ⟨List.prefix_rfl, fun _ => utf8_prefix_iff.mp⟩

/-- The longest text of the first bytes of a text is a prefix of it. -/
theorem toList_prefix (hs : IsLongestText a s) (h : a <+: utf8 t) : s.toList <+: t.toList :=
  hs.mono (of_utf8 t) h

/-- Of the first bytes of a text, at most three belong to the character that was cut short. -/
theorem le_add_three {n : Nat} (hs : IsLongestText ((utf8 t).take n) s)
    (hn : n < t.utf8ByteSize) : n ≤ s.utf8ByteSize + 3 := by
  obtain ⟨rest, hrest⟩ := hs.toList_prefix (List.take_prefix n (utf8 t))
  cases rest with
  | nil =>
    rw [List.append_nil] at hrest
    have hst : s = t := String.toList_inj.mp hrest
    have hle := hs.1.length_le
    rw [length_utf8, List.length_take, hst] at hle
    omega
  | cons c rest =>
    by_contra hlt
    -- the next character would fit as well
    have hfour := c.utf8Size_le_four
    have hnext : (String.ofList (s.toList ++ [c])).toList <+: t.toList := by
      rw [String.toList_ofList, ← hrest]
      exact ⟨rest, by simp⟩
    have hsize : (String.ofList (s.toList ++ [c])).utf8ByteSize = s.utf8ByteSize + c.utf8Size := by
      rw [utf8ByteSize_ofList, utf8Len_append, utf8Len_toList, utf8Len_cons, utf8Len_nil]
      rfl
    have hmore := hs.2 _ (List.prefix_take_iff.mpr
      ⟨utf8_prefix_iff.mpr hnext, by rw [length_utf8, hsize]; omega⟩)
    have hlen := hmore.length_le
    rw [String.toList_ofList, List.length_append, List.length_singleton] at hlen
    omega

end IsLongestText

end Infra
