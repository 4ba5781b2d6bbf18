import EngramMcp.Infra.UnixPath
import EngramMcp.Infra.Utf8Prefix

/-!
# Lossy decoding

What lossy decoding makes of a byte string is text: the pieces it keeps are characters, and the
others become one. Nothing else is changed, so what was a name of a directory entry is one
afterwards.

* `exists_utf8EncodeChar_of_chunkLength` — a piece that is kept is a character
* `utf8_fromUtf8Lossy` — the bytes of what is decoded
* `IsName.fromUtf8Lossy` — names are decoded to names
-/

namespace Infra

/-! ## Pieces -/

/-- The character of a number, as long as it is no surrogate. -/
theorem exists_char {v : Nat} (h : v.isValidChar) : ∃ c : Char, c.val.toNat = v :=
  ⟨Char.ofNatAux v h, rfl⟩

theorem ofNat_eq {b : UInt8} {n : Nat} (h : b.toNat = n) : UInt8.ofNat n = b := by
  rw [← h, UInt8.ofNat_toNat]

/-- Two bytes that are a character. -/
theorem exists_two {b c : UInt8} (hb : 0xC2 ≤ b.toNat ∧ b.toNat ≤ 0xDF)
    (hc : 0x80 ≤ c.toNat ∧ c.toNat ≤ 0xBF) : ∃ x, String.utf8EncodeChar x = [b, c] := by
  obtain ⟨x, hx⟩ := exists_char (v := (b.toNat - 192) * 64 + (c.toNat - 128))
    (Or.inl (by omega))
  refine ⟨x, ?_⟩
  unfold String.utf8EncodeChar
  simp only [hx]
  rw [if_neg (by omega), if_pos (by omega), ofNat_eq (b := b) (by omega),
    ofNat_eq (b := c) (by omega)]

/-- Three bytes that are a character: no overlong form and no surrogate. -/
theorem exists_three {b c d : UInt8} (hb : 0xE0 ≤ b.toNat ∧ b.toNat ≤ 0xEF)
    (hc : 0x80 ≤ c.toNat ∧ c.toNat ≤ 0xBF) (hd : 0x80 ≤ d.toNat ∧ d.toNat ≤ 0xBF)
    (hlong : b.toNat = 0xE0 → 0xA0 ≤ c.toNat) (hsurrogate : b.toNat = 0xED → c.toNat ≤ 0x9F) :
    ∃ x, String.utf8EncodeChar x = [b, c, d] := by
  obtain ⟨x, hx⟩ := exists_char
    (v := (b.toNat - 224) * 4096 + (c.toNat - 128) * 64 + (d.toNat - 128)) (by
      unfold Nat.isValidChar
      omega)
  refine ⟨x, ?_⟩
  unfold String.utf8EncodeChar
  simp only [hx]
  rw [if_neg (by omega), if_neg (by omega), if_pos (by omega), ofNat_eq (b := b) (by omega),
    ofNat_eq (b := c) (by omega), ofNat_eq (b := d) (by omega)]

/-- Four bytes that are a character: no overlong form and nothing above `U+10FFFF`. -/
theorem exists_four {b c d e : UInt8} (hb : 0xF0 ≤ b.toNat ∧ b.toNat ≤ 0xF4)
    (hc : 0x80 ≤ c.toNat ∧ c.toNat ≤ 0xBF) (hd : 0x80 ≤ d.toNat ∧ d.toNat ≤ 0xBF)
    (he : 0x80 ≤ e.toNat ∧ e.toNat ≤ 0xBF) (hlong : b.toNat = 0xF0 → 0x90 ≤ c.toNat)
    (hlast : b.toNat = 0xF4 → c.toNat ≤ 0x8F) : ∃ x, String.utf8EncodeChar x = [b, c, d, e] := by
  obtain ⟨x, hx⟩ := exists_char (v := (b.toNat - 240) * 262144 + (c.toNat - 128) * 4096
    + (d.toNat - 128) * 64 + (e.toNat - 128)) (Or.inr (by omega))
  refine ⟨x, ?_⟩
  unfold String.utf8EncodeChar
  simp only [hx]
  rw [if_neg (by omega), if_neg (by omega), if_neg (by omega), ofNat_eq (b := b) (by omega),
    ofNat_eq (b := c) (by omega), ofNat_eq (b := d) (by omega), ofNat_eq (b := e) (by omega)]

theorem between_iff {lo hi b : UInt8} :
    (decide (lo ≤ b) && decide (b ≤ hi)) = true ↔ lo.toNat ≤ b.toNat ∧ b.toNat ≤ hi.toNat := by
  rw [Bool.and_eq_true, decide_eq_true_eq, decide_eq_true_eq, UInt8.le_iff_toNat_le,
    UInt8.le_iff_toNat_le]

/-- The second byte of three. -/
theorem second_of_three {b c : UInt8}
    (h : (if b = 0xE0 then 0xA0 ≤ c && c ≤ 0xBF else if b = 0xED then 0x80 ≤ c && c ≤ 0x9F
      else isContinuation c) = true) :
    (0x80 ≤ c.toNat ∧ c.toNat ≤ 0xBF) ∧ (b.toNat = 0xE0 → 0xA0 ≤ c.toNat) ∧
      (b.toNat = 0xED → c.toNat ≤ 0x9F) := by
  split at h
  · next hb =>
    obtain ⟨hlo, hhi⟩ := between_iff.mp h
    exact ⟨⟨le_trans (by decide) hlo, hhi⟩, fun _ => hlo, fun hc => absurd hc (by rw [hb]; decide)⟩
  · next hb =>
    have hlong : b.toNat = 0xE0 → 0xA0 ≤ c.toNat := fun hc =>
      absurd (UInt8.toNat_inj.mp hc) hb
    split at h
    · obtain ⟨hlo, hhi⟩ := between_iff.mp h
      exact ⟨⟨hlo, le_trans hhi (by decide)⟩, hlong, fun _ => hhi⟩
    · next hb =>
      exact ⟨between_iff.mp h, hlong, fun hc => absurd (UInt8.toNat_inj.mp hc) hb⟩

/-- The second byte of four. -/
theorem second_of_four {b c : UInt8}
    (h : (if b = 0xF0 then 0x90 ≤ c && c ≤ 0xBF else if b = 0xF4 then 0x80 ≤ c && c ≤ 0x8F
      else isContinuation c) = true) :
    (0x80 ≤ c.toNat ∧ c.toNat ≤ 0xBF) ∧ (b.toNat = 0xF0 → 0x90 ≤ c.toNat) ∧
      (b.toNat = 0xF4 → c.toNat ≤ 0x8F) := by
  split at h
  · next hb =>
    obtain ⟨hlo, hhi⟩ := between_iff.mp h
    exact ⟨⟨le_trans (by decide) hlo, hhi⟩, fun _ => hlo, fun hc => absurd hc (by rw [hb]; decide)⟩
  · next hb =>
    have hlong : b.toNat = 0xF0 → 0x90 ≤ c.toNat := fun hc =>
      absurd (UInt8.toNat_inj.mp hc) hb
    split at h
    · obtain ⟨hlo, hhi⟩ := between_iff.mp h
      exact ⟨⟨hlo, le_trans hhi (by decide)⟩, hlong, fun _ => hhi⟩
    · next hb =>
      exact ⟨between_iff.mp h, hlong, fun hc => absurd (UInt8.toNat_inj.mp hc) hb⟩

/-- A piece is kept only if its next byte fits. -/
theorem kept_iff {p : Prop} [Decidable p] {more : Bool × Nat} {k n : Nat} :
    (if p then more else (false, k)) = (true, n) ↔ p ∧ more = (true, n) := by
  by_cases hp : p
  · rw [if_pos hp]
    exact (and_iff_right hp).symm
  · rw [if_neg hp]
    refine ⟨fun h => ?_, fun h => absurd h.1 hp⟩
    exact nomatch h

theorem chunkLength_pos (b : UInt8) (rest : Bytes) : 0 < (chunkLength (b :: rest)).2 := by
  simp only [chunkLength]
  repeat' split
  all_goals decide

/-- A piece that is kept is a character. -/
theorem exists_utf8EncodeChar_of_chunkLength {b : UInt8} {rest : Bytes} {n : Nat}
    (h : chunkLength (b :: rest) = (true, n)) :
    ∃ x, String.utf8EncodeChar x = (b :: rest).take n := by
  simp only [chunkLength] at h
  split at h
  · next hb =>
    cases h
    rw [UInt8.lt_iff_toNat_lt] at hb
    have hlt : b.toNat < 128 := hb
    obtain ⟨x, hx⟩ := exists_char (v := b.toNat) (Or.inl (by omega))
    refine ⟨x, ?_⟩
    unfold String.utf8EncodeChar
    simp only [hx]
    rw [if_pos (by omega), ofNat_eq rfl]
    rfl
  split at h
  · next hb =>
    cases rest with
    | nil => exact nomatch h
    | cons c rest =>
      obtain ⟨hc, h⟩ := kept_iff.mp h
      cases h
      exact exists_two (between_iff.mp hb) (between_iff.mp hc)
  split at h
  · next hb =>
    cases rest with
    | nil => exact nomatch h
    | cons c rest =>
      obtain ⟨hc, h⟩ := kept_iff.mp h
      obtain ⟨hcont, hlong, hsurrogate⟩ := second_of_three hc
      cases rest with
      | nil => exact nomatch h
      | cons d rest =>
        obtain ⟨hd, h⟩ := kept_iff.mp h
        cases h
        exact exists_three (between_iff.mp hb) hcont (between_iff.mp hd) hlong hsurrogate
  split at h
  · next hb =>
    cases rest with
    | nil => exact nomatch h
    | cons c rest =>
      obtain ⟨hc, h⟩ := kept_iff.mp h
      obtain ⟨hcont, hlong, hlast⟩ := second_of_four hc
      cases rest with
      | nil => exact nomatch h
      | cons d rest =>
        obtain ⟨hd, h⟩ := kept_iff.mp h
        cases rest with
        | nil => exact nomatch h
        | cons e rest =>
          obtain ⟨he, h⟩ := kept_iff.mp h
          cases h
          exact exists_four (between_iff.mp hb) hcont (between_iff.mp hd) (between_iff.mp he)
            hlong hlast
  · exact nomatch h

/-! ## The bytes of what is decoded -/

theorem IsUtf8.append {a b : Bytes} (ha : IsUtf8 a) (hb : IsUtf8 b) : IsUtf8 (a ++ b) := by
  obtain ⟨s, rfl⟩ := ha
  obtain ⟨t, rfl⟩ := hb
  exact ⟨s ++ t, utf8_append s t⟩

theorem isUtf8_utf8EncodeChar (c : Char) : IsUtf8 (String.utf8EncodeChar c) :=
  ⟨String.ofList [c], by rw [utf8_ofList]; simp⟩

/-- What is put in the place of the ill-formed pieces leaves a text. -/
theorem isUtf8_replaceInvalid (fuel : Nat) (b : Bytes) : IsUtf8 (replaceInvalid fuel b) := by
  induction fuel generalizing b with
  | zero => exact ⟨"", rfl⟩
  | succ fuel ih =>
    cases b with
    | nil => exact ⟨"", rfl⟩
    | cons b rest =>
      unfold replaceInvalid
      rcases hchunk : chunkLength (b :: rest) with ⟨valid, n⟩
      simp only
      refine IsUtf8.append ?_ (ih _)
      cases valid with
      | false =>
        rw [if_neg Bool.false_ne_true]
        exact isUtf8_utf8EncodeChar _
      | true =>
        obtain ⟨x, hx⟩ := exists_utf8EncodeChar_of_chunkLength hchunk
        rw [if_pos rfl, ← hx]
        exact isUtf8_utf8EncodeChar x

/-- A byte of the result is one of the bytes, or part of a replacement character. -/
theorem mem_replaceInvalid {fuel : Nat} {b : Bytes} {x : UInt8} (h : x ∈ replaceInvalid fuel b) :
    x ∈ b ∨ x ∈ String.utf8EncodeChar replacementCharacter := by
  induction fuel generalizing b with
  | zero => exact absurd h List.not_mem_nil
  | succ fuel ih =>
    cases b with
    | nil => exact absurd h List.not_mem_nil
    | cons b rest =>
      unfold replaceInvalid at h
      rcases hchunk : chunkLength (b :: rest) with ⟨valid, n⟩
      rw [hchunk] at h
      simp only at h
      rcases List.mem_append.mp h with h | h
      · cases valid with
        | false => exact Or.inr h
        | true => exact Or.inl (List.mem_of_mem_take h)
      · exact (ih h).imp_left List.mem_of_mem_drop

/-- Without a replacement character nothing was replaced. -/
theorem replaceInvalid_eq {fuel : Nat} {b : Bytes} (hfuel : b.length ≤ fuel)
    (h : 0xEF ∉ replaceInvalid fuel b) : replaceInvalid fuel b = b := by
  induction fuel generalizing b with
  | zero =>
    obtain rfl := List.eq_nil_of_length_eq_zero (Nat.le_zero.mp hfuel)
    rfl
  | succ fuel ih =>
    cases b with
    | nil => rfl
    | cons b rest =>
      have hpos := chunkLength_pos b rest
      unfold replaceInvalid at h ⊢
      rcases hchunk : chunkLength (b :: rest) with ⟨valid, n⟩
      rw [hchunk] at h hpos
      simp only [List.mem_append, not_or] at h hpos ⊢
      cases valid with
      | false =>
        rw [if_neg Bool.false_ne_true] at h
        exact absurd (by decide) h.1
      | true =>
        rw [if_pos rfl, ih ?_ h.2, List.take_append_drop]
        rw [List.length_drop, List.length_cons] at *
        omega

/-- The bytes of what is decoded. -/
theorem utf8_fromUtf8Lossy {b : Bytes} (h : fromUtf8 b = none) :
    utf8 (fromUtf8Lossy b) = replaceInvalid b.length b := by
  obtain ⟨s, hs⟩ := isUtf8_replaceInvalid b.length b
  unfold fromUtf8Lossy
  rw [h, ← hs, fromUtf8_utf8]
  rfl

/-- Names are decoded to names. -/
theorem IsName.fromUtf8Lossy {b : Bytes} (h : IsName b) : IsName (utf8 (fromUtf8Lossy b)) := by
  cases htext : fromUtf8 b with
  | some s =>
    have hs := fromUtf8_eq_some_iff.mp htext
    rw [← hs, fromUtf8Lossy_utf8, hs]
    exact h
  | none =>
    rw [utf8_fromUtf8Lossy htext]
    have hreplaced : 0xEF ∈ replaceInvalid b.length b := by
      by_contra hnone
      have hsame := isUtf8_replaceInvalid b.length b
      rw [replaceInvalid_eq le_rfl hnone, isUtf8_iff, htext] at hsame
      exact nomatch hsame
    refine ⟨?_, ?_, ?_, ?_⟩
    · exact List.ne_nil_of_mem hreplaced
    · intro hslash
      rcases mem_replaceInvalid hslash with hslash | hslash
      · exact h.2.1 hslash
      · exact absurd hslash (by decide)
    · intro hdot
      rw [hdot] at hreplaced
      exact absurd hreplaced (by decide)
    · intro hdots
      rw [hdots] at hreplaced
      exact absurd hreplaced (by decide)

end Infra
