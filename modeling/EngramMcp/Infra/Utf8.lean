import EngramMcp.Infra.Text

/-!
# UTF-8, byte by byte

File names are byte strings, the text of a program is not. What connects the two is that a byte
below `0x80` stands for itself: it occurs in the encoding of a string exactly where the string
has that ASCII character. So a separator found among the bytes is a separator of the text.

* `mem_utf8_iff` — an ASCII byte occurs in the encoding iff its character occurs in the string
* `fromUtf8_eq_some_iff` — reading is inverse to writing
-/

namespace Infra

/-- The string is the concatenation of the encodings of its characters. -/
theorem utf8_eq_flatMap (s : String) : utf8 s = s.toList.flatMap String.utf8EncodeChar := by
  unfold utf8
  rw [← String.utf8Encode_toList]
  simp [List.utf8Encode]

/-- What decodes to `s` is the encoding of `s`. -/
theorem fromUtf8_eq_some_iff {b : Bytes} {s : String} : fromUtf8 b = some s ↔ utf8 s = b := by
  constructor
  · intro h
    unfold fromUtf8 String.fromUTF8? at h
    split at h
    · rw [Option.some.injEq] at h
      subst h
      simp [utf8, String.fromUTF8]
    · simp at h
  · rintro rfl; exact fromUtf8_utf8 s

/-! ## ASCII bytes -/

/-- A byte built with the top bit set is not an ASCII byte. -/
theorem le_or_toNat {x y : UInt8} (hy : 128 ≤ y.toNat) : 128 ≤ (x ||| y).toNat := by
  rw [UInt8.toNat_or]
  exact le_trans hy Nat.right_le_or

/-- A character is its own single byte, or all of its bytes are at least `0x80`. -/
theorem utf8EncodeChar_cases (c : Char) :
    (c.toNat < 128 ∧ String.utf8EncodeChar c = [UInt8.ofNat c.toNat]) ∨
    (128 ≤ c.toNat ∧ ∀ b ∈ String.utf8EncodeChar c, 128 ≤ b.toNat) := by
  have hsize : c.utf8Size = 1 ↔ c.toNat ≤ 127 := by
    rw [Char.utf8Size_eq_one_iff, UInt32.le_iff_toNat_le]; rfl
  by_cases h1 : c.utf8Size = 1
  · refine Or.inl ⟨by have := hsize.mp h1; omega, ?_⟩
    rw [String.utf8EncodeChar_eq_singleton h1]
    congr 1
  -- a longer sequence: each of its bytes has the top bit set
  · have hbig : 128 ≤ c.toNat := by
      by_contra hc
      exact h1 (hsize.mpr (by omega))
    refine Or.inr ⟨hbig, ?_⟩
    have hpos := c.utf8Size_pos
    have hfour := c.utf8Size_le_four
    have hcases : c.utf8Size = 2 ∨ c.utf8Size = 3 ∨ c.utf8Size = 4 := by omega
    rcases hcases with h | h | h
    · rw [String.utf8EncodeChar_eq_cons_cons h]
      simp only [List.forall_mem_cons]
      exact ⟨le_or_toNat (by decide), le_or_toNat (by decide), by simp⟩
    · rw [String.utf8EncodeChar_eq_cons_cons_cons h]
      simp only [List.forall_mem_cons]
      exact ⟨le_or_toNat (by decide), le_or_toNat (by decide), le_or_toNat (by decide), by simp⟩
    · rw [String.utf8EncodeChar_eq_cons_cons_cons_cons h]
      simp only [List.forall_mem_cons]
      exact ⟨le_or_toNat (by decide), le_or_toNat (by decide), le_or_toNat (by decide),
        le_or_toNat (by decide), by simp⟩

/-- The byte of an ASCII character. -/
def ascii (c : Char) : UInt8 := UInt8.ofNat c.toNat

theorem toNat_ascii {c : Char} (hc : c.toNat < 128) : (ascii c).toNat = c.toNat := by
  unfold ascii
  rw [UInt8.toNat_ofNat']
  omega

theorem ascii_inj {c d : Char} (hc : c.toNat < 128) (hd : d.toNat < 128) :
    ascii c = ascii d ↔ c = d := by
  constructor
  · intro h
    have hn := congrArg UInt8.toNat h
    rw [toNat_ascii hc, toNat_ascii hd] at hn
    exact Char.toNat_inj.mp hn
  · rintro rfl; rfl

theorem mem_utf8EncodeChar_iff {c d : Char} (hc : c.toNat < 128) :
    ascii c ∈ String.utf8EncodeChar d ↔ c = d := by
  rcases utf8EncodeChar_cases d with ⟨hd, he⟩ | ⟨hd, hall⟩
  · rw [he, List.mem_singleton]
    exact ascii_inj hc hd
  · constructor
    · intro hm
      have := hall _ hm
      rw [toNat_ascii hc] at this
      omega
    · rintro rfl; omega

/-- An ASCII byte occurs in the encoding iff its character occurs in the string. -/
theorem mem_utf8_iff {c : Char} (hc : c.toNat < 128) {s : String} :
    ascii c ∈ utf8 s ↔ c ∈ s.toList := by
  rw [utf8_eq_flatMap, List.mem_flatMap]
  constructor
  · rintro ⟨d, hd, hm⟩
    rw [(mem_utf8EncodeChar_iff hc).mp hm]
    exact hd
  · intro hm
    exact ⟨c, hm, (mem_utf8EncodeChar_iff hc).mpr rfl⟩

theorem head?_utf8EncodeChar_append {c d : Char} (hc : c.toNat < 128) (rest : Bytes) :
    (String.utf8EncodeChar d ++ rest).head? = some (ascii c) ↔ c = d := by
  have hne : String.utf8EncodeChar d ≠ [] := String.utf8EncodeChar_ne_nil
  rw [List.head?_append_of_ne_nil _ hne]
  constructor
  · intro h
    exact (mem_utf8EncodeChar_iff hc).mp (List.mem_of_head? h)
  · rintro rfl
    rcases utf8EncodeChar_cases c with ⟨_, he⟩ | ⟨hd, _⟩
    · rw [he]; rfl
    · omega

/-- The encoding begins with an ASCII byte iff the string begins with its character. -/
theorem head?_utf8_iff {c : Char} (hc : c.toNat < 128) {s : String} :
    (utf8 s).head? = some (ascii c) ↔ s.toList.head? = some c := by
  rw [utf8_eq_flatMap]
  cases s.toList with
  | nil => simp
  | cons d l =>
    rw [List.flatMap_cons, head?_utf8EncodeChar_append hc, List.head?_cons, Option.some.injEq]
    exact eq_comm

theorem utf8_eq_nil_iff {s : String} : utf8 s = [] ↔ s = "" := by
  rw [← utf8_inj (t := "")]
  rfl

/-! ## Lossy decoding -/

/-- `U+FFFD REPLACEMENT CHARACTER`. -/
def replacementCharacter : Char := Char.ofNat 0xFFFD

/-- A continuation byte. -/
def isContinuation (b : UInt8) : Bool := 0x80 ≤ b && b ≤ 0xBF

/--
The length of the sequence at the head of the bytes: of a well-formed one, or of the longest
ill-formed piece that is replaced by one character.
-/
def chunkLength : Bytes → Bool × Nat
  | [] => (true, 0)
  | b :: rest =>
    if b < 0x80 then (true, 1)
    else if 0xC2 ≤ b && b ≤ 0xDF then
      match rest with
      | c :: _ => if isContinuation c then (true, 2) else (false, 1)
      | [] => (false, 1)
    else if 0xE0 ≤ b && b ≤ 0xEF then
      match rest with
      | c :: rest =>
        if (if b = 0xE0 then 0xA0 ≤ c && c ≤ 0xBF else if b = 0xED then 0x80 ≤ c && c ≤ 0x9F
            else isContinuation c) then
          match rest with
          | d :: _ => if isContinuation d then (true, 3) else (false, 2)
          | [] => (false, 2)
        else (false, 1)
      | [] => (false, 1)
    else if 0xF0 ≤ b && b ≤ 0xF4 then
      match rest with
      | c :: rest =>
        if (if b = 0xF0 then 0x90 ≤ c && c ≤ 0xBF else if b = 0xF4 then 0x80 ≤ c && c ≤ 0x8F
            else isContinuation c) then
          match rest with
          | d :: rest =>
            if isContinuation d then
              match rest with
              | e :: _ => if isContinuation e then (true, 4) else (false, 3)
              | [] => (false, 3)
            else (false, 2)
          | [] => (false, 2)
        else (false, 1)
      | [] => (false, 1)
    else (false, 1)

/-- The bytes with every ill-formed piece replaced by `U+FFFD`; `fuel` is their number. -/
def replaceInvalid : Nat → Bytes → Bytes
  | 0, _ => []
  | _ + 1, [] => []
  | fuel + 1, b :: rest =>
    let (valid, n) := chunkLength (b :: rest)
    (if valid then (b :: rest).take n else String.utf8EncodeChar replacementCharacter)
      ++ replaceInvalid fuel ((b :: rest).drop n)

/-- `String::from_utf8_lossy`. Well-formed bytes are kept as they are. -/
def fromUtf8Lossy (b : Bytes) : String :=
  match fromUtf8 b with
  | some s => s
  | none => (fromUtf8 (replaceInvalid b.length b)).getD ""

@[simp] theorem fromUtf8Lossy_utf8 (s : String) : fromUtf8Lossy (utf8 s) = s := by
  unfold fromUtf8Lossy
  rw [fromUtf8_utf8]

end Infra
