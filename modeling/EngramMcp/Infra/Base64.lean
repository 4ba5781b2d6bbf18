import EngramMcp.Infra.Text
import Mathlib.Data.List.TakeWhile

/-!
# Base64

The two engines of the `base64` crate the program uses, over one codec. Three bytes are four
six-bit groups; a last group of one or two bytes is written with the unused bits zero. The
decoder is the strict one of the crate's general purpose engines: it rejects characters outside
the alphabet, a lone last character, and unused bits that are not zero, so a byte string has
exactly one spelling.

The codec has two layers that are proved apart.

* `sextets` / `ofSextets` — bytes and six-bit groups, arithmetic only
* `Alphabet` — six-bit groups and characters

Text with padding and the choice between the two alphabets come last.
-/

namespace Infra.Base64

open Infra

/-! ## Six-bit groups -/

/-- The six-bit groups of a byte string. -/
def sextets : Bytes → List Nat
  | [] => []
  | [a] => [a.toNat / 4, a.toNat % 4 * 16]
  | [a, b] => [a.toNat / 4, a.toNat % 4 * 16 + b.toNat / 16, b.toNat % 16 * 4]
  | a :: b :: c :: rest =>
    a.toNat / 4 :: (a.toNat % 4 * 16 + b.toNat / 16) :: (b.toNat % 16 * 4 + c.toNat / 64)
      :: c.toNat % 64 :: sextets rest

/-- The bytes of a list of six-bit groups, if the unused bits of the last group are zero. -/
def ofSextets : List Nat → Option Bytes
  | [] => some []
  | [_] => none
  | [w, x] => if x % 16 = 0 then some [UInt8.ofNat (w * 4 + x / 16)] else none
  | [w, x, y] =>
    if y % 4 = 0 then
      some [UInt8.ofNat (w * 4 + x / 16), UInt8.ofNat (x % 16 * 16 + y / 4)]
    else none
  | w :: x :: y :: z :: rest =>
    (ofSextets rest).map fun bs =>
      UInt8.ofNat (w * 4 + x / 16) :: UInt8.ofNat (x % 16 * 16 + y / 4)
        :: UInt8.ofNat (y % 4 * 64 + z) :: bs

theorem sextets_lt : ∀ (b : Bytes), ∀ v ∈ sextets b, v < 64
  | [], v, h => by simp [sextets] at h
  | [a], v, h => by
    have ha := UInt8.toNat_lt a
    simp only [sextets, List.mem_cons, List.not_mem_nil, or_false] at h
    omega
  | [a, b], v, h => by
    have ha := UInt8.toNat_lt a
    have hb := UInt8.toNat_lt b
    simp only [sextets, List.mem_cons, List.not_mem_nil, or_false] at h
    omega
  | a :: b :: c :: rest, v, h => by
    have ha := UInt8.toNat_lt a
    have hb := UInt8.toNat_lt b
    have hc := UInt8.toNat_lt c
    simp only [sextets, List.mem_cons] at h
    rcases h with h | h | h | h | h
    · omega
    · omega
    · omega
    · omega
    · exact sextets_lt rest v h

/-- Four groups for three bytes; one byte takes two groups and two bytes take three. -/
theorem length_sextets : ∀ b : Bytes, (sextets b).length = (4 * b.length + 2) / 3
  | [] => by simp [sextets]
  | [_] => by simp [sextets]
  | [_, _] => by simp [sextets]
  | _ :: _ :: _ :: rest => by
    simp only [sextets, List.length_cons, length_sextets rest]
    omega

theorem ofNat_eq_of_toNat {n : Nat} {a : UInt8} (h : n = a.toNat) : UInt8.ofNat n = a := by
  rw [h, UInt8.ofNat_toNat]

/-- **The groups of a byte string determine it.** -/
theorem ofSextets_sextets : ∀ b : Bytes, ofSextets (sextets b) = some b
  | [] => rfl
  | [a] => by
    have ha := UInt8.toNat_lt a
    rw [sextets, ofSextets, if_pos (by omega), ofNat_eq_of_toNat (a := a) (by omega)]
  | [a, b] => by
    have ha := UInt8.toNat_lt a
    have hb := UInt8.toNat_lt b
    rw [sextets, ofSextets, if_pos (by omega), ofNat_eq_of_toNat (a := a) (by omega),
      ofNat_eq_of_toNat (a := b) (by omega)]
  | a :: b :: c :: rest => by
    have ha := UInt8.toNat_lt a
    have hb := UInt8.toNat_lt b
    have hc := UInt8.toNat_lt c
    rw [sextets, ofSextets, ofSextets_sextets rest, Option.map_some,
      ofNat_eq_of_toNat (a := a) (by omega), ofNat_eq_of_toNat (a := b) (by omega),
      ofNat_eq_of_toNat (a := c) (by omega)]

theorem toNat_ofNat_of_lt {n : Nat} (h : n < 256) : (UInt8.ofNat n).toNat = n := by
  simp [Nat.mod_eq_of_lt h]

/-- **The decoder accepts only what the encoder writes.** -/
theorem sextets_of_ofSextets : ∀ (l : List Nat) (b : Bytes), (∀ v ∈ l, v < 64) →
    ofSextets l = some b → sextets b = l
  | [], b, _, h => by
    rw [ofSextets, Option.some.injEq] at h
    subst h; rfl
  | [_], b, _, h => by simp [ofSextets] at h
  | [w, x], b, hlt, h => by
    have hw := hlt w (by simp)
    have hx := hlt x (by simp)
    rw [ofSextets] at h
    split at h
    · next hz =>
      rw [Option.some.injEq] at h
      subst h
      rw [sextets, toNat_ofNat_of_lt (by omega)]
      congr 1
      · omega
      · congr 1; omega
    · simp at h
  | [w, x, y], b, hlt, h => by
    have hw := hlt w (by simp)
    have hx := hlt x (by simp)
    have hy := hlt y (by simp)
    rw [ofSextets] at h
    split at h
    · next hz =>
      rw [Option.some.injEq] at h
      subst h
      rw [sextets, toNat_ofNat_of_lt (by omega), toNat_ofNat_of_lt (by omega)]
      congr 1
      · omega
      · congr 1
        · omega
        · congr 1; omega
    · simp at h
  | w :: x :: y :: z :: rest, b, hlt, h => by
    have hw := hlt w (by simp)
    have hx := hlt x (by simp)
    have hy := hlt y (by simp)
    have hz := hlt z (by simp)
    rw [ofSextets, Option.map_eq_some_iff] at h
    obtain ⟨bs, hbs, rfl⟩ := h
    have ih := sextets_of_ofSextets rest bs (fun v hv => hlt v (by simp [hv])) hbs
    rw [sextets, ih, toNat_ofNat_of_lt (by omega), toNat_ofNat_of_lt (by omega),
      toNat_ofNat_of_lt (by omega)]
    congr 1
    · omega
    · congr 1
      · omega
      · congr 1
        · omega
        · congr 1; omega

/-! ## Alphabets -/

/-- Sixty-four distinct characters. -/
structure Alphabet where
  chars : List Char
  length_chars : chars.length = 64
  nodup : chars.Nodup

/-- The first 62 characters, which every alphabet here shares. -/
def alphanumeric : List Char :=
  "ABCDEFGHIJKLMNOPQRSTUVWXYZabcdefghijklmnopqrstuvwxyz0123456789".toList

/-- `general_purpose::STANDARD` and its `+` and `/`. -/
def standard : Alphabet := ⟨alphanumeric ++ ['+', '/'], by decide, by decide +kernel⟩

/-- `general_purpose::URL_SAFE_NO_PAD` and its `-` and `_`. -/
def urlSafe : Alphabet := ⟨alphanumeric ++ ['-', '_'], by decide, by decide +kernel⟩

namespace Alphabet

variable (A : Alphabet)

/-- The character of a six-bit group. -/
def char (v : Nat) : Char := A.chars.getD v 'A'

/-- The six-bit group of a character. -/
def value (c : Char) : Option Nat := if c ∈ A.chars then some (A.chars.idxOf c) else none

theorem char_eq_getElem {v : Nat} (h : v < 64) :
    A.char v = A.chars.get ⟨v, by rw [A.length_chars]; exact h⟩ := by
  have hl : v < A.chars.length := by rw [A.length_chars]; exact h
  rw [char, List.getD_eq_getElem?_getD, List.getElem?_eq_getElem hl, Option.getD_some,
    List.get_eq_getElem]

theorem char_mem {v : Nat} (h : v < 64) : A.char v ∈ A.chars := by
  rw [A.char_eq_getElem h]; exact List.getElem_mem _

theorem value_char {v : Nat} (h : v < 64) : A.value (A.char v) = some v := by
  have hl : v < A.chars.length := by rw [A.length_chars]; exact h
  rw [value, if_pos (A.char_mem h), A.char_eq_getElem h, List.get_eq_getElem,
    A.nodup.idxOf_getElem v hl]

theorem char_value {c : Char} {v : Nat} (h : A.value c = some v) : v < 64 ∧ A.char v = c := by
  unfold value at h
  split at h
  · next hc =>
    rw [Option.some.injEq] at h
    have hl : A.chars.idxOf c < A.chars.length := List.idxOf_lt_length_of_mem hc
    have hv : v < 64 := by rw [← h, ← A.length_chars]; exact hl
    refine ⟨hv, ?_⟩
    rw [A.char_eq_getElem hv]
    subst h
    exact List.getElem_idxOf hl
  · simp at h

/-- `Engine::encode` without padding. -/
def encode (b : Bytes) : String := String.ofList ((sextets b).map A.char)

/-- `Engine::decode` without padding. -/
def decode (s : String) : Option Bytes := (s.toList.mapM A.value).bind ofSextets

/-- `Engine::decode` of an engine that requires canonical padding. -/
def decodePadded (s : String) : Option Bytes :=
  let body := s.toList.takeWhile (· != '=')
  let padding := s.toList.dropWhile (· != '=')
  if s.toList.length % 4 = 0 ∧ padding.length ≤ 2 ∧ padding.all (· == '=') then
    A.decode (String.ofList body)
  else none

theorem mapM_value_map_char : ∀ l : List Nat, (∀ v ∈ l, v < 64) →
    (l.map A.char).mapM A.value = some l
  | [], _ => rfl
  | v :: l, h => by
    rw [List.map_cons, List.mapM_cons, A.value_char (h v List.mem_cons_self),
      mapM_value_map_char l (fun x hx => h x (List.mem_cons_of_mem _ hx))]
    rfl

theorem map_char_of_mapM_value : ∀ (s : List Char) (l : List Nat),
    s.mapM A.value = some l → l.map A.char = s ∧ ∀ v ∈ l, v < 64
  | [], l, h => by
    rw [List.mapM_nil] at h
    cases h; simp
  | c :: s, l, h => by
    rw [List.mapM_cons] at h
    obtain ⟨v, hv, h⟩ := Option.bind_eq_some_iff.mp h
    obtain ⟨l', hl', h⟩ := Option.bind_eq_some_iff.mp h
    cases h
    obtain ⟨hs, hlt⟩ := map_char_of_mapM_value s l' hl'
    obtain ⟨hv64, hc⟩ := A.char_value hv
    refine ⟨by rw [List.map_cons, hc, hs], ?_⟩
    intro x hx
    rcases List.mem_cons.mp hx with rfl | hx
    · exact hv64
    · exact hlt x hx

/-- **Decoding what was encoded gives the bytes back.** -/
@[simp] theorem decode_encode (b : Bytes) : A.decode (A.encode b) = some b := by
  unfold decode encode
  rw [String.toList_ofList, A.mapM_value_map_char _ (sextets_lt b), Option.bind_some,
    ofSextets_sextets]

/-- **A byte string has one spelling.** -/
theorem encode_of_decode {s : String} {b : Bytes} (h : A.decode s = some b) : A.encode b = s := by
  unfold decode at h
  obtain ⟨l, hl, hb⟩ := Option.bind_eq_some_iff.mp h
  obtain ⟨hs, hlt⟩ := A.map_char_of_mapM_value _ _ hl
  unfold encode
  rw [sextets_of_ofSextets l b hlt hb, hs, String.ofList_toList]

theorem encode_injective : Function.Injective A.encode := by
  intro b b' h
  have hd := A.decode_encode b
  rw [h, A.decode_encode, Option.some.injEq] at hd
  exact hd.symm

theorem mem_chars_of_mem_encode {b : Bytes} {c : Char} (h : c ∈ (A.encode b).toList) :
    c ∈ A.chars := by
  rw [encode, String.toList_ofList] at h
  obtain ⟨v, hv, rfl⟩ := List.mem_map.mp h
  exact A.char_mem (sextets_lt b v hv)

end Alphabet

/-! ## The length of an encoding -/

/-- A printable ASCII character that means nothing special in JSON or in HTML. -/
def Plain (c : Char) : Prop :=
  c.utf8Size = 1 ∧ 0x20 ≤ c.toNat ∧ c ≠ '"' ∧ c ≠ '\\' ∧ c ≠ '&' ∧ c ≠ '<' ∧ c ≠ '>' ∧
    c.toNat ≠ 0x27

instance (c : Char) : Decidable (Plain c) := by unfold Plain; infer_instance

/-- The characters of the url-safe alphabet are plain, and the dot is not among them. -/
theorem plain_of_mem_urlSafe {c : Char} (h : c ∈ urlSafe.chars) : Plain c ∧ c ≠ '.' := by
  have hall : urlSafe.chars.all (fun c => decide (Plain c ∧ c ≠ '.')) = true := by
    decide +kernel
  exact of_decide_eq_true (List.all_eq_true.mp hall c h)

theorem utf8Size_urlSafe {c : Char} (h : c ∈ urlSafe.chars) : c.utf8Size = 1 :=
  (plain_of_mem_urlSafe h).1.1

@[simp] theorem utf8ByteSize_encode_urlSafe (b : Bytes) :
    (urlSafe.encode b).utf8ByteSize = (4 * b.length + 2) / 3 := by
  have h1 : ∀ c ∈ (sextets b).map urlSafe.char, c.utf8Size = 1 := fun c hc =>
    utf8Size_urlSafe (urlSafe.mem_chars_of_mem_encode (by
      rw [Alphabet.encode, String.toList_ofList]; exact hc))
  rw [Alphabet.encode, utf8ByteSize_ofList, utf8Len_eq_length h1, List.length_map,
    length_sextets]

/-- The separator of the signed strings is not in the alphabet. -/
theorem dot_not_mem_encode_urlSafe (b : Bytes) : '.' ∉ (urlSafe.encode b).toList := by
  intro h
  exact (plain_of_mem_urlSafe (urlSafe.mem_chars_of_mem_encode h)).2 rfl

/-! ## Padding and two alphabets -/

namespace Alphabet

variable {A B : Alphabet}

/-- `Engine::encode` of an engine that pads. -/
def encodePadded (A : Alphabet) (b : Bytes) : String :=
  A.encode b ++ String.ofList (List.replicate ((3 - b.length % 3) % 3) '=')

/-- Padding is not part of the text that is decoded. -/
theorem takeWhile_dropWhile_padding {l : List Char} (hl : '=' ∉ l) (n : Nat) :
    (l ++ List.replicate n '=').takeWhile (· != '=') = l ∧
      (l ++ List.replicate n '=').dropWhile (· != '=') = List.replicate n '=' := by
  cases n with
  | zero =>
    have hall : ∀ c ∈ l, (c != '=') = true := by
      intro c hc
      exact bne_iff_ne.mpr fun he => hl (he ▸ hc)
    rw [List.replicate_zero, List.append_nil, List.takeWhile_eq_self_iff.mpr hall,
      List.dropWhile_eq_nil_iff.mpr hall]
    exact ⟨rfl, rfl⟩
  | succ n =>
    rw [List.replicate_succ]
    exact ⟨takeWhile_ne_append hl, dropWhile_ne_append hl⟩

/-- **Padded text decodes to what was encoded.** -/
theorem decodePadded_encodePadded (hA : '=' ∉ A.chars) (b : Bytes) :
    A.decodePadded (A.encodePadded b) = some b := by
  have hl : '=' ∉ (A.encode b).toList := fun h => hA (A.mem_chars_of_mem_encode h)
  obtain ⟨htake, hdrop⟩ := takeWhile_dropWhile_padding hl ((3 - b.length % 3) % 3)
  have hlist : (A.encodePadded b).toList
      = (A.encode b).toList ++ List.replicate ((3 - b.length % 3) % 3) '=' := by
    rw [encodePadded, String.toList_append, String.toList_ofList]
  have hlength : (A.encode b).toList.length = (4 * b.length + 2) / 3 := by
    rw [encode, String.toList_ofList, List.length_map, length_sextets]
  unfold decodePadded
  simp only [hlist, htake, hdrop]
  rw [if_pos, String.ofList_toList, A.decode_encode]
  refine ⟨?_, ?_, ?_⟩
  · rw [List.length_append, hlength, List.length_replicate]
    obtain ⟨q, hq | hq | hq⟩ :
        ∃ q, b.length = 3 * q ∨ b.length = 3 * q + 1 ∨ b.length = 3 * q + 2 :=
      ⟨b.length / 3, by omega⟩
    · rw [hq, Nat.mul_mod_right]
      omega
    · rw [hq, Nat.mul_add_mod]
      omega
    · rw [hq, Nat.mul_add_mod]
      omega
  · rw [List.length_replicate]
    omega
  · rw [List.all_replicate]
    split <;> rfl

/-- Two alphabets that agree on the characters they share read a common text as the same groups. -/
theorem mapM_value_eq (h : ∀ c ∈ A.chars, c ∈ B.chars → A.value c = B.value c) :
    ∀ {s : List Char} {l m : List Nat}, s.mapM A.value = some l → s.mapM B.value = some m → l = m
  | [], l, m, hl, hm => by
    rw [List.mapM_nil] at hl hm
    exact Option.some.inj (hl.symm.trans hm)
  | c :: s, l, m, hl, hm => by
    rw [List.mapM_cons] at hl hm
    obtain ⟨v, hv, hl⟩ := Option.bind_eq_some_iff.mp hl
    obtain ⟨l', hl', hl⟩ := Option.bind_eq_some_iff.mp hl
    obtain ⟨w, hw, hm⟩ := Option.bind_eq_some_iff.mp hm
    obtain ⟨m', hm', hm⟩ := Option.bind_eq_some_iff.mp hm
    have hvw : v = w := by
      have hA : c ∈ A.chars := (A.char_value hv).2 ▸ A.char_mem (A.char_value hv).1
      have hB : c ∈ B.chars := (B.char_value hw).2 ▸ B.char_mem (B.char_value hw).1
      exact Option.some.inj (hv.symm.trans ((h c hA hB).trans hw))
    rw [← Option.some.inj hl, ← Option.some.inj hm, hvw, mapM_value_eq h hl' hm']

/-- Text that two such alphabets decode means the same bytes in both. -/
theorem decode_eq_of_agree (h : ∀ c ∈ A.chars, c ∈ B.chars → A.value c = B.value c) {s : String}
    {b b' : Bytes} (hA : A.decode s = some b) (hB : B.decode s = some b') : b = b' := by
  obtain ⟨l, hl, hb⟩ := Option.bind_eq_some_iff.mp hA
  obtain ⟨m, hm, hb'⟩ := Option.bind_eq_some_iff.mp hB
  rw [mapM_value_eq h hl hm] at hb
  exact Option.some.inj (hb.symm.trans hb')

/-- Text without padding that the padded decoder accepts is text of the plain decoder. -/
theorem decode_of_decodePadded {s : String} {b : Bytes} (h : A.decodePadded s = some b)
    (hs : '=' ∉ s.toList) : A.decode s = some b := by
  unfold decodePadded at h
  simp only at h
  split at h
  · have hall : ∀ c ∈ s.toList, (c != '=') = true := by
      intro c hc
      exact bne_iff_ne.mpr fun he => hs (he ▸ hc)
    rw [List.takeWhile_eq_self_iff.mpr hall, String.ofList_toList] at h
    exact h
  · exact nomatch h

/-- Decoded text consists of characters of the alphabet. -/
theorem mem_chars_of_decode {s : String} {b : Bytes} (h : A.decode s = some b) {c : Char}
    (hc : c ∈ s.toList) : c ∈ A.chars :=
  A.mem_chars_of_mem_encode (A.encode_of_decode h ▸ hc)

end Alphabet

theorem padding_not_mem_urlSafe : '=' ∉ urlSafe.chars := by decide +kernel

theorem padding_not_mem_standard : '=' ∉ standard.chars := by decide +kernel

/-- The alphabets differ in their last two characters only. -/
theorem value_urlSafe_eq_standard : ∀ c ∈ urlSafe.chars, c ∈ standard.chars →
    urlSafe.value c = standard.value c := by
  have hall : urlSafe.chars.all (fun c =>
      !standard.chars.contains c || urlSafe.value c == standard.value c) = true := by
    decide +kernel
  intro c hc hs
  have h := List.all_eq_true.mp hall c hc
  simpa [hs] using h

/-- **The first decoder does not distort what the second would give.** -/
theorem decode_or_decodePadded {s : String} {b : Bytes} :
    ((urlSafe.decode s).orElse fun _ => standard.decodePadded s) = some b ↔
      urlSafe.decode s = some b ∨ standard.decodePadded s = some b := by
  cases hu : urlSafe.decode s with
  | none => simp
  | some b' =>
    have hs : '=' ∉ s.toList := fun hm =>
      padding_not_mem_urlSafe (Alphabet.mem_chars_of_decode hu hm)
    constructor
    · exact Or.inl
    · rintro (h | h)
      · exact h
      · have hd := Alphabet.decode_of_decodePadded h hs
        rw [Alphabet.decode_eq_of_agree value_urlSafe_eq_standard hu hd]
        rfl

/-- RFC 4648, section 10. -/
example : urlSafe.encode (utf8 "fooba") = "Zm9vYmE" ∧
    standard.encodePadded (utf8 "foob") = "Zm9vYg==" := by decide

end Infra.Base64
