import EngramMcp.Infra.Utf8

/-!
# Decimal numbers of a fixed width

Numbers that are written with leading zeros in a fixed width come in the order of their bytes. So
do records of such numbers with fixed separators between them, whatever follows.

* `decimal_lt` — the order of numbers
* `layout_lt` — the order of records
* `map_ascii_zeroFilled` — decimal digits with zeros in front
-/

namespace Infra

/-- The byte of a digit. -/
def digitByte (d : Nat) : UInt8 := UInt8.ofNat (48 + d)

/-- The last `width` digits of a number. -/
def decimal : Nat → Nat → Bytes
  | 0, _ => []
  | width + 1, n => decimal width (n / 10) ++ [digitByte (n % 10)]

@[simp] theorem length_decimal (width n : Nat) : (decimal width n).length = width := by
  induction width generalizing n with
  | zero => rfl
  | succ width ih => rw [decimal, List.length_append, ih, List.length_singleton]

theorem toNat_digitByte {d : Nat} (h : d < 10) : (digitByte d).toNat = 48 + d := by
  unfold digitByte
  rw [UInt8.toNat_ofNat']
  omega

/-- A smaller number comes first, whatever follows. -/
theorem decimal_lt {width m n : Nat} (hmn : m < n) (hn : n < 10 ^ width) (x y : Bytes) :
    decimal width m ++ x < decimal width n ++ y := by
  induction width generalizing m n x y with
  | zero => omega
  | succ width ih =>
    have hn10 : n / 10 < 10 ^ width := by
      rw [Nat.pow_succ] at hn
      omega
    rw [decimal, decimal, List.append_assoc, List.append_assoc]
    by_cases hlt : m / 10 < n / 10
    · exact ih hlt hn10 _ _
    · -- only the last digits differ
      have heq : m / 10 = n / 10 := by omega
      rw [heq]
      refine List.append_left_lt ?_
      rw [List.singleton_append, List.singleton_append, List.cons_lt_cons_iff]
      left
      rw [UInt8.lt_iff_toNat_lt, toNat_digitByte (by omega), toNat_digitByte (by omega)]
      omega

/-- The digits tell the number. -/
theorem decimal_inj {width m n : Nat} (hm : m < 10 ^ width) (hn : n < 10 ^ width)
    (h : decimal width m = decimal width n) : m = n := by
  rcases Nat.lt_trichotomy m n with hlt | heq | hlt
  · have hless := decimal_lt hlt hn [] []
    rw [h] at hless
    exact absurd hless (List.lt_irrefl _)
  · exact heq
  · have hless := decimal_lt hlt hm [] []
    rw [h] at hless
    exact absurd hless (List.lt_irrefl _)

/-! ## Records -/

/-- A number in each place of a layout, with the separator behind it, and then the rest. -/
def layout : List (Nat × Bytes) → List Nat → Bytes → Bytes
  | (width, separator) :: places, n :: ns, rest =>
    decimal width n ++ (separator ++ layout places ns rest)
  | _, _, rest => rest

/-- The numbers fit the places. -/
def Fits (places : List (Nat × Bytes)) (ns : List Nat) : Prop :=
  List.Forall₂ (fun place n => n < 10 ^ place.1) places ns

/-- A smaller record comes first, whatever follows. -/
theorem layout_lt {places : List (Nat × Bytes)} {ms ns : List Nat} (hm : Fits places ms)
    (hn : Fits places ns) (h : ms < ns) (x y : Bytes) :
    layout places ms x < layout places ns y := by
  induction places generalizing ms ns with
  | nil =>
    cases hm
    cases hn
    exact absurd h (List.lt_irrefl [])
  | cons place places ih =>
    obtain ⟨width, separator⟩ := place
    obtain ⟨m, ms, hmw, hms, rfl⟩ := List.forall₂_cons_left_iff.mp hm
    obtain ⟨n, ns, hnw, hns, rfl⟩ := List.forall₂_cons_left_iff.mp hn
    unfold layout
    rcases List.cons_lt_cons_iff.mp h with hlt | ⟨rfl, hrest⟩
    · exact decimal_lt hlt hnw _ _
    · exact List.append_left_lt (List.append_left_lt (ih hms hns hrest))

/-! ## Digits as text -/

/-- ASCII text has its characters for bytes. -/
theorem utf8_ofList_ascii {l : List Char} (h : ∀ c ∈ l, c.toNat < 128) :
    utf8 (String.ofList l) = l.map ascii := by
  rw [utf8_eq_flatMap, String.toList_ofList]
  induction l with
  | nil => rfl
  | cons c l ih =>
    rw [List.forall_mem_cons] at h
    rw [List.flatMap_cons, List.map_cons, ih h.2]
    rcases utf8EncodeChar_cases c with ⟨-, he⟩ | ⟨hc, -⟩
    · rw [he]
      rfl
    · exact absurd h.1 (by omega)

theorem ascii_digitChar {d : Nat} (h : d < 10) : ascii (Nat.digitChar d) = digitByte d := by
  unfold ascii digitByte
  rw [Nat.toNat_digitChar_of_lt_ten h]

/-- The digits of a number, with zeros in front. -/
def zeroFilled (width n : Nat) : List Char :=
  List.replicate (width - (Nat.toDigits 10 n).length) '0' ++ Nat.toDigits 10 n

/-- The last digit comes off the end. -/
theorem zeroFilled_succ (width n : Nat) :
    zeroFilled (width + 2) n = zeroFilled (width + 1) (n / 10) ++ [Nat.digitChar (n % 10)] := by
  unfold zeroFilled
  by_cases hn : n < 10
  · rw [Nat.toDigits_of_lt_base hn, Nat.div_eq_of_lt hn, Nat.mod_eq_of_lt hn,
      Nat.toDigits_of_lt_base (by omega : 0 < 10)]
    show List.replicate (width + 1) '0' ++ _ = List.replicate width '0' ++ ['0'] ++ _
    rw [← List.replicate_succ']
  · have hlen : ∀ length, width + 2 - (length + 1) = width + 1 - length := fun length => by omega
    rw [Nat.toDigits_eq_if (by omega), if_neg hn, List.length_append, List.length_singleton, hlen,
      List.append_assoc]

/-- In bytes they are the last digits of the number, if they are all its digits. -/
theorem map_ascii_zeroFilled {width n : Nat} (hn : n < 10 ^ (width + 1)) :
    (zeroFilled (width + 1) n).map ascii = decimal (width + 1) n := by
  induction width generalizing n with
  | zero =>
    have hlt : n < 10 := by simpa using hn
    unfold zeroFilled
    rw [Nat.toDigits_of_lt_base hlt, decimal, decimal, Nat.mod_eq_of_lt hlt]
    show [ascii (Nat.digitChar n)] = [digitByte n]
    rw [ascii_digitChar hlt]
  | succ width ih =>
    have hdiv : n / 10 < 10 ^ (width + 1) := by
      rw [Nat.pow_succ] at hn
      omega
    rw [zeroFilled_succ, List.map_append, ih hdiv, List.map_singleton,
      ascii_digitChar (Nat.mod_lt _ (by omega)), decimal.eq_2 n (width + 1)]

theorem toNat_of_mem_zeroFilled {width n : Nat} {c : Char} (h : c ∈ zeroFilled width n) :
    48 ≤ c.toNat ∧ c.toNat ≤ 57 := by
  have hdigit : c.isDigit = true := by
    unfold zeroFilled at h
    rcases List.mem_append.mp h with h | h
    · rw [List.eq_of_mem_replicate h]
      rfl
    · exact Nat.isDigit_of_mem_toDigits (by omega) (by omega) h
  exact Char.isDigit_iff_toNat.mp hdigit

end Infra
