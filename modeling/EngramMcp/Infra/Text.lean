import Mathlib.Data.List.Infix
import Mathlib.Algebra.BigOperators.Group.List.Basic
import Mathlib.Algebra.GroupWithZero.Nat

/-!
# Strings and bytes

The functions of Rust's `str` that the program calls, on Lean strings. A `str` is UTF-8, and
so is a Lean `String`; `str::len` counts bytes, which is `String.utf8ByteSize` here and never
the number of characters.

The functions work on the list of characters and are structural, so closed examples compute.
-/

namespace Infra

/-- A byte string. -/
abbrev Bytes := List UInt8

/-! ## Bytes of a string -/

/-- `str::as_bytes`. -/
def utf8 (s : String) : Bytes := s.toByteArray.data.toList

/-- `std::str::from_utf8`. -/
def fromUtf8 (b : Bytes) : Option String := String.fromUTF8? ⟨b.toArray⟩

@[simp] theorem length_utf8 (s : String) : (utf8 s).length = s.utf8ByteSize := by
  rw [utf8, Array.length_toList]; rfl

theorem utf8_injective : Function.Injective utf8 := by
  intro s t h
  refine String.toByteArray_inj.mp (ByteArray.ext ?_)
  exact Array.toList_inj.mp h

@[simp] theorem utf8_inj {s t : String} : utf8 s = utf8 t ↔ s = t := utf8_injective.eq_iff

@[simp] theorem utf8_append (s t : String) : utf8 (s ++ t) = utf8 s ++ utf8 t := by
  simp [utf8, String.toByteArray_append]

/-- What was written as UTF-8 is read back. -/
@[simp] theorem fromUtf8_utf8 (s : String) : fromUtf8 (utf8 s) = some s := by
  have hb : (⟨(utf8 s).toArray⟩ : ByteArray) = s.toByteArray := by
    apply ByteArray.ext; simp [utf8]
  unfold fromUtf8 String.fromUTF8?
  rw [hb, dif_pos s.isValidUTF8]
  rfl

/-- The number of UTF-8 bytes of a list of characters. -/
def utf8Len (l : List Char) : Nat := (l.map Char.utf8Size).sum

@[simp] theorem utf8Len_nil : utf8Len [] = 0 := rfl

@[simp] theorem utf8Len_cons (c : Char) (l : List Char) :
    utf8Len (c :: l) = c.utf8Size + utf8Len l := by simp [utf8Len]

@[simp] theorem utf8Len_append (l m : List Char) : utf8Len (l ++ m) = utf8Len l + utf8Len m := by
  simp [utf8Len]

theorem utf8ByteSize_ofList : ∀ l : List Char, (String.ofList l).utf8ByteSize = utf8Len l
  | [] => rfl
  | c :: l => by
    have h : String.ofList (c :: l) = String.singleton c ++ String.ofList l := by
      rw [← String.toList_inj]; simp
    rw [h, String.utf8ByteSize_append, String.utf8ByteSize_singleton, utf8ByteSize_ofList l,
      utf8Len_cons]

theorem utf8Len_toList (s : String) : utf8Len s.toList = s.utf8ByteSize := by
  rw [← utf8ByteSize_ofList, String.ofList_toList]

/-- ASCII text has one byte a character. -/
theorem utf8Len_eq_length {l : List Char} (h : ∀ c ∈ l, c.utf8Size = 1) :
    utf8Len l = l.length := by
  induction l with
  | nil => rfl
  | cons c l ih =>
    rw [utf8Len_cons, h c List.mem_cons_self, ih (fun x hx => h x (List.mem_cons_of_mem _ hx)),
      List.length_cons, Nat.add_comm]

/-- What holds of the characters of a literal holds of the literal; this spares the kernel from
encoding and decoding it. -/
theorem of_literal (p : List Char → Prop) {s : String} {l : List Char} (hs : String.ofList l = s)
    (h : p l) : p s.toList := by
  rw [← hs, String.toList_ofList]
  exact h

/-- Joining texts and joining their characters is the same. -/
theorem toList_intercalate (separator : String) (l : List String) :
    (separator.intercalate l).toList = separator.toList.intercalate (l.map String.toList) := by
  induction l with
  | nil => rfl
  | cons s l ih =>
    cases l with
    | nil => simp
    | cons t l =>
      rw [String.intercalate_cons_cons, String.toList_append, String.toList_append, ih,
        List.map_cons, List.map_cons, List.map_cons, List.intercalate_cons_cons]

/-! ## Splitting -/

/-- `str::split_once` on a character: the parts before and after its first occurrence. -/
def splitOnce (d : Char) (s : String) : Option (String × String) :=
  match s.toList.dropWhile (· != d) with
  | [] => none
  | _ :: rest => some (String.ofList (s.toList.takeWhile (· != d)), String.ofList rest)

/-- `str::strip_prefix`. -/
def stripPrefix (p s : String) : Option String :=
  if p.toList <+: s.toList then some (String.ofList (s.toList.drop p.toList.length)) else none

/-- `str::starts_with`. -/
def startsWith (p s : String) : Bool := decide (p.toList <+: s.toList)

/-- `str::contains` on a string. -/
def containsStr (s t : String) : Bool := decide (t.toList <:+: s.toList)

/-- The text before the first occurrence of `pat`: `s.find(pat)` and then `&s[..end]`. -/
def beforeFirst (pat : List Char) : List Char → Option (List Char)
  | [] => if pat = [] then some [] else none
  | c :: cs =>
    if pat <+: c :: cs then some [] else (beforeFirst pat cs).map (c :: ·)

/-- The text behind the first occurrence of `pat`: `s.find(pat)` and then `&s[end..]`. -/
def afterFirst (pat l : List Char) : Option (List Char) :=
  (beforeFirst pat l).map fun front => l.drop (front.length + pat.length)

/-- `char::is_whitespace`, the Unicode property `White_Space`. -/
def isWhitespace (c : Char) : Bool :=
  (0x09 ≤ c.toNat && c.toNat ≤ 0x0D) || c.toNat == 0x20 || c.toNat == 0x85 || c.toNat == 0xA0
    || c.toNat == 0x1680 || (0x2000 ≤ c.toNat && c.toNat ≤ 0x200A) || c.toNat == 0x2028
    || c.toNat == 0x2029 || c.toNat == 0x202F || c.toNat == 0x205F || c.toNat == 0x3000

/-- `str::split_whitespace`. -/
def splitWhitespace (s : String) : List String :=
  ((s.toList.splitOnP isWhitespace).filter (· ≠ [])).map String.ofList

/-- `str::trim`. -/
def trim (s : String) : String :=
  String.ofList ((s.toList.dropWhile isWhitespace).reverse.dropWhile isWhitespace).reverse

/-- `str::split` on a character. -/
def splitOnChar (d : Char) (s : String) : List String :=
  (s.toList.splitOn d).map String.ofList

/-- `str::split_inclusive` on a character: every piece but the last ends with it. -/
def splitInclusive (d : Char) : List Char → List (List Char)
  | [] => []
  | c :: cs =>
    if c = d then [c] :: splitInclusive d cs
    else
      match splitInclusive d cs with
      | [] => [[c]]
      | piece :: rest => (c :: piece) :: rest

/-- A line without its line ending, which is `\n` or `\r\n`. -/
def stripLineEnding (line : List Char) : List Char :=
  match line.reverse with
  | '\n' :: '\r' :: rest => rest.reverse
  | '\n' :: rest => rest.reverse
  | _ => line

/-- `str::lines`. -/
def lines (s : String) : List String :=
  (splitInclusive '\n' s.toList).map fun line => String.ofList (stripLineEnding line)

example : lines "a\r\n\nb\r" = ["a", "", "b\r"] := by decide

/-- `char::to_ascii_lowercase`. -/
def toAsciiLowercase (c : Char) : Char :=
  if 0x41 ≤ c.toNat ∧ c.toNat ≤ 0x5A then Char.ofNat (c.toNat + 0x20) else c

theorem toNat_toAsciiLowercase_lt {c : Char} (h : c.toNat < 0x80) :
    (toAsciiLowercase c).toNat < 0x80 := by
  have hall : ∀ n < 0x80, (toAsciiLowercase (Char.ofNat n)).toNat < 0x80 := by decide +kernel
  rw [← Char.ofNat_toNat c]
  exact hall _ h

/-- `str::eq_ignore_ascii_case`. -/
def eqIgnoreAsciiCase (s t : String) : Bool :=
  decide (s.toList.map toAsciiLowercase = t.toList.map toAsciiLowercase)

section

variable {α : Type*} [BEq α] [LawfulBEq α]

theorem takeWhile_ne_append {d : α} {a b : List α} (h : d ∉ a) :
    (a ++ d :: b).takeWhile (· != d) = a := by
  induction a with
  | nil => simp
  | cons x a ih =>
    rw [List.mem_cons, not_or] at h
    have hx : (x != d) = true := bne_iff_ne.mpr (Ne.symm h.1)
    rw [List.cons_append, List.takeWhile_cons, if_pos hx, ih h.2]

theorem dropWhile_ne_append {d : α} {a b : List α} (h : d ∉ a) :
    (a ++ d :: b).dropWhile (· != d) = d :: b := by
  induction a with
  | nil => simp
  | cons x a ih =>
    rw [List.mem_cons, not_or] at h
    have hx : (x != d) = true := bne_iff_ne.mpr (Ne.symm h.1)
    rw [List.cons_append, List.dropWhile_cons, if_pos hx, ih h.2]

end

/-- Splitting at a separator that the first part does not contain gives the parts back. -/
theorem splitOnce_append {d : Char} {a b : String} (h : d ∉ a.toList) :
    splitOnce d (a ++ String.singleton d ++ b) = some (a, b) := by
  have hl : (a ++ String.singleton d ++ b).toList = a.toList ++ d :: b.toList := by simp
  unfold splitOnce
  rw [hl, dropWhile_ne_append h, takeWhile_ne_append h]
  simp

/-- A successful split is a decomposition of the string. -/
theorem splitOnce_eq_some {d : Char} {s a b : String} (h : splitOnce d s = some (a, b)) :
    s = a ++ String.singleton d ++ b ∧ d ∉ a.toList := by
  unfold splitOnce at h
  split at h
  · simp at h
  · next x rest hx =>
    simp only [Option.some.injEq, Prod.mk.injEq] at h
    obtain ⟨rfl, rfl⟩ := h
    have hd : x = d := by
      have hh := List.head?_dropWhile_not (· != d) s.toList
      rw [hx] at hh
      simpa using hh
    refine ⟨?_, ?_⟩
    · rw [← String.toList_inj]
      have hs := List.takeWhile_append_dropWhile (p := (· != d)) (l := s.toList)
      rw [hx, hd] at hs
      simpa using hs.symm
    · intro hm
      rw [String.toList_ofList] at hm
      have hall := List.all_takeWhile (p := (· != d)) (l := s.toList)
      have hne := List.all_eq_true.mp hall d hm
      simp at hne

@[simp] theorem stripPrefix_append (p s : String) : stripPrefix p (p ++ s) = some s := by
  unfold stripPrefix
  rw [if_pos (by simp)]
  simp

theorem stripPrefix_eq_some {p s t : String} (h : stripPrefix p s = some t) : s = p ++ t := by
  unfold stripPrefix at h
  split at h
  · next hp =>
    obtain ⟨rest, hr⟩ := hp
    rw [Option.some.injEq] at h
    rw [← h, ← String.toList_inj, ← hr]
    simp
  · simp at h

/-- A pattern that does not begin in a piece of the text is looked for behind it. -/
theorem beforeFirst_append_eq {pat a b : List Char}
    (h : ∀ s, s ≠ [] → s <:+ a → ¬pat <+: s ++ b) :
    beforeFirst pat (a ++ b) = (beforeFirst pat b).map (a ++ ·) := by
  induction a with
  | nil => simp
  | cons c a ih =>
    have hfirst := h (c :: a) (List.cons_ne_nil c a) List.suffix_rfl
    have hrest := ih fun s hs hsuffix => h s hs (hsuffix.trans (List.suffix_cons c a))
    rw [List.cons_append] at hfirst ⊢
    rw [beforeFirst, if_neg hfirst, hrest, Option.map_map]
    rfl

theorem beforeFirst_of_prefix {pat l : List Char} (h : pat <+: l) :
    beforeFirst pat l = some [] := by
  cases l with
  | nil => rw [List.prefix_nil.mp h]; rfl
  | cons c l => rw [beforeFirst, if_pos h]

/-- A pattern that begins in no proper part of the text is found behind it. -/
theorem beforeFirst_append {pat a b : List Char} (hb : pat <+: b)
    (h : ∀ s, s ≠ [] → s <:+ a → ¬pat <+: s ++ b) : beforeFirst pat (a ++ b) = some a := by
  rw [beforeFirst_append_eq h, beforeFirst_of_prefix hb, Option.map_some, List.append_nil]

/-- What does not have a separator ends in front of it. -/
theorem prefix_of_prefix_append_cons {t a b : List Char} {z : Char} (hz : z ∉ t)
    (h : t <+: a ++ z :: b) : t <+: a := by
  rcases List.prefix_or_prefix_of_prefix h (List.prefix_append a _) with hin | ⟨s, rfl⟩
  · exact hin
  · rw [List.prefix_append_right_inj] at h
    cases s with
    | nil => rw [List.append_nil]
    | cons c s =>
      obtain rfl := (List.cons_prefix_cons.mp h).1
      exact absurd (List.mem_append_right a List.mem_cons_self) hz

/-- A piece is searched on its own when a character that the pattern does not have ends it, or
begins what comes after it. -/
theorem beforeFirst_append_of_boundary {pat a b : List Char} {z : Char} (hz : z ∉ pat)
    (ha : ¬pat <:+: a) (h : z ∈ a.getLast? ∨ z ∈ b.head?) :
    beforeFirst pat (a ++ b) = (beforeFirst pat b).map (a ++ ·) := by
  refine beforeFirst_append_eq fun s hs hsuffix hpat => ha ?_
  rcases h with hlast | hhead
  · obtain ⟨y, rfl⟩ := List.getLast?_eq_some_iff.mp hlast
    obtain ⟨u, rfl, -⟩ := (List.suffix_concat_iff.mp hsuffix).resolve_left hs
    rw [List.append_assoc, List.singleton_append] at hpat
    have hin := (prefix_of_prefix_append_cons hz hpat).trans (List.prefix_append u [z])
    exact hin.isInfix.trans hsuffix.isInfix
  · obtain ⟨y, rfl⟩ := List.head?_eq_some_iff.mp hhead
    exact (prefix_of_prefix_append_cons hz hpat).isInfix.trans hsuffix.isInfix

/-- The pattern stands behind the text before it. -/
theorem prefix_of_beforeFirst {pat l x : List Char} (h : beforeFirst pat l = some x) :
    x ++ pat <+: l := by
  induction l generalizing x with
  | nil =>
    rw [beforeFirst] at h
    split at h
    · next hpat => rw [← Option.some.inj h, hpat]; exact List.nil_prefix
    · exact absurd h nofun
  | cons c l ih =>
    rw [beforeFirst] at h
    split at h
    · next hpat => rw [← Option.some.inj h]; exact hpat
    · obtain ⟨y, hy, rfl⟩ := Option.map_eq_some_iff.mp h
      exact List.cons_prefix_cons.mpr ⟨rfl, ih hy⟩

/-- What is found in a piece is found first. -/
theorem beforeFirst_append_of_some {pat a x : List Char} (h : beforeFirst pat a = some x)
    (b : List Char) : beforeFirst pat (a ++ b) = some x := by
  induction a generalizing x with
  | nil =>
    obtain ⟨rfl, rfl⟩ := List.append_eq_nil_iff.mp (List.prefix_nil.mp (prefix_of_beforeFirst h))
    exact beforeFirst_of_prefix List.nil_prefix
  | cons c a ih =>
    have hfits := (prefix_of_beforeFirst h).length_le
    rw [List.length_append] at hfits
    rw [beforeFirst] at h
    split at h
    · next hpat =>
      rw [← Option.some.inj h]
      exact beforeFirst_of_prefix (hpat.trans (List.prefix_append _ _))
    · next hpat =>
      have hlonger : ¬pat <+: c :: (a ++ b) := fun hp =>
        hpat (List.prefix_of_prefix_length_le hp (List.prefix_append (c :: a) b) (by omega))
      obtain ⟨y, hy, rfl⟩ := Option.map_eq_some_iff.mp h
      rw [List.cons_append, beforeFirst, if_neg hlonger, ih hy, Option.map_some]

theorem afterFirst_append_of_boundary {pat a b : List Char} {z : Char} (hz : z ∉ pat)
    (ha : ¬pat <:+: a) (h : z ∈ a.getLast? ∨ z ∈ b.head?) :
    afterFirst pat (a ++ b) = afterFirst pat b := by
  rw [afterFirst, beforeFirst_append_of_boundary hz ha h, afterFirst, Option.map_map]
  congr 1
  funext front
  rw [Function.comp_apply, List.length_append, Nat.add_assoc, ← List.drop_drop,
    List.drop_left]

theorem afterFirst_append_of_some {pat a rest : List Char} (h : afterFirst pat a = some rest)
    (b : List Char) : afterFirst pat (a ++ b) = some (rest ++ b) := by
  obtain ⟨front, hfront, rfl⟩ := Option.map_eq_some_iff.mp h
  have hfits := (prefix_of_beforeFirst hfront).length_le
  rw [List.length_append] at hfits
  rw [afterFirst, beforeFirst_append_of_some hfront, Option.map_some,
    List.drop_append_of_le_length hfits]

/-- What does not have a separator stands on one side of it. -/
theorem infix_append_cons_iff {t a b : List Char} {z : Char} (hz : z ∉ t) :
    t <:+: a ++ z :: b ↔ t <:+: a ∨ t <:+: b := by
  constructor
  · intro h
    induction a with
    | nil =>
      rcases List.infix_cons_iff.mp h with hfront | hin
      · exact Or.inl (prefix_of_prefix_append_cons (a := []) hz hfront).isInfix
      · exact Or.inr hin
    | cons c a ih =>
      rcases List.infix_cons_iff.mp h with hfront | hin
      · exact Or.inl (prefix_of_prefix_append_cons hz hfront).isInfix
      · exact (ih hin).imp_left fun h => h.trans (List.suffix_cons c a).isInfix
  · rintro (h | h)
    · exact h.trans (List.prefix_append _ _).isInfix
    · exact h.trans ((List.suffix_cons z b).trans (List.suffix_append a _)).isInfix
@[simp] theorem startsWith_append (p s : String) : startsWith p (p ++ s) = true := by
  simp [startsWith]

/-! ## Lines -/

/-- A piece has the separator at its end at most. -/
theorem exists_of_mem_splitInclusive {d : Char} {l piece : List Char}
    (h : piece ∈ splitInclusive d l) : ∃ a, d ∉ a ∧ (piece = a ∨ piece = a ++ [d]) := by
  induction l generalizing piece with
  | nil => exact absurd h List.not_mem_nil
  | cons c l ih =>
    rw [splitInclusive] at h
    split at h
    · next hc =>
      rcases List.mem_cons.mp h with rfl | h
      · exact ⟨[], List.not_mem_nil, Or.inr (by rw [hc, List.nil_append])⟩
      · exact ih h
    · next hc =>
      split at h
      · rw [List.mem_singleton.mp h]
        exact ⟨[c], by simpa using Ne.symm hc, Or.inl rfl⟩
      · next first rest hsplit =>
        rw [hsplit] at ih
        rcases List.mem_cons.mp h with rfl | h
        · obtain ⟨a, ha, hfirst⟩ := ih List.mem_cons_self
          have hca : d ∉ c :: a := by
            rw [List.mem_cons, not_or]
            exact ⟨Ne.symm hc, ha⟩
          rcases hfirst with rfl | rfl
          · exact ⟨c :: first, hca, Or.inl rfl⟩
          · exact ⟨c :: a, hca, Or.inr rfl⟩
        · exact ih (List.mem_cons_of_mem _ h)

theorem newline_not_mem_stripLineEnding {a : List Char} (h : '\n' ∉ a) :
    '\n' ∉ stripLineEnding a ∧ '\n' ∉ stripLineEnding (a ++ ['\n']) := by
  rw [← List.mem_reverse] at h
  unfold stripLineEnding
  constructor
  · split
    · next heq => rw [heq] at h; exact absurd List.mem_cons_self h
    · next heq => rw [heq] at h; exact absurd List.mem_cons_self h
    · rwa [List.mem_reverse] at h
  · rw [List.reverse_append, List.reverse_singleton, List.singleton_append]
    split
    · next heq =>
      rw [(List.cons.inj heq).2] at h
      rw [List.mem_reverse]
      exact fun hmem => h (List.mem_cons_of_mem _ hmem)
    · next heq =>
      rw [(List.cons.inj heq).2] at h
      rwa [List.mem_reverse]
    · next hne => exact absurd rfl (hne a.reverse)

/-- A line has no line feed. -/
theorem newline_not_mem_of_mem_lines {s line : String} (h : line ∈ lines s) :
    '\n' ∉ line.toList := by
  obtain ⟨piece, hpiece, rfl⟩ := List.mem_map.mp h
  obtain ⟨a, ha, hends⟩ := exists_of_mem_splitInclusive hpiece
  obtain ⟨hwithout, hwith⟩ := newline_not_mem_stripLineEnding ha
  rw [String.toList_ofList]
  rcases hends with rfl | rfl
  · exact hwithout
  · exact hwith

/-- The text behind the last line feed. -/
def lastLine (l : List Char) : List Char := (l.reverse.takeWhile (· != '\n')).reverse

theorem lastLine_of_not_mem {l : List Char} (h : '\n' ∉ l) : lastLine l = l := by
  have hall : (l.reverse ++ []).takeWhile (· != '\n') = l.reverse ++ [].takeWhile (· != '\n') :=
    List.takeWhile_append_of_pos fun c hc =>
      bne_iff_ne.mpr fun heq => h (heq ▸ List.mem_reverse.mp hc)
  rw [List.append_nil, List.takeWhile_nil, List.append_nil] at hall
  rw [lastLine, hall, List.reverse_reverse]

theorem lastLine_append_cons (a b : List Char) : lastLine (a ++ '\n' :: b) = lastLine b := by
  have hcons : (a ++ '\n' :: b).reverse = b.reverse ++ '\n' :: a.reverse := by simp
  rw [lastLine, hcons, List.takeWhile_append]
  split
  · next hlen =>
    have hall : b.reverse.takeWhile (· != '\n') = b.reverse :=
      (List.takeWhile_prefix _).eq_of_length hlen
    rw [List.takeWhile_cons_of_neg (by simp), List.append_nil, lastLine, hall]
  · rfl

/-- Lines that are cut at a number of characters: some whole lines, and a piece of the next. -/
theorem take_intercalate_append {lines : List (List Char)} (hne : lines ≠ [])
    (h : ∀ line ∈ lines, '\n' ∉ line) (n : Nat) (tail : List Char) :
    ∃ whole, whole <+: lines.dropLast ∧ (['\n'].intercalate lines).take n ++ tail
      = ['\n'].intercalate (whole ++ [lastLine ((['\n'].intercalate lines).take n) ++ tail]) := by
  induction lines generalizing n with
  | nil => exact absurd rfl hne
  | cons line rest ih =>
    have hline : '\n' ∉ line.take n := fun hmem =>
      h line List.mem_cons_self (List.mem_of_mem_take hmem)
    cases rest with
    | nil =>
      refine ⟨[], List.nil_prefix, ?_⟩
      rw [List.intercalate_singleton, lastLine_of_not_mem hline, List.nil_append,
        List.intercalate_singleton]
    | cons next rest =>
      rw [List.intercalate_cons_cons, List.append_assoc, List.singleton_append]
      by_cases hn : n ≤ line.length
      · refine ⟨[], List.nil_prefix, ?_⟩
        rw [List.take_append_of_le_length hn, lastLine_of_not_mem hline, List.nil_append,
          List.intercalate_singleton]
      · obtain ⟨k, rfl⟩ : ∃ k, n = line.length + (k + 1) := ⟨n - line.length - 1, by omega⟩
        obtain ⟨whole, hwhole, heq⟩ := ih (List.cons_ne_nil _ _)
          (fun line' hline' => h line' (List.mem_cons_of_mem _ hline')) k
        refine ⟨line :: whole, ?_, ?_⟩
        · rw [List.dropLast_cons_of_ne_nil (List.cons_ne_nil _ _)]
          exact List.cons_prefix_cons.mpr ⟨rfl, hwhole⟩
        · have htake (l : List Char) : (line ++ '\n' :: l).take (line.length + (k + 1))
              = line ++ '\n' :: l.take k := by
            rw [List.take_length_add_append, List.take_succ_cons]
          have hcons (l : List Char) : ['\n'].intercalate (line :: (whole ++ [l]))
              = line ++ '\n' :: ['\n'].intercalate (whole ++ [l]) := by
            rw [List.intercalate_cons_of_ne_nil (by simp), List.append_assoc,
              List.singleton_append]
          rw [htake, lastLine_append_cons, List.append_assoc, List.cons_append, heq,
            List.cons_append, hcons]

/-- More lines come behind the first ones, after a line feed. -/
theorem exists_intercalate_append {a : List (List Char)} (ha : a ≠ []) (b : List (List Char)) :
    ∃ x, ['\n'].intercalate (a ++ b) = ['\n'].intercalate a ++ x ∧
      ∀ c ∈ x.head?, c = '\n' := by
  induction a with
  | nil => exact absurd rfl ha
  | cons line rest ih =>
    cases rest with
    | nil =>
      cases b with
      | nil => exact ⟨[], by simp, by simp⟩
      | cons next b =>
        refine ⟨'\n' :: ['\n'].intercalate (next :: b), ?_, fun c hc => (Option.some.inj hc).symm⟩
        rw [List.singleton_append, List.intercalate_cons_cons, List.intercalate_singleton,
          List.append_assoc, List.singleton_append]
    | cons next rest =>
      obtain ⟨x, hx, hhead⟩ := ih (List.cons_ne_nil _ _)
      refine ⟨x, ?_, hhead⟩
      rw [List.cons_append, List.cons_append, List.intercalate_cons_cons, ← List.cons_append, hx,
        List.intercalate_cons_cons, List.append_assoc, List.append_assoc, List.append_assoc]

end Infra
