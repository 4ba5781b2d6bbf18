import EngramMcp.Infra.Decimal
import EngramMcp.Kb.Inbox
import Mathlib.Data.Nat.Digits.Defs

/-!
# Names of notes

A slug is made of words of letters and digits with single dashes between them, whatever the title
is. A note name adds the time, the attempt and the ending, and never anything else: it is safe for
every second a clock can show, far and negative years included.

* `isSlug_slug`, `slug_of_isSlug` — the form of a slug, and that it is kept
* `isSafeFileName_noteFileName` — a generated name is safe
* `noteFileName_injective` — every attempt has a name of its own
* `names_are_safe` — the property
-/

namespace EngramMcp

open Infra

/-! ## The form of a slug -/

/-- `'a'..='z' | '0'..='9'`. -/
def isSlugChar (c : Char) : Bool := decide (('a' ≤ c ∧ c ≤ 'z') ∨ ('0' ≤ c ∧ c ≤ '9'))

/-- `[a-z0-9]+(-[a-z0-9]+)*`. -/
def IsSlug (s : String) : Prop :=
  ∃ words : List (List Char), words ≠ [] ∧
    (∀ word ∈ words, word ≠ [] ∧ ∀ c ∈ word, isSlugChar c = true) ∧
    s.toList = ['-'].intercalate words

/-- The same form, read from the front: what may follow, behind a dash or not. -/
def SlugTail : Bool → List Char → Prop
  | afterDash, [] => afterDash = false
  | afterDash, c :: rest =>
    (isSlugChar c = true ∧ SlugTail false rest) ∨
      (afterDash = false ∧ c = '-' ∧ SlugTail true rest)

theorem isSlugChar_iff {c : Char} : isSlugChar c = true ↔
    (97 ≤ c.toNat ∧ c.toNat ≤ 122) ∨ (48 ≤ c.toNat ∧ c.toNat ≤ 57) := by
  unfold isSlugChar
  simp only [decide_eq_true_eq, Char.le_def, UInt32.le_iff_toNat_le]
  exact Iff.rfl

theorem SlugTail.ne_nil {l : List Char} (h : SlugTail true l) : l ≠ [] := by
  rintro rfl
  exact nomatch h

/-- A word, and what follows it. -/
theorem slugTail_word {word rest : List Char} (hword : ∀ c ∈ word, isSlugChar c = true)
    (hrest : SlugTail false rest) : SlugTail false (word ++ rest) := by
  induction word with
  | nil => exact hrest
  | cons c word ih =>
    rw [List.forall_mem_cons] at hword
    exact Or.inl ⟨hword.1, ih hword.2⟩

/-- Words with dashes between them have the form. -/
theorem slugTail_intercalate {words : List (List Char)} (hne : words ≠ [])
    (hall : ∀ word ∈ words, word ≠ [] ∧ ∀ c ∈ word, isSlugChar c = true) :
    SlugTail true (['-'].intercalate words) := by
  have hfirst : ∀ {word rest : List Char}, word ≠ [] → (∀ c ∈ word, isSlugChar c = true) →
      SlugTail false rest → SlugTail true (word ++ rest) := by
    intro word rest hne hword hrest
    cases word with
    | nil => exact absurd rfl hne
    | cons c word =>
      rw [List.forall_mem_cons] at hword
      exact Or.inl ⟨hword.1, slugTail_word hword.2 hrest⟩
  induction words with
  | nil => exact absurd rfl hne
  | cons word words ih =>
    rw [List.forall_mem_cons] at hall
    cases words with
    | nil =>
      rw [List.intercalate_singleton, ← List.append_nil word]
      exact hfirst hall.1.1 hall.1.2 rfl
    | cons next words =>
      rw [List.intercalate_cons_cons, List.append_assoc]
      exact hfirst hall.1.1 hall.1.2 (Or.inr ⟨rfl, rfl, ih (List.cons_ne_nil _ _) hall.2⟩)

/-- What has the form is a word, which is empty only if a dash may come first, and more words. -/
theorem exists_words {dash : Bool} {l : List Char} (h : SlugTail dash l) :
    ∃ (word : List Char) (words : List (List Char)),
      (∀ c ∈ word, isSlugChar c = true) ∧ (dash = true → word ≠ []) ∧
      (∀ w ∈ words, w ≠ [] ∧ ∀ c ∈ w, isSlugChar c = true) ∧
      l = ['-'].intercalate (word :: words) := by
  induction l generalizing dash with
  | nil =>
    refine ⟨[], [], by simp, ?_, by simp, by simp⟩
    intro hd
    rw [hd] at h
    exact nomatch h
  | cons c rest ih =>
    rcases h with ⟨hc, hrest⟩ | ⟨hdash, rfl, hrest⟩
    · obtain ⟨word, words, hword, -, hwords, rfl⟩ := ih hrest
      refine ⟨c :: word, words, List.forall_mem_cons.mpr ⟨hc, hword⟩,
        fun _ => List.cons_ne_nil _ _, hwords, ?_⟩
      cases words with
      | nil => simp
      | cons next words => rw [List.intercalate_cons_cons, List.intercalate_cons_cons]; rfl
    · -- a dash ends an empty word
      obtain ⟨word, words, hword, hne, hwords, rfl⟩ := ih hrest
      refine ⟨[], word :: words, by simp, ?_,
        List.forall_mem_cons.mpr ⟨⟨hne rfl, hword⟩, hwords⟩, ?_⟩
      · intro hd
        rw [hdash] at hd
        exact nomatch hd
      · rw [List.intercalate_cons_cons]
        rfl

theorem isSlug_iff {s : String} : IsSlug s ↔ SlugTail true s.toList := by
  constructor
  · rintro ⟨words, hne, hall, hs⟩
    rw [hs]
    exact slugTail_intercalate hne hall
  · intro h
    obtain ⟨word, words, hword, hne, hwords, hs⟩ := exists_words h
    exact ⟨word :: words, List.cons_ne_nil _ _,
      List.forall_mem_cons.mpr ⟨⟨hne rfl, hword⟩, hwords⟩, hs⟩

/-! ## The loop -/

/-- A letter or a digit behind it, with a dash or without, keeps the form. -/
theorem SlugTail.append {dash : Bool} {l : List Char} (h : SlugTail dash l) {c : Char}
    (hc : isSlugChar c = true) :
    SlugTail dash (l ++ [c]) ∧ SlugTail dash (l ++ ['-'] ++ [c]) := by
  induction l generalizing dash with
  | nil =>
    obtain rfl : dash = false := h
    exact ⟨Or.inl ⟨hc, rfl⟩, Or.inr ⟨rfl, rfl, Or.inl ⟨hc, rfl⟩⟩⟩
  | cons d rest ih =>
    rcases h with ⟨hd, hrest⟩ | ⟨hdash, rfl, hrest⟩
    · exact ⟨Or.inl ⟨hd, (ih hrest).1⟩, Or.inl ⟨hd, (ih hrest).2⟩⟩
    · exact ⟨Or.inr ⟨hdash, rfl, (ih hrest).1⟩, Or.inr ⟨hdash, rfl, (ih hrest).2⟩⟩

/-- What the loop has at any time: nothing, or the form, in 40 characters. -/
def Grown (l : List Char) : Prop := (l = [] ∨ SlugTail true l) ∧ l.length ≤ maxSlugChars

/-- The loop ends with that, or with a dash too many: the break between the two length checks. -/
theorem slugLoop_grown (rest : List Char) {l : List Char} (separator : Bool) (h : Grown l) :
    ∃ l', Grown l' ∧
      (slugLoop rest l separator = l' ∨ slugLoop rest l separator = l' ++ ['-']) := by
  induction rest generalizing l separator with
  | nil => exact ⟨l, h, Or.inl rfl⟩
  | cons c rest ih =>
    unfold slugLoop
    simp only
    split
    · next hchar =>
      have hc : isSlugChar (toAsciiLowercase c) = true := decide_eq_true hchar
      split
      · exact ⟨l, h, Or.inl rfl⟩
      · next hshort =>
        by_cases hdash : separator = true ∧ l ≠ []
        · rw [if_pos hdash]
          have htail : SlugTail true l := h.1.resolve_left hdash.2
          split
          · exact ⟨l, h, Or.inr rfl⟩
          · next hroom =>
            refine ih false ⟨Or.inr (htail.append hc).2, ?_⟩
            simp only [List.length_append, List.length_singleton] at hroom ⊢
            omega
        · rw [if_neg hdash, if_neg hshort]
          refine ih false ⟨Or.inr ?_, ?_⟩
          · rcases h.1 with rfl | htail
            · exact Or.inl ⟨hc, rfl⟩
            · exact (htail.append hc).1
          · rw [List.length_append, List.length_singleton]
            omega
    · exact ih true h

/-- What has the form does not end in a dash. -/
theorem SlugTail.getLast?_ne {dash : Bool} {l : List Char} (h : SlugTail dash l) :
    l.getLast? ≠ some '-' := by
  induction l generalizing dash with
  | nil => exact fun hl => nomatch hl
  | cons c rest ih =>
    cases rest with
    | nil =>
      rcases h with ⟨hc, -⟩ | ⟨-, -, hrest⟩
      · intro hl
        rw [List.getLast?_singleton, Option.some.injEq] at hl
        subst hl
        exact absurd hc (by decide)
      · exact nomatch hrest
    | cons d rest =>
      rw [List.getLast?_cons_cons]
      rcases h with ⟨-, hrest⟩ | ⟨-, -, hrest⟩
      · exact ih hrest
      · exact ih hrest

/-- Taking dashes off the end leaves it, also when the loop left one there. -/
theorem Grown.trim {l : List Char} (h : Grown l) :
    (l.reverse.dropWhile (· == '-')).reverse = l ∧
      ((l ++ ['-']).reverse.dropWhile (· == '-')).reverse = l := by
  have hkeep : l.reverse.dropWhile (· == '-') = l.reverse := by
    rcases h.1 with rfl | htail
    · rfl
    · have hlast := htail.getLast?_ne
      rw [← List.head?_reverse] at hlast
      cases hr : l.reverse with
      | nil => rfl
      | cons x rest =>
        rw [hr, List.head?_cons, ne_eq, Option.some.injEq] at hlast
        exact List.dropWhile_cons_of_neg (by simpa using hlast)
  refine ⟨by rw [hkeep, List.reverse_reverse], ?_⟩
  rw [List.reverse_append, List.reverse_singleton, List.singleton_append,
    List.dropWhile_cons_of_pos (by decide), hkeep, List.reverse_reverse]

/-- What `slug` makes of a title. -/
theorem exists_slug (title : String) :
    ∃ l, SlugTail true l ∧ l.length ≤ maxSlugChars ∧ slug title = String.ofList l := by
  obtain ⟨l, hgrown, hloop⟩ := slugLoop_grown title.toList (l := []) false
    ⟨Or.inl rfl, Nat.zero_le _⟩
  have htrim : ((slugLoop title.toList [] false).reverse.dropWhile (· == '-')).reverse = l := by
    rcases hloop with hloop | hloop
    · rw [hloop, hgrown.trim.1]
    · rw [hloop, hgrown.trim.2]
  unfold slug
  simp only [htrim]
  by_cases hempty : l = []
  · rw [if_pos hempty]
    have hnote : ∀ word ∈ ["note".toList], word ≠ [] ∧ ∀ c ∈ word, isSlugChar c = true :=
      List.forall_mem_singleton.mpr ⟨by decide, List.all_eq_true.mp (by decide)⟩
    exact ⟨"note".toList, slugTail_intercalate (List.cons_ne_nil _ _) hnote, by decide, rfl⟩
  · rw [if_neg hempty]
    exact ⟨l, hgrown.1.resolve_left hempty, hgrown.2, rfl⟩

/-! ## Slugs of slugs -/

/-- A slug character is no capital. -/
theorem toAsciiLowercase_eq {c : Char} (h : isSlugChar c = true) : toAsciiLowercase c = c := by
  rw [isSlugChar_iff] at h
  unfold toAsciiLowercase
  exact if_neg (by omega)

/-- The loop copies what has the form, if it is not too long. -/
theorem slugLoop_eq {rest l : List Char} {separator : Bool} (hl : l ≠ [])
    (h : SlugTail separator rest)
    (hlen : (l ++ (if separator then ['-'] else []) ++ rest).length ≤ maxSlugChars) :
    slugLoop rest l separator = l ++ (if separator then ['-'] else []) ++ rest := by
  induction rest generalizing l separator with
  | nil =>
    obtain rfl : separator = false := h
    simp [slugLoop]
  | cons c rest ih =>
    rcases h with ⟨hc, hrest⟩ | ⟨rfl, rfl, hrest⟩
    · have hchar := of_decide_eq_true hc
      have hdash : (if separator = true ∧ l ≠ [] then l ++ ['-'] else l)
          = l ++ (if separator then ['-'] else []) := by
        cases separator <;> simp [hl]
      unfold slugLoop
      simp only [toAsciiLowercase_eq hc]
      rw [if_pos hchar, hdash]
      rw [List.length_append, List.length_cons] at hlen
      have hshort : ¬maxSlugChars ≤ l.length := by
        rw [List.length_append] at hlen
        omega
      rw [if_neg hshort, if_neg (by omega)]
      refine (ih (by simp) hrest ?_).trans (by simp)
      simp only [Bool.false_eq_true, if_false, List.append_nil, List.length_append,
        List.length_singleton] at hlen ⊢
      omega
    · -- a dash is not copied before what follows it
      have hnot : ¬(('a' ≤ '-' ∧ '-' ≤ 'z') ∨ ('0' ≤ '-' ∧ '-' ≤ '9')) := by decide
      unfold slugLoop
      simp only [show toAsciiLowercase '-' = '-' from rfl]
      rw [if_neg hnot]
      refine (ih hl hrest ?_).trans (by simp)
      simpa using hlen

/-- A slug is its own slug. -/
theorem slug_of_isSlug {s : String} (h : IsSlug s) (hlen : s.toList.length ≤ maxSlugChars) :
    slug s = s := by
  have htail := isSlug_iff.mp h
  have hloop : slugLoop s.toList [] false = s.toList := by
    cases hs : s.toList with
    | nil => rfl
    | cons c rest =>
      rw [hs] at htail hlen
      rcases htail with ⟨hc, hrest⟩ | ⟨hdash, -⟩
      · unfold slugLoop
        simp only [toAsciiLowercase_eq hc]
        rw [if_pos (of_decide_eq_true hc),
          if_neg (show ¬(false = true ∧ ([] : List Char) ≠ []) by simp),
          if_neg (show ¬maxSlugChars ≤ ([] : List Char).length by decide)]
        refine (slugLoop_eq (by simp) hrest ?_).trans (by simp)
        simpa using hlen
      · exact nomatch hdash
  have htrim := (Grown.trim ⟨Or.inr htail, hlen⟩).1
  unfold slug
  simp only [hloop, htrim]
  rw [if_neg htail.ne_nil, String.ofList_toList]

theorem isSlug_slug (title : String) : IsSlug (slug title) := by
  obtain ⟨l, htail, -, hslug⟩ := exists_slug title
  rw [isSlug_iff, hslug, String.toList_ofList]
  exact htail

theorem length_slug_le (title : String) : (slug title).toList.length ≤ maxSlugChars := by
  obtain ⟨l, -, hlen, hslug⟩ := exists_slug title
  rw [hslug, String.toList_ofList]
  exact hlen

/-! ## The characters of a name -/

/-- A letter, a digit, a dash or a dot. -/
def isNameChar (c : Char) : Bool := isSlugChar c || c == '-' || c == '.'

theorem toNat_lt_of_isNameChar {c : Char} (h : isNameChar c = true) : c.toNat < 128 := by
  unfold isNameChar at h
  simp only [Bool.or_eq_true, beq_iff_eq, isSlugChar_iff] at h
  rcases h with (h | rfl) | rfl
  · omega
  · decide
  · decide

/-- In bytes these are the characters that `is_safe_file_name` accepts. -/
theorem isNameByte_ascii {c : Char} (h : isNameChar c = true) : isNameByte (ascii c) = true := by
  have hbyte := toNat_ascii (toNat_lt_of_isNameChar h)
  unfold isNameChar at h
  simp only [Bool.or_eq_true, beq_iff_eq, isSlugChar_iff] at h
  unfold isNameByte isAsciiDigit
  simp only [Bool.or_eq_true, Bool.and_eq_true, decide_eq_true_eq, beq_iff_eq,
    UInt8.le_iff_toNat_le, hbyte]
  rcases h with (h | rfl) | rfl
  · rcases h with h | h
    · exact Or.inl (Or.inl (Or.inl h))
    · exact Or.inl (Or.inl (Or.inr h))
  · exact Or.inl (Or.inr rfl)
  · exact Or.inr rfl

/-- A text of these characters has a byte for each, and all of them are accepted. -/
theorem utf8_of_isNameChar {s : String} (h : ∀ c ∈ s.toList, isNameChar c = true) :
    s.utf8ByteSize = s.toList.length ∧ (utf8 s).all isNameByte = true := by
  have hbytes : utf8 s = s.toList.map ascii := by
    rw [← utf8_ofList_ascii fun c hc => toNat_lt_of_isNameChar (h c hc), String.ofList_toList]
  refine ⟨?_, ?_⟩
  · rw [← length_utf8, hbytes, List.length_map]
  · rw [hbytes, List.all_map, List.all_eq_true]
    exact fun c hc => isNameByte_ascii (h c hc)

theorem isNameChar_of_digit {c : Char} (h : 48 ≤ c.toNat ∧ c.toNat ≤ 57) :
    isNameChar c = true := by
  unfold isNameChar
  rw [isSlugChar_iff.mpr (Or.inr h)]
  rfl

theorem isNameChar_of_isSlug {s : String} (h : IsSlug s) : ∀ c ∈ s.toList, isNameChar c = true := by
  have hall : ∀ {dash : Bool} {l : List Char}, SlugTail dash l → ∀ c ∈ l, isNameChar c = true := by
    intro dash l h
    induction l generalizing dash with
    | nil => exact fun c hc => absurd hc List.not_mem_nil
    | cons d rest ih =>
      rw [List.forall_mem_cons]
      rcases h with ⟨hd, hrest⟩ | ⟨-, rfl, hrest⟩
      · refine ⟨?_, ih hrest⟩
        unfold isNameChar
        rw [hd]
        rfl
      · exact ⟨rfl, ih hrest⟩
  exact hall (isSlug_iff.mp h)

/-! ## The parts of a name -/

/-- A text of digits and dashes that does not begin with a dot, of a bounded length. -/
structure IsPart (limit : Nat) (s : String) : Prop where
  ne_nil : s.toList ≠ []
  chars : ∀ c ∈ s.toList, isNameChar c = true ∧ c ≠ '.'
  length_le : s.toList.length ≤ limit

theorem IsPart.append {m n : Nat} {s t : String} (hs : IsPart m s) (ht : IsPart n t) :
    IsPart (m + n) (s ++ t) where
  ne_nil := by
    rw [String.toList_append]
    exact List.append_ne_nil_of_left_ne_nil hs.ne_nil _
  chars := by
    rw [String.toList_append, List.forall_mem_append]
    exact ⟨hs.chars, ht.chars⟩
  length_le := by
    rw [String.toList_append, List.length_append]
    exact Nat.add_le_add hs.length_le ht.length_le

theorem isPart_dash : IsPart 1 "-" where
  ne_nil := by decide
  chars := by
    intro c hc
    obtain rfl := List.mem_singleton.mp hc
    decide
  length_le := by decide

/-- A number of at most twenty digits. -/
theorem isPart_zeroPadded {width n : Nat} (hwidth : width ≤ 20) (hn : n < 10 ^ 20) :
    IsPart 20 (zeroPadded width n) := by
  have hlist : (zeroPadded width n).toList = zeroFilled width n := String.toList_ofList
  have hdigits : (Nat.toDigits 10 n).length ≤ 20 := Nat.toDigits_length 10 n 20 (by omega) hn
  refine ⟨?_, ?_, ?_⟩
  · rw [hlist]
    exact List.append_ne_nil_of_right_ne_nil _ Nat.toDigits_ne_nil
  · intro c hc
    rw [hlist] at hc
    have hdigit := toNat_of_mem_zeroFilled hc
    refine ⟨isNameChar_of_digit hdigit, ?_⟩
    rintro rfl
    exact absurd hdigit (by decide)
  · rw [hlist, zeroFilled, List.length_append, List.length_replicate]
    omega

/-- A year of any size and sign. -/
theorem isPart_paddedYear (year : Int64) : IsPart 21 (paddedYear year) := by
  have hle := Int64.le_toInt year
  have hlt := Int64.toInt_lt year
  have hn : year.toInt.natAbs < 10 ^ 20 := by omega
  unfold paddedYear
  split
  · exact isPart_dash.append (isPart_zeroPadded (by omega) hn)
  · exact ⟨(isPart_zeroPadded (by omega) hn).ne_nil, (isPart_zeroPadded (by omega) hn).chars,
      (isPart_zeroPadded (by omega) hn).length_le.trans (by omega)⟩

theorem isPart_padded (n : UInt32) : IsPart 20 (padded n) := by
  have hn := UInt32.toNat_lt n
  exact isPart_zeroPadded (by omega) (by omega)

/-- The time in front of a note name. -/
def nameStamp (seconds : Int64) : String :=
  let (year, month, day, hour, minute, second) := utcParts seconds
  paddedYear year ++ "-" ++ padded month ++ "-" ++ padded day ++ "-" ++ padded hour ++
    padded minute ++ padded second

/-- What tells the attempts apart. -/
def nameSuffix (attempt : Nat) : String :=
  if attempt = 0 then "" else "-" ++ String.ofList (Nat.toDigits 10 (attempt + 1))

theorem noteFileName_eq (seconds : Int64) (slug : String) (attempt : Nat) :
    noteFileName seconds slug attempt
      = nameStamp seconds ++ ("-" ++ (slug ++ (nameSuffix attempt ++ ".md"))) := by
  rcases hparts : utcParts seconds with ⟨year, month, day, hour, minute, second⟩
  unfold noteFileName nameStamp
  rw [hparts]
  simp only [String.append_assoc, nameSuffix]

theorem isPart_nameStamp (seconds : Int64) : IsPart 124 (nameStamp seconds) := by
  rcases hparts : utcParts seconds with ⟨year, month, day, hour, minute, second⟩
  unfold nameStamp
  rw [hparts]
  exact (((((((((isPart_paddedYear year).append isPart_dash).append (isPart_padded month)).append
    isPart_dash).append (isPart_padded day)).append isPart_dash).append (isPart_padded hour)).append
    (isPart_padded minute)).append (isPart_padded second))

/-- The suffix of one of the attempts of a call. -/
theorem nameSuffix_spec {attempt : Nat} (h : attempt < maxNameAttempts) :
    (∀ c ∈ (nameSuffix attempt).toList, isNameChar c = true) ∧
      (nameSuffix attempt).toList.length ≤ 3 := by
  unfold nameSuffix
  split
  · exact ⟨List.all_eq_true.mp (by decide), by decide⟩
  · have hlt : attempt + 1 < 10 ^ 2 := by
      unfold maxNameAttempts at h
      omega
    have hlen := Nat.toDigits_length 10 (attempt + 1) 2 (by omega) hlt
    have hlist : (String.ofList (Nat.toDigits 10 (attempt + 1))).toList
        = Nat.toDigits 10 (attempt + 1) := String.toList_ofList
    rw [String.toList_append, List.forall_mem_append, List.length_append, hlist]
    refine ⟨⟨List.all_eq_true.mp (by decide), fun c hc => ?_⟩, ?_⟩
    · exact isNameChar_of_digit (Char.isDigit_iff_toNat.mp
        (Nat.isDigit_of_mem_toDigits (by omega) (by omega) hc))
    · show 1 + _ ≤ 3
      omega

/-- A generated name is safe. -/
theorem isSafeFileName_noteFileName (seconds : Int64) {slug : String} (hslug : IsSlug slug)
    (hlen : slug.toList.length ≤ maxSlugChars) {attempt : Nat} (h : attempt < maxNameAttempts) :
    isSafeFileName (noteFileName seconds slug attempt) = true := by
  obtain ⟨hne, hchars, hstampLen⟩ := isPart_nameStamp seconds
  obtain ⟨hsuffix, hsuffixLen⟩ := nameSuffix_spec h
  have hlist : (noteFileName seconds slug attempt).toList = (nameStamp seconds).toList ++
      ("-".toList ++ (slug.toList ++ ((nameSuffix attempt).toList ++ ".md".toList))) := by
    rw [noteFileName_eq]
    simp only [String.toList_append]
  have hname : ∀ c ∈ (noteFileName seconds slug attempt).toList, isNameChar c = true := by
    rw [hlist]
    simp only [List.forall_mem_append]
    exact ⟨fun c hc => (hchars c hc).1, List.all_eq_true.mp (by decide),
      isNameChar_of_isSlug hslug, hsuffix, List.all_eq_true.mp (by decide)⟩
  obtain ⟨hsize, hbytes⟩ := utf8_of_isNameChar hname
  have hlength : (noteFileName seconds slug attempt).toList.length ≤ 255 := by
    have hdash : "-".toList.length = 1 := rfl
    have hmd : ".md".toList.length = 3 := rfl
    unfold maxSlugChars at hlen
    rw [hlist]
    simp only [List.length_append]
    omega
  obtain ⟨first, rest, hstamp⟩ := List.exists_cons_of_ne_nil hne
  have hfirst : first ≠ '.' := (hchars first (by rw [hstamp]; exact List.mem_cons_self)).2
  have hhead : (noteFileName seconds slug attempt).toList.head? = some first := by
    rw [hlist, hstamp]
    rfl
  unfold isSafeFileName
  simp only [Bool.and_eq_true, decide_eq_true_eq]
  refine ⟨⟨⟨⟨?_, ?_⟩, ?_⟩, hbytes⟩, ?_⟩
  · intro hempty
    rw [hempty] at hhead
    exact nomatch hhead
  · rw [hsize]
    exact hlength
  · rw [hhead]
    exact fun hc => hfirst (Option.some.inj hc)
  · rw [hlist]
    exact ⟨(nameStamp seconds).toList ++ ("-".toList ++ (slug.toList ++
      (nameSuffix attempt).toList)), by simp only [List.append_assoc]⟩

/-- Every attempt has a name of its own. -/
theorem noteFileName_injective (seconds : Int64) (slug : String) :
    Function.Injective (noteFileName seconds slug) := by
  intro m n h
  have hsuffix : nameSuffix m = nameSuffix n := by
    rw [noteFileName_eq, noteFileName_eq, ← String.toList_inj] at h
    simp only [String.toList_append, List.append_cancel_left_eq, List.append_cancel_right_eq] at h
    exact String.toList_inj.mp h
  unfold nameSuffix at hsuffix
  by_cases hm : m = 0
  · by_cases hn : n = 0
    · rw [hm, hn]
    · rw [if_pos hm, if_neg hn, ← String.toList_inj, String.toList_append] at hsuffix
      exact nomatch hsuffix
  · by_cases hn : n = 0
    · rw [if_neg hm, if_pos hn, ← String.toList_inj, String.toList_append] at hsuffix
      exact nomatch hsuffix
    · rw [if_neg hm, if_neg hn, ← String.toList_inj, String.toList_append, String.toList_append,
        List.append_cancel_left_eq, String.toList_ofList, String.toList_ofList] at hsuffix
      have hsucc : m + 1 = n + 1 := calc
        m + 1 = Nat.ofDigitChars 10 (Nat.toDigits 10 (m + 1)) 0 :=
          Nat.ofDigitChars_ten_toDigits.symm
        _ = Nat.ofDigitChars 10 (Nat.toDigits 10 (n + 1)) 0 := by rw [hsuffix]
        _ = n + 1 := Nat.ofDigitChars_ten_toDigits
      omega

/-! ## The names of a call -/

/-- The loop over safe names never finds one that is not. -/
theorem writeFirstFree_ne_invalidFileName {faults : Faults} {dir : Node} {contents : Bytes}
    {names : List String} (hsafe : ∀ name ∈ names, isSafeFileName name = true) :
    (writeFirstFree faults dir contents names).1 ≠ .error .invalidFileName := by
  induction names with
  | nil =>
    intro h
    cases h
  | cons name rest ih =>
    rw [List.forall_mem_cons] at hsafe
    unfold writeFirstFree
    cases hc : createExclusive faults.create dir name with
    | error e =>
      rcases createExclusive_eq_error hc with ⟨hbad, -⟩ | ⟨errno, rfl⟩
      · rw [hsafe.1] at hbad
        cases hbad
      · intro h
        cases h
    | ok found =>
      cases found with
      | none => exact ih hsafe.2
      | some made =>
        obtain ⟨entry, dir'⟩ := made
        simp only
        unfold writeNote
        cases hwrite : faults.write with
        | some fault =>
          intro h
          cases h
        | none =>
          cases hsync : faults.sync with
          | some e =>
            intro h
            cases h
          | none =>
            intro h
            cases h

/-- The names that a call prepares, all of them safe. -/
theorem isSafeFileName_of_prepareNote {toYaml : FrontMatterWriter} {store : InboxStore}
    {title body : String} {occurred : Option String} {fingerprint : String} {now : Int}
    {prepared : InboxStore.Prepared}
    (h : store.prepareNote toYaml title body occurred fingerprint now = .ok prepared) :
    ∀ name ∈ prepared.names, isSafeFileName name = true := by
  obtain ⟨title, -, h⟩ := bind_eq_ok.mp h
  obtain ⟨-, -, h⟩ := bind_eq_ok.mp h
  obtain ⟨occurred, -, h⟩ := bind_eq_ok.mp h
  obtain ⟨contents, -, h⟩ := bind_eq_ok.mp h
  obtain rfl := Except.ok.inj h
  intro name hname
  obtain ⟨attempt, hattempt, rfl⟩ := List.mem_map.mp hname
  exact isSafeFileName_noteFileName _ (isSlug_slug title) (length_slug_le title)
    (List.mem_range.mp hattempt)

theorem createNote_ne_invalidFileName {toYaml : FrontMatterWriter} {store : InboxStore}
    {faults : Faults} {dir : Node} {title body : String} {occurred : Option String}
    {fingerprint : String} {now : Int} :
    (store.createNote toYaml faults dir title body occurred fingerprint now).1
      ≠ .error .invalidFileName := by
  unfold InboxStore.createNote
  cases hp : store.prepareNote toYaml title body occurred fingerprint now with
  | error e =>
    rintro ⟨⟩
    exact absurd (InboxStore.prepareNote_eq_error hp) (by decide)
  | ok prepared =>
    have hwrite : (writeFirstFree faults dir prepared.contents prepared.names).1
        ≠ .error .invalidFileName :=
      writeFirstFree_ne_invalidFileName (isSafeFileName_of_prepareNote hp)
    simp only
    unfold InboxStore.storeNote
    cases hu : usedBytes faults.scan dir with
    | error e =>
      obtain ⟨errno, rfl⟩ := usedBytes_eq_error hu
      exact nofun
    | ok used =>
      simp only
      split
      · exact nofun
      · split
        · next e dir' hw =>
          rw [hw] at hwrite
          exact fun he => hwrite (by rw [Except.error.inj he])
        · exact nofun

/-! ## The property -/

/-- A slug and its size in bytes. -/
theorem utf8ByteSize_of_isSlug {s : String} (h : IsSlug s) : s.utf8ByteSize = s.toList.length :=
  (utf8_of_isNameChar (isNameChar_of_isSlug h)).1

/-- Every title has a slug of the form, which is kept; every name of it is safe, for every second
and every attempt; the names of a call differ; and no call ends in `InvalidFileName`. -/
theorem names_are_safe :
    (∀ title, slug title ≠ "" ∧ (slug title).utf8ByteSize ≤ 40 ∧ IsSlug (slug title) ∧
      slug (slug title) = slug title) ∧
    (∀ s, IsSlug s → s.utf8ByteSize ≤ 40 → ∀ seconds : Int64,
      (∀ attempt < 64, isSafeFileName (noteFileName seconds s attempt) = true) ∧
      ((List.range 64).map (noteFileName seconds s)).Nodup) ∧
    ∀ (toYaml : FrontMatterWriter) (store : InboxStore) (faults : Faults) (dir : Node)
      (title body : String) (occurred : Option String) (fingerprint : String) (now : Int),
      (store.createNote toYaml faults dir title body occurred fingerprint now).1
        ≠ .error .invalidFileName := by
  refine ⟨?_, ?_, ?_⟩
  · intro title
    have hslug := isSlug_slug title
    have hlen := length_slug_le title
    refine ⟨?_, ?_, hslug, slug_of_isSlug hslug hlen⟩
    · intro hempty
      exact (isSlug_iff.mp hslug).ne_nil (by rw [hempty]; rfl)
    · rw [utf8ByteSize_of_isSlug hslug]
      exact hlen
  · intro s hs hsize seconds
    rw [utf8ByteSize_of_isSlug hs] at hsize
    refine ⟨fun attempt hattempt => isSafeFileName_noteFileName seconds hs hsize hattempt, ?_⟩
    exact List.nodup_range.map (noteFileName_injective seconds s)
  · intro toYaml store faults dir title body occurred fingerprint now
    exact createNote_ne_invalidFileName

/-- The names of a slug of two words in the earliest second, before the year 0. -/
theorem names_are_safe_long_ago :
    isSafeFileName (noteFileName Int64.minValue "old-news" 63) = true ∧
      ((List.range 64).map (noteFileName Int64.minValue "old-news")).Nodup := by
  have hslug : IsSlug "old-news" := by
    refine ⟨["old".toList, "news".toList], List.cons_ne_nil _ _, ?_, by decide⟩
    exact List.forall_mem_cons.mpr ⟨⟨by decide, List.all_eq_true.mp (by decide)⟩,
      List.forall_mem_singleton.mpr ⟨by decide, List.all_eq_true.mp (by decide)⟩⟩
  have hnames := names_are_safe.2.1 "old-news" hslug (by decide) Int64.minValue
  exact ⟨hnames.1 63 (by omega), hnames.2⟩

end EngramMcp
