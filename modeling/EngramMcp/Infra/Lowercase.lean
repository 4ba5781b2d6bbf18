import EngramMcp.Infra.Text

/-!
# Lower case

`str::to_lowercase`. Each character has its own lower case, but for `Σ`: it is `ς` at the end of a
word and `σ` elsewhere, and whether it ends a word is read off what stands around it. So a part of
a text can have another lower case in the text than it has alone.

The Unicode tables are a parameter.

* `lowerPart_append` — a text is lowered piece by piece
* `lowerPart_eq_of_not_exposed` — what has the same lower case in every text
* `exists_text_of_exposed` — what has not
* `standsIn_iff` — what comparing in lower case compares
* `lowerPart_separator` — the parts between separators are lowered one by one
-/

namespace Infra

/-- The tables that `str::to_lowercase` reads, and what it relies on here of the characters that
the program looks at. -/
structure CaseTables where
  lower : Char → List Char
  /-- The property `Cased`. -/
  cased : Char → Bool
  /-- The property `Case_Ignorable`. -/
  caseIgnorable : Char → Bool
  lower_ascii {c : Char} : c.toNat < 0x80 → lower c = [toAsciiLowercase c]
  lower_caseIgnorable {c : Char} : caseIgnorable c = true → lower c = [c]
  eq_newline_of_mem {c : Char} : '\n' ∈ lower c → c = '\n'
  sigma : cased 'Σ' = true ∧ caseIgnorable 'Σ' = false
  letter : cased 'a' = true ∧ caseIgnorable 'a' = false
  newline : cased '\n' = false ∧ caseIgnorable '\n' = false
  ellipsis : cased '…' = false ∧ caseIgnorable '…' = false ∧ lower '…' = ['…']

namespace CaseTables

variable (U : CaseTables)

/-- `case_ignorable_then_cased`. -/
def caseIgnorableThenCased : List Char → Bool
  | [] => false
  | c :: l => if U.caseIgnorable c then caseIgnorableThenCased l else U.cased c

/-- `map_uppercase_sigma`: whether a `Σ` ends a word. What stands in front of it is reversed. -/
def isWordFinal (front back : List Char) : Bool :=
  U.caseIgnorableThenCased front && !U.caseIgnorableThenCased back

/-- The lower case of a part of a text, with what stands in front of it, reversed, and behind. -/
def lowerPart (front : List Char) : List Char → List Char → List Char
  | [], _ => []
  | c :: part, back =>
    (if c = 'Σ' then [if U.isWordFinal front (part ++ back) then 'ς' else 'σ'] else U.lower c)
      ++ lowerPart (c :: front) part back

/-- `str::to_lowercase`. -/
def toLowercase (s : String) : String := String.ofList (U.lowerPart [] s.toList [])

variable {U}

/-- What a text has in lower case. -/
theorem containsStr_toLowercase {s t : String} :
    containsStr (U.toLowercase s) t = true ↔ t.toList <:+: U.lowerPart [] s.toList [] := by
  rw [containsStr, decide_eq_true_eq, toLowercase, String.toList_ofList]

/-- A text is lowered piece by piece. -/
theorem lowerPart_append (front a b back : List Char) :
    U.lowerPart front (a ++ b) back
      = U.lowerPart front a (b ++ back) ++ U.lowerPart (a.reverse ++ front) b back := by
  induction a generalizing front with
  | nil => rfl
  | cons c a ih =>
    rw [List.cons_append, lowerPart, lowerPart, ih, List.reverse_cons, List.append_assoc a,
      List.append_assoc _ (U.lowerPart _ _ _), List.append_assoc a.reverse, List.singleton_append]

/-! ## What is looked at -/

/-- What is skipped to its end is continued with what comes after it. -/
theorem caseIgnorableThenCased_append_of_all {l : List Char} (h : l.all U.caseIgnorable = true)
    (m : List Char) : U.caseIgnorableThenCased (l ++ m) = U.caseIgnorableThenCased m := by
  induction l with
  | nil => rfl
  | cons c l ih =>
    rw [List.all_cons, Bool.and_eq_true] at h
    rw [List.cons_append, caseIgnorableThenCased, if_pos h.1, ih h.2]

theorem caseIgnorableThenCased_of_all {l : List Char} (h : l.all U.caseIgnorable = true) :
    U.caseIgnorableThenCased l = false := by
  have happend := caseIgnorableThenCased_append_of_all h []
  rw [List.append_nil] at happend
  rw [happend, caseIgnorableThenCased]

/-- What is not skipped to its end decides. -/
theorem caseIgnorableThenCased_append_of_not_all {l : List Char}
    (h : ¬l.all U.caseIgnorable = true) (m : List Char) :
    U.caseIgnorableThenCased (l ++ m) = U.caseIgnorableThenCased l := by
  induction l with
  | nil => exact absurd rfl h
  | cons c l ih =>
    rw [List.cons_append, caseIgnorableThenCased, caseIgnorableThenCased]
    by_cases hc : U.caseIgnorable c = true
    · rw [List.all_cons, hc, Bool.true_and] at h
      rw [if_pos hc, if_pos hc, ih h]
    · rw [if_neg hc, if_neg hc]

/-- A character that is not skipped ends the search. -/
theorem caseIgnorableThenCased_append_cons {c : Char} (hc : U.caseIgnorable c = false)
    (l m : List Char) :
    U.caseIgnorableThenCased (l ++ c :: m) = U.caseIgnorableThenCased (l ++ [c]) := by
  have hall : ¬(l ++ [c]).all U.caseIgnorable = true := by
    rw [List.all_append, List.all_cons, hc]
    simp
  rw [← caseIgnorableThenCased_append_of_not_all hall m, List.append_assoc, List.singleton_append]

/-- What stands around a part matters only as far as its sigmas see it. -/
theorem lowerPart_congr {front front' part back back' : List Char}
    (h : ∀ l r, part = l ++ 'Σ' :: r →
      U.isWordFinal (l.reverse ++ front) (r ++ back)
        = U.isWordFinal (l.reverse ++ front') (r ++ back')) :
    U.lowerPart front part back = U.lowerPart front' part back' := by
  induction part generalizing front front' with
  | nil => rfl
  | cons c part ih =>
    have hrest : U.lowerPart (c :: front) part back = U.lowerPart (c :: front') part back' := by
      refine ih fun l r hpart => ?_
      have hc := h (c :: l) r (by rw [hpart, List.cons_append])
      rw [List.reverse_cons, List.append_assoc, List.append_assoc] at hc
      exact hc
    rw [lowerPart, lowerPart, hrest]
    by_cases hc : c = 'Σ'
    · have hfirst := h [] part (by rw [hc, List.nil_append])
      rw [List.reverse_nil, List.nil_append, List.nil_append] at hfirst
      rw [if_pos hc, if_pos hc, hfirst]
    · rw [if_neg hc, if_neg hc]

/-! ## Exposed sigmas -/

/-- A sigma of the part ends a word in some texts only. Either it ends one in the part and the part
ends within the word, or it would end one if a letter stood in front of the part. -/
def Exposed (U : CaseTables) (part : List Char) : Prop :=
  ∃ l r, part = l ++ 'Σ' :: r ∧
    ((U.caseIgnorableThenCased l.reverse = true ∧ r.all U.caseIgnorable = true) ∨
      (l.all U.caseIgnorable = true ∧ U.caseIgnorableThenCased r = false))

/-- A part without such a sigma has in every text the lower case that it has alone. -/
theorem lowerPart_eq_of_not_exposed {part : List Char} (h : ¬U.Exposed part)
    (front back : List Char) : U.lowerPart front part back = U.lowerPart [] part [] := by
  refine lowerPart_congr fun l r hpart => ?_
  have hsigma : ¬((U.caseIgnorableThenCased l.reverse = true ∧ r.all U.caseIgnorable = true) ∨
      (l.all U.caseIgnorable = true ∧ U.caseIgnorableThenCased r = false)) :=
    fun hcase => h ⟨l, r, hpart, hcase⟩
  rw [not_or, not_and, not_and] at hsigma
  rw [List.append_nil, List.append_nil, isWordFinal, isWordFinal]
  by_cases hl : l.all U.caseIgnorable = true
  · -- nothing in front of it in the part, so a letter comes behind it
    have hr : U.caseIgnorableThenCased r = true := by
      rw [← Bool.not_eq_false]
      exact hsigma.2 hl
    have hstop : ¬r.all U.caseIgnorable = true := by
      intro hall
      rw [caseIgnorableThenCased_of_all hall] at hr
      exact Bool.false_ne_true hr
    rw [caseIgnorableThenCased_append_of_not_all hstop, hr]
    simp
  · have hstop : ¬l.reverse.all U.caseIgnorable = true := by rwa [List.all_reverse]
    rw [caseIgnorableThenCased_append_of_not_all hstop]
    by_cases hfront : U.caseIgnorableThenCased l.reverse = true
    · rw [caseIgnorableThenCased_append_of_not_all (hsigma.1 hfront)]
    · rw [Bool.not_eq_true] at hfront
      rw [hfront, Bool.false_and, Bool.false_and]

/-- What is skipped in the search has the lower case of its own. -/
theorem lowerPart_of_all {part : List Char} (h : part.all U.caseIgnorable = true)
    (front back : List Char) : U.lowerPart front part back = part := by
  induction part generalizing front with
  | nil => rfl
  | cons c part ih =>
    rw [List.all_cons, Bool.and_eq_true] at h
    have hc : c ≠ 'Σ' := by
      rintro rfl
      rw [U.sigma.2] at h
      exact Bool.false_ne_true h.1
    rw [lowerPart, if_neg hc, U.lower_caseIgnorable h.1, ih h.2, List.singleton_append]

/-- Nothing is looked up across a sigma. -/
theorem lowerPart_append_sigma (front l r back : List Char) :
    U.lowerPart front (l ++ 'Σ' :: r) back = U.lowerPart front l ['Σ']
      ++ (if U.isWordFinal (l.reverse ++ front) (r ++ back) then 'ς' else 'σ')
        :: U.lowerPart ['Σ'] r back := by
  have hfront : U.lowerPart front l ('Σ' :: r ++ back) = U.lowerPart front l ['Σ'] := by
    refine lowerPart_congr fun l' r' _ => ?_
    rw [isWordFinal, isWordFinal, List.cons_append,
      caseIgnorableThenCased_append_cons U.sigma.2 r']
  have hback : U.lowerPart ('Σ' :: (l.reverse ++ front)) r back = U.lowerPart ['Σ'] r back := by
    refine lowerPart_congr fun l' r' _ => ?_
    rw [isWordFinal, isWordFinal, caseIgnorableThenCased_append_cons U.sigma.2 l'.reverse]
  rw [lowerPart_append, hfront, lowerPart, if_pos rfl, hback, List.singleton_append]

theorem letter_not_mem_of_all {l : List Char} (h : l.all U.caseIgnorable = true) : 'a' ∉ l := by
  intro hmem
  have hletter := List.all_eq_true.mp h 'a' hmem
  rw [U.letter.2] at hletter
  exact Bool.false_ne_true hletter

theorem lower_letter : U.lower 'a' = ['a'] := U.lower_ascii (by decide)

/-- A part that ends within a word goes on in a text with a letter behind it. -/
theorem not_infix_letter_behind {l r : List Char} (hl : U.caseIgnorableThenCased l.reverse = true)
    (hr : r.all U.caseIgnorable = true) : ¬U.lowerPart [] (l ++ 'Σ' :: r) []
      <:+: U.lowerPart [] ((l ++ 'Σ' :: r) ++ ['a']) [] := by
  have hpart : U.lowerPart [] (l ++ 'Σ' :: r) [] = U.lowerPart [] l ['Σ'] ++ 'ς' :: r := by
    have hfinal : U.isWordFinal (l.reverse ++ []) (r ++ []) = true := by
      rw [List.append_nil, List.append_nil, isWordFinal, hl, caseIgnorableThenCased_of_all hr]
      rfl
    rw [lowerPart_append_sigma, if_pos hfinal, lowerPart_of_all hr]
  have htext : U.lowerPart [] ((l ++ 'Σ' :: r) ++ ['a']) []
      = (U.lowerPart [] l ['Σ'] ++ 'σ' :: r) ++ ['a'] := by
    have hgoes : ¬U.isWordFinal (l.reverse ++ []) (r ++ ['a'] ++ []) = true := by
      rw [List.append_nil, List.append_nil, isWordFinal, caseIgnorableThenCased_append_of_all hr,
        caseIgnorableThenCased, U.letter.1, U.letter.2]
      simp
    rw [List.append_assoc, List.cons_append, lowerPart_append_sigma, if_neg hgoes,
      lowerPart_append, lowerPart_of_all hr, lowerPart, lowerPart, if_neg (by decide),
      lower_letter]
    simp
  rw [hpart, htext, List.infix_concat_iff]
  rintro (hsuffix | hin)
  · obtain ⟨t, ht, -⟩ := (List.suffix_concat_iff.mp hsuffix).resolve_left (by simp)
    have hlast : ('ς' :: r).getLast? = some 'a' := by
      rw [← List.getLast?_concat (l := t), ← ht, List.getLast?_append_of_ne_nil _ (by simp)]
    rcases List.mem_cons.mp (List.mem_of_getLast? hlast) with hsigma | hmem
    · exact absurd hsigma (by decide)
    · exact letter_not_mem_of_all hr hmem
  · have heq := hin.eq_of_length (by simp)
    simp at heq

/-- A sigma at the beginning of a part ends a word in a text with a letter in front of it. -/
theorem not_infix_letter_in_front {l r : List Char} (hl : l.all U.caseIgnorable = true)
    (hr : U.caseIgnorableThenCased r = false) : ¬U.lowerPart [] (l ++ 'Σ' :: r) []
      <:+: U.lowerPart [] ('a' :: (l ++ 'Σ' :: r)) [] := by
  have hreverse : l.reverse.all U.caseIgnorable = true := by rwa [List.all_reverse]
  have hpart : U.lowerPart [] (l ++ 'Σ' :: r) [] = l ++ 'σ' :: U.lowerPart ['Σ'] r [] := by
    have hbegins : ¬U.isWordFinal (l.reverse ++ []) (r ++ []) = true := by
      rw [List.append_nil, isWordFinal, caseIgnorableThenCased_of_all hreverse]
      simp
    rw [lowerPart_append_sigma, if_neg hbegins, lowerPart_of_all hl]
  have htext : U.lowerPart [] ('a' :: (l ++ 'Σ' :: r)) []
      = 'a' :: (l ++ 'ς' :: U.lowerPart ['Σ'] r []) := by
    have hfinal : U.isWordFinal (l.reverse ++ ['a']) (r ++ []) = true := by
      rw [List.append_nil, isWordFinal, caseIgnorableThenCased_append_of_all hreverse, hr,
        caseIgnorableThenCased, U.letter.1, U.letter.2]
      rfl
    rw [lowerPart, if_neg (by decide), lower_letter, lowerPart_append_sigma, if_pos hfinal,
      lowerPart_of_all hl, List.singleton_append]
  rw [hpart, htext, List.infix_cons_iff]
  rintro (hfront | hin)
  · cases l with
    | nil => exact absurd (List.cons_prefix_cons.mp hfront).1 (by decide)
    | cons c l =>
      obtain rfl : c = 'a' := (List.cons_prefix_cons.mp hfront).1
      exact letter_not_mem_of_all hl List.mem_cons_self
  · have heq := hin.eq_of_length (by simp)
    simp at heq

/-- A part with an exposed sigma has another lower case in some text. -/
theorem exists_text_of_exposed {part : List Char} (h : U.Exposed part) :
    ∃ text, (text = part ++ ['a'] ∨ text = 'a' :: part) ∧
      ¬U.lowerPart [] part [] <:+: U.lowerPart [] text [] := by
  obtain ⟨l, r, rfl, ⟨hl, hr⟩ | ⟨hl, hr⟩⟩ := h
  · exact ⟨_, Or.inl rfl, not_infix_letter_behind hl hr⟩
  · exact ⟨_, Or.inr rfl, not_infix_letter_in_front hl hr⟩

/-! ## Occurrences up to case -/

/-- A letter without the form of sigma, and whether it had its final form. -/
def withoutForm (c : Char) : Char × Bool := if c = 'ς' then ('σ', true) else (c, false)

theorem withoutForm_injective : Function.Injective withoutForm := by
  intro c d h
  unfold withoutForm at h
  split at h
  · next hc =>
    split at h
    · next hd => rw [hc, hd]
    · exact absurd (congrArg Prod.snd h) (by simp)
  · split at h
    · exact absurd (congrArg Prod.snd h) (by simp)
    · exact congrArg Prod.fst h

/-- The letters of a part of a text up to case, each with whether it is a sigma that ends a word. -/
def letters (U : CaseTables) (front : List Char) : List Char → List Char → List (Char × Bool)
  | [], _ => []
  | c :: part, back =>
    (if c = 'Σ' then [('σ', U.isWordFinal front (part ++ back))]
      else (U.lower c).map withoutForm) ++ letters U (c :: front) part back

/-- The part stands somewhere in the text up to case, with the same sigmas at the end of a word. -/
def StandsIn (U : CaseTables) (part text : List Char) : Prop :=
  U.letters [] part [] <:+: U.letters [] text []

theorem letters_eq_map (front part back : List Char) :
    U.letters front part back = (U.lowerPart front part back).map withoutForm := by
  induction part generalizing front with
  | nil => rfl
  | cons c part ih =>
    rw [letters, lowerPart, ih, List.map_append]
    by_cases hc : c = 'Σ'
    · rw [if_pos hc, if_pos hc]
      cases U.isWordFinal front (part ++ back)
      · rfl
      · rfl
    · rw [if_neg hc, if_neg hc]

theorem standsIn_iff {part text : List Char} :
    U.StandsIn part text ↔ U.lowerPart [] part [] <:+: U.lowerPart [] text [] := by
  rw [StandsIn, letters_eq_map, letters_eq_map]
  constructor
  · intro h
    obtain ⟨l, hl, heq⟩ := List.infix_map_iff.mp h
    rwa [List.map_injective_iff.mpr withoutForm_injective heq]
  · intro h
    exact h.map withoutForm

/-- What is not exposed stands in a text wherever it stands in it verbatim. -/
theorem standsIn_of_infix {part text : List Char} (h : ¬U.Exposed part) (hin : part <:+: text) :
    U.StandsIn part text := by
  obtain ⟨l, r, rfl⟩ := hin
  rw [standsIn_iff, List.append_assoc, lowerPart_append, lowerPart_append,
    lowerPart_eq_of_not_exposed h (l.reverse ++ [])]
  exact List.infix_append' _ _ _

/-- ASCII text stays ASCII text. -/
theorem lowerPart_ascii {part : List Char} (h : ∀ c ∈ part, c.toNat < 0x80)
    (front back : List Char) : ∀ d ∈ U.lowerPart front part back, d.toNat < 0x80 := by
  induction part generalizing front with
  | nil => exact fun d hd => absurd hd List.not_mem_nil
  | cons c part ih =>
    intro d hd
    have hc := h c List.mem_cons_self
    have hsigma : c ≠ 'Σ' := by
      rintro rfl
      exact absurd hc (by decide)
    rw [lowerPart, if_neg hsigma, U.lower_ascii hc, List.singleton_append, List.mem_cons] at hd
    rcases hd with rfl | hd
    · exact toNat_toAsciiLowercase_lt hc
    · exact ih (fun x hx => h x (List.mem_cons_of_mem _ hx)) _ d hd

/-- An exposed part stands in no ASCII text. -/
theorem not_standsIn_of_ascii {part text : List Char} (h : U.Exposed part)
    (hascii : ∀ c ∈ text, c.toNat < 0x80) : ¬U.StandsIn part text := by
  obtain ⟨l, r, rfl, -⟩ := h
  rw [standsIn_iff, lowerPart_append_sigma]
  intro hin
  have hlt := lowerPart_ascii hascii [] [] _ (hin.subset
    (List.mem_append_right _ List.mem_cons_self))
  revert hlt
  split
  · decide
  · decide

/-! ## Separators -/

/-- A character that ends a word and stays what it is. -/
def Separates (U : CaseTables) (c : Char) : Prop :=
  U.cased c = false ∧ U.caseIgnorable c = false ∧ U.lower c = [c]

theorem separates_newline : U.Separates '\n' :=
  ⟨U.newline.1, U.newline.2, U.lower_ascii (by decide)⟩

theorem separates_ellipsis : U.Separates '…' := U.ellipsis

/-- The parts of a text between separators are lowered one by one. -/
theorem lowerPart_separator {c : Char} (hc : U.Separates c) (a b : List Char) :
    U.lowerPart [] (a ++ c :: b) [] = U.lowerPart [] a [] ++ c :: U.lowerPart [] b [] := by
  obtain ⟨hcased, hignorable, hlower⟩ := hc
  have hsigma : c ≠ 'Σ' := by
    rintro rfl
    rw [U.sigma.1] at hcased
    exact Bool.false_ne_true hcased.symm
  have hends (l m : List Char) :
      U.caseIgnorableThenCased (l ++ c :: m) = U.caseIgnorableThenCased l := by
    rw [caseIgnorableThenCased_append_cons hignorable]
    by_cases hl : l.all U.caseIgnorable = true
    · rw [caseIgnorableThenCased_append_of_all hl, caseIgnorableThenCased_of_all hl,
        caseIgnorableThenCased, hcased, hignorable]
      rfl
    · rw [caseIgnorableThenCased_append_of_not_all hl]
  have hfront : U.lowerPart [] a (c :: b) = U.lowerPart [] a [] := by
    refine lowerPart_congr fun l r _ => ?_
    rw [isWordFinal, isWordFinal, hends, List.append_nil r]
  have hback : U.lowerPart (c :: a.reverse) b [] = U.lowerPart [] b [] := by
    refine lowerPart_congr fun l r _ => ?_
    rw [isWordFinal, isWordFinal, hends, List.append_nil l.reverse]
  rw [lowerPart_append, lowerPart, List.append_nil, List.append_nil, if_neg hsigma, hlower,
    hfront, hback, List.singleton_append]

/-- What stands in a text in lower case stands there when a separator and more come behind it. -/
theorem infix_lowerPart_append {part text tail : List Char}
    (h : part <:+: U.lowerPart [] text []) (htail : ∀ c ∈ tail.head?, U.Separates c) :
    part <:+: U.lowerPart [] (text ++ tail) [] := by
  cases tail with
  | nil => rwa [List.append_nil]
  | cons c tail =>
    rw [lowerPart_separator (htail c rfl)]
    exact h.trans (List.prefix_append _ _).isInfix

/-- What has no line feed stands in lines in lower case if it does in one of them. -/
theorem infix_lowerPart_intercalate {part : List Char} (hpart : '\n' ∉ part)
    {lines : List (List Char)} (hne : lines ≠ []) :
    part <:+: U.lowerPart [] (['\n'].intercalate lines) [] ↔
      ∃ line ∈ lines, part <:+: U.lowerPart [] line [] := by
  induction lines with
  | nil => exact absurd rfl hne
  | cons line rest ih =>
    cases rest with
    | nil => simp
    | cons next rest =>
      rw [List.intercalate_cons_cons, List.append_assoc, List.singleton_append,
        lowerPart_separator separates_newline, infix_append_cons_iff hpart,
        ih (List.cons_ne_nil _ _), List.exists_mem_cons_iff _ line]

/-- A line feed in the lower case comes from one in the text. -/
theorem newline_not_mem_lowerPart {part : List Char} (h : '\n' ∉ part) (front back : List Char) :
    '\n' ∉ U.lowerPart front part back := by
  induction part generalizing front with
  | nil => exact List.not_mem_nil
  | cons c part ih =>
    rw [List.mem_cons, not_or] at h
    rw [lowerPart, List.mem_append, not_or]
    refine ⟨?_, ih h.2 _⟩
    split
    · split
      · decide
      · decide
    · intro hmem
      exact h.1 (U.eq_newline_of_mem hmem).symm

end CaseTables

end Infra
