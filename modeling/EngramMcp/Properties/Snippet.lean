import EngramMcp.Kb.Reference
import EngramMcp.Kb.Search

/-!
# Snippets

The snippet of a result is taken around the first line that has the first term: two lines in front
of it, the line, two lines behind it. What is longer than 600 characters is cut, and it is counted
from the first of these lines. Long lines in front of the match push it out of the snippet.

* `checkedSnippet_eq` — the lines that are taken exist
* `snippet_of_isFirstMatch` — which lines they are
* `contains_cutSnippet_iff` — what is left of the match
* `snippet_shows_match_iff` — when the snippet shows the match
-/

namespace EngramMcp

open Infra

variable {C : KbCrates} {U : CaseTables}

/-! ## The lines that are taken -/

/-- The lines from one number to another, the second not counted, joined. -/
def excerpt (text : String) (start stop : Nat) : String :=
  "\n".intercalate (((lines text).take stop).drop start)

/-- The cut at `MAX_SNIPPET_CHARS`. -/
def cutSnippet (s : String) : String :=
  if maxSnippetChars < s.length then (String.ofList (s.toList.take maxSnippetChars)).push '…'
  else s

/-- `&lines[start..end]`: nothing if it is out of range. -/
def checkedSlice {α : Type} (l : List α) (start stop : Nat) : Option (List α) :=
  if start ≤ stop ∧ stop ≤ l.length then some ((l.take stop).drop start) else none

/-- `snippet`, and nothing if the slice is out of range. -/
def checkedSnippet (C : KbCrates) (text firstTerm : String) : Option (String × Nat × Nat) := do
  let lines := lines text
  let matchIndex := (lines.findIdx? fun line => containsStr (C.toLowercase line) firstTerm).getD 0
  let start := matchIndex - 2
  let stop := min (matchIndex + 3) lines.length
  let taken ← checkedSlice lines start stop
  return (cutSnippet ("\n".intercalate taken), start + 1, stop)

/-- The lines that are taken exist. -/
theorem checkedSnippet_eq (C : KbCrates) (text firstTerm : String) :
    checkedSnippet C text firstTerm = some (snippet C text firstTerm) := by
  have hindex : ((lines text).findIdx? fun line =>
      containsStr (C.toLowercase line) firstTerm).getD 0 - 2 ≤ (lines text).length := by
    cases h : (lines text).findIdx? fun line => containsStr (C.toLowercase line) firstTerm with
    | none => exact Nat.zero_le _
    | some i =>
      have hlt := (List.findIdx?_eq_some_iff_getElem.mp h).1
      rw [Option.getD_some]
      omega
  unfold checkedSnippet checkedSlice
  simp only
  rw [if_pos ⟨by omega, Nat.min_le_right _ _⟩]
  rfl

/-- The first line that has the term in lower case. -/
def IsFirstMatch (C : KbCrates) (text firstTerm : String) (i : Nat) : Prop :=
  (∃ line, (lines text)[i]? = some line ∧ containsStr (C.toLowercase line) firstTerm = true) ∧
  ∀ j < i, ∀ line, (lines text)[j]? = some line →
    containsStr (C.toLowercase line) firstTerm = false

theorem IsFirstMatch.findIdx? {text firstTerm : String} {i : Nat}
    (h : IsFirstMatch C text firstTerm i) :
    (lines text).findIdx? (fun line => containsStr (C.toLowercase line) firstTerm) = some i := by
  obtain ⟨⟨line, hline, hin⟩, hearlier⟩ := h
  obtain ⟨hlt, rfl⟩ := List.getElem?_eq_some_iff.mp hline
  refine List.findIdx?_eq_some_iff_getElem.mpr ⟨hlt, hin, fun j hj => ?_⟩
  rw [hearlier j hj _ (List.getElem?_eq_getElem (by omega))]
  exact Bool.false_ne_true

/-- A text has no more lines than it has. -/
theorem excerpt_min (text : String) (start stop : Nat) :
    excerpt text start (min stop (lines text).length) = excerpt text start stop := by
  have htake : (lines text).take (min stop (lines text).length) = (lines text).take stop := by
    rw [List.take_eq_take_iff]
    omega
  rw [excerpt, excerpt, htake]

/-- The snippet of a text that has the term. -/
theorem snippet_of_isFirstMatch {text firstTerm : String} {i : Nat}
    (h : IsFirstMatch C text firstTerm i) :
    snippet C text firstTerm = (cutSnippet (excerpt text (i - 2) (i + 3)),
      i - 2 + 1, min (i + 3) (lines text).length) := by
  rw [← excerpt_min text (i - 2) (i + 3)]
  unfold snippet
  simp only [h.findIdx?, Option.getD_some]
  rfl

/-! ## What is left of the match -/

/-- The characters of the lines from one number to another. -/
theorem toList_excerpt (text : String) (start stop : Nat) : (excerpt text start stop).toList
    = ['\n'].intercalate ((((lines text).take stop).drop start).map String.toList) :=
  toList_intercalate _ _

/-- The lines up to the match: those in front of it, and the match. -/
theorem lines_upTo {text line : String} {i : Nat} (hline : (lines text)[i]? = some line) :
    ((lines text).take (i + 1)).drop (i - 2) = ((lines text).take i).drop (i - 2) ++ [line] := by
  obtain ⟨hlt, rfl⟩ := List.getElem?_eq_some_iff.mp hline
  rw [List.take_succ_eq_append_getElem hlt, List.drop_append_of_le_length]
  rw [List.length_take]
  omega

/-- Behind the lines up to the match come a line feed and the others. -/
theorem exists_excerpt_append {text line : String} {i : Nat}
    (hline : (lines text)[i]? = some line) :
    ∃ x, (excerpt text (i - 2) (i + 3)).toList = (excerpt text (i - 2) (i + 1)).toList ++ x ∧
      ∀ c ∈ x.head?, c = '\n' := by
  have hlt := (List.getElem?_eq_some_iff.mp hline).1
  have hsplit : ((lines text).take (i + 3)).drop (i - 2)
      = ((lines text).take (i + 1)).drop (i - 2) ++ ((lines text).drop (i + 1)).take 2 := by
    rw [show i + 3 = i + 1 + 2 from rfl, List.take_add, List.drop_append_of_le_length]
    rw [List.length_take]
    omega
  have hne : (((lines text).take (i + 1)).drop (i - 2)).map String.toList ≠ [] := by
    rw [lines_upTo hline]
    simp
  rw [toList_excerpt, toList_excerpt, hsplit, List.map_append]
  exact exists_intercalate_append hne _

/-- The line at which the snippet ends when it is cut before the end of the match. -/
def cutLine (text : String) (i : Nat) : String :=
  (String.ofList (lastLine ((excerpt text (i - 2) (i + 1)).toList.take maxSnippetChars))).push '…'

section

variable {text firstTerm : String} {i : Nat}

/-- A term that a line has in lower case has no line feed. -/
theorem IsFirstMatch.newline_not_mem (h : IsFirstMatch C text firstTerm i)
    (hlower : C.toLowercase = U.toLowercase) : '\n' ∉ firstTerm.toList := by
  obtain ⟨⟨line, hline, hin⟩, -⟩ := h
  rw [hlower, CaseTables.containsStr_toLowercase] at hin
  have hfree := newline_not_mem_of_mem_lines (List.mem_of_getElem? hline)
  intro hmem
  exact CaseTables.newline_not_mem_lowerPart hfree [] [] (hin.subset hmem)

/-- The lines up to the match have the term. -/
theorem IsFirstMatch.infix_excerpt (h : IsFirstMatch C text firstTerm i)
    (hlower : C.toLowercase = U.toLowercase) :
    firstTerm.toList <:+: U.lowerPart [] (excerpt text (i - 2) (i + 1)).toList [] := by
  have hterm := h.newline_not_mem hlower
  obtain ⟨⟨line, hline, hin⟩, -⟩ := h
  rw [hlower, CaseTables.containsStr_toLowercase] at hin
  rw [toList_excerpt, lines_upTo hline, CaseTables.infix_lowerPart_intercalate hterm (by simp)]
  exact ⟨line.toList, by simp, hin⟩

/-- Where the lines behind the match are cut, a separator comes first. -/
theorem separates_of_cut {x : List Char} (hhead : ∀ c ∈ x.head?, c = '\n') (k : Nat) :
    ∀ c ∈ (x.take k ++ ['…']).head?, U.Separates c := by
  cases x with
  | nil =>
    rw [List.take_nil]
    exact fun c hc => Option.some.inj hc ▸ CaseTables.separates_ellipsis
  | cons d x =>
    cases k with
    | zero => exact fun c hc => Option.some.inj hc ▸ CaseTables.separates_ellipsis
    | succ k =>
      intro c hc
      rw [hhead c hc]
      exact CaseTables.separates_newline

/-- A match that ends within the snippet is in it. -/
theorem IsFirstMatch.contains_of_fits (h : IsFirstMatch C text firstTerm i)
    (hlower : C.toLowercase = U.toLowercase)
    (hfits : (excerpt text (i - 2) (i + 1)).length ≤ maxSnippetChars) :
    containsStr (C.toLowercase (cutSnippet (excerpt text (i - 2) (i + 3)))) firstTerm = true := by
  have hin := h.infix_excerpt hlower
  obtain ⟨⟨line, hline, -⟩, -⟩ := h
  obtain ⟨x, hx, hhead⟩ := exists_excerpt_append hline
  rw [hlower, CaseTables.containsStr_toLowercase, cutSnippet]
  split
  · rw [String.toList_push, String.toList_ofList, hx, List.take_append, List.append_assoc,
      List.take_of_length_le (by rwa [String.length_toList])]
    exact CaseTables.infix_lowerPart_append hin (separates_of_cut hhead _)
  · rw [hx]
    refine CaseTables.infix_lowerPart_append hin fun c hc => ?_
    rw [hhead c hc]
    exact CaseTables.separates_newline

/-- A snippet that is cut before the end of the match: whole lines in front of the match, and the
line at which it is cut. -/
theorem exists_cutSnippet_lines {line : String} (hline : (lines text)[i]? = some line)
    (hcut : maxSnippetChars < (excerpt text (i - 2) (i + 1)).length) :
    ∃ whole, whole <+: (((lines text).take i).drop (i - 2)).map String.toList ∧
      (cutSnippet (excerpt text (i - 2) (i + 3))).toList
        = ['\n'].intercalate (whole ++ [(cutLine text i).toList]) := by
  obtain ⟨x, hx, -⟩ := exists_excerpt_append hline
  rw [← String.length_toList] at hcut
  have hlong : maxSnippetChars < (excerpt text (i - 2) (i + 3)).length := by
    rw [← String.length_toList, hx, List.length_append]
    omega
  have hfree : ∀ l ∈ (((lines text).take (i + 1)).drop (i - 2)).map String.toList, '\n' ∉ l := by
    intro l hl
    obtain ⟨s, hs, rfl⟩ := List.mem_map.mp hl
    exact newline_not_mem_of_mem_lines (List.mem_of_mem_take (List.mem_of_mem_drop hs))
  have hne : (((lines text).take (i + 1)).drop (i - 2)).map String.toList ≠ [] := by
    rw [lines_upTo hline]
    simp
  obtain ⟨whole, hwhole, heq⟩ := take_intercalate_append hne hfree maxSnippetChars ['…']
  refine ⟨whole, ?_, ?_⟩
  · rw [lines_upTo hline, List.map_append, List.map_singleton, List.dropLast_concat] at hwhole
    exact hwhole
  · rw [cutSnippet, if_pos hlong, String.toList_push, String.toList_ofList, hx,
      List.take_append_of_le_length hcut.le, cutLine, String.toList_push, String.toList_ofList,
      toList_excerpt]
    exact heq

/-- The lines in front of the match do not have the term. -/
theorem IsFirstMatch.not_infix_of_mem (h : IsFirstMatch C text firstTerm i)
    (hlower : C.toLowercase = U.toLowercase) {l : List Char}
    (hl : l ∈ (((lines text).take i).drop (i - 2)).map String.toList) :
    ¬firstTerm.toList <:+: U.lowerPart [] l [] := by
  obtain ⟨s, hs, rfl⟩ := List.mem_map.mp hl
  obtain ⟨j, hj, hjs⟩ := List.mem_take_iff_getElem.mp (List.mem_of_mem_drop hs)
  have hfalse := h.2 j (by omega) s (List.getElem?_eq_some_iff.mpr ⟨by omega, hjs⟩)
  rw [hlower] at hfalse
  rw [← CaseTables.containsStr_toLowercase, hfalse]
  exact Bool.false_ne_true

/-- Of a match that does not, what is left is in the line at which the snippet is cut. -/
theorem IsFirstMatch.contains_cut_iff (h : IsFirstMatch C text firstTerm i)
    (hlower : C.toLowercase = U.toLowercase)
    (hcut : maxSnippetChars < (excerpt text (i - 2) (i + 1)).length) :
    containsStr (C.toLowercase (cutSnippet (excerpt text (i - 2) (i + 3)))) firstTerm = true ↔
      containsStr (C.toLowercase (cutLine text i)) firstTerm = true := by
  have hterm := h.newline_not_mem hlower
  obtain ⟨line, hline, -⟩ := h.1
  obtain ⟨whole, hwhole, hshown⟩ := exists_cutSnippet_lines hline hcut
  rw [hlower, CaseTables.containsStr_toLowercase, CaseTables.containsStr_toLowercase, hshown,
    CaseTables.infix_lowerPart_intercalate hterm (by simp)]
  constructor
  · rintro ⟨l, hl, hin⟩
    rcases List.mem_append.mp hl with hl | hl
    · exact absurd hin (h.not_infix_of_mem hlower (hwhole.subset hl))
    · rwa [List.mem_singleton.mp hl] at hin
  · intro hin
    exact ⟨_, List.mem_append_right _ List.mem_cons_self, hin⟩

end

/-! ## The property -/

/-- The snippet shows the match: the match is one of the lines it is said to consist of, it is these
lines, cut where they are too long, and it has the term in lower case. -/
def ShowsMatch (C : KbCrates) (text firstTerm : String) : Prop :=
  ∀ i, IsFirstMatch C text firstTerm i → ∃ shown lineStart lineEnd,
    snippet C text firstTerm = (shown, lineStart, lineEnd) ∧
    1 ≤ lineStart ∧ lineStart ≤ i + 1 ∧ i + 1 ≤ lineEnd ∧ lineEnd ≤ (lines text).length ∧
    shown = cutSnippet (excerpt text (lineStart - 1) lineEnd) ∧
    containsStr (C.toLowercase shown) firstTerm = true

/-- **A match that is cut off**: the snippet shows the match if and only if the lines up to the end
of the match fit in it, or the line at which it is cut has the term all the same. -/
theorem snippet_shows_match_iff (hlower : C.toLowercase = U.toLowercase) (text firstTerm : String) :
    (checkedSnippet C text firstTerm = some (snippet C text firstTerm) ∧
      ShowsMatch C text firstTerm) ↔
    ∀ i, IsFirstMatch C text firstTerm i →
      (excerpt text (i - 2) (i + 1)).length ≤ maxSnippetChars ∨
      containsStr (C.toLowercase (cutLine text i)) firstTerm = true := by
  constructor
  · rintro ⟨-, hshows⟩ i h
    obtain ⟨shown, lineStart, lineEnd, hsnippet, -, -, -, -, -, hin⟩ := hshows i h
    rw [snippet_of_isFirstMatch h, Prod.mk.injEq] at hsnippet
    rw [← hsnippet.1] at hin
    by_cases hfits : (excerpt text (i - 2) (i + 1)).length ≤ maxSnippetChars
    · exact Or.inl hfits
    · exact Or.inr ((h.contains_cut_iff hlower (Nat.lt_of_not_le hfits)).mp hin)
  · intro hcond
    refine ⟨checkedSnippet_eq C text firstTerm, fun i h => ?_⟩
    have hlt : i < (lines text).length := by
      obtain ⟨⟨line, hline, -⟩, -⟩ := h
      exact (List.getElem?_eq_some_iff.mp hline).1
    refine ⟨_, _, _, snippet_of_isFirstMatch h, by omega, by omega, by omega, by omega, ?_, ?_⟩
    · rw [excerpt_min, Nat.add_sub_cancel]
    · by_cases hfits : (excerpt text (i - 2) (i + 1)).length ≤ maxSnippetChars
      · exact h.contains_of_fits hlower hfits
      · exact (h.contains_cut_iff hlower (Nat.lt_of_not_le hfits)).mpr
          ((hcond i h).resolve_left hfits)

namespace Sample

/-- A line that fills the snippet. -/
def longLine : List Char := List.replicate 601 'x'

/-- A text with the long line in front of the match. -/
def longText : String := String.ofList (longLine ++ "\nrust".toList)

theorem lines_longText : lines longText = [String.ofList longLine, "rust"] := by
  have hsplit : splitInclusive '\n' (longLine ++ "\nrust".toList)
      = [longLine ++ ['\n'], "rust".toList] := by decide +kernel
  have hstrip : stripLineEnding (longLine ++ ['\n']) = longLine := by decide +kernel
  rw [lines, longText, String.toList_ofList, hsplit, List.map_cons, hstrip]
  rfl

theorem isFirstMatch_longText : IsFirstMatch greekCrates longText "rust" 1 := by
  rw [IsFirstMatch, lines_longText]
  refine ⟨⟨"rust", rfl, by decide +kernel⟩, fun j hj line hline => ?_⟩
  obtain rfl : j = 0 := by omega
  obtain rfl := Option.some.inj hline
  have hnone : ¬"rust".toList <:+: caseTables.lowerPart [] longLine [] := by decide +kernel
  have hlist : (String.ofList longLine).toList = longLine := String.toList_ofList
  rw [← Bool.not_eq_true, show greekCrates.toLowercase = caseTables.toLowercase from rfl,
    CaseTables.containsStr_toLowercase, hlist]
  exact hnone

end Sample

/-- The match is on the second line, and the snippet ends within the first. -/
theorem snippet_hides_match : ¬ShowsMatch Sample.greekCrates Sample.longText "rust" := by
  have hlower : Sample.greekCrates.toLowercase = Sample.caseTables.toLowercase := rfl
  have hmatch := Sample.isFirstMatch_longText
  have hupTo : (excerpt Sample.longText 0 2).toList = Sample.longLine ++ "\nrust".toList := by
    rw [toList_excerpt, Sample.lines_longText]
    change ['\n'].intercalate [(String.ofList Sample.longLine).toList, "rust".toList] = _
    rw [String.toList_ofList]
    decide +kernel
  have hcut : maxSnippetChars < (excerpt Sample.longText 0 2).length := by
    rw [← String.length_toList, hupTo]
    decide +kernel
  intro hshows
  obtain ⟨shown, lineStart, lineEnd, hsnippet, -, -, -, -, -, hin⟩ := hshows 1 hmatch
  rw [snippet_of_isFirstMatch hmatch, Prod.mk.injEq] at hsnippet
  have hline : (cutLine Sample.longText 1).toList = List.replicate 600 'x' ++ ['…'] := by
    have hlast : lastLine ((Sample.longLine ++ "\nrust".toList).take maxSnippetChars)
        = List.replicate 600 'x' := by decide +kernel
    rw [cutLine, String.toList_push, String.toList_ofList, hupTo, hlast]
  have hlowered : Sample.caseTables.lowerPart [] (List.replicate 600 'x' ++ ['…']) []
      = List.replicate 600 'x' ++ ['…'] := by decide +kernel
  rw [← hsnippet.1, hmatch.contains_cut_iff hlower hcut, hlower,
    CaseTables.containsStr_toLowercase, hline, hlowered] at hin
  revert hin
  decide +kernel

theorem snippet_shows_match_iff_rust :
    (checkedSnippet Sample.greekCrates "Owned data.\nRust.\n" "rust"
        = some (snippet Sample.greekCrates "Owned data.\nRust.\n" "rust") ∧
      ShowsMatch Sample.greekCrates "Owned data.\nRust.\n" "rust") ↔
    ∀ i, IsFirstMatch Sample.greekCrates "Owned data.\nRust.\n" "rust" i →
      (excerpt "Owned data.\nRust.\n" (i - 2) (i + 1)).length ≤ maxSnippetChars ∨
      containsStr (Sample.greekCrates.toLowercase (cutLine "Owned data.\nRust.\n" i)) "rust"
        = true :=
  snippet_shows_match_iff (U := Sample.caseTables) rfl _ _

end EngramMcp
