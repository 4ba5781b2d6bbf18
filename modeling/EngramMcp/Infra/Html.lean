import EngramMcp.Infra.Text

/-!
# Reading HTML

A page is read character by character: text up to `<`, then a tag with its attributes up to `>`.
A character reference stands for a character in text and in the value of an attribute. Comments and
the raw text of scripts and style sheets are not covered.

What cannot leave a state does not begin a tag: text without `<` stays text, and what stands in
quotes without a quote stays the value of its attribute.

* `advance_append` — a page is read piece by piece
* `advance_text`, `advance_quoted` — what stays text, and what stays a value
* `decode_cons` — a character that begins no reference stands for itself
-/

namespace Infra.Html

/-- The character references: the text between `&` and `;`, and the character. -/
def references : List (List Char × Char) :=
  [("amp".toList, '&'), ("lt".toList, '<'), ("gt".toList, '>'), ("quot".toList, '"'),
    ("#x27".toList, Char.ofNat 0x27)]

/-- The text of a reference. -/
def reference (name : List Char) : List Char := '&' :: (name ++ [';'])

/-- The reference at the head of the text. -/
def referenceAt (l : List Char) : Option (List Char × Char) :=
  references.find? fun entry => decide (reference entry.1 <+: l)

/-- The characters that a text stands for. The number of characters left over is skipped. -/
def decodeFrom : Nat → List Char → List Char
  | _, [] => []
  | skip + 1, _ :: rest => decodeFrom skip rest
  | 0, c :: rest =>
    match referenceAt (c :: rest) with
    | some entry => entry.2 :: decodeFrom (entry.1.length + 1) rest
    | none => c :: decodeFrom 0 rest

/-- The characters that a text stands for. -/
def decode (l : List Char) : List Char := decodeFrom 0 l

example : decode "a &lt;b&gt; &amp;lt; &amp".toList = "a <b> &lt; &amp".toList := by decide

/-! ## Tags -/

/-- What a page is made of. A tag keeps the `/` or the `!` that its name begins with. -/
inductive Token
  | text (content : String)
  | tag (name : String) (attributes : List (String × String))
  deriving DecidableEq

/-- The token without what it says: the name of a tag, and the names of its attributes. -/
def Token.shape : Token → Option (String × List String)
  | .text _ => none
  | .tag name attributes => some (name, attributes.map Prod.fst)

/-- A tag that is being read. -/
structure OpenTag where
  name : List Char
  attributes : List (String × String)
  deriving DecidableEq

namespace OpenTag

def close (tag : OpenTag) : Token := .tag (String.ofList tag.name) tag.attributes

/-- The tag with one more attribute. -/
def add (tag : OpenTag) (name value : List Char) : OpenTag :=
  { tag with
    attributes := tag.attributes ++ [(String.ofList name, String.ofList (decode value))] }

end OpenTag

/-- Where the reader is. -/
inductive State
  | text (content : List Char)
  | tagName (name : List Char)
  | beforeAttribute (tag : OpenTag)
  | attributeName (tag : OpenTag) (name : List Char)
  | beforeValue (tag : OpenTag) (name : List Char)
  | quoted (quote : Char) (tag : OpenTag) (name value : List Char)
  | unquoted (tag : OpenTag) (name value : List Char)
  deriving DecidableEq

/-- One character, and the tokens that it ends. The text in front of a tag may be empty. -/
def step (state : State) (c : Char) : State × List Token :=
  match state with
  | .text content =>
    if c = '<' then (.tagName [], [.text (String.ofList (decode content))])
    else (.text (content ++ [c]), [])
  | .tagName name =>
    if c = '>' then (.text [], [OpenTag.close ⟨name, []⟩])
    else if isWhitespace c then (.beforeAttribute ⟨name, []⟩, [])
    else (.tagName (name ++ [c]), [])
  | .beforeAttribute tag =>
    if c = '>' then (.text [], [tag.close])
    else if isWhitespace c then (.beforeAttribute tag, [])
    else (.attributeName tag [c], [])
  | .attributeName tag name =>
    if c = '>' then (.text [], [(tag.add name []).close])
    else if isWhitespace c then (.beforeAttribute (tag.add name []), [])
    else if c = '=' then (.beforeValue tag name, [])
    else (.attributeName tag (name ++ [c]), [])
  | .beforeValue tag name =>
    if c = '>' then (.text [], [(tag.add name []).close])
    else if isWhitespace c then (.beforeValue tag name, [])
    else if c = '"' ∨ c.toNat = 0x27 then (.quoted c tag name [], [])
    else (.unquoted tag name [c], [])
  | .quoted quote tag name value =>
    if c = quote then (.beforeAttribute (tag.add name value), [])
    else (.quoted quote tag name (value ++ [c]), [])
  | .unquoted tag name value =>
    if c = '>' then (.text [], [(tag.add name value).close])
    else if isWhitespace c then (.beforeAttribute (tag.add name value), [])
    else (.unquoted tag name (value ++ [c]), [])

/-- The characters of a piece of a page, one after the other. -/
def advance : State → List Char → State × List Token
  | state, [] => (state, [])
  | state, c :: rest =>
    let stepped := step state c
    let more := advance stepped.1 rest
    (more.1, stepped.2 ++ more.2)

/-- The tokens of a page. -/
def tokens (page : String) : List Token := (advance (.text []) page.toList).2

example : tokens "1 &lt; 2 <a href='x y'>z</a>"
    = [.text "1 < 2 ", .tag "a" [("href", "x y")], .text "z", .tag "/a" []] := by decide

/-- A page is read piece by piece. -/
theorem advance_append (state : State) (a b : List Char) :
    advance state (a ++ b) = ((advance (advance state a).1 b).1,
      (advance state a).2 ++ (advance (advance state a).1 b).2) := by
  induction a generalizing state with
  | nil => rfl
  | cons c a ih =>
    rw [List.cons_append, advance, advance, ih]
    simp only [List.append_assoc]

/-- Two pieces, one after the other. -/
theorem advance_trans {state next last : State} {a b : List Char} {out more : List Token}
    (ha : advance state a = (next, out)) (hb : advance next b = (last, more)) :
    advance state (a ++ b) = (last, out ++ more) := by
  rw [advance_append, ha, hb]

/-- Text without `<` stays text. -/
theorem advance_text (content : List Char) {l : List Char} (h : '<' ∉ l) :
    advance (.text content) l = (.text (content ++ l), []) := by
  induction l generalizing content with
  | nil => rw [List.append_nil]; rfl
  | cons c l ih =>
    rw [List.mem_cons, not_or] at h
    rw [advance, step, if_neg (Ne.symm h.1)]
    simp only [ih (content ++ [c]) h.2, List.append_assoc, List.singleton_append,
      List.nil_append]

/-- In quotes, what has no quote stays the value. -/
theorem advance_quoted {quote : Char} (tag : OpenTag) (name value : List Char) {l : List Char}
    (h : quote ∉ l) :
    advance (.quoted quote tag name value) l = (.quoted quote tag name (value ++ l), []) := by
  induction l generalizing value with
  | nil => rw [List.append_nil]; rfl
  | cons c l ih =>
    rw [List.mem_cons, not_or] at h
    rw [advance, step, if_neg (Ne.symm h.1)]
    simp only [ih (value ++ [c]) h.2, List.append_assoc, List.singleton_append, List.nil_append]

/-- The text in front of a tag is put out with it, and changes nothing else. -/
theorem advance_text_tag (content : List Char) {l : List Char} {next : State} {out : List Token}
    (hl : l.head? = some '<') (h : advance (.text []) l = (next, .text "" :: out)) :
    advance (.text content) l = (next, .text (String.ofList (decode content)) :: out) := by
  obtain ⟨rest, rfl⟩ := List.head?_eq_some_iff.mp hl
  rw [advance, step, if_pos rfl] at h ⊢
  simp only [List.singleton_append, Prod.mk.injEq, List.cons.injEq] at h ⊢
  exact ⟨h.1, trivial, h.2.2⟩

/-- The quote ends the value. -/
theorem advance_quote (tag : OpenTag) (name value : List Char) {quote : Char} {l : List Char}
    (hl : l.head? = some quote) : advance (.quoted quote tag name value) l
      = advance (.beforeAttribute (tag.add name value)) l.tail := by
  obtain ⟨rest, rfl⟩ := List.head?_eq_some_iff.mp hl
  rw [advance, step, if_pos rfl]
  rfl

/-- The end of a tag. -/
theorem advance_tag_end (tag : OpenTag) {l : List Char} {next : State} {out : List Token}
    (hl : l.head? = some '>') (h : advance (.text []) l.tail = (next, out)) :
    advance (.beforeAttribute tag) l = (next, tag.close :: out) := by
  obtain ⟨rest, rfl⟩ := List.head?_eq_some_iff.mp hl
  rw [List.tail_cons] at h
  rw [advance, step, if_pos rfl]
  simp only [h, List.singleton_append]

/-- Pieces that begin and end in text, with a separator that does. -/
theorem advance_intercalate {separator : List Char} {between : List Token}
    (hbetween : advance (.text []) separator = (.text [], between)) {pieces : List (List Char)}
    {outs : List (List Token)}
    (h : List.Forall₂ (fun piece out => advance (.text []) piece = (.text [], out)) pieces outs) :
    advance (.text []) (separator.intercalate pieces) = (.text [], between.intercalate outs) := by
  induction h with
  | nil => rfl
  | cons hfirst hrest ih =>
    cases hrest with
    | nil =>
      rw [List.intercalate_singleton, List.intercalate_singleton]
      exact hfirst
    | cons =>
      rw [List.intercalate_cons_cons, List.intercalate_cons_cons]
      exact advance_trans (advance_trans hfirst hbetween) ih

/-! ## Characters and references -/

theorem decodeFrom_length (a b : List Char) : decodeFrom a.length (a ++ b) = decodeFrom 0 b := by
  induction a with
  | nil => rfl
  | cons c a ih => exact ih

/-- A character that begins no reference stands for itself. -/
theorem decode_cons {c : Char} (h : c ≠ '&') (rest : List Char) :
    decode (c :: rest) = c :: decode rest := by
  have hnone : referenceAt (c :: rest) = none := by
    refine List.find?_eq_none.mpr fun entry _ => ?_
    rw [decide_eq_true_eq, reference, List.cons_prefix_cons]
    exact fun hp => h hp.1.symm
  rw [decode, decodeFrom, hnone]
  rfl

/-- A reference stands for its character. -/
theorem decode_reference {name : List Char} {c : Char} (h : (name, c) ∈ references)
    (rest : List Char) : decode (reference name ++ rest) = c :: decode rest := by
  have hfound : referenceAt (reference name ++ rest) = some (name, c) := by
    simp only [references, List.mem_cons, Prod.mk.injEq, List.not_mem_nil, or_false] at h
    rcases h with ⟨rfl, rfl⟩ | ⟨rfl, rfl⟩ | ⟨rfl, rfl⟩ | ⟨rfl, rfl⟩ | ⟨rfl, rfl⟩
    · rfl
    · rfl
    · rfl
    · rfl
    · rfl
  rw [decode, reference, List.cons_append, decodeFrom]
  rw [reference, List.cons_append] at hfound
  rw [hfound]
  have hlen : name.length + 1 = (name ++ [';']).length := by simp
  simp only [hlen, decodeFrom_length]
  rfl

end Infra.Html
