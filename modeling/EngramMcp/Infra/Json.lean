import EngramMcp.Infra.Text

/-!
# JSON text

The compact text `serde_json::to_vec` writes for strings, unsigned integers, booleans, optional
values, arrays and objects: no white space, the fields of a struct in declaration order, and the
shortest escape of a character that needs one.

A reader for this text comes with the writers. It is stricter than `serde_json::from_slice`
(it accepts exactly the field order and spacing of the writer), and its use is to show that
the text determines the value: `Reads p w` says that `p` reads back what `w` wrote, whatever
follows it.
-/

namespace Infra.Json

open Infra

/-- JSON text as characters; `utf8Len` counts its bytes. -/
abbrev Text := List Char

/-! ## Writers -/

/-- A lower-case hexadecimal digit. -/
def hexDigit (n : Nat) : Char := Nat.digitChar n

/-- One character inside a string. Only quotes, backslashes and control characters change. -/
def escape (c : Char) : Text :=
  if c = '"' then ['\\', '"']
  else if c = '\\' then ['\\', '\\']
  else if c.toNat = 0x08 then ['\\', 'b']
  else if c.toNat = 0x09 then ['\\', 't']
  else if c.toNat = 0x0A then ['\\', 'n']
  else if c.toNat = 0x0C then ['\\', 'f']
  else if c.toNat = 0x0D then ['\\', 'r']
  else if c.toNat < 0x20 then
    ['\\', 'u', '0', '0', hexDigit (c.toNat / 16), hexDigit (c.toNat % 16)]
  else [c]

/-- A string. -/
def str (s : String) : Text := '"' :: (s.toList.flatMap escape ++ ['"'])

/-- An unsigned integer. -/
def num (n : Nat) : Text := Nat.toDigits 10 n

/-- A boolean. -/
def bool (b : Bool) : Text := if b then "true".toList else "false".toList

/-- An optional value; `None` is `null`. -/
def opt {α : Type*} (w : α → Text) : Option α → Text
  | none => "null".toList
  | some a => w a

/-- Items between brackets, separated by commas. -/
def bracketed (l r : Char) : List Text → Text
  | [] => [l, r]
  | x :: xs => l :: (x ++ (xs.flatMap (',' :: ·) ++ [r]))

/-- An array. -/
def arr (items : List Text) : Text := bracketed '[' ']' items

/-- One member of an object. -/
def member (name : String) (value : Text) : Text := str name ++ ':' :: value

/-- An object; a struct or a map. -/
def obj (members : List Text) : Text := bracketed '{' '}' members

/-! ## Lengths -/

/-- Bytes one character takes inside a string. -/
def escapedLen (c : Char) : Nat := utf8Len (escape c)

/-- Bytes of a string between its quotes. -/
def escapedLength (s : String) : Nat := (s.toList.map escapedLen).sum

theorem escapedLength_append (s t : String) :
    escapedLength (s ++ t) = escapedLength s + escapedLength t := by
  simp only [escapedLength, String.toList_append, List.map_append, List.sum_append]

theorem utf8Len_flatMap_escape : ∀ l : List Char,
    utf8Len (l.flatMap escape) = (l.map escapedLen).sum
  | [] => rfl
  | c :: l => by
    rw [List.flatMap_cons, utf8Len_append, utf8Len_flatMap_escape l, List.map_cons,
      List.sum_cons, escapedLen]

theorem utf8Len_str (s : String) : utf8Len (str s) = escapedLength s + 2 := by
  rw [str, utf8Len_cons, utf8Len_append, utf8Len_flatMap_escape, escapedLength]
  have h : ('"').utf8Size = 1 := by decide
  simp only [utf8Len_cons, utf8Len_nil, h]
  omega

theorem utf8Size_of_isDigit {c : Char} (h : c.isDigit = true) : c.utf8Size = 1 := by
  rw [Char.utf8Size]
  simp only [Char.isDigit, Bool.and_eq_true, decide_eq_true_eq, ge_iff_le] at h
  rw [if_pos]
  exact UInt32.le_trans h.2 (by decide)

theorem utf8Len_num (n : Nat) : utf8Len (num n) = (Nat.toDigits 10 n).length :=
  utf8Len_eq_length fun _ hc =>
    utf8Size_of_isDigit (Nat.isDigit_of_mem_toDigits (by omega) (by omega) hc)

theorem utf8Len_flatMap_comma : ∀ xs : List Text,
    utf8Len (xs.flatMap (',' :: ·)) = (xs.map utf8Len).sum + xs.length
  | [] => rfl
  | x :: xs => by
    have h : (',').utf8Size = 1 := by decide
    rw [List.flatMap_cons, utf8Len_append, utf8Len_flatMap_comma xs, utf8Len_cons, h,
      List.map_cons, List.sum_cons, List.length_cons]
    omega

/-- Two brackets, the items, and a comma between neighbours. -/
theorem utf8Len_bracketed {l r : Char} (hl : l.utf8Size = 1) (hr : r.utf8Size = 1)
    (items : List Text) :
    utf8Len (bracketed l r items) = (items.map utf8Len).sum + (items.length - 1) + 2 := by
  cases items with
  | nil => simp [bracketed, hl, hr]
  | cons x xs =>
    simp only [bracketed, utf8Len_cons, utf8Len_append, utf8Len_flatMap_comma, utf8Len_nil, hl,
      hr, List.map_cons, List.sum_cons, List.length_cons]
    omega

theorem utf8Len_arr (items : List Text) :
    utf8Len (arr items) = (items.map utf8Len).sum + (items.length - 1) + 2 :=
  utf8Len_bracketed (by decide) (by decide) items

theorem utf8Len_obj (members : List Text) :
    utf8Len (obj members) = (members.map utf8Len).sum + (members.length - 1) + 2 :=
  utf8Len_bracketed (by decide) (by decide) members

theorem utf8Len_member (name : String) (value : Text) :
    utf8Len (member name value) = escapedLength name + 3 + utf8Len value := by
  have h : (':').utf8Size = 1 := by decide
  rw [member, utf8Len_append, utf8Len_str, utf8Len_cons, h]
  omega

/-- A character that is written as it stands. -/
theorem escape_eq_singleton {c : Char} (h1 : c ≠ '"') (h2 : c ≠ '\\') (h3 : 0x20 ≤ c.toNat) :
    escape c = [c] := by
  unfold escape
  rw [if_neg h1, if_neg h2, if_neg (by omega), if_neg (by omega), if_neg (by omega),
    if_neg (by omega), if_neg (by omega), if_neg (by omega)]

/-- Text without quotes, backslashes and control characters keeps its length. -/
theorem escapedLength_of_plain {s : String}
    (h : ∀ c ∈ s.toList, c ≠ '"' ∧ c ≠ '\\' ∧ 0x20 ≤ c.toNat) :
    escapedLength s = s.utf8ByteSize := by
  have hmap : s.toList.map escapedLen = s.toList.map Char.utf8Size := by
    apply List.map_congr_left
    intro c hc
    obtain ⟨h1, h2, h3⟩ := h c hc
    rw [escapedLen, escape_eq_singleton h1 h2 h3, utf8Len_cons, utf8Len_nil, Nat.add_zero]
  rw [escapedLength, hmap, ← utf8Len_toList, utf8Len]

/-! ## Reader -/

/-- A reader takes a value off the front of a text. -/
abbrev Reader (α : Type*) := Text → Option (α × Text)

/-- What may follow a number: anything but another digit. -/
def Stops (rest : Text) : Prop := ∀ c, rest.head? = some c → c.isDigit = false

theorem Stops.cons {c : Char} {rest : Text} (h : c.isDigit = false) : Stops (c :: rest) := by
  intro d hd
  rw [List.head?_cons, Option.some.injEq] at hd
  rw [← hd]; exact h

/-- `p` reads back what `w` writes. -/
def Reads {α : Type*} (p : Reader α) (w : α → Text) : Prop :=
  ∀ a rest, Stops rest → p (w a ++ rest) = some (a, rest)

/-- Reads `p` and then, on the rest, `f` of its value. -/
def Reader.andThen {α β : Type*} (p : Reader α) (f : α → Reader β) : Reader β :=
  fun s => (p s).bind fun r => f r.1 r.2

theorem Reader.andThen_eq {α β : Type*} {p : Reader α} {f : α → Reader β} {s s' : Text} {a : α}
    (h : p s = some (a, s')) : p.andThen f s = f a s' := by
  rw [Reader.andThen, h, Option.bind_some]

/-- Reads nothing and returns `a`. -/
def Reader.done {α : Type*} (a : α) : Reader α := fun s => some (a, s)

/-- Reads exactly the text `t`. -/
def expect (t : Text) : Reader Unit :=
  fun s => if t <+: s then some ((), s.drop t.length) else none

@[simp] theorem expect_append (t rest : Text) : expect t (t ++ rest) = some ((), rest) := by
  rw [expect, if_pos (List.prefix_append t rest), List.drop_left]

/-- The value of a hexadecimal digit. -/
def hexValue (c : Char) : Option Nat :=
  if c.isDigit then some (c.toNat - 48)
  else if 97 ≤ c.toNat ∧ c.toNat ≤ 102 then some (c.toNat - 87) else none

/-- The rest of a string, after the opening quote. -/
def strBody : Text → Option (List Char × Text)
  | [] => none
  | '"' :: rest => some ([], rest)
  | '\\' :: 'u' :: '0' :: '0' :: a :: b :: rest => do
    let hi ← hexValue a
    let lo ← hexValue b
    (strBody rest).map fun r => (Char.ofNat (hi * 16 + lo) :: r.1, r.2)
  | '\\' :: '"' :: rest => (strBody rest).map fun r => ('"' :: r.1, r.2)
  | '\\' :: '\\' :: rest => (strBody rest).map fun r => ('\\' :: r.1, r.2)
  | '\\' :: 'b' :: rest => (strBody rest).map fun r => (Char.ofNat 0x08 :: r.1, r.2)
  | '\\' :: 't' :: rest => (strBody rest).map fun r => (Char.ofNat 0x09 :: r.1, r.2)
  | '\\' :: 'n' :: rest => (strBody rest).map fun r => (Char.ofNat 0x0A :: r.1, r.2)
  | '\\' :: 'f' :: rest => (strBody rest).map fun r => (Char.ofNat 0x0C :: r.1, r.2)
  | '\\' :: 'r' :: rest => (strBody rest).map fun r => (Char.ofNat 0x0D :: r.1, r.2)
  | c :: rest =>
    if c = '\\' ∨ c.toNat < 0x20 then none
    else (strBody rest).map fun r => (c :: r.1, r.2)

/-- Reads a string. -/
def readStr : Reader String
  | '"' :: rest => (strBody rest).map fun r => (String.ofList r.1, r.2)
  | _ => none

theorem hexValue_hexDigit : ∀ n < 16, hexValue (hexDigit n) = some n := by decide

theorem eq_ofNat_of_toNat {c : Char} {n : Nat} (h : c.toNat = n) : c = Char.ofNat n := by
  rw [← h, Char.ofNat_toNat]

/-- One escaped character is read as that character. -/
theorem strBody_escape (c : Char) (rest : Text) :
    strBody (escape c ++ rest) = (strBody rest).map fun r => (c :: r.1, r.2) := by
  unfold escape
  split
  · next h => subst h; rfl
  · next h1 =>
    split
    · next h => subst h; rfl
    · next h2 =>
      split
      · next h => rw [eq_ofNat_of_toNat h]; rfl
      · split
        · next h => rw [eq_ofNat_of_toNat h]; rfl
        · split
          · next h => rw [eq_ofNat_of_toNat h]; rfl
          · split
            · next h => rw [eq_ofNat_of_toNat h]; rfl
            · split
              · next h => rw [eq_ofNat_of_toNat h]; rfl
              · split
                · next h =>
                  have hd : c.toNat / 16 * 16 + c.toNat % 16 = c.toNat := by omega
                  simp only [List.cons_append, List.nil_append, strBody,
                    hexValue_hexDigit _ (show c.toNat / 16 < 16 by omega),
                    hexValue_hexDigit _ (show c.toNat % 16 < 16 by omega), Option.bind_eq_bind,
                    Option.bind_some, hd, Char.ofNat_toNat]
                · next h =>
                  rw [List.cons_append, List.nil_append, strBody.eq_def]
                  split
                  · next heq => simp at heq
                  · next heq => exact absurd (List.cons.inj heq).1 h1
                  all_goals first
                    | next heq => exact absurd (List.cons.inj heq).1 h2
                    | next heq =>
                      obtain ⟨rfl, rfl⟩ := List.cons.inj heq
                      rw [if_neg (by simp only [not_or]; exact ⟨h2, h⟩)]

theorem strBody_flatMap_escape : ∀ (l : List Char) (rest : Text),
    strBody (l.flatMap escape ++ '"' :: rest) = some (l, rest)
  | [], rest => by simp [strBody]
  | c :: l, rest => by
    rw [List.flatMap_cons, List.append_assoc, strBody_escape, strBody_flatMap_escape l rest]
    rfl

theorem reads_str : Reads readStr str := by
  intro s rest _
  rw [str, List.cons_append, List.append_assoc, List.singleton_append, readStr,
    strBody_flatMap_escape, Option.map_some, String.ofList_toList]

/-- Reads an unsigned integer. -/
def readNum : Reader Nat := fun s =>
  match s.takeWhile Char.isDigit with
  | [] => none
  | ds => some (Nat.ofDigitChars 10 ds 0, s.dropWhile Char.isDigit)

theorem takeWhile_isDigit_append : ∀ (l : List Char) (rest : Text),
    (∀ c ∈ l, c.isDigit = true) → Stops rest →
    (l ++ rest).takeWhile Char.isDigit = l ∧ (l ++ rest).dropWhile Char.isDigit = rest
  | [], [], _, _ => by simp
  | [], d :: rest, _, h => by
    have hd := h d rfl
    simp [hd]
  | c :: l, rest, hl, h => by
    obtain ⟨h1, h2⟩ := takeWhile_isDigit_append l rest
      (fun x hx => hl x (List.mem_cons_of_mem _ hx)) h
    have hc := hl c List.mem_cons_self
    simp [hc, h1, h2]

theorem reads_num : Reads readNum num := by
  intro n rest hs
  have hall : ∀ c ∈ Nat.toDigits 10 n, c.isDigit = true := fun c hc =>
    Nat.isDigit_of_mem_toDigits (by omega) (by omega) hc
  obtain ⟨h1, h2⟩ := takeWhile_isDigit_append _ rest hall hs
  unfold readNum num
  rw [h1, h2]
  split
  · next h => exact absurd h Nat.toDigits_ne_nil
  · rw [Nat.ofDigitChars_ten_toDigits]

/-- Reads a `u64`. -/
def readU64 : Reader UInt64 := fun s => (readNum s).map fun r => (UInt64.ofNat r.1, r.2)

theorem reads_u64 : Reads readU64 (fun n : UInt64 => num n.toNat) := by
  intro n rest hs
  rw [readU64, reads_num n.toNat rest hs, Option.map_some, UInt64.ofNat_toNat]

/-- Reads a `u8`. -/
def readU8 : Reader UInt8 := fun s => (readNum s).map fun r => (UInt8.ofNat r.1, r.2)

theorem reads_u8 : Reads readU8 (fun n : UInt8 => num n.toNat) := by
  intro n rest hs
  rw [readU8, reads_num n.toNat rest hs, Option.map_some, UInt8.ofNat_toNat]

/-- Reads a boolean. -/
def readBool : Reader Bool := fun s =>
  match expect "true".toList s with
  | some (_, rest) => some (true, rest)
  | none => (expect "false".toList s).map fun r => (false, r.2)

theorem reads_bool : Reads readBool bool := by
  intro b rest _
  cases b with
  | true => simp only [readBool, bool, if_true, expect_append]
  | false =>
    have hno : expect "true".toList ("false".toList ++ rest) = none := by
      simp [expect]
    simp only [readBool, bool, Bool.false_eq_true, if_false, hno, expect_append, Option.map_some]

/-- Reads an optional value; `null` is tried first. -/
def readOpt {α : Type*} (p : Reader α) : Reader (Option α) := fun s =>
  match expect "null".toList s with
  | some (_, rest) => some (none, rest)
  | none => (p s).map fun r => (some r.1, r.2)

theorem reads_opt_str : Reads (readOpt readStr) (opt str) := by
  intro o rest hs
  cases o with
  | none => simp only [readOpt, opt, expect_append]
  | some s =>
    have hno : expect "null".toList (str s ++ rest) = none := by simp [expect, str]
    simp only [readOpt, opt, hno, reads_str s rest hs, Option.map_some]

/-! ## Arrays and objects -/

/-- The items after the first one, up to the closing bracket. -/
def readItems {α : Type*} (r : Char) (p : Reader α) : Nat → Reader (List α)
  | 0 => fun _ => none
  | fuel + 1 => fun s =>
    match s with
    | [] => none
    | c :: s =>
      if c = r then some ([], s)
      else if c = ',' then
        (p s).bind fun x => (readItems r p fuel x.2).map fun xs => (x.1 :: xs.1, xs.2)
      else none

/-- Reads items between brackets. -/
def readBracketed {α : Type*} (l r : Char) (p : Reader α) : Reader (List α) := fun s =>
  match s with
  | [] => none
  | c :: s =>
    if c ≠ l then none
    else match s with
      | [] => none
      | d :: rest =>
        if d = r then some ([], rest)
        else (p s).bind fun x =>
          (readItems r p (s.length + 1) x.2).map fun xs => (x.1 :: xs.1, xs.2)

theorem readItems_append {α : Type*} {r : Char} {p : Reader α} {w : α → Text}
    (hr : r ≠ ',') (hd : r.isDigit = false) (hp : Reads p w) :
    ∀ (xs : List α) (fuel : Nat) (rest : Text), xs.length < fuel →
      readItems r p fuel ((xs.map w).flatMap (',' :: ·) ++ r :: rest) = some (xs, rest)
  | [], fuel + 1, rest, _ => by simp [readItems]
  | x :: xs, fuel + 1, rest, hf => by
    have hstop : Stops ((xs.map w).flatMap (',' :: ·) ++ r :: rest) := by
      cases xs with
      | nil => exact Stops.cons hd
      | cons y ys => exact Stops.cons (by decide)
    rw [List.map_cons, List.flatMap_cons, List.append_assoc, List.cons_append, readItems]
    simp only [if_neg (Ne.symm hr), if_true, hp x _ hstop, Option.bind_some]
    rw [readItems_append hr hd hp xs fuel rest (by simpa using hf), Option.map_some]

theorem reads_bracketed {α : Type*} {l r : Char} {p : Reader α} {w : α → Text}
    (hr : r ≠ ',') (hd : r.isDigit = false) (hp : Reads p w)
    (hne : ∀ a, ∃ c t, w a = c :: t ∧ c ≠ r) :
    Reads (readBracketed l r p) (fun xs => bracketed l r (xs.map w)) := by
  intro xs rest _
  cases xs with
  | nil => simp [readBracketed, bracketed]
  | cons x xs =>
    obtain ⟨c, t, hw, hc⟩ := hne x
    have hstop : Stops ((xs.map w).flatMap (',' :: ·) ++ r :: rest) := by
      cases xs with
      | nil => exact Stops.cons hd
      | cons y ys => exact Stops.cons (by decide)
    have hpx := hp x _ hstop
    have hlen : xs.length < (w x ++ ((xs.map w).flatMap (',' :: ·) ++ r :: rest)).length + 1 := by
      have hfm : ∀ zs : List α, zs.length ≤ ((zs.map w).flatMap (',' :: ·)).length := by
        intro zs
        induction zs with
        | nil => simp
        | cons z zs ih =>
          simp only [List.map_cons, List.flatMap_cons, List.length_append, List.length_cons]
          omega
      have := hfm xs
      simp only [List.length_append, List.length_cons]
      omega
    have hitems := readItems_append hr hd hp xs _ rest hlen
    simp only [List.map_cons, bracketed, List.cons_append, List.append_assoc,
      List.nil_append, readBracketed, ne_eq, not_true_eq_false, if_false]
    rw [hw] at hpx hitems ⊢
    simp only [List.cons_append] at hpx hitems ⊢
    simp only [if_neg hc, hpx, Option.bind_some, hitems, Option.map_some]

/-- Reads one member of a map, with its name. -/
def readMember {α : Type*} (p : Reader α) : Reader (String × α) :=
  readStr.andThen fun name => (expect [':']).andThen fun _ => p.andThen fun a => .done (name, a)

theorem reads_member {α : Type*} {p : Reader α} {w : α → Text} (hp : Reads p w) :
    Reads (readMember p) (fun e => member e.1 (w e.2)) := by
  rintro ⟨name, a⟩ rest hs
  have h1 : readStr (member name (w a) ++ rest) = some (name, ':' :: (w a ++ rest)) := by
    rw [member, List.append_assoc, List.cons_append]
    exact reads_str name _ (Stops.cons (by decide))
  have h2 : expect [':'] (':' :: (w a ++ rest)) = some ((), w a ++ rest) :=
    expect_append [':'] (w a ++ rest)
  rw [readMember, Reader.andThen_eq h1, Reader.andThen_eq h2, Reader.andThen_eq (hp a rest hs),
    Reader.done]

/-- Reads the field `name` of a struct, after the character `before` it. -/
def readField {α : Type*} (before : Char) (name : String) (p : Reader α) : Reader α :=
  (expect (before :: (str name ++ [':']))).andThen fun _ => p

theorem readField_eq {α : Type*} {before : Char} {name : String} {p : Reader α} {w : α → Text}
    (hp : Reads p w) (a : α) {rest : Text} (hs : Stops rest) :
    readField before name p (before :: (member name (w a) ++ rest)) = some (a, rest) := by
  have h : before :: (member name (w a) ++ rest)
      = (before :: (str name ++ [':'])) ++ (w a ++ rest) := by simp [member]
  rw [readField, h, Reader.andThen_eq (expect_append _ _), hp a rest hs]

/-- Reads one field and goes on with its value. -/
theorem readField_andThen {α β : Type*} {before : Char} {name : String} {p : Reader α}
    {w : α → Text} {f : α → Reader β} (hp : Reads p w) (a : α) {rest : Text} (hs : Stops rest) :
    (readField before name p).andThen f (before :: (member name (w a) ++ rest)) = f a rest :=
  Reader.andThen_eq (readField_eq hp a hs)

/-- The end of a struct. -/
def closing {α : Type*} (a : α) : Reader α := (expect ['}']).andThen fun _ => .done a

@[simp] theorem closing_eq {α : Type*} (a : α) (rest : Text) :
    closing a ('}' :: rest) = some (a, rest) := by
  have h : expect ['}'] ('}' :: rest) = some ((), rest) := expect_append ['}'] rest
  rw [closing, Reader.andThen_eq h, Reader.done]

/-- A comma or a closing brace ends a number. -/
theorem stops_comma (rest : Text) : Stops (',' :: rest) := .cons (by decide)

theorem stops_brace (rest : Text) : Stops ('}' :: rest) := .cons (by decide)

/-- The fields of a struct after the first one. -/
theorem obj_cons_cons (m n : Text) (ms : List Text) :
    obj (m :: n :: ms) = '{' :: (m ++ ',' :: (n ++ (ms.flatMap (',' :: ·) ++ ['}']))) := by
  simp [obj, bracketed]

/-- Runs a reader on a whole text. -/
def readAll {α : Type*} (p : Reader α) (s : Text) : Option α :=
  match p s with
  | some (a, []) => some a
  | _ => none

theorem readAll_eq {α : Type*} {p : Reader α} {w : α → Text} (hp : Reads p w) (a : α) :
    readAll p (w a) = some a := by
  have h := hp a [] (by simp [Stops])
  rw [List.append_nil] at h
  rw [readAll, h]

end Infra.Json
