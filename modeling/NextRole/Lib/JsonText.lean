import Mathlib.Data.List.TakeWhile
import NextRole.Lib.Json

/-!
# JSON texts

What `JSON.parse` reads of a text, and how values are written: what encodes them chooses the texts
of literals, of numbers and of strings, and the layout of arrays and objects is the same.  A string
has no lone surrogate; where a text escapes one, it is read as the replacement character.  What a
reader makes of the text of a number is a parameter.

## Main definitions

* `readString`, `readValue`, `parse` — the reader.
* `Body` — a text between quotes, and what it is read as.
* `Writer`, `layout` — a value as a text.
* `mapLeaves` — a value with other strings and numbers.
* `Writer.Through` — a change of texts that keeps the layout.

## Main results

* `readString_body` — a string is read back.
* `parse_layout` — **a value is read back**, with the strings that its texts stand for.
* `layout_through` — a text that is changed is the text of another writer.
-/

namespace Json

/-! ### Hexadecimal digits -/

def hexValue (c : Char) : Option ℕ :=
  if '0' ≤ c ∧ c ≤ '9' then some (c.toNat - 48)
  else if 'a' ≤ c ∧ c ≤ 'f' then some (c.toNat - 87)
  else if 'A' ≤ c ∧ c ≤ 'F' then some (c.toNat - 55)
  else none

def hexDigit (d : ℕ) : Char := if d < 10 then Char.ofNat (48 + d) else Char.ofNat (87 + d)

/-- The value of four digits. -/
def hex4Value (a b c d : Char) : Option ℕ := do
  let a ← hexValue a
  let b ← hexValue b
  let c ← hexValue c
  let d ← hexValue d
  return ((a * 16 + b) * 16 + c) * 16 + d

theorem hexValue_hexDigit {d : ℕ} (h : d < 16) : hexValue (hexDigit d) = some d := by
  revert d
  decide

theorem hex4Value_hexDigit {n : ℕ} (h : n < 65536) :
    hex4Value (hexDigit (n / 4096)) (hexDigit (n / 256 % 16)) (hexDigit (n / 16 % 16))
      (hexDigit (n % 16)) = some n := by
  have hfirst : n / 4096 < 16 := by omega
  have hlt : ∀ m : ℕ, m % 16 < 16 := fun m => Nat.mod_lt m (by omega)
  have hsum : ((n / 4096 * 16 + n / 256 % 16) * 16 + n / 16 % 16) * 16 + n % 16 = n := by omega
  simp only [hex4Value, hexValue_hexDigit hfirst, hexValue_hexDigit (hlt _)]
  exact congrArg some hsum

/-! ### Strings -/

/-- What a letter behind a backslash stands for. -/
def simpleEscape (c : Char) : Option Char :=
  match c with
  | '"' => some '"'
  | '\\' => some '\\'
  | '/' => some '/'
  | 'b' => some '\x08'
  | 'f' => some '\x0c'
  | 'n' => some '\n'
  | 'r' => some '\r'
  | 't' => some '\t'
  | _ => none

def isHigh (unit : ℕ) : Bool := 0xd800 ≤ unit && unit < 0xdc00

def isLow (unit : ℕ) : Bool := 0xdc00 ≤ unit && unit < 0xe000

/-- The character of two surrogates. -/
def ofSurrogates (high low : ℕ) : Char :=
  Char.ofNat (0x10000 + (high - 0xd800) * 1024 + (low - 0xdc00))

/-- A high surrogate that no low one follows. -/
def lone (high : Option ℕ) : List Char := if high.isSome then ['\uFFFD'] else []

/-- The characters up to the quote that closes the string, and what follows it; a high surrogate
waits for a low one. -/
def readString : Option ℕ → List Char → Option (List Char × List Char)
  | _, [] => none
  | high, first :: cs =>
    if first = '"' then some (lone high, cs)
    else if first = '\\' then
      match cs with
      | [] => none
      | e :: cs =>
        if e = 'u' then
          match cs with
          | a :: b :: c :: d :: cs =>
            (hex4Value a b c d).bind fun unit =>
              if isHigh unit then (readString (some unit) cs).map fun r => (lone high ++ r.1, r.2)
              else if isLow unit then
                match high with
                | some high =>
                  (readString none cs).map fun r => (ofSurrogates high unit :: r.1, r.2)
                | none => (readString none cs).map fun r => ('\uFFFD' :: r.1, r.2)
              else (readString none cs).map fun r => (lone high ++ Char.ofNat unit :: r.1, r.2)
          | _ => none
        else
          (simpleEscape e).bind fun c =>
            (readString none cs).map fun r => (lone high ++ c :: r.1, r.2)
    else if first.toNat < 0x20 then none
    else (readString none cs).map fun r => (lone high ++ first :: r.1, r.2)

/-- A character that stands for itself between quotes. -/
def isPlain (c : Char) : Bool := 0x20 ≤ c.toNat && c ≠ '"' && c ≠ '\\'

/-- A text between quotes, and the string that it is read as. -/
inductive Body : List Char → List Char → Prop
  | nil : Body [] []
  | plain {c : Char} {x cs : List Char} (hc : isPlain c = true) (h : Body x cs) :
    Body (c :: x) (c :: cs)
  | escape {e c : Char} {x cs : List Char} (he : simpleEscape e = some c) (h : Body x cs) :
    Body ('\\' :: e :: x) (c :: cs)
  | unicode {a b c d : Char} {unit : ℕ} {x cs : List Char} (hunit : hex4Value a b c d = some unit)
    (hhigh : isHigh unit = false) (hlow : isLow unit = false) (h : Body x cs) :
    Body ('\\' :: 'u' :: a :: b :: c :: d :: x) (Char.ofNat unit :: cs)
  | pair {a b c d a' b' c' d' : Char} {high low : ℕ} {x cs : List Char}
    (hhigh : hex4Value a b c d = some high) (hisHigh : isHigh high = true)
    (hlow : hex4Value a' b' c' d' = some low) (hisLow : isLow low = true) (h : Body x cs) :
    Body ('\\' :: 'u' :: a :: b :: c :: d :: '\\' :: 'u' :: a' :: b' :: c' :: d' :: x)
      (ofSurrogates high low :: cs)

theorem readString_quote (high : Option ℕ) (cs : List Char) :
    readString high ('"' :: cs) = some (lone high, cs) := by
  rw [readString.eq_def]
  exact if_pos rfl

theorem readString_plain {c : Char} (hc : isPlain c = true) (cs : List Char) :
    readString none (c :: cs) = (readString none cs).map fun r => (c :: r.1, r.2) := by
  simp only [isPlain, Bool.and_eq_true, decide_eq_true_eq] at hc
  obtain ⟨⟨hlow, hquote⟩, hback⟩ := hc
  rw [readString.eq_def]
  dsimp only
  rw [if_neg hquote, if_neg hback, if_neg (by omega)]
  rfl

theorem readString_escape {e c : Char} (he : simpleEscape e = some c) (cs : List Char) :
    readString none ('\\' :: e :: cs) = (readString none cs).map fun r => (c :: r.1, r.2) := by
  have hne : e ≠ 'u' := by
    rintro rfl
    cases he
  rw [readString.eq_def]
  dsimp only
  rw [if_neg (by decide), if_pos rfl]
  rw [if_neg hne, he]
  rfl

theorem readString_unicode {a b c d : Char} {unit : ℕ} (hunit : hex4Value a b c d = some unit)
    (hhigh : isHigh unit = false) (hlow : isLow unit = false) (cs : List Char) :
    readString none ('\\' :: 'u' :: a :: b :: c :: d :: cs) =
      (readString none cs).map fun r => (Char.ofNat unit :: r.1, r.2) := by
  rw [readString.eq_def]
  dsimp only
  rw [if_neg (by decide), if_pos rfl]
  rw [if_pos rfl, hunit, Option.bind_some, hhigh, hlow, if_neg nofun, if_neg nofun]
  rfl

theorem readString_pair {a b c d a' b' c' d' : Char} {high low : ℕ}
    (hhigh : hex4Value a b c d = some high) (hisHigh : isHigh high = true)
    (hlow : hex4Value a' b' c' d' = some low) (hisLow : isLow low = true) (cs : List Char) :
    readString none
        ('\\' :: 'u' :: a :: b :: c :: d :: '\\' :: 'u' :: a' :: b' :: c' :: d' :: cs) =
      (readString none cs).map fun r => (ofSurrogates high low :: r.1, r.2) := by
  have hnotHigh : isHigh low = false := by
    simp only [isHigh, isLow, Bool.and_eq_true, decide_eq_true_eq, Bool.and_eq_false_iff,
      decide_eq_false_iff_not] at hisLow ⊢
    omega
  rw [readString.eq_def]
  dsimp only
  rw [if_neg (by decide), if_pos rfl]
  rw [if_pos rfl, hhigh, Option.bind_some, if_pos hisHigh, readString.eq_def]
  dsimp only
  rw [if_neg (by decide), if_pos rfl]
  rw [if_pos rfl, hlow, Option.bind_some, hnotHigh, if_neg nofun, if_pos hisLow, Option.map_map]
  rfl

theorem readString_body {x cs : List Char} (h : Body x cs) (rest : List Char) :
    readString none (x ++ '"' :: rest) = some (cs, rest) := by
  induction h with
  | nil => exact readString_quote none rest
  | plain hc _ ih => rw [List.cons_append, readString_plain hc, ih, Option.map_some]
  | escape he _ ih =>
    rw [List.cons_append, List.cons_append, readString_escape he, ih, Option.map_some]
  | unicode hunit hhigh hlow _ ih =>
    simp only [List.cons_append, readString_unicode hunit hhigh hlow, ih, Option.map_some]
  | pair hhigh hisHigh hlow hisLow _ ih =>
    simp only [List.cons_append, readString_pair hhigh hisHigh hlow hisLow, ih, Option.map_some]

theorem Body.append {x y cs ds : List Char} (h : Body x cs) (h' : Body y ds) :
    Body (x ++ y) (cs ++ ds) := by
  induction h with
  | nil => exact h'
  | plain hc _ ih => exact .plain hc ih
  | escape he _ ih => exact .escape he ih
  | unicode hunit hhigh hlow _ ih => exact .unicode hunit hhigh hlow ih
  | pair hhigh hisHigh hlow hisLow _ ih => exact .pair hhigh hisHigh hlow hisLow ih

theorem body_flatMap {f : Char → List Char} {cs : List Char} (h : ∀ c ∈ cs, Body (f c) [c]) :
    Body (cs.flatMap f) cs := by
  induction cs with
  | nil => exact .nil
  | cons c cs ih =>
    rw [List.forall_mem_cons] at h
    exact h.1.append (ih h.2)

/-! ### Numbers -/

def isDigits (cs : List Char) : Bool := cs ≠ [] && cs.all Char.isDigit

/-- The exponent of a number, if there is one. -/
def isExponent : List Char → Bool
  | [] => true
  | e :: cs =>
    (e = 'e' || e = 'E') &&
      match cs with
      | '+' :: cs => isDigits cs
      | '-' :: cs => isDigits cs
      | cs => isDigits cs

/-- What follows the whole part of a number. -/
def isFraction : List Char → Bool
  | '.' :: cs => cs.takeWhile Char.isDigit ≠ [] && isExponent (cs.dropWhile Char.isDigit)
  | cs => isExponent cs

/-- A number without a sign: no zero leads its whole part. -/
def isUnsigned (cs : List Char) : Bool :=
  let whole := cs.takeWhile Char.isDigit
  (whole = ['0'] || (whole ≠ [] && whole.head? ≠ some '0')) &&
    isFraction (cs.dropWhile Char.isDigit)

/-- The text of a number. -/
def isNumber : List Char → Bool
  | '-' :: cs => isUnsigned cs
  | cs => isUnsigned cs

/-- The characters of numbers. -/
def isNumberChar (c : Char) : Bool :=
  c.isDigit || c = '+' || c = '-' || c = '.' || c = 'e' || c = 'E'

/-! ### Values -/

/-- White space between tokens. -/
def isBlank (c : Char) : Bool := c = ' ' || c = '\t' || c = '\n' || c = '\r'

/-- The text behind white space. -/
def skipBlank (cs : List Char) : List Char := cs.dropWhile isBlank

/-- A number goes as far as its characters do: none of them may follow it. -/
def readNumber (number : List Char → Rat) (cs : List Char) : Option (Json × List Char) :=
  let text := cs.takeWhile isNumberChar
  if isNumber text then some (num (number text), cs.dropWhile isNumberChar) else none

mutual

/-- A value, and what follows it. -/
def readValue (number : List Char → Rat) : ℕ → List Char → Option (Json × List Char)
  | 0, _ => none
  | fuel + 1, cs =>
    match skipBlank cs with
    | '\x7b' :: cs =>
      match skipBlank cs with
      | '\x7d' :: cs => some (obj [], cs)
      | cs => (readFields number fuel cs).map fun r => (obj r.1, r.2)
    | '[' :: cs =>
      match skipBlank cs with
      | ']' :: cs => some (arr [], cs)
      | cs => (readItems number fuel cs).map fun r => (arr r.1, r.2)
    | '"' :: cs => (readString none cs).map fun r => (str (String.ofList r.1), r.2)
    | 'n' :: 'u' :: 'l' :: 'l' :: cs => some (null, cs)
    | 't' :: 'r' :: 'u' :: 'e' :: cs => some (bool true, cs)
    | 'f' :: 'a' :: 'l' :: 's' :: 'e' :: cs => some (bool false, cs)
    | cs => readNumber number cs

/-- The elements of an array, up to its bracket. -/
def readItems (number : List Char → Rat) : ℕ → List Char → Option (List Json × List Char)
  | 0, _ => none
  | fuel + 1, cs =>
    (readValue number fuel cs).bind fun item =>
      match skipBlank item.2 with
      | ',' :: cs => (readItems number fuel cs).map fun r => (item.1 :: r.1, r.2)
      | ']' :: cs => some ([item.1], cs)
      | _ => none

/-- The fields of an object, up to its brace. -/
def readFields (number : List Char → Rat) :
    ℕ → List Char → Option (List (String × Json) × List Char)
  | 0, _ => none
  | fuel + 1, cs =>
    match skipBlank cs with
    | '"' :: cs =>
      (readString none cs).bind fun key =>
        match skipBlank key.2 with
        | ':' :: cs =>
          (readValue number fuel cs).bind fun value =>
            match skipBlank value.2 with
            | ',' :: cs =>
              (readFields number fuel cs).map fun r =>
                ((String.ofList key.1, value.1) :: r.1, r.2)
            | '\x7d' :: cs => some ([(String.ofList key.1, value.1)], cs)
            | _ => none
        | _ => none
    | _ => none

end

/-- `JSON.parse`: of fields with one name all are kept.  Each level takes two units of fuel, and a
character at least. -/
def parse (number : List Char → Rat) (cs : List Char) : Option Json :=
  (readValue number (2 * cs.length + 2) cs).bind fun r =>
    if skipBlank r.2 = [] then some r.1 else none

/-! ### Writing -/

/-- The texts of what is no array and no object. -/
structure Writer where
  null : List Char
  yes : List Char
  no : List Char
  number : Rat → List Char
  string : String → List Char

mutual

/-- A value as a text. -/
def layout (w : Writer) : Json → List Char
  | null => w.null
  | bool b => if b then w.yes else w.no
  | num q => w.number q
  | str s => w.string s
  | arr vs => '[' :: layoutItems w [] vs
  | obj kvs => '\x7b' :: layoutFields w [] kvs

/-- The elements of an array, each behind what divides it from the previous one, and the
bracket. -/
def layoutItems (w : Writer) (divider : List Char) : List Json → List Char
  | [] => [']']
  | v :: vs => divider ++ (layout w v ++ layoutItems w [',', ' '] vs)

/-- The fields of an object, and the brace. -/
def layoutFields (w : Writer) (divider : List Char) : List (String × Json) → List Char
  | [] => ['\x7d']
  | (k, v) :: kvs =>
    divider ++ (w.string k ++ (':' :: ' ' :: (layout w v ++ layoutFields w [',', ' '] kvs)))

end

/-! ### Reading what was written -/

mutual

/-- A value with other strings, keys among them, and other numbers. -/
def mapLeaves (f : String → String) (g : Rat → Rat) : Json → Json
  | null => null
  | bool b => bool b
  | num q => num (g q)
  | str s => str (f s)
  | arr vs => arr (mapItems f g vs)
  | obj kvs => obj (mapFields f g kvs)

def mapItems (f : String → String) (g : Rat → Rat) : List Json → List Json
  | [] => []
  | v :: vs => mapLeaves f g v :: mapItems f g vs

def mapFields (f : String → String) (g : Rat → Rat) :
    List (String × Json) → List (String × Json)
  | [] => []
  | (k, v) :: kvs => (f k, mapLeaves f g v) :: mapFields f g kvs

end

mutual

/-- A property of all strings of a value, keys among them. -/
def AllStrings (P : String → Prop) : Json → Prop
  | null | bool _ | num _ => True
  | str s => P s
  | arr vs => AllItems P vs
  | obj kvs => AllFields P kvs

def AllItems (P : String → Prop) : List Json → Prop
  | [] => True
  | v :: vs => AllStrings P v ∧ AllItems P vs

def AllFields (P : String → Prop) : List (String × Json) → Prop
  | [] => True
  | (k, v) :: kvs => P k ∧ AllStrings P v ∧ AllFields P kvs

end

/-- The texts are those of JSON: a string with the property is written so that it is read as `f`
has it. -/
structure Writer.Reads (w : Writer) (P : String → Prop) (f : String → String) : Prop where
  null : w.null = ['n', 'u', 'l', 'l']
  yes : w.yes = ['t', 'r', 'u', 'e']
  no : w.no = ['f', 'a', 'l', 's', 'e']
  number : ∀ q, isNumber (w.number q) = true
  string : ∀ s, P s → ∃ x, w.string s = '"' :: x ++ ['"'] ∧ Body x (f s).toList

theorem isNumberChar_of_isDigit {c : Char} (h : c.isDigit = true) : isNumberChar c = true := by
  simp [isNumberChar, h]

theorem isNumberChar_of_isDigits {cs : List Char} (h : isDigits cs = true) :
    ∀ c ∈ cs, isNumberChar c = true := by
  rw [isDigits, Bool.and_eq_true, List.all_eq_true] at h
  exact fun c hc => isNumberChar_of_isDigit (h.2 c hc)

theorem isNumberChar_of_isExponent {cs : List Char} (h : isExponent cs = true) :
    ∀ c ∈ cs, isNumberChar c = true := by
  cases cs with
  | nil => nofun
  | cons e cs =>
    rw [isExponent.eq_def] at h
    dsimp only at h
    rw [Bool.and_eq_true, Bool.or_eq_true, decide_eq_true_eq, decide_eq_true_eq] at h
    rw [List.forall_mem_cons]
    refine ⟨by rcases h.1 with rfl | rfl <;> decide, ?_⟩
    have hdigits := h.2
    split at hdigits
    · rw [List.forall_mem_cons]
      exact ⟨by decide, isNumberChar_of_isDigits hdigits⟩
    · rw [List.forall_mem_cons]
      exact ⟨by decide, isNumberChar_of_isDigits hdigits⟩
    · exact isNumberChar_of_isDigits hdigits

theorem isNumberChar_of_dropWhile {cs : List Char}
    (h : ∀ c ∈ cs.dropWhile Char.isDigit, isNumberChar c = true) :
    ∀ c ∈ cs, isNumberChar c = true := by
  intro c hc
  rw [← List.takeWhile_append_dropWhile (p := Char.isDigit) (l := cs)] at hc
  rcases List.mem_append.mp hc with hc | hc
  · exact isNumberChar_of_isDigit (List.mem_takeWhile_imp hc)
  · exact h c hc

theorem isNumberChar_of_isFraction {cs : List Char} (h : isFraction cs = true) :
    ∀ c ∈ cs, isNumberChar c = true := by
  unfold isFraction at h
  split at h
  · rw [Bool.and_eq_true] at h
    rw [List.forall_mem_cons]
    exact ⟨by decide, isNumberChar_of_dropWhile (isNumberChar_of_isExponent h.2)⟩
  · exact isNumberChar_of_isExponent h

theorem isNumberChar_of_isUnsigned {cs : List Char} (h : isUnsigned cs = true) :
    ∀ c ∈ cs, isNumberChar c = true := by
  rw [isUnsigned, Bool.and_eq_true] at h
  exact isNumberChar_of_dropWhile (isNumberChar_of_isFraction h.2)

theorem exists_cons_of_isUnsigned {cs : List Char} (h : isUnsigned cs = true) :
    ∃ c rest, cs = c :: rest ∧ c.isDigit = true := by
  rw [isUnsigned, Bool.and_eq_true] at h
  cases cs with
  | nil => exact absurd h.1 (by decide)
  | cons c cs =>
    refine ⟨c, cs, rfl, ?_⟩
    by_contra hnot
    rw [List.takeWhile_cons_of_neg hnot] at h
    exact absurd h.1 (by decide)

theorem isNumber_spec {cs : List Char} (h : isNumber cs = true) :
    (∀ c ∈ cs, isNumberChar c = true) ∧
      ∃ c rest, cs = c :: rest ∧ (c = '-' ∨ c.isDigit = true) := by
  unfold isNumber at h
  split at h
  · rw [List.forall_mem_cons]
    exact ⟨⟨by decide, isNumberChar_of_isUnsigned h⟩, _, _, rfl, .inl rfl⟩
  · obtain ⟨c, rest, hcs, hc⟩ := exists_cons_of_isUnsigned h
    exact ⟨isNumberChar_of_isUnsigned h, c, rest, hcs, .inr hc⟩

/-- No character of a number comes next. -/
def EndsNumber (rest : List Char) : Prop := ∀ c ∈ rest.head?, isNumberChar c = false

theorem readNumber_append (number : List Char → Rat) {text rest : List Char}
    (h : isNumber text = true) (hrest : EndsNumber rest) :
    readNumber number (text ++ rest) = some (num (number text), rest) := by
  have hall := (isNumber_spec h).1
  have htake : (text ++ rest).takeWhile isNumberChar = text := by
    rw [List.takeWhile_append_of_pos hall]
    cases rest with
    | nil => exact List.append_nil text
    | cons c rest =>
      rw [List.takeWhile_cons_of_neg (by simp [hrest c rfl]), List.append_nil]
  have hdrop : (text ++ rest).dropWhile isNumberChar = rest := by
    rw [List.dropWhile_append_of_pos hall]
    cases rest with
    | nil => rfl
    | cons c rest => exact List.dropWhile_cons_of_neg (by simp [hrest c rfl])
  rw [readNumber, htake, hdrop]
  exact if_pos h

theorem skipBlank_cons {c : Char} (h : isBlank c = false) (cs : List Char) :
    skipBlank (c :: cs) = c :: cs :=
  List.dropWhile_cons_of_neg (by simp [h])

@[simp] theorem skipBlank_space (cs : List Char) : skipBlank (' ' :: cs) = skipBlank cs := rfl

theorem readValue_space (number : List Char → Rat) (fuel : ℕ) (cs : List Char) :
    readValue number fuel (' ' :: cs) = readValue number fuel cs := by
  cases fuel with
  | zero => rw [readValue, readValue]
  | succ fuel => rw [readValue, readValue, skipBlank_space]

theorem readItems_space (number : List Char → Rat) (fuel : ℕ) (cs : List Char) :
    readItems number fuel (' ' :: cs) = readItems number fuel cs := by
  cases fuel with
  | zero => rw [readItems, readItems]
  | succ fuel => rw [readItems, readItems, readValue_space]

theorem readFields_space (number : List Char → Rat) (fuel : ℕ) (cs : List Char) :
    readFields number fuel (' ' :: cs) = readFields number fuel cs := by
  cases fuel with
  | zero => rw [readFields, readFields]
  | succ fuel => rw [readFields, readFields, skipBlank_space]

/-- A text that starts as a number does is read as one. -/
theorem readValue_number (number : List Char → Rat) (fuel : ℕ) {c : Char}
    (h : c = '-' ∨ c.isDigit = true) (cs : List Char) :
    readValue number (fuel + 1) (c :: cs) = readNumber number (c :: cs) := by
  have hne : ∀ d : Char, d ≠ '-' → d.isDigit = false → c ≠ d := by
    rintro d hminus hdigit rfl
    rcases h with h | h
    · exact hminus h
    · rw [hdigit] at h
      cases h
  have hblank : isBlank c = false := by
    simp [isBlank, hne ' ' (by decide) (by decide), hne '\t' (by decide) (by decide),
      hne '\n' (by decide) (by decide), hne '\r' (by decide) (by decide)]
  rw [readValue, skipBlank_cons hblank]
  split <;> first
    | next heq => exact absurd (List.cons.inj heq).1 (hne _ (by decide) (by decide))
    | rfl

variable {w : Writer} {P : String → Prop} {f : String → String}

/-- A value starts with no white space and with no bracket that closes. -/
theorem exists_cons_layout (hw : w.Reads P f) {v : Json} (hv : AllStrings P v) :
    ∃ c cs, layout w v = c :: cs ∧ isBlank c = false ∧ c ≠ ']' := by
  cases v with
  | null => exact ⟨_, _, hw.null, by decide, by decide⟩
  | bool b =>
    cases b with
    | true => exact ⟨_, _, hw.yes, by decide, by decide⟩
    | false => exact ⟨_, _, hw.no, by decide, by decide⟩
  | num q =>
    obtain ⟨-, c, rest, hcs, hc⟩ := isNumber_spec (hw.number q)
    refine ⟨c, rest, hcs, ?_⟩
    rcases hc with rfl | hc
    · decide
    · constructor
      · by_contra hnot
        rw [Bool.not_eq_false, isBlank] at hnot
        simp only [Bool.or_eq_true, decide_eq_true_eq] at hnot
        rcases hnot with ((rfl | rfl) | rfl) | rfl <;> exact absurd hc (by decide)
      · rintro rfl
        exact absurd hc (by decide)
  | str s =>
    obtain ⟨x, hx, -⟩ := hw.string s hv
    exact ⟨_, _, hx, by decide, by decide⟩
  | arr vs => exact ⟨_, _, rfl, by decide, by decide⟩
  | obj kvs => exact ⟨_, _, rfl, by decide, by decide⟩

theorem endsNumber_layoutItems (vs : List Json) (rest : List Char) :
    EndsNumber (layoutItems w [',', ' '] vs ++ rest) := by
  rintro c hc
  cases vs with
  | nil =>
    cases hc
    decide
  | cons v vs =>
    cases hc
    decide

theorem endsNumber_layoutFields (kvs : List (String × Json)) (rest : List Char) :
    EndsNumber (layoutFields w [',', ' '] kvs ++ rest) := by
  rintro c hc
  cases kvs with
  | nil =>
    cases hc
    decide
  | cons kv kvs =>
    cases hc
    decide

/-- An array whose elements are read. -/
theorem readValue_bracket {number : List Char → Rat} {fuel : ℕ} {c : Char} {cs rest : List Char}
    {vs : List Json} (hblank : isBlank c = false) (hclose : c ≠ ']')
    (h : readItems number fuel (c :: cs) = some (vs, rest)) :
    readValue number (fuel + 1) ('[' :: c :: cs) = some (arr vs, rest) := by
  have hread : readValue number (fuel + 1) ('[' :: c :: cs) =
      match skipBlank (c :: cs) with
      | ']' :: cs => some (arr [], cs)
      | cs => (readItems number fuel cs).map fun r => (arr r.1, r.2) := rfl
  rw [hread, skipBlank_cons hblank]
  split
  · next heq => exact absurd (List.cons.inj heq).1 hclose
  · rw [h]
    rfl

theorem readValue_brace {number : List Char → Rat} {fuel : ℕ} {cs rest : List Char}
    {kvs : List (String × Json)} (h : readFields number fuel ('"' :: cs) = some (kvs, rest)) :
    readValue number (fuel + 1) ('\x7b' :: '"' :: cs) = some (obj kvs, rest) := by
  have hread : readValue number (fuel + 1) ('\x7b' :: '"' :: cs) =
      (readFields number fuel ('"' :: cs)).map fun r => (obj r.1, r.2) := rfl
  rw [hread, h]
  rfl

theorem readValue_quote (number : List Char → Rat) (fuel : ℕ) (cs : List Char) :
    readValue number (fuel + 1) ('"' :: cs) =
      (readString none cs).map fun r => (str (String.ofList r.1), r.2) := rfl

/-- The fields behind a key. -/
theorem readFields_key {number : List Char → Rat} {fuel : ℕ} {x key cs : List Char}
    (h : Body x key) : readFields number (fuel + 1) ('"' :: (x ++ '"' :: ':' :: cs)) =
      (readValue number fuel cs).bind fun value =>
        match skipBlank value.2 with
        | ',' :: cs =>
          (readFields number fuel cs).map fun r => ((String.ofList key, value.1) :: r.1, r.2)
        | '\x7d' :: cs => some ([(String.ofList key, value.1)], cs)
        | _ => none := by
  have hread : readFields number (fuel + 1) ('"' :: (x ++ '"' :: ':' :: cs)) =
      (readString none (x ++ '"' :: ':' :: cs)).bind fun key =>
        match skipBlank key.2 with
        | ':' :: cs =>
          (readValue number fuel cs).bind fun value =>
            match skipBlank value.2 with
            | ',' :: cs =>
              (readFields number fuel cs).map fun r => ((String.ofList key.1, value.1) :: r.1, r.2)
            | '\x7d' :: cs => some ([(String.ofList key.1, value.1)], cs)
            | _ => none
        | _ => none := rfl
  rw [hread, readString_body h]
  rfl

mutual

/-- **A value is read back**, where the text that follows it is none of a number. -/
theorem readValue_layout (hw : w.Reads P f) (number : List Char → Rat) :
    ∀ (v : Json), AllStrings P v → ∀ (fuel : ℕ) (rest : List Char),
      2 * (layout w v).length < fuel → EndsNumber rest →
        readValue number fuel (layout w v ++ rest) =
          some (mapLeaves f (fun q => number (w.number q)) v, rest)
  | _, _, 0, _, hfuel, _ => absurd hfuel (Nat.not_lt_zero _)
  | null, _, fuel + 1, rest, _, _ => by
    rw [layout, hw.null]
    rfl
  | bool true, _, fuel + 1, rest, _, _ => by
    rw [layout, if_pos rfl, hw.yes]
    rfl
  | bool false, _, fuel + 1, rest, _, _ => by
    rw [layout, if_neg nofun, hw.no]
    rfl
  | num q, _, fuel + 1, rest, _, hrest => by
    obtain ⟨-, c, cs, hcs, hc⟩ := isNumber_spec (hw.number q)
    have hread := readNumber_append number (hw.number q) hrest
    rw [layout, mapLeaves, ← hread, hcs]
    exact readValue_number number fuel hc _
  | str s, hs, fuel + 1, rest, _, _ => by
    obtain ⟨x, hx, hbody⟩ := hw.string s hs
    rw [layout, hx, mapLeaves, List.append_assoc, List.cons_append, List.singleton_append,
      readValue_quote, readString_body hbody, Option.map_some, String.ofList_toList]
  | arr [], _, fuel + 1, rest, _, _ => rfl
  | arr (v :: vs), hvs, fuel + 1, rest, hfuel, hrest => by
    obtain ⟨c, cs, hcs, hblank, hclose⟩ := exists_cons_layout hw hvs.1
    have hitems := readItems_layout hw number (v :: vs) hvs (List.cons_ne_nil v vs) fuel rest
      (by rw [layout, List.length_cons] at hfuel; omega)
    rw [layout, mapLeaves]
    rw [layoutItems, List.nil_append, hcs] at hitems ⊢
    exact readValue_bracket hblank hclose hitems
  | obj [], _, fuel + 1, rest, _, _ => rfl
  | obj ((k, v) :: kvs), hkvs, fuel + 1, rest, hfuel, hrest => by
    obtain ⟨x, hx, -⟩ := hw.string k hkvs.1
    have hfields := readFields_layout hw number ((k, v) :: kvs) hkvs (List.cons_ne_nil _ _) fuel
      rest (by rw [layout, List.length_cons] at hfuel; omega)
    rw [layout, mapLeaves]
    rw [layoutFields, List.nil_append, hx] at hfields ⊢
    exact readValue_brace hfields

/-- The elements are read back. -/
theorem readItems_layout (hw : w.Reads P f) (number : List Char → Rat) :
    ∀ (vs : List Json), AllItems P vs → vs ≠ [] → ∀ (fuel : ℕ) (rest : List Char),
      2 * (layoutItems w [] vs).length < fuel →
        readItems number fuel (layoutItems w [] vs ++ rest) =
          some (mapItems f (fun q => number (w.number q)) vs, rest)
  | [], _, hne, _, _, _ => absurd rfl hne
  | _, _, _, 0, _, hfuel => absurd hfuel (Nat.not_lt_zero _)
  | v :: vs, hvs, _, fuel + 1, rest, hfuel => by
    rw [layoutItems, List.nil_append, List.length_append] at hfuel
    have hvalue := readValue_layout hw number v hvs.1 fuel (layoutItems w [',', ' '] vs ++ rest)
      (by cases vs <;> simp [layoutItems] at hfuel ⊢ <;> omega) (endsNumber_layoutItems vs rest)
    rw [layoutItems, List.nil_append, List.append_assoc, readItems, hvalue, Option.bind_some]
    cases vs with
    | nil => rfl
    | cons v' vs' =>
      have hrest := readItems_layout hw number (v' :: vs') hvs.2 (List.cons_ne_nil _ _) fuel rest
        (by simp [layoutItems] at hfuel ⊢; omega)
      rw [layoutItems, List.nil_append] at hrest
      rw [layoutItems, mapItems]
      simp only [List.cons_append, List.nil_append, skipBlank_cons (c := ',') (by decide),
        readItems_space, hrest, Option.map_some]

/-- The fields are read back. -/
theorem readFields_layout (hw : w.Reads P f) (number : List Char → Rat) :
    ∀ (kvs : List (String × Json)), AllFields P kvs → kvs ≠ [] → ∀ (fuel : ℕ) (rest : List Char),
      2 * (layoutFields w [] kvs).length < fuel →
        readFields number fuel (layoutFields w [] kvs ++ rest) =
          some (mapFields f (fun q => number (w.number q)) kvs, rest)
  | [], _, hne, _, _, _ => absurd rfl hne
  | _, _, _, 0, _, hfuel => absurd hfuel (Nat.not_lt_zero _)
  | (k, v) :: kvs, hkvs, _, fuel + 1, rest, hfuel => by
    obtain ⟨x, hx, hbody⟩ := hw.string k hkvs.1
    rw [layoutFields, List.nil_append, List.length_append, List.length_cons, List.length_cons,
      List.length_append] at hfuel
    have hvalue := readValue_layout hw number v hkvs.2.1 fuel
      (layoutFields w [',', ' '] kvs ++ rest)
      (by cases kvs <;> simp [layoutFields] at hfuel ⊢ <;> omega)
      (endsNumber_layoutFields kvs rest)
    have htext : layoutFields w [] ((k, v) :: kvs) ++ rest =
        '"' :: (x ++ '"' :: ':' :: ' ' ::
          (layout w v ++ (layoutFields w [',', ' '] kvs ++ rest))) := by
      simp [layoutFields, hx]
    rw [htext, readFields_key hbody, readValue_space, hvalue, Option.bind_some,
      String.ofList_toList]
    cases kvs with
    | nil => rfl
    | cons kv' kvs' =>
      have hrest := readFields_layout hw number (kv' :: kvs') hkvs.2.2 (List.cons_ne_nil _ _) fuel
        rest (by simp [layoutFields] at hfuel ⊢; omega)
      have hdivided : layoutFields w [',', ' '] (kv' :: kvs') ++ rest =
          ',' :: ' ' :: (layoutFields w [] (kv' :: kvs') ++ rest) := by
        simp [layoutFields]
      rw [hdivided]
      simp only [skipBlank_cons (c := ',') (by decide), readFields_space, hrest, Option.map_some]
      rfl

end

/-- **What was written is parsed**, with the strings that its texts stand for. -/
theorem parse_layout (hw : w.Reads P f) (number : List Char → Rat) {v : Json}
    (hv : AllStrings P v) :
    parse number (layout w v) = some (mapLeaves f (fun q => number (w.number q)) v) := by
  have hread := readValue_layout hw number v hv (2 * (layout w v).length + 2) [] (by omega) nofun
  rw [List.append_nil] at hread
  rw [parse, hread]
  rfl

/-! ### Texts that are changed -/

/-- The characters of the layout. -/
def isDivider (c : Char) : Bool :=
  c = ' ' || c = ',' || c = ':' || c = '[' || c = ']' || c = '\x7b' || c = '\x7d'

/-- A change of texts goes through the layout, and makes the texts of one writer those of
another. -/
structure Writer.Through (T : List Char → List Char) (w w' : Writer) (P : String → Prop) :
    Prop where
  nil : T [] = []
  divider : ∀ c, isDivider c = true → ∀ x y, T (x ++ c :: y) = T x ++ c :: T y
  null : T w.null = w'.null
  yes : T w.yes = w'.yes
  no : T w.no = w'.no
  number : ∀ q, T (w.number q) = w'.number q
  string : ∀ s, P s → T (w.string s) = w'.string s

variable {T : List Char → List Char} {w' : Writer}

theorem Writer.Through.cons (h : w.Through T w' P) {c : Char} (hc : isDivider c = true)
    (x : List Char) : T (c :: x) = c :: T x := by
  have hdivider := h.divider c hc [] x
  rwa [h.nil, List.nil_append, List.nil_append] at hdivider

mutual

/-- **The text of a value becomes that of the other writer.** -/
theorem layout_through (h : w.Through T w' P) : ∀ v : Json, AllStrings P v →
    T (layout w v) = layout w' v
  | null, _ => h.null
  | bool true, _ => h.yes
  | bool false, _ => h.no
  | num q, _ => h.number q
  | str s, hs => h.string s hs
  | arr vs, hvs => by
    rw [layout, layout, h.cons (by decide), items_through h vs hvs]
  | obj kvs, hkvs => by
    rw [layout, layout, h.cons (by decide), fields_through h kvs hkvs]

theorem items_through (h : w.Through T w' P) : ∀ vs : List Json, AllItems P vs →
    T (layoutItems w [] vs) = layoutItems w' [] vs
  | [], _ => by
    rw [layoutItems, layoutItems, h.cons (by decide), h.nil]
  | v :: [], hvs => by
    have hclose := h.divider ']' (by decide) (layout w v) []
    rw [h.nil] at hclose
    simp only [layoutItems, List.nil_append, hclose, layout_through h v hvs.1]
  | v :: v' :: vs, hvs => by
    have hrest := items_through h (v' :: vs) hvs.2
    rw [layoutItems, List.nil_append] at hrest
    rw [layoutItems, List.nil_append, layoutItems, List.cons_append,
      h.divider ',' (by decide), layout_through h v hvs.1, List.cons_append, List.nil_append,
      h.cons (by decide), hrest]
    simp [layoutItems]

theorem fields_through (h : w.Through T w' P) : ∀ kvs : List (String × Json), AllFields P kvs →
    T (layoutFields w [] kvs) = layoutFields w' [] kvs
  | [], _ => by
    rw [layoutFields, layoutFields, h.cons (by decide), h.nil]
  | (k, v) :: [], hkvs => by
    have hclose := h.divider '\x7d' (by decide) (layout w v) []
    rw [h.nil] at hclose
    rw [layoutFields, List.nil_append, h.divider ':' (by decide), h.string k hkvs.1,
      h.cons (by decide), layoutFields, hclose, layout_through h v hkvs.2.1]
    simp [layoutFields]
  | (k, v) :: kv' :: kvs, hkvs => by
    have hrest := fields_through h (kv' :: kvs) hkvs.2.2
    have hdivided : ∀ u : Writer, layoutFields u [',', ' '] (kv' :: kvs) =
        ',' :: ' ' :: layoutFields u [] (kv' :: kvs) := fun u => rfl
    rw [layoutFields, List.nil_append, h.divider ':' (by decide), h.string k hkvs.1,
      h.cons (by decide), hdivided, h.divider ',' (by decide), layout_through h v hkvs.2.1,
      h.cons (by decide), hrest]
    simp [layoutFields]

end

mutual

theorem mapLeaves_congr {f f' : String → String} {g : Rat → Rat} (h : ∀ s, P s → f s = f' s) :
    ∀ v : Json, AllStrings P v → mapLeaves f g v = mapLeaves f' g v
  | null, _ | bool _, _ | num _, _ => rfl
  | str s, hs => congrArg str (h s hs)
  | arr vs, hvs => congrArg arr (mapItems_congr h vs hvs)
  | obj kvs, hkvs => congrArg obj (mapFields_congr h kvs hkvs)

theorem mapItems_congr {f f' : String → String} {g : Rat → Rat} (h : ∀ s, P s → f s = f' s) :
    ∀ vs : List Json, AllItems P vs → mapItems f g vs = mapItems f' g vs
  | [], _ => rfl
  | v :: vs, hvs => congrArg₂ List.cons (mapLeaves_congr h v hvs.1) (mapItems_congr h vs hvs.2)

theorem mapFields_congr {f f' : String → String} {g : Rat → Rat} (h : ∀ s, P s → f s = f' s) :
    ∀ kvs : List (String × Json), AllFields P kvs → mapFields f g kvs = mapFields f' g kvs
  | [], _ => rfl
  | (k, v) :: kvs, hkvs =>
    congrArg₂ List.cons (congrArg₂ Prod.mk (h k hkvs.1) (mapLeaves_congr h v hkvs.2.1))
      (mapFields_congr h kvs hkvs.2.2)

theorem AllStrings.mono {Q : String → Prop} (h : ∀ s, P s → Q s) :
    ∀ v : Json, AllStrings P v → AllStrings Q v
  | null, _ | bool _, _ | num _, _ => trivial
  | str s, hs => h s hs
  | arr vs, hvs => AllItems.mono h vs hvs
  | obj kvs, hkvs => AllFields.mono h kvs hkvs

theorem AllItems.mono {Q : String → Prop} (h : ∀ s, P s → Q s) :
    ∀ vs : List Json, AllItems P vs → AllItems Q vs
  | [], _ => trivial
  | v :: vs, hvs => ⟨AllStrings.mono h v hvs.1, AllItems.mono h vs hvs.2⟩

theorem AllFields.mono {Q : String → Prop} (h : ∀ s, P s → Q s) :
    ∀ kvs : List (String × Json), AllFields P kvs → AllFields Q kvs
  | [], _ => trivial
  | (k, v) :: kvs, hkvs =>
    ⟨h k hkvs.1, AllStrings.mono h v hkvs.2.1, AllFields.mono h kvs hkvs.2.2⟩

end

mutual

theorem mapLeaves_id : ∀ v : Json, mapLeaves id id v = v
  | null | bool _ | num _ | str _ => rfl
  | arr vs => congrArg arr (mapItems_id vs)
  | obj kvs => congrArg obj (mapFields_id kvs)

theorem mapItems_id : ∀ vs : List Json, mapItems id id vs = vs
  | [] => rfl
  | v :: vs => congrArg₂ List.cons (mapLeaves_id v) (mapItems_id vs)

theorem mapFields_id : ∀ kvs : List (String × Json), mapFields id id kvs = kvs
  | [] => rfl
  | (k, v) :: kvs =>
    congrArg₂ List.cons (congrArg (Prod.mk k) (mapLeaves_id v)) (mapFields_id kvs)

end

mutual

theorem allStrings_true : ∀ v : Json, AllStrings (fun _ => True) v
  | null | bool _ | num _ | str _ => trivial
  | arr vs => allItems_true vs
  | obj kvs => allFields_true kvs

theorem allItems_true : ∀ vs : List Json, AllItems (fun _ => True) vs
  | [] => trivial
  | v :: vs => ⟨allStrings_true v, allItems_true vs⟩

theorem allFields_true : ∀ kvs : List (String × Json), AllFields (fun _ => True) kvs
  | [] => trivial
  | (_, v) :: kvs => ⟨trivial, allStrings_true v, allFields_true kvs⟩

end

end Json
