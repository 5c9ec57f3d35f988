import NextRole.Lib.JsonText

/-!
# Values as Python writes them

`json.dumps` and `str` of a value write arrays and objects in one layout, and differ in how they
write strings, `None`, `True` and `False`.  Which characters outside ASCII can be printed, and how
numbers are written, are parameters.

## Main definitions

* `PyText` — the parameters.
* `jsonEscape`, `jsonDumps` — `json.dumps`.
* `pyRepr`, `pyStr` — `repr` of a string and `str` of a value.
-/

namespace NextRole

open Json

/-- How Python writes: which characters outside ASCII it prints, and the texts of numbers, which are
numbers of JSON. -/
structure PyText where
  printable : Char → Bool
  number : Rat → List Char
  isNumber_number : ∀ q, isNumber (number q) = true

/-! ### Escapes -/

def hex2 (n : ℕ) : List Char := [hexDigit (n / 16), hexDigit (n % 16)]

def hex4 (n : ℕ) : List Char :=
  [hexDigit (n / 4096), hexDigit (n / 256 % 16), hexDigit (n / 16 % 16), hexDigit (n % 16)]

/-- `\uXXXX`. -/
def unicodeEscape (n : ℕ) : List Char := '\\' :: 'u' :: hex4 n

/-- A character in a string of `json.dumps`: outside ASCII it is escaped if `ensure_ascii` is set,
as two surrogates where four digits do not hold it. -/
def jsonEscape (ensureAscii : Bool) (c : Char) : List Char :=
  if c = '"' then ['\\', '"']
  else if c = '\\' then ['\\', '\\']
  else if c = '\n' then ['\\', 'n']
  else if c = '\r' then ['\\', 'r']
  else if c = '\t' then ['\\', 't']
  else if c = '\x0c' then ['\\', 'f']
  else if c = '\x08' then ['\\', 'b']
  else if c.toNat < 0x20 || (ensureAscii && 0x7e < c.toNat) then
    if c.toNat < 0x10000 then unicodeEscape c.toNat
    else
      unicodeEscape (0xd800 + (c.toNat - 0x10000) / 1024) ++
        unicodeEscape (0xdc00 + (c.toNat - 0x10000) % 1024)
  else [c]

/-- A character in `repr` of a string. -/
def reprEscape (py : PyText) (quote c : Char) : List Char :=
  if c = quote || c = '\\' then ['\\', c]
  else if c = '\n' then ['\\', 'n']
  else if c = '\r' then ['\\', 'r']
  else if c = '\t' then ['\\', 't']
  else if c.toNat < 0x20 || c.toNat = 0x7f then '\\' :: 'x' :: hex2 c.toNat
  else if c.toNat < 0x7f || py.printable c then [c]
  else if c.toNat < 0x100 then '\\' :: 'x' :: hex2 c.toNat
  else if c.toNat < 0x10000 then unicodeEscape c.toNat
  else '\\' :: 'U' :: hex4 (c.toNat / 65536) ++ hex4 (c.toNat % 65536)

/-- The quote of `repr`: a single one, unless the string has some and no double one. -/
def reprQuote (s : List Char) : Char := if s.contains '\'' && !s.contains '"' then '"' else '\''

/-- `repr` of a string. -/
def pyRepr (py : PyText) (s : String) : List Char :=
  reprQuote s.toList :: s.toList.flatMap (reprEscape py (reprQuote s.toList)) ++
    [reprQuote s.toList]

/-! ### Values -/

def dumpsWriter (py : PyText) (ensureAscii : Bool) : Writer where
  null := ['n', 'u', 'l', 'l']
  yes := ['t', 'r', 'u', 'e']
  no := ['f', 'a', 'l', 's', 'e']
  number := py.number
  string s := '"' :: s.toList.flatMap (jsonEscape ensureAscii) ++ ['"']

/-- `json.dumps(v, ensure_ascii=...)`. -/
def jsonDumps (py : PyText) (ensureAscii : Bool) (v : Json) : String :=
  String.ofList (layout (dumpsWriter py ensureAscii) v)

def strWriter (py : PyText) : Writer where
  null := ['N', 'o', 'n', 'e']
  yes := ['T', 'r', 'u', 'e']
  no := ['F', 'a', 'l', 's', 'e']
  number := py.number
  string := pyRepr py

/-- `str(v)`. -/
def pyStr (py : PyText) (v : Json) : String := String.ofList (layout (strWriter py) v)

/-! ### What is read back -/

theorem toNat_lt (c : Char) : c.toNat < 0x110000 := by
  rcases c.valid with h | h
  · exact lt_trans h (by decide)
  · exact h.2

theorem not_surrogate (c : Char) : c.toNat < 0xd800 ∨ 0xdfff < c.toNat :=
  c.valid.imp id And.left

theorem body_unicodeEscape {c : Char} (h : c.toNat < 0x10000) :
    Body (unicodeEscape c.toNat) [c] := by
  have hnot := not_surrogate c
  have hhigh : isHigh c.toNat = false := by
    simp only [isHigh, Bool.and_eq_false_iff, decide_eq_false_iff_not]
    omega
  have hlow : isLow c.toNat = false := by
    simp only [isLow, Bool.and_eq_false_iff, decide_eq_false_iff_not]
    omega
  have hbody := Body.unicode (hex4Value_hexDigit h) hhigh hlow .nil
  rwa [Char.ofNat_toNat] at hbody

/-- A character of two surrogates is read back. -/
theorem body_surrogates {c : Char} (h : 0x10000 ≤ c.toNat) :
    Body (unicodeEscape (0xd800 + (c.toNat - 0x10000) / 1024) ++
      unicodeEscape (0xdc00 + (c.toNat - 0x10000) % 1024)) [c] := by
  have hlt := toNat_lt c
  have hhigh : isHigh (0xd800 + (c.toNat - 0x10000) / 1024) = true := by
    simp only [isHigh, Bool.and_eq_true, decide_eq_true_eq]
    omega
  have hlow : isLow (0xdc00 + (c.toNat - 0x10000) % 1024) = true := by
    simp only [isLow, Bool.and_eq_true, decide_eq_true_eq]
    omega
  have hchar : ofSurrogates (0xd800 + (c.toNat - 0x10000) / 1024)
      (0xdc00 + (c.toNat - 0x10000) % 1024) = c := by
    rw [ofSurrogates, show 0x10000 + (0xd800 + (c.toNat - 0x10000) / 1024 - 0xd800) * 1024 +
      (0xdc00 + (c.toNat - 0x10000) % 1024 - 0xdc00) = c.toNat by omega, Char.ofNat_toNat]
  have hbody := Body.pair (hex4Value_hexDigit (n := 0xd800 + (c.toNat - 0x10000) / 1024) (by omega))
    hhigh (hex4Value_hexDigit (n := 0xdc00 + (c.toNat - 0x10000) % 1024) (by omega)) hlow .nil
  rwa [hchar] at hbody

/-- A character is read back as `json.dumps` writes it. -/
theorem body_jsonEscape (ensureAscii : Bool) (c : Char) : Body (jsonEscape ensureAscii c) [c] := by
  unfold jsonEscape
  split_ifs with hquote hback hnl hcr htab hff hbs hescaped hlt
  · subst hquote
    exact .escape rfl .nil
  · subst hback
    exact .escape rfl .nil
  · subst hnl
    exact .escape rfl .nil
  · subst hcr
    exact .escape rfl .nil
  · subst htab
    exact .escape rfl .nil
  · subst hff
    exact .escape rfl .nil
  · subst hbs
    exact .escape rfl .nil
  · exact body_unicodeEscape hlt
  · exact body_surrogates (Nat.le_of_not_lt hlt)
  · refine .plain ?_ .nil
    simp only [isPlain, Bool.and_eq_true, decide_eq_true_eq]
    rw [Bool.or_eq_true, decide_eq_true_eq, not_or] at hescaped
    exact ⟨⟨Nat.le_of_not_lt hescaped.1, hquote⟩, hback⟩

/-- **`json.dumps` is read back**, whatever the value. -/
theorem reads_dumpsWriter (py : PyText) (ensureAscii : Bool) :
    (dumpsWriter py ensureAscii).Reads (fun _ => True) id where
  null := rfl
  yes := rfl
  no := rfl
  number := py.isNumber_number
  string _ _ := ⟨_, rfl, body_flatMap fun c _ => body_jsonEscape ensureAscii c⟩

end NextRole
