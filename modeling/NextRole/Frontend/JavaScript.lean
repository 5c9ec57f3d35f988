import Mathlib.Data.List.DropRight
import NextRole.Lib.Json

/-!
# What JavaScript's built-in functions do

## Main definitions

* `jsTruthy` — whether a condition on a value is taken.
* `jsSpace`, `jsTrim` — white space.
* `Pattern`, `matchItems`, `matchAll` — regular expressions that are lists of items.
-/

namespace NextRole

/-- Whether `!!value` is true; what is missing is undefined. -/
def jsTruthy : Option Json → Bool
  | none | some .null | some (.bool false) | some (.str "") => false
  | some (.num q) => q ≠ 0
  | some _ => true

/-- White space and the ends of lines, as `trim` and `\s` take them. -/
def jsSpace (c : Char) : Bool :=
  (0x9 ≤ c.val && c.val ≤ 0xd) || c = ' ' || c.val = 0xa0 || c.val = 0x1680 ||
    (0x2000 ≤ c.val && c.val ≤ 0x200a) || c.val = 0x2028 || c.val = 0x2029 || c.val = 0x202f ||
    c.val = 0x205f || c.val = 0x3000 || c.val = 0xfeff

/-- `trim`. -/
def jsTrim (s : String) : String :=
  String.ofList ((s.toList.dropWhile jsSpace).rdropWhile jsSpace)

/-! ### Regular expressions -/

/-- An item of a regular expression. -/
inductive PatternItem
  /-- `^` with the flag `m`. -/
  | lineStart
  | char (c : Char)
  /-- Characters of a class, as many as `*` or `+` takes, which may be as few as possible. -/
  | run (among : Char → Bool) (atLeast : ℕ) (isLazy captured : Bool)

abbrev Pattern := List PatternItem

def jsLineEnd (c : Char) : Bool := c = '\n' || c = '\r' || c.val = 0x2028 || c.val = 0x2029

/-- What is captured of a match at this place, and what follows it: the first length of a run with
which the rest matches counts. -/
def matchItems : Pattern → Option Char → List Char → Option (List (List Char) × List Char)
  | [], _, cs => some ([], cs)
  | .lineStart :: items, before, cs =>
    if before.all jsLineEnd then matchItems items before cs else none
  | .char c :: items, _, cs =>
    match cs with
    | [] => none
    | first :: cs => if first = c then matchItems items (some c) cs else none
  | .run among atLeast isLazy captured :: items, before, cs =>
    let longest := (cs.takeWhile among).length
    let lengths := List.range' atLeast (longest + 1 - atLeast)
    (if isLazy then lengths else lengths.reverse).findSome? fun n =>
      (matchItems items ((cs.take n).getLast?.or before) (cs.drop n)).map fun found =>
        (if captured then cs.take n :: found.1 else found.1, found.2)

/-- What `exec` captures with the flag `g`, until it finds no match; so many characters of the last
match are to be skipped.  A match is never empty. -/
def matchAll (pattern : Pattern) : Option Char → ℕ → List Char → List (List (List Char))
  | _, _, [] => []
  | _, skip + 1, c :: cs => matchAll pattern (some c) skip cs
  | before, 0, c :: cs =>
    match matchItems pattern before (c :: cs) with
    | some (captured, rest) =>
      captured :: matchAll pattern (some c) (cs.length - rest.length) cs
    | none => matchAll pattern (some c) 0 cs

end NextRole
