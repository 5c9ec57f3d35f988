import Mathlib.Data.Option.Basic
import Mathlib.Order.Lattice

/-!
# Values that expire

A cell holds a value and perhaps a time from which on it is empty.

## Main definitions

* `Expiring` — a value with its time.
* `Expiring.read` — what a reader finds in a cell.

## Main results

* `Expiring.read_eq_some`, `Expiring.read_eq_none` — when something is found and when not.
-/

/-- A value, and the time from which on it is gone, if there is one. -/
structure Expiring (α T : Type*) where
  value : α
  expiresAt : Option T := none
  deriving DecidableEq

namespace Expiring

variable {α T : Type*} [LinearOrder T]

/-- Whether the value is still there. -/
def alive (now : T) (k : Expiring α T) : Bool := k.expiresAt.all fun t => now < t

/-- What a reader finds. -/
def read (now : T) (cell : Option (Expiring α T)) : Option α :=
  (cell.filter (alive now)).map value

theorem read_eq_some {now : T} {cell : Option (Expiring α T)} {a : α} :
    read now cell = some a ↔ ∃ k, cell = some k ∧ k.alive now = true ∧ k.value = a := by
  simp [read, Option.filter_eq_some_iff, and_assoc]

theorem read_eq_none {now : T} {cell : Option (Expiring α T)} :
    read now cell = none ↔ ∀ k, cell = some k → k.alive now = false := by
  cases cell with
  | none => simp [read]
  | some k => simp [read, Option.filter_eq_none_iff]

end Expiring
