import Mathlib.Data.List.Basic

/-!
# The preferences file

`EnsurePreferencesFileMiddleware` of `agents/career_agent/middleware.py`.  Before a run the hook
reads the preferences file, and writes the scaffold if the result of the read has an error.  The
hooks of several runs of one user work on one file, next to the writes of the user and of the
agents; reads and writes of the store are single steps.

## Main definitions

* `preferencesScaffold`, `seeds` — what the hook writes, and when.
* `PreferencesStore`, `PreferencesAction`, `PreferencesStore.step` — the file and its hooks.
* `lastSaved` — what users and agents have saved.
-/

namespace NextRole

/-- `PREFERENCES_PATH`. -/
def preferencesPath : String := "/memory/preferences.md"

/-- `_PREFERENCES_SCAFFOLD`. -/
def preferencesScaffold : String :=
  "# Saved preferences\n\n" ++
  "Standing preferences for how to prepare this user's materials. Apply the relevant\n" ++
  "ones on every run, and fold them into subagent task descriptions.\n\n" ++
  "## Research\n\n## Tailored resume\n\n## Interview prep\n\n## Battlecard\n\n## General\n"

/-- How a read may go wrong: with an error in its result, or with an exception. -/
inductive ReadFault
  | none
  | error (message : String)
  | raised
  deriving Repr, DecidableEq

/-- The `error` of a read of the file; the outer `none` is an exception. -/
def readError (file : Option String) : ReadFault → Option (Option String)
  | .none => some (if file.isSome then .none else some ("File '" ++ preferencesPath ++ "' not found"))
  | .error message => some (some message)
  | .raised => .none

/-- `before_agent` and `abefore_agent` up to their write: whether they go on to it.  An exception is
logged. -/
def seeds (file : Option String) (fault : ReadFault) : Bool :=
  match readError file fault with
  | some error => error.isSome
  | none => false

/-- The file, and the hooks that have read it and go on to write the scaffold. -/
structure PreferencesStore (ι : Type) where
  file : Option String := none
  pending : List ι := []

/-- A hook reads, or writes the scaffold; or a user or an agent leaves a text in the file, by a write
or an edit, or deletes the file. -/
inductive PreferencesAction (ι : Type)
  | probe (hook : ι) (fault : ReadFault)
  | seed (hook : ι) (fails : Bool)
  | save (text : String)
  | delete

variable {ι : Type} [DecidableEq ι]

/-- One step; only a hook that goes on to its write writes. -/
def PreferencesStore.step (s : PreferencesStore ι) : PreferencesAction ι → PreferencesStore ι
  | .probe hook fault => if seeds s.file fault then { s with pending := hook :: s.pending } else s
  | .seed hook fails =>
    if hook ∈ s.pending then
      { file := if fails then s.file else some preferencesScaffold
        pending := s.pending.erase hook }
    else s
  | .save text => { s with file := some text }
  | .delete => { s with file := none }

/-- The store after some steps, from the start. -/
def preferencesAfter (actions : List (PreferencesAction ι)) : PreferencesStore ι :=
  actions.foldl PreferencesStore.step {}

/-- What a step leaves of what users and agents have saved. -/
def PreferencesAction.leaves (saved : Option String) : PreferencesAction ι → Option String
  | .save text => some text
  | .delete => none
  | _ => saved

/-- What users and agents have saved last and not deleted. -/
def lastSaved (actions : List (PreferencesAction ι)) : Option String :=
  actions.foldl PreferencesAction.leaves none

end NextRole
