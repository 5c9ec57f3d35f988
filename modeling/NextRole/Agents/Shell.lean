import NextRole.Agents.Scratch
import NextRole.Lib.Holes

/-!
# The shell of the career agent

`career_agent/shell_backend.py`: in a command, the words that name files of the agent's virtual file
system are replaced by the paths of these files on disk.  The words are found by `shlex.split`, and
replaced in the text of the command by `str.replace`.

There are no symbolic links, and every name is one that the operating system takes.

## Main definitions

* `ShlexState`, `shlexSplit` — the words of a command.
* `rewriteToken` — the path on disk of a word.
* `replacements`, `translate` — the command with the words replaced.
-/

namespace NextRole

/-! ### Words of a command -/

/-- `shlex.whitespace`. -/
def isShlexSpace (c : Char) : Bool := c = ' ' || c = '\t' || c = '\r' || c = '\n'

/-- `shlex.quotes`. -/
def isShlexQuote (c : Char) : Bool := c = '\'' || c = '"'

/-- Where `shlex` stands, with the word that it is in: between words, in a word, in quotes, after a
backslash, or after a backslash in double quotes. -/
inductive ShlexState (α : Type)
  | blank
  | word (cur : List α)
  | quote (q : Char) (cur : List α)
  | escape (cur : List α)
  | quoteEscape (cur : List α)
  deriving DecidableEq

namespace ShlexState

variable {α : Type}

/-- A character is read: the word that it ends, if any, and the next state.  A character of a word
is kept as `char` says. -/
def step (char : Char → α) : ShlexState α → Char → Option (List α) × ShlexState α
  | .blank, c =>
    if isShlexSpace c then (none, .blank)
    else if c = '\\' then (none, .escape [])
    else if isShlexQuote c then (none, .quote c [])
    else (none, .word [char c])
  | .word cur, c =>
    if isShlexSpace c then (some cur, .blank)
    else if isShlexQuote c then (none, .quote c cur)
    else if c = '\\' then (none, .escape cur)
    else (none, .word (cur ++ [char c]))
  | .quote q cur, c =>
    if c = q then (none, .word cur)
    else if c = '\\' && q = '"' then (none, .quoteEscape cur)
    else (none, .quote q (cur ++ [char c]))
  | .escape cur, c => (none, .word (cur ++ [char c]))
  | .quoteEscape cur, c =>
    -- only the quote itself and the backslash are escaped within double quotes
    if c = '\\' || c = '"' then (none, .quote '"' (cur ++ [char c]))
    else (none, .quote '"' (cur ++ [char '\\', char c]))

/-- The end of the command: the last word, if any; a quote or a backslash must not be open. -/
def finish : ShlexState α → Option (List (List α))
  | .blank => some []
  | .word cur => some [cur]
  | .quote _ _ => none
  | .escape _ => none
  | .quoteEscape _ => none

/-- The words of the rest of a command. -/
def run (char : Char → α) : ShlexState α → List Char → Option (List (List α))
  | s, [] => s.finish
  | s, c :: cs => (run char (s.step char c).2 cs).map ((s.step char c).1.toList ++ ·)

end ShlexState

/-- `shlex.split(command, posix=True)`, which may raise. -/
def shlexSplit (command : String) : Option (List String) :=
  (ShlexState.run id .blank command.toList).map (List.map String.ofList)

/-! ### Paths on disk -/

/-- The directory of the agent by its components, and which files and directories there are. -/
structure ShellRoot where
  root : List String
  existing : List String → Bool

/-- The text of a path. -/
def diskPath (parts : List String) : String := "/" ++ "/".intercalate parts

/-- `_rewrite_token`. -/
def rewriteToken (disk : ShellRoot) (token : String) : String :=
  if !startsWith token "/" then token
  else
    let candidate := resolvePath disk.root (lstripChar '/' token)
    if !disk.root.isPrefixOf candidate then token
    else if disk.existing candidate then diskPath candidate
    else
      let parent := candidate.dropLast
      if parent ≠ disk.root && disk.existing parent then diskPath candidate else token

/-! ### Commands -/

/-- The words that are replaced, and by what, in the order in which they come first. -/
def replacements (rewrite : String → String) (tokens : List String) : List (String × String) :=
  tokens.foldl (fun found token =>
    if !startsWith token "/" || (found.map Prod.fst).contains token then found
    else if rewrite token ≠ token then found ++ [(token, rewrite token)] else found) []

/-- `str.replace`, of a text that is not empty. -/
def replaceText (original rewritten text : String) : String :=
  String.ofList (List.replaceAll original.toList rewritten.toList 0 text.toList)

/-- `_translate`. -/
def translate (rewrite : String → String) (command : String) : String :=
  match shlexSplit command with
  | none => command
  | some tokens =>
    (replacements rewrite tokens).foldl (fun text r => replaceText r.1 r.2 text) command

end NextRole
