import NextRole.Agents.Shell

/-!
# Commands that run without review

`career_agent/execute_approval.py`: a command that a model wrote runs without review if it is short,
has no character that controls the shell, and starts with a program of a list, and if no word of it
is a path outside of the working directory and the scratch directories.

## Main definitions

* `isAllowedPath` — the words that a command may have.
* `isAutoApprovable` — the commands that run without review.
-/

namespace NextRole

/-- `_SAFE_BINARIES`. -/
def safeBinaries : List String :=
  ["cat", "date", "df", "du", "echo", "file", "grep", "head", "ls", "printf", "pwd", "rg", "stat",
    "tail", "tree", "uname", "wc", "which", "whoami"]

/-- `_UNSAFE_CHARS`. -/
def unsafeChars : List Char := ";&|<>\x60$()\x7b\x7d\\~\n\r".toList

/-- `_scratch_roots`, with the directory for temporary files of this host. -/
def scratchRoots (tempDir : String) : List String :=
  ["/tmp/nextrole-analytics", tempDir ++ "/nextrole-analytics"]

/-- `PurePosixPath(path).root`; two slashes in front are not one. -/
def pureRoot (path : String) : String :=
  if startsWith path "//" && !startsWith path "///" then "//"
  else if startsWith path "/" then "/"
  else ""

/-- `PurePosixPath(path).is_relative_to(PurePosixPath(root))`, or that they are the same. -/
def isRelativeTo (path root : String) : Bool :=
  pureRoot root = pureRoot path && (pathParts root).isPrefixOf (pathParts path)

/-- `_is_allowed_path`. -/
def isAllowedPath (tempDir : String) (token : String) : Bool :=
  if ['.', '.'] <:+: token.toList ∨ '~' ∈ token.toList then false
  else if !startsWith token "/" then true
  else (scratchRoots tempDir).any fun root => isRelativeTo token root

/-- `is_auto_approvable`. -/
def isAutoApprovable (tempDir : String) (command : String) : Bool :=
  if command = "" ∨ 500 < command.length then false
  else if command.toList.any fun c => unsafeChars.contains c then false
  else
    match shlexSplit command with
    | none => false
    | some [] => false
    | some (binary :: tokens) =>
      safeBinaries.contains binary && (binary :: tokens).all fun t => isAllowedPath tempDir t

end NextRole
