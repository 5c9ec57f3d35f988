import NextRole.Agents.ObjectStorage

/-!
# Scratch files of a thread

`analytics_agent/scratch.py`, and what `analytics_agent/tools.py` hands to it: a query exports its
result to a file of the thread's scratch directory, and a chart may be published from a figure that
a script wrote.  The directory is one of this host or one inside a sandbox.

There are no symbolic links, so a path names what is left when `.` and `..` are taken out.

## Main definitions

* `safeSegment` — a text that is one segment of a path, or the fallback.
* `resolvePath` — the file that a path names.
* `Scratch`, `openScratch` — the directory of a thread.
* `ScratchCall`, `accesses` — the scratch files that a call of a tool writes or reads.
-/

namespace NextRole

/-! ### Segments -/

/-- A character of `[A-Za-z0-9]`. -/
def isAsciiAlnum (c : Char) : Bool :=
  ('a' ≤ c && c ≤ 'z') || ('A' ≤ c && c ≤ 'Z') || ('0' ≤ c && c ≤ '9')

/-- A character of `[A-Za-z0-9._-]`. -/
def isSegmentChar (c : Char) : Bool := isAsciiAlnum c || c = '.' || c = '_' || c = '-'

/-- What `_SAFE_SEGMENT` describes between its anchors. -/
def isSafeSegment : List Char → Bool
  | [] => false
  | c :: cs => isAsciiAlnum c && cs.all isSegmentChar && cs.length ≤ 63

/-- `_SAFE_SEGMENT.match`, whose `$` is also before a line feed at the end. -/
def matchesSafeSegment (l : List Char) : Bool :=
  isSafeSegment l || (l.getLast? = some '\n' && isSafeSegment l.dropLast)

/-- `safe_segment`. -/
def safeSegment (raw : Option String) (fallback : String) : String :=
  let candidate := strip (raw.getD "")
  if matchesSafeSegment candidate.toList then candidate else fallback

/-! ### Paths -/

/-- The components of a path, followed from a directory. -/
def followParts (dir : List String) (parts : List String) : List String :=
  parts.foldl (fun dir part => if part = ".." then dir.dropLast else dir ++ [part]) dir

/-- What a path names for a process in a directory. -/
def resolvePath (cwd : List String) (path : String) : List String :=
  followParts (if startsWith path "/" then [] else cwd) (pathParts path)

/-! ### Scratch directories -/

/-- Where the shell runs: on this host, with its directory for temporary files, or in a sandbox. -/
inductive ScratchHost
  | host (tempDir : String)
  | sandbox
  deriving Repr, DecidableEq

/-- `HostScratch` and `SandboxScratch`, with their `dir`. -/
structure Scratch where
  host : ScratchHost
  dir : String

/-- `ROOT_NAME`. -/
def scratchRootName : String := "nextrole-analytics"

/-- `open_scratch`. -/
def openScratch (host : ScratchHost) (threadId : String) : Scratch where
  host := host
  dir := match host with
    | .host tempDir => tempDir ++ "/" ++ scratchRootName ++ "/" ++ threadId
    | .sandbox => "/tmp/" ++ scratchRootName ++ "/" ++ threadId

/-- The path that `write_text` writes. -/
def Scratch.writePath (scratch : Scratch) (name : String) : String := scratch.dir ++ "/" ++ name

/-- The path that `read_text` reads, if there is a file.  In a sandbox `cat` takes a word that
starts with a dash as an option, or as its input. -/
def Scratch.readPath? (scratch : Scratch) (path : String) : Option String :=
  match scratch.host with
  | .host _ => some path
  | .sandbox => if startsWith path "-" then none else some path

/-! ### Calls of tools -/

/-- `_thread_id`. -/
def toolThreadId (current : Option String) : String := safeSegment current "adhoc"

/-- What a model passes to the tools that reach scratch files. -/
inductive ScratchCall
  /-- `run_sql` of a query that succeeds, with `save_as`. -/
  | save (saveAs : String)
  /-- `create_chart` of a kind of figure, with `figure_path`. -/
  | figure (figurePath : String)
  deriving Repr, DecidableEq

/-- The path that a call writes or reads; an empty argument counts as none. -/
def ScratchCall.path? (scratch : Scratch) : ScratchCall → Option String
  | .save saveAs =>
    if saveAs = "" then none
    else some (scratch.writePath (safeSegment (some saveAs) "result.csv"))
  | .figure figurePath => if figurePath = "" then none else scratch.readPath? figurePath

/-- A run of the agent: its thread, and the calls of the tools. -/
structure ToolRun where
  threadId : Option String
  calls : List ScratchCall

/-- The scratch of a run. -/
def ToolRun.scratch (host : ScratchHost) (run : ToolRun) : Scratch :=
  openScratch host (toolThreadId run.threadId)

/-- The files that a run writes or reads. -/
def ToolRun.accesses (host : ScratchHost) (cwd : List String) (run : ToolRun) :
    List (List String) :=
  run.calls.filterMap fun call => (call.path? (run.scratch host)).map (resolvePath cwd)

end NextRole
