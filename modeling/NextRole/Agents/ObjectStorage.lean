import NextRole.Lib.Segments
import NextRole.Python

/-!
# Keys of the object store

`career_agent/object_storage.py` and `scope.py`: a file of the agent is an object whose key is
made of the identity of the user, the agent and the virtual path.  A virtual path starts with an
area, and each area belongs to an agent.

## Main definitions

* `safeRelative` — a path in normal form, or nothing if it is not safe.
* `keyForArea`, `keyForVirtualPath` — the key of a path.
* `virtualPathForKey` — the path of a key.
-/

namespace NextRole

/-! ### Texts -/

/-- `str.lstrip`, of one character. -/
def lstripChar (c : Char) (s : String) : String := String.ofList (s.toList.dropWhile fun a => a = c)

/-- `str.startswith`. -/
def startsWith (s start : String) : Bool := start.toList.isPrefixOf s.toList

/-- `str.partition`, without the separator. -/
def partitionAt (c : Char) (s : String) : String × String :=
  (String.ofList (s.toList.takeWhile fun a => a ≠ c),
    String.ofList ((s.toList.dropWhile fun a => a ≠ c).drop 1))

/-- A component that `PurePosixPath` keeps. -/
def keepsPart (part : List Char) : Bool := part ≠ [] && part ≠ ['.']

/-- `PurePosixPath(rel).parts`, of a path that does not start at the root. -/
def pathParts (rel : String) : List String :=
  (Path.segments '/' keepsPart rel.toList).map String.ofList

/-! ### Scopes -/

/-- `DEFAULT_OBJECT_SCOPE`, in the place of an identity that is missing or empty. -/
def scopeOrDefault : Option String → String
  | some identity => if identity = "" then "default" else identity
  | none => "default"

/-- `object_scope`, with what `current_identity` returns. -/
def objectScope (current identity : Option String) (agentRoot : String) : String :=
  "users/" ++ scopeOrDefault (identity.or current) ++ "/" ++ agentRoot

/-- `AREA_ROOTS`. -/
def areaRoots : List (String × String) :=
  [("upload", "career_agent"), ("tailored_resume", "career_agent"),
    ("interview_battlecard", "career_agent"), ("charts", "analytics_agent"),
    ("reports", "analytics_agent")]

/-! ### Keys -/

/-- `_safe_relative`. -/
def safeRelative (path : String) : Option String :=
  let rel := lstripChar '/' (strip path)
  if rel = "" ∨ '\\' ∈ rel.toList ∨ startsWith rel "~" then none
  else
    let parts := pathParts rel
    if parts = [] ∨ ".." ∈ parts ∨ "." ∈ parts then none else some ("/".intercalate parts)

/-- `area_key_prefix`; an area that is not registered raises. -/
def areaKeyPrefix (current : Option String) (area : String) (scope : Option String) :
    Option String :=
  (areaRoots.lookup area).map fun root => objectScope current scope root ++ "/" ++ area

/-- `key_for_area`. -/
def keyForArea (current : Option String) (area relPath : String) (scope : Option String) :
    Option String := do
  let rel ← safeRelative relPath
  let root ← areaRoots.lookup area
  return objectScope current scope root ++ "/" ++ area ++ "/" ++ rel

/-- `key_for_virtual_path`. -/
def keyForVirtualPath (current : Option String) (path : String) (scope : Option String) :
    Option String := do
  let rel ← safeRelative path
  let (area, remainder) := partitionAt '/' rel
  let root ← areaRoots.lookup area
  if remainder = "" then none else return objectScope current scope root ++ "/" ++ rel

/-- `virtual_path_for_key`, which does not ask for the current identity. -/
def virtualPathForKey (key : String) (scope : Option String) : Option String :=
  let userPrefix := "users/" ++ scopeOrDefault scope ++ "/"
  if startsWith key userPrefix then
    let (root, rel) := partitionAt '/' (String.ofList (key.toList.drop userPrefix.length))
    let (area, remainder) := partitionAt '/' rel
    if remainder = "" ∨ areaRoots.lookup area ≠ some root then none else some ("/" ++ rel)
  else none

end NextRole
