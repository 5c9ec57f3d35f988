import Mathlib.Data.List.Sort
import NextRole.Lib.Transition
import NextRole.Python

/-!
# Migrations of the database

`migrate` of `runtime_postgres/database.py`: the files of a directory are applied in the order of
their names, each file as several statements and a row of `schema_migrations`, and each statement
is a transaction of its own.  A file whose version is not above the highest one recorded is passed
over.  The process may stop between any two transactions.

## Main definitions

* `splitSqlStatements` — the statements of a file.
* `migrationPaths` — the files of a directory by their versions.
* `Migrations`, `Migrations.plan` — what a call of `migrate` goes through.
* `Migrations.machine` — calls of `migrate` that may stop.
-/

namespace NextRole

/-! ### Statements -/

/-- A letter under `(?i)`: the dotted and the dotless i and the long s fold too. -/
def foldCase (c : Char) : Char :=
  if c = 'İ' ∨ c = 'ı' then 'i' else if c = 'ſ' then 's' else c.toLower

/-- What follows a word. -/
def matchWord : List Char → List Char → Option (List Char)
  | [], s => some s
  | _ :: _, [] => none
  | w :: word, c :: s => if foldCase c = w then matchWord word s else none

/-- What follows `\s+`. -/
def matchSpaces (s : List Char) : Option (List Char) :=
  match s with
  | c :: s => if isSpace c then some (s.dropWhile isSpace) else none
  | [] => none

/-- What follows a match of `_CREATE_OR_DROP_INDEX_RE`. -/
def matchIndexStatement (s : List Char) : Option (List Char) :=
  let create := do
    let s ← matchSpaces (← matchWord "create".toList s)
    let s ← matchSpaces (← matchWord "index".toList s)
    let s ← matchWord "concurrently".toList s
    return s.dropWhile isSpace
  let drop := do
    let s ← matchSpaces (← matchWord "drop".toList s)
    let s ← matchSpaces (← matchWord "index".toList s)
    let s := ((matchWord "concurrently".toList s).bind matchSpaces).getD s
    let s := (do matchSpaces (← matchWord "exists".toList
      (← matchSpaces (← matchWord "if".toList s)))).getD s
    return s.dropWhile isSpace
  create.or drop

/-- `_CREATE_OR_DROP_INDEX_RE.split`: the text before the first match, and each match with the text
behind it. -/
def splitIndexStatements : ℕ → List Char → List Char × List (List Char × List Char)
  | 0, s => (s, [])
  | _ + 1, [] => ([], [])
  | fuel + 1, c :: s =>
    match matchIndexStatement (c :: s) with
    | some rest =>
      let parts := splitIndexStatements fuel rest
      ([], ((c :: s).take ((c :: s).length - rest.length), parts.1) :: parts.2)
    | none =>
      let parts := splitIndexStatements fuel s
      (c :: parts.1, parts.2)

/-- `_split_sql_statements`. -/
def splitSqlStatements (sql : String) : List String :=
  let parts := splitIndexStatements (sql.toList.length + 1) sql.toList
  (([], parts.1) :: parts.2).filterMap fun part =>
    let stmt := strip (String.ofList part.1 ++ strip (String.ofList part.2))
    if stmt = "" then none
    else some (if stmt.toList.getLast? = some ';' then stmt else stmt ++ ";")

/-! ### Files -/

/-- The keys under which a file of a version is kept. -/
inductive Variant
  | standard
  | lite
  deriving Repr, DecidableEq

/-- How a call of `migrate` fails. -/
inductive MigrationError
  /-- The name of a file has no number in front or no part before its last one. -/
  | invalidName (path : String)
  /-- `Unknown migration file: {path}`. -/
  | unknownFile (path : String)
  /-- `Duplicate migration version {version} variant {key}: {first} and {path}`. -/
  | duplicateVersion (version : ℕ) (key : Variant) (first path : String)
  /-- A version has no file for the extensions and no standard one. -/
  | noFile (version : ℕ)
  /-- `Failed to apply database migration {version}`, with the statement. -/
  | failedStatement (version : ℕ) (statement : String)
  /-- The row of the version exists. -/
  | recordedVersion (version : ℕ)
  deriving Repr, DecidableEq

/-- `int(path.split("_")[0])`, of ASCII digits. -/
def versionOfPath (path : String) : Option ℕ :=
  let number := path.toList.takeWhile fun c => c ≠ '_'
  if number ≠ [] ∧ number.all Char.isDigit then some (Nat.ofDigitChars 10 number 0) else none

/-- `path.split(".")[-2]`, and the key that it stands for. -/
def variantOfPath (path : String) : Except MigrationError Variant :=
  match (path.toList.splitOn '.').reverse with
  | _ :: which :: _ =>
    if which = "up".toList then .ok .standard
    else if which = "lite".toList then .ok .lite
    else .error (.unknownFile path)
  | _ => .error (.invalidName path)

/-- The files of the versions, in the order in which the versions are met first. -/
abbrev MigrationPaths := List (ℕ × List (Variant × String))

/-- A file is put under its version and its key. -/
def addPath (paths : MigrationPaths) (path : String) : Except MigrationError MigrationPaths := do
  let some version := versionOfPath path | throw (.invalidName path)
  let key ← variantOfPath path
  match paths.lookup version with
  | none => return paths ++ [(version, [(key, path)])]
  | some options =>
    match options.lookup key with
    | some first => throw (.duplicateVersion version key first path)
    | none => return paths.map fun e => if e.1 = version then (e.1, e.2 ++ [(key, path)]) else e

/-- The names of the directory, sorted. -/
def sortedNames (listing : List String) : List String := listing.insertionSort (· ≤ ·)

/-- `migration_paths`. -/
def migrationPaths (listing : List String) : Except MigrationError MigrationPaths :=
  (sortedNames listing).foldlM addPath []

/-! ### Calls of `migrate` -/

/-- The directory, what the files hold and what the statements do. -/
structure Migrations (σ : Type) where
  listing : List String
  contents : String → String
  /-- `LANGGRAPH_POSTGRES_EXTENSIONS`. -/
  extensions : Variant
  /-- A statement is a transaction that fails or changes the schema. -/
  execute : String → σ → Option σ
  initial : σ

/-- The transactions of a call. -/
inductive MigrationStep
  | execute (version index : ℕ) (statement : String)
  | record (version : ℕ)
  | missing (version : ℕ)
  deriving Repr, DecidableEq

namespace Migrations

variable {σ : Type} (m : Migrations σ)

/-- The statements of a version: of the file for the extensions, or of the standard one. -/
def statements (options : List (Variant × String)) : Option (List String) :=
  ((options.lookup m.extensions).or (options.lookup .standard)).map fun path =>
    splitSqlStatements (strip (m.contents path))

/-- The transactions of a file. -/
def fileSteps (version : ℕ) (statements : List String) : List MigrationStep :=
  statements.mapIdx (fun i s => .execute version i s) ++ [.record version]

/-- The versions with their statements. -/
def entries (paths : MigrationPaths) : List (ℕ × Option (List String)) :=
  paths.map fun e => (e.1, m.statements e.2)

/-- What the loop does at a version; a version without a file raises before it is passed over. -/
def entrySteps (current : ℤ) (entry : ℕ × Option (List String)) : List MigrationStep :=
  match entry.2 with
  | none => [.missing entry.1]
  | some statements => if entry.1 ≤ current then [] else fileSteps entry.1 statements

/-- `COALESCE(MAX(version), -1)`. -/
def currentVersion (versions : List ℕ) : ℤ := (versions.max?.map Int.ofNat).getD (-1)

/-- What a call goes through. -/
def plan (versions : List ℕ) : Except MigrationError (List MigrationStep) :=
  (migrationPaths m.listing).map fun paths =>
    (m.entries paths).flatMap (entrySteps (currentVersion versions))

end Migrations

/-- A statement that was executed, with the schema before and after it. -/
structure Executed (σ : Type) where
  version : ℕ
  index : ℕ
  before : σ
  after : σ

/-- The database, the running call with what it has still to do, and how the last call ended. -/
structure MigrationState (σ : Type) where
  schema : σ
  /-- The rows of `schema_migrations`, in the order in which they were inserted. -/
  versions : List ℕ := []
  process : Option (List MigrationStep) := none
  outcome : Option (Except MigrationError Unit) := none
  /-- The statements that were executed in all calls. -/
  executed : List (Executed σ) := []

/-- A call starts, does its next transaction or returns, or is stopped. -/
inductive MigrationAction
  | start
  | next
  | stop
  deriving Repr, DecidableEq

namespace Migrations

variable {σ : Type} (m : Migrations σ)

/-- A transaction of a call, with what comes after it. -/
def transact (s : MigrationState σ) (rest : List MigrationStep) :
    MigrationStep → MigrationState σ
  | .execute version index statement =>
    match m.execute statement s.schema with
    | some schema => { s with
        schema := schema
        process := some rest
        executed := s.executed ++ [⟨version, index, s.schema, schema⟩] }
    | none => { s with
        process := none
        outcome := some (.error (.failedStatement version statement)) }
  | .record version =>
    if version ∈ s.versions then { s with
        process := none
        outcome := some (.error (.recordedVersion version)) }
    else { s with
        versions := s.versions ++ [version]
        process := some rest }
  | .missing version => { s with
        process := none
        outcome := some (.error (.noFile version)) }

/-- Calls of `migrate` that may stop. -/
def machine : Machine (MigrationState σ) MigrationAction where
  init s := s = { schema := m.initial }
  step s
    | .start =>
      if s.process.isSome then none
      else some (match m.plan s.versions with
        | .ok steps => { s with process := some steps, outcome := none }
        | .error e => { s with outcome := some (.error e) })
    | .next =>
      match s.process with
      | none => none
      | some [] => some { s with process := none, outcome := some (.ok ()) }
      | some (step :: rest) => some (m.transact s rest step)
    | .stop => if s.process.isSome then some { s with process := none } else none

end Migrations

end NextRole
