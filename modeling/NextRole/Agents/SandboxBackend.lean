import NextRole.Agents.ObjectStorage
import NextRole.Lib.Dict
import NextRole.Lib.Transition

/-!
# The sandboxes of conversations

`E2BSandboxBackend` of `agents/career_agent/sandbox_backend.py`: one object of the process runs the
commands and moves the files of all runs, each in the sandbox of its conversation.  A sandbox is
looked up in the cache, then at the provider by its metadata, and then created, all under one lock.
The threads of the process interleave at every request to the provider, and sandboxes die at any
moment.  What the provider answers is part of an action.

## Main definitions

* `RunScope` — the identity and the thread of a run.
* `scopeKey` — the text that stands for both.
* `SandboxCall` — a call of `execute`, `upload_files` or `download_files`, and where it stands.
* `SandboxProcess` — the process, and the sandboxes of the provider.
* `sandboxBackend` — the machine of all interleavings.
-/

namespace NextRole

/-! ### Scopes -/

/-- A hexadecimal digit. -/
def isHexDigit (c : Char) : Bool := c.isDigit || "abcdefABCDEF".toList.contains c

/-- The form of the text of a UUID. -/
def isUuidText (s : String) : Bool :=
  s.toList.length = 36 && s.toList.zipIdx.all fun e =>
    if [8, 13, 18, 23].contains e.2 then e.1 = '-' else isHexDigit e.1

/-- The identity and the thread of a run. -/
structure RunScope where
  identity : String
  threadId : String
  identity_ne : identity ≠ ""
  isUuid : isUuidText threadId = true
  deriving DecidableEq

/-- `text or default`. -/
def textOr (default : String) (text : Option String) : String :=
  (text.filter (· ≠ "")).getD default

/-- `_scope_key`. -/
def scopeKey (identity threadId : Option String) : String :=
  textOr "default" identity ++ ":" ++ textOr "adhoc" threadId

/-- The key of a run. -/
def RunScope.key (scope : RunScope) : String := scopeKey (some scope.identity) (some scope.threadId)

/-! ### Answers of the provider -/

/-- What `SandboxSettings` says of the calls. -/
structure SandboxSettings where
  e2bApiKey : String := ""
  template : String := ""
  executeTimeout : ℤ := 60
  maxOutputBytes : ℕ := 100000

/-- An exception, with its class and its text. -/
structure SdkError where
  name : String
  text : String
  /-- Whether it is a `SandboxNotFoundException` or a `NotFoundException`. -/
  notFound : Bool := false
  /-- Whether it is a `FileNotFoundException`. -/
  fileNotFound : Bool := false

/-- How a command ends that has been started. -/
inductive CommandResult
  | completed (stdout stderr : String) (exitCode : Option ℤ)
  /-- `CommandExitException`. -/
  | exited (stdout stderr : String) (exitCode : Option ℤ)
  /-- `TimeoutException`. -/
  | timedOut
  | raised (error : SdkError)

/-- How a creation ends; one that raises may have created the sandbox. -/
inductive CreateAnswer
  | created
  | raised (error : SdkError) (created : Bool)

/-! ### Responses -/

structure ExecuteResponse where
  output : String
  exitCode : ℤ
  truncated : Bool := false
  deriving DecidableEq

/-- What a call returns: the response of a command, or the error of each file. -/
inductive SandboxResponse
  | execute (response : ExecuteResponse)
  | files (responses : List (String × Option String))

/-- `encoded[:n].decode("utf-8", errors="replace")`. -/
def truncateUtf8 : ℕ → List Char → List Char
  | _, [] => []
  | n, c :: cs =>
    if c.utf8Size ≤ n then c :: truncateUtf8 (n - c.utf8Size) cs
    else if n = 0 then [] else ['\uFFFD']

/-- `_as_execute_response`. -/
def asExecuteResponse (settings : SandboxSettings) (stdout stderr : String)
    (exitCode : Option ℤ) : ExecuteResponse :=
  let output :=
    if stderr = "" then stdout else if stdout = "" then stderr else stdout ++ "\n" ++ stderr
  if settings.maxOutputBytes < output.utf8ByteSize then
    { output := String.ofList (truncateUtf8 settings.maxOutputBytes output.toList)
      exitCode := exitCode.getD 0
      truncated := true }
  else { output := output, exitCode := exitCode.getD 0 }

/-- `_unavailable_response`. -/
def unavailableResponse (error : SdkError) : ExecuteResponse where
  output := "Error: sandbox unavailable (" ++ error.name ++ ": " ++ error.text ++ "). " ++
    "Check the SANDBOX_* settings and the sandbox host (deploy/cubesandbox/README.md)."
  exitCode := 1

/-- `_file_error`. -/
def fileError (error : SdkError) : String :=
  if error.notFound || error.fileNotFound then "file_not_found"
  else error.name ++ ": " ++ error.text

/-- `_require_e2b_config`. -/
def requireE2bConfig (settings : SandboxSettings) : Option SdkError :=
  let missing := (if settings.e2bApiKey = "" then ["SANDBOX_E2B_API_KEY"] else []) ++
    if settings.template = "" then ["SANDBOX_TEMPLATE"] else []
  if missing = [] then none
  else some {
    name := "RuntimeError"
    text := "Sandbox provider 'e2b' is not configured: set " ++ ", ".intercalate missing ++
      " (and SANDBOX_E2B_API_URL for a self-hosted CubeSandbox) — see .env.example" }

/-! ### Calls -/

/-- What is called: `execute`, or one of `upload_files` and `download_files`. -/
inductive SandboxOp
  | execute (command : String) (timeout : Option ℤ)
  | files (paths : List String)

/-- Where a call stands. -/
inductive SandboxPhase
  /-- Before the lock of `_sandbox_for_current_run`. -/
  | resolve
  /-- Under the lock, before the answer of `Sandbox.list`. -/
  | listing
  /-- Under the lock, with the sandboxes that are left to try; a sandbox is created if none is. -/
  | connecting (infos : List ℕ)
  /-- With a handle, before the command. -/
  | ready (sandbox : ℕ)
  /-- The command has been started. -/
  | running (sandbox : ℕ)
  /-- Before the lock of `_invalidate_current`. -/
  | invalidate
  /-- With a handle, the paths that are left, and the responses so far. -/
  | files (sandbox : ℕ) (left : List String) (responses : List (String × Option String))
  | done (response : SandboxResponse)

/-- Whether the lock is held. -/
def SandboxPhase.locked : SandboxPhase → Bool
  | .listing | .connecting _ => true
  | _ => false

structure SandboxCall where
  scope : RunScope
  op : SandboxOp
  phase : SandboxPhase := .resolve
  /-- Whether `execute` is in its second attempt. -/
  retried : Bool := false

namespace SandboxCall

variable (settings : SandboxSettings) (call : SandboxCall)

/-- The loop over the files goes on with those that are left, or ends. -/
def respond (sandbox : ℕ) (left : List String) (responses : List (String × Option String)) :
    SandboxCall :=
  if left = [] then { call with phase := .done (.files responses) }
  else { call with phase := .files sandbox left responses }

/-- `_sandbox_for_current_run` has returned a handle. -/
def obtain (sandbox : ℕ) : SandboxCall :=
  match call.op with
  | .execute .. => { call with phase := .ready sandbox }
  | .files paths => call.respond sandbox paths []

/-- An exception reaches the call: `execute` tries once more if it is stale. -/
def fail (error : SdkError) : SandboxCall :=
  match call.op with
  | .execute .. =>
    if !call.retried && error.notFound then { call with phase := .invalidate }
    else { call with phase := .done (.execute (unavailableResponse error)) }
  | .files paths =>
    { call with phase := .done (.files (paths.map fun path =>
        (path, some ("sandbox unavailable: " ++ error.name ++ ": " ++ error.text)))) }

/-- The timeout of the command. -/
def timeout : ℤ :=
  match call.op with
  | .execute _ (some timeout) => timeout
  | _ => settings.executeTimeout

/-- `_run_command`, once the command has been started. -/
def finish : CommandResult → SandboxCall
  | .completed stdout stderr exitCode | .exited stdout stderr exitCode =>
    { call with phase := .done (.execute (asExecuteResponse settings stdout stderr exitCode)) }
  | .timedOut =>
    { call with phase := .done (.execute {
        output := "Error: command timed out after " ++ toString (call.timeout settings) ++
          "s in the sandbox"
        exitCode := 124 }) }
  | .raised error => call.fail error

end SandboxCall

/-! ### The process -/

/-- A sandbox of the provider, with its metadata and with the run that it was created for. -/
structure SandboxRecord where
  metadata : String
  scope : RunScope
  live : Bool := true

/-- Something that a call has done in a sandbox: its command, or a file. -/
structure SandboxAct where
  call : ℕ
  sandbox : ℕ
  file : Option String := none

/-- The process, and the sandboxes of the provider by their numbers. -/
structure SandboxProcess where
  sandboxes : List SandboxRecord
  cache : Dict String ℕ := {}
  lock : Option ℕ := none
  calls : List SandboxCall := []
  acts : List SandboxAct := []

namespace SandboxProcess

variable (settings : SandboxSettings) (s : SandboxProcess)

/-- Whether a sandbox is alive. -/
def isLive (sandbox : ℕ) : Bool := (s.sandboxes[sandbox]?).any SandboxRecord.live

/-- A call goes on, with or without the lock. -/
def update (i : ℕ) (call : SandboxCall) (lock : Option ℕ) : SandboxProcess :=
  { s with calls := s.calls.set i call, lock := lock }

/-- `_sandbox_for_current_run`, up to the request that lists the sandboxes. -/
def resolve (i : ℕ) (call : SandboxCall) : SandboxProcess :=
  match s.cache.get? call.scope.key with
  | some sandbox => s.update i (call.obtain sandbox) s.lock
  | none =>
    match requireE2bConfig settings with
    | some error => s.update i (call.fail error) s.lock
    | none => s.update i { call with phase := .listing } (some i)

/-- A handle goes to the cache, and the lock is given back. -/
def keep (i : ℕ) (call : SandboxCall) (sandbox : ℕ) : SandboxProcess :=
  { s.update i (call.obtain sandbox) none with cache := s.cache.set call.scope.key sandbox }

/-- A sandbox is created for a call. -/
def createFor (call : SandboxCall) : SandboxProcess :=
  { s with sandboxes := s.sandboxes ++ [{ metadata := call.scope.key, scope := call.scope }] }

/-- `Sandbox.create` answers. -/
def create (i : ℕ) (call : SandboxCall) : CreateAnswer → SandboxProcess
  | .created => (s.createFor call).keep i call s.sandboxes.length
  | .raised error created =>
    (if created then s.createFor call else s).update i (call.fail error) none

/-- Something is done in a sandbox. -/
def act (a : SandboxAct) : SandboxProcess := { s with acts := s.acts ++ [a] }

end SandboxProcess

/-- What happens in the process, with the number of the call, and at the provider. -/
inductive SandboxAction
  | call (scope : RunScope) (op : SandboxOp)
  | resolve (call : ℕ)
  /-- The sandboxes with the metadata, or an exception. -/
  | list (call : ℕ) (answer : Option (List ℕ))
  | connect (call : ℕ) (ok : Bool)
  | create (call : ℕ) (answer : CreateAnswer)
  /-- The command is started, or `commands.run` ends without that. -/
  | run (call : ℕ) (result : Option CommandResult)
  | finish (call : ℕ) (result : CommandResult)
  | invalidate (call : ℕ)
  /-- A file is written or read, and the call gets an exception or not. -/
  | file (call : ℕ) (acted : Bool) (error : Option SdkError)
  | die (sandbox : ℕ)

/-- One step of one thread or of the provider. -/
def SandboxProcess.step (settings : SandboxSettings) (s : SandboxProcess) :
    SandboxAction → Option SandboxProcess
  | .call scope op => some { s with calls := s.calls ++ [{ scope := scope, op := op }] }
  | .resolve i => s.calls[i]?.bind fun call =>
    match call.phase, s.lock with
    | .resolve, none => some (s.resolve settings i call)
    | _, _ => none
  | .list i answer => s.calls[i]?.bind fun call =>
    match call.phase with
    | .listing => some (s.update i { call with phase := .connecting (answer.getD []) } s.lock)
    | _ => none
  | .connect i ok => s.calls[i]?.bind fun call =>
    match call.phase with
    | .connecting (sandbox :: infos) =>
      if ok then some (s.keep i call sandbox)
      else some (s.update i { call with phase := .connecting infos } s.lock)
    | _ => none
  | .create i answer => s.calls[i]?.bind fun call =>
    match call.phase with
    | .connecting [] => some (s.create i call answer)
    | _ => none
  | .run i result => s.calls[i]?.bind fun call =>
    match call.phase with
    | .ready sandbox =>
      match result with
      | some result => some (s.update i (call.finish settings result) s.lock)
      | none =>
        if s.isLive sandbox then
          some ((s.act { call := i, sandbox := sandbox }).update i
            { call with phase := .running sandbox } s.lock)
        else none
    | _ => none
  | .finish i result => s.calls[i]?.bind fun call =>
    match call.phase with
    | .running _ => some (s.update i (call.finish settings result) s.lock)
    | _ => none
  | .invalidate i => s.calls[i]?.bind fun call =>
    match call.phase, s.lock with
    | .invalidate, none =>
      some { s.update i { call with phase := .resolve, retried := true } none with
        cache := s.cache.erase call.scope.key }
    | _, _ => none
  | .file i acted error => s.calls[i]?.bind fun call =>
    match call.phase with
    | .files sandbox (path :: left) responses =>
      let next := call.respond sandbox left (responses ++ [(path, error.map fileError)])
      if acted then
        if s.isLive sandbox then
          some ((s.act { call := i, sandbox := sandbox, file := some path }).update i next s.lock)
        else none
      else some (s.update i next s.lock)
    | _ => none
  | .die sandbox => some { s with
      sandboxes := s.sandboxes.modify sandbox fun record => { record with live := false } }

/-- The process from its start on: the cache is empty, and there may be sandboxes of an earlier
process, at most one for each conversation. -/
def sandboxBackend (settings : SandboxSettings) : Machine SandboxProcess SandboxAction where
  init s := ∃ sandboxes : List SandboxRecord, s = { sandboxes := sandboxes } ∧
    (∀ record ∈ sandboxes, record.metadata = record.scope.key) ∧
    ∀ (i j : ℕ) (a b : SandboxRecord), sandboxes[i]? = some a → sandboxes[j]? = some b →
      a.live = true → b.live = true → a.scope = b.scope → i = j
  step := SandboxProcess.step settings

end NextRole
