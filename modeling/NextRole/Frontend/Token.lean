import Mathlib.Data.Int.Notation
import NextRole.Lib.Transition

/-!
# The bearer token of the browser

`lib/auth/token.ts`: a cached token, and the token request in flight that all calls share
which find no fresh token in the cache.  A call of `authedFetch` asks for a token, sends it,
and on a `401` clears the cache and asks once more.

What a function does between two suspension points is one step.  A record beside the state
says how many clears came before each call and before each token request.

## Main definitions

* `TokenModule` — the state of the module, and what its callers wait for.
* `TokenModule.getBearerToken`, `clearBearerToken`, `reply`, `response`.
* `tokenModule` — the machine of all interleavings.
-/

namespace NextRole

/-- `EXPIRY_SLACK_MS`. -/
def expirySlackMs : ℤ := 30000

/-- What the module does not decide itself. -/
structure TokenEnv where
  /-- `isAuthEnabled`. -/
  authEnabled : Bool := true
  /-- The claim `exp` of a token in milliseconds, where it can be read. -/
  exp : String → Option ℤ

/-- `decodeExpiryMs`. -/
def decodeExpiryMs (env : TokenEnv) (token : String) (now : ℤ) : ℤ :=
  (env.exp token).getD (now + 60000)

/-- A cached token, with the token request that obtained it. -/
structure CachedToken where
  token : String
  expiresAtMs : ℤ
  request : ℕ
  deriving DecidableEq

/-- Who calls `getBearerToken`: a caller that keeps the token, `authedFetch`, or
`authedFetch` after a `401`. -/
inductive TokenCaller
  | other | fetch | retry
  deriving DecidableEq

/-- A call of `getBearerToken`, with the clears before it. -/
structure TokenCall where
  caller : TokenCaller
  clears : ℕ
  deriving DecidableEq

/-- What a call returns: a token and the request that obtained it, or null. -/
structure TokenReturn where
  call : TokenCall
  token : Option (String × ℕ)
  deriving DecidableEq

/-- The state of the module. -/
structure TokenModule where
  cached : Option CachedToken := none
  inflight : Option ℕ := none
  /-- The calls that await the request in flight. -/
  waiting : List TokenCall := []
  /-- The calls of `authedFetch` that await a response to their first token. -/
  fetching : ℕ := 0
  /-- For each token request, the clears before it. -/
  requests : List ℕ := []
  clears : ℕ := 0
  returned : List TokenReturn := []

namespace TokenModule

variable (env : TokenEnv) (s : TokenModule)

/-- A call returns; `authedFetch` goes on with its token. -/
def settle (token : Option (String × ℕ)) (call : TokenCall) : TokenModule :=
  { s with
    returned := s.returned ++ [⟨call, token⟩]
    fetching :=
      if call.caller = .fetch ∧ token.isSome = true then s.fetching + 1 else s.fetching }

/-- `getBearerToken`, to its return or to its suspension. -/
def getBearerToken (caller : TokenCaller) (now : ℤ) : TokenModule :=
  let call : TokenCall := ⟨caller, s.clears⟩
  if !env.authEnabled then s.settle none call
  else
    match s.cached.filter fun c => now < c.expiresAtMs - expirySlackMs with
    | some c => s.settle (some (c.token, c.request)) call
    | none =>
      match s.inflight with
      | some _ => { s with waiting := s.waiting ++ [call] }
      | none =>
        { s with
          inflight := some s.requests.length
          requests := s.requests ++ [s.clears]
          waiting := s.waiting ++ [call] }

/-- `clearBearerToken`. -/
def clearBearerToken : TokenModule := { s with cached := none, clears := s.clears + 1 }

/-- The token request in flight completes: with a token, or with an error or no token. -/
def reply (now : ℤ) (token : Option String) : Option TokenModule :=
  s.inflight.map fun request =>
    let token := token.filter (· ≠ "")
    let cached := token.map fun token => ⟨token, decodeExpiryMs env token now, request⟩
    s.waiting.foldl (fun s call => s.settle (token.map (·, request)) call)
      { s with cached := cached.or s.cached, inflight := none, waiting := [] }

/-- A response to the first token of an `authedFetch`. -/
def response (status : ℕ) (now : ℤ) : Option TokenModule :=
  if s.fetching = 0 then none
  else
    let s := { s with fetching := s.fetching - 1 }
    if status = 401 then some (s.clearBearerToken.getBearerToken env .retry now) else some s

end TokenModule

/-- What happens to the module. -/
inductive TokenAction
  | getBearerToken (now : ℤ)
  | authedFetch (now : ℤ)
  | clearBearerToken
  | reply (now : ℤ) (token : Option String)
  | response (status : ℕ) (now : ℤ)

/-- The module from its first import on. -/
def tokenModule (env : TokenEnv) : Machine TokenModule TokenAction where
  init s := s = {}
  step s
    | .getBearerToken now => some (s.getBearerToken env .other now)
    | .authedFetch now => some (s.getBearerToken env .fetch now)
    | .clearBearerToken => some s.clearBearerToken
    | .reply now token => s.reply env now token
    | .response status now => s.response env status now

end NextRole
