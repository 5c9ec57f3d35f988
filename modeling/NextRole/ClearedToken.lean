import NextRole.Frontend.Token

/-!
# Cleared tokens

A clear empties the cache and leaves the token request in flight alone: a call after the
clear joins that request, and its token fills the cache again.  As long as no token request
is in flight when the cache is cleared, a cleared token stays cleared.

## Main definitions

* `StaysCleared` — no call returns a token from before a clear that it comes after.
* `ClearsIdle` — the steps that clear while no token request is in flight.
* `CurrentToken` — what holds of every run of them.

## Main results

* `staysCleared_of_reachable`, and `not_staysCleared` without the condition.
-/

namespace NextRole

/-- No clear lies between the token request whose token a call returns and the call. -/
def StaysCleared (s : TokenModule) : Prop :=
  ∀ r ∈ s.returned, ∀ token request, r.token = some (token, request) →
    ∀ clears, s.requests[request]? = some clears → r.call.clears ≤ clears

/-- A step clears the cache. -/
def TokenAction.Clears : TokenAction → Prop
  | .clearBearerToken => True
  | .response status _ => status = 401
  | _ => False

instance (a : TokenAction) : Decidable a.Clears := by
  cases a <;> unfold TokenAction.Clears <;> infer_instance

/-- The cache is cleared only while no token request is in flight. -/
def ClearsIdle (s : TokenModule) (a : TokenAction) : Prop := a.Clears → s.inflight = none

instance (s : TokenModule) (a : TokenAction) : Decidable (ClearsIdle s a) :=
  inferInstanceAs (Decidable (_ → _))

/-- The cached token and the one to come were requested after the last clear. -/
structure CurrentToken (s : TokenModule) : Prop where
  cached : ∀ c, s.cached = some c → s.requests[c.request]? = some s.clears
  inflight : ∀ request, s.inflight = some request → s.requests[request]? = some s.clears
  waiting : ∀ call ∈ s.waiting, call.clears = s.clears
  returned : ∀ r ∈ s.returned, ∀ token request, r.token = some (token, request) →
    ∃ clears, s.requests[request]? = some clears ∧ r.call.clears ≤ clears

namespace CurrentToken

variable {env : TokenEnv} {s t : TokenModule}

theorem staysCleared (h : CurrentToken s) : StaysCleared s := by
  intro r hr token request htoken clears hclears
  obtain ⟨clears', hclears', hle⟩ := h.returned r hr token request htoken
  obtain rfl := Option.some.inj (hclears.symm.trans hclears')
  exact hle

/-- A call returns a token that was requested after the last clear. -/
theorem settle (h : CurrentToken s) {token : Option (String × ℕ)} {call : TokenCall}
    (hcall : call.clears = s.clears)
    (htoken : ∀ text request, token = some (text, request) → s.requests[request]? = some s.clears) :
    CurrentToken (s.settle token call) where
  cached := h.cached
  inflight := h.inflight
  waiting := h.waiting
  returned r hr text request hr' := by
    rcases List.mem_append.mp hr with hr | hr
    · exact h.returned r hr text request hr'
    · obtain rfl := List.mem_singleton.mp hr
      exact ⟨s.clears, htoken text request hr', Nat.le_of_eq hcall⟩

theorem settleAll (h : CurrentToken s) {token : Option (String × ℕ)} {calls : List TokenCall}
    (hcalls : ∀ call ∈ calls, call.clears = s.clears)
    (htoken : ∀ text request, token = some (text, request) → s.requests[request]? = some s.clears) :
    CurrentToken (calls.foldl (fun s call => s.settle token call) s) := by
  induction calls generalizing s with
  | nil => exact h
  | cons call calls ih =>
    obtain ⟨hcall, hrest⟩ := List.forall_mem_cons.mp hcalls
    exact ih (h.settle hcall htoken) hrest htoken

theorem getBearerToken (h : CurrentToken s) (caller : TokenCaller) (now : ℤ) :
    CurrentToken (s.getBearerToken env caller now) := by
  unfold TokenModule.getBearerToken
  dsimp only
  split
  · exact h.settle rfl nofun
  · split
    · next c hc =>
      obtain ⟨hcached, -⟩ := Option.filter_eq_some_iff.mp hc
      refine h.settle rfl fun text request heq => ?_
      obtain ⟨-, rfl⟩ := Prod.mk.inj (Option.some.inj heq)
      exact h.cached c hcached
    · have hwaiting : ∀ call ∈ s.waiting ++ [⟨caller, s.clears⟩], call.clears = s.clears := by
        intro call hcall
        rcases List.mem_append.mp hcall with hcall | hcall
        · exact h.waiting call hcall
        · rw [List.mem_singleton.mp hcall]
      split
      · exact ⟨h.cached, h.inflight, hwaiting, h.returned⟩
      · -- a request that starts now, after all clears
        have hkeep : ∀ {n clears : ℕ}, s.requests[n]? = some clears →
            (s.requests ++ [s.clears])[n]? = some clears := by
          intro n clears hn
          obtain ⟨hlt, -⟩ := List.getElem?_eq_some_iff.mp hn
          rw [List.getElem?_append_left hlt, hn]
        refine ⟨fun c hc => hkeep (h.cached c hc), fun request hrequest => ?_, hwaiting,
          fun r hr token request htoken => ?_⟩
        · obtain rfl := Option.some.inj hrequest
          simp
        · obtain ⟨clears, hclears, hle⟩ := h.returned r hr token request htoken
          exact ⟨clears, hkeep hclears, hle⟩

/-- A clear with no request in flight leaves no token behind. -/
theorem clearBearerToken (h : CurrentToken s) (hidle : s.inflight = none) (hwaiting : s.waiting = []) :
    CurrentToken s.clearBearerToken where
  cached _ hc := nomatch hc
  inflight request hrequest := by
    have hnone : s.inflight = some request := hrequest
    rw [hidle] at hnone
    cases hnone
  waiting call hcall := by
    have hnil : call ∈ s.waiting := hcall
    rw [hwaiting] at hnil
    cases hnil
  returned := h.returned

/-- The request in flight is answered, and its token is cached if there is one. -/
theorem answered (h : CurrentToken s) {request : ℕ} (hinflight : s.inflight = some request)
    {cached : Option CachedToken} (hcached : ∀ c, cached = some c →
      c.request = request ∨ s.cached = some c) :
    CurrentToken { s with cached := cached, inflight := none, waiting := [] } where
  cached c hc := by
    rcases hcached c hc with heq | hold
    · rw [heq]
      exact h.inflight request hinflight
    · exact h.cached c hold
  inflight _ hnone := nomatch hnone
  waiting _ hmem := nomatch hmem
  returned := h.returned

theorem reply (h : CurrentToken s) {now : ℤ} {token : Option String}
    (ht : s.reply env now token = some t) : CurrentToken t := by
  obtain ⟨request, hinflight, rfl⟩ := Option.map_eq_some_iff.mp ht
  refine (h.answered hinflight fun c hc => ?_).settleAll h.waiting fun text n heq => ?_
  · rcases Option.or_eq_some_iff.mp hc with hc | ⟨-, hc⟩
    · obtain ⟨text, -, rfl⟩ := Option.map_eq_some_iff.mp hc
      exact .inl rfl
    · exact .inr hc
  · obtain ⟨text', -, hpair⟩ := Option.map_eq_some_iff.mp heq
    obtain ⟨-, rfl⟩ := Prod.mk.inj hpair
    exact h.inflight request hinflight

end CurrentToken

/-- Nobody waits for a request that is not in flight. -/
def WaitsInFlight (s : TokenModule) : Prop := s.inflight = none → s.waiting = []

namespace WaitsInFlight

variable {env : TokenEnv} {s t : TokenModule}

theorem getBearerToken (h : WaitsInFlight s) (caller : TokenCaller) (now : ℤ) :
    WaitsInFlight (s.getBearerToken env caller now) := by
  unfold TokenModule.getBearerToken
  dsimp only
  split
  · exact h
  · split
    · exact h
    · split
      · next request hrequest =>
        intro hnone
        have hnone : s.inflight = none := hnone
        rw [hrequest] at hnone
        cases hnone
      · exact nofun

theorem waiting_settleAll (token : Option (String × ℕ)) (calls : List TokenCall) (s : TokenModule) :
    (calls.foldl (fun s call => s.settle token call) s).waiting = s.waiting := by
  induction calls generalizing s with
  | nil => rfl
  | cons call calls ih => exact ih (s.settle token call)

theorem reply {now : ℤ} {token : Option String} (ht : s.reply env now token = some t) :
    WaitsInFlight t := by
  obtain ⟨request, -, rfl⟩ := Option.map_eq_some_iff.mp ht
  exact fun _ => waiting_settleAll _ _ _

end WaitsInFlight

/-- A step that clears only while no token request is in flight. -/
theorem CurrentToken.step {env : TokenEnv} {s t : TokenModule}
    (h : CurrentToken s ∧ WaitsInFlight s) {a : TokenAction} (hidle : ClearsIdle s a)
    (hstep : (tokenModule env).step s a = some t) : CurrentToken t ∧ WaitsInFlight t := by
  obtain ⟨hcurrent, hwaits⟩ := h
  cases a with
  | getBearerToken now =>
    cases hstep
    exact ⟨hcurrent.getBearerToken _ now, hwaits.getBearerToken _ now⟩
  | authedFetch now =>
    cases hstep
    exact ⟨hcurrent.getBearerToken _ now, hwaits.getBearerToken _ now⟩
  | clearBearerToken =>
    cases hstep
    have hnone := hidle trivial
    exact ⟨hcurrent.clearBearerToken hnone (hwaits hnone), hwaits⟩
  | reply now token => exact ⟨hcurrent.reply hstep, WaitsInFlight.reply hstep⟩
  | response status now =>
    simp only [tokenModule, TokenModule.response] at hstep
    have hfetched : CurrentToken { s with fetching := s.fetching - 1 } :=
      ⟨hcurrent.cached, hcurrent.inflight, hcurrent.waiting, hcurrent.returned⟩
    split at hstep
    · cases hstep
    · split at hstep
      · next h401 =>
        cases hstep
        have hnone := hidle h401
        have hcleared := hfetched.clearBearerToken hnone (hwaits hnone)
        have hwaits' : WaitsInFlight
            (TokenModule.clearBearerToken { s with fetching := s.fetching - 1 }) := hwaits
        exact ⟨hcleared.getBearerToken _ now, hwaits'.getBearerToken _ now⟩
      · cases hstep
        exact ⟨hfetched, hwaits⟩

/-- In every run that clears the cache only while no token request is in flight, a cleared
token stays cleared. -/
theorem staysCleared_of_reachable {env : TokenEnv} {s : TokenModule}
    (h : (tokenModule env).Reachable ClearsIdle s) : StaysCleared s := by
  have hboth : CurrentToken s ∧ WaitsInFlight s := by
    refine h.invariant (I := fun s => CurrentToken s ∧ WaitsInFlight s) (fun t ht => ?_)
      fun _ _ _ _ hI hidle hstep => CurrentToken.step hI hidle hstep
    obtain rfl : t = {} := ht
    exact ⟨⟨nofun, nofun, nofun, nofun⟩, fun _ => rfl⟩
  exact hboth.1.staysCleared

/-- Tokens without a claim `exp`. -/
def opaqueTokens : TokenEnv where
  exp _ := none

/-- A call, a clear, and a call that gets the token of a second request. -/
theorem staysCleared_refetched :
    ∃ s, (tokenModule opaqueTokens).Reachable ClearsIdle s ∧
      (s.returned.map TokenReturn.token = [some ("old", 0), some ("new", 1)] ∧ s.clears = 1) ∧
      StaysCleared s := by
  obtain ⟨s, h, hs⟩ := (tokenModule opaqueTokens).exists_reachable ClearsIdle (s := {}) rfl
    [.getBearerToken 0, .reply 0 (some "old"), .clearBearerToken, .getBearerToken 0,
      .reply 0 (some "new")]
    (fun s => s.returned.map TokenReturn.token = [some ("old", 0), some ("new", 1)] ∧ s.clears = 1)
    (by decide)
  exact ⟨s, h, of_decide_eq_true hs, staysCleared_of_reachable h⟩

/-- The cache is cleared while the request is in flight, and a call after the clear gets the
token of that request. -/
theorem not_staysCleared :
    ∃ s, (tokenModule opaqueTokens).Reachable Machine.free s ∧ ¬ StaysCleared s := by
  obtain ⟨s, h, hs⟩ := (tokenModule opaqueTokens).exists_reachable Machine.free (s := {}) rfl
    [.getBearerToken 0, .clearBearerToken, .getBearerToken 0, .reply 0 (some "old")]
    (fun s => ⟨⟨.other, 1⟩, some ("old", 0)⟩ ∈ s.returned ∧ s.requests[0]? = some 0) (by decide)
  obtain ⟨hreturned, hrequest⟩ := of_decide_eq_true hs
  refine ⟨s, h, fun hcleared => ?_⟩
  exact absurd (hcleared _ hreturned "old" 0 rfl 0 hrequest) (by decide)

end NextRole
