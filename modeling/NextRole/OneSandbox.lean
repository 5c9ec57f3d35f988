import NextRole.Agents.SandboxBackend
import NextRole.Lib.Path

/-!
# One sandbox for each conversation

The key of a run is cut at its last colon, since the text of a UUID has none, and so it stands for
one identity and one thread.  All that happens between the lookup in the cache and the creation of
a sandbox happens under the lock, so no two threads create sandboxes for one key; a handle that
another thread has put into the cache may be dropped, but its sandbox is then found at the provider.

## Main definitions

* `SandboxProcess.Answers` — what the provider answers.
* `OnePerConversation` — each call works in the sandbox of its run, and one is alive at most.
* `SandboxProcess.Inv` — the invariant.

## Main results

* `RunScope.key_inj` — a key stands for one run.
* `SandboxProcess.Inv.step` — one step keeps the invariant.
* `onePerConversation` — **in every interleaving a conversation has one sandbox, and a command is
  started at most once**.
-/

namespace NextRole

open List

/-! ### Keys -/

theorem colon_notMem_of_isUuidText {s : String} (h : isUuidText s = true) : ':' ∉ s.toList := by
  rw [isUuidText, Bool.and_eq_true, all_eq_true] at h
  intro hmem
  obtain ⟨i, hi⟩ := mem_iff_getElem?.mp hmem
  have hchar := h.2 (':', i) (mem_zipIdx_iff_getElem?.mpr hi)
  have hdigit : isHexDigit ':' = false := by decide
  split at hchar
  · simp at hchar
  · simp [hdigit] at hchar

theorem RunScope.toList_key (scope : RunScope) :
    scope.key.toList = scope.identity.toList ++ ':' :: scope.threadId.toList := by
  have hthread : scope.threadId ≠ "" := by
    intro heq
    have huuid := scope.isUuid
    rw [heq] at huuid
    exact absurd huuid (by decide)
  simp [key, scopeKey, textOr, Option.filter, scope.identity_ne, hthread]

/-- **A key stands for one run.** -/
theorem RunScope.key_inj {scope scope' : RunScope} (h : scope.key = scope'.key) :
    scope = scope' := by
  have hchars := congrArg String.toList h
  rw [toList_key, toList_key] at hchars
  obtain ⟨hidentity, hthread⟩ := Path.append_sep_inj
    (colon_notMem_of_isUuidText scope.isUuid) (colon_notMem_of_isUuidText scope'.isUuid) hchars
  cases scope
  cases scope'
  obtain rfl := String.toList_injective hidentity
  obtain rfl := String.toList_injective hthread
  rfl

/-! ### The property -/

namespace SandboxProcess

/-- What the provider answers: a list has each sandbox with the metadata that is alive and no
sandbox with other metadata, a connection succeeds on those that are alive, and a command that was
started does not end with a not-found exception. -/
def Answers (s : SandboxProcess) : SandboxAction → Prop
  | .list i answer => ∀ call ∈ s.calls[i]?, ∃ infos, answer = some infos ∧
      (∀ sandbox ∈ infos, ∃ record ∈ s.sandboxes[sandbox]?, record.metadata = call.scope.key) ∧
      ∀ (sandbox : ℕ) (record : SandboxRecord), s.sandboxes[sandbox]? = some record →
        record.live = true → record.metadata = call.scope.key → sandbox ∈ infos
  | .connect i ok => ∀ call ∈ s.calls[i]?, ∀ sandbox infos,
      call.phase = .connecting (sandbox :: infos) → ok = s.isLive sandbox
  | .finish _ (.raised error) => error.notFound = false
  | _ => True

/-- How often a call has started its command. -/
def starts (s : SandboxProcess) (i : ℕ) : ℕ :=
  s.acts.countP fun act => act.call = i ∧ act.file = none

end SandboxProcess

/-- A sandbox was created for a run. -/
def CreatedFor (sandboxes : List SandboxRecord) (sandbox : ℕ) (scope : RunScope) : Prop :=
  ∃ record, sandboxes[sandbox]? = some record ∧ record.scope = scope

/-- At most one sandbox of each run is alive. -/
def SingleLive (sandboxes : List SandboxRecord) : Prop :=
  ∀ (i j : ℕ) (a b : SandboxRecord), sandboxes[i]? = some a → sandboxes[j]? = some b →
    a.live = true → b.live = true → a.scope = b.scope → i = j

/-- Whatever a call has done, it has done in a sandbox that was created for its run; calls of
different runs share none; at most one sandbox of a run is alive; and a command was started at most
once. -/
structure OnePerConversation (s : SandboxProcess) : Prop where
  own : ∀ act ∈ s.acts, ∃ call, s.calls[act.call]? = some call ∧
    CreatedFor s.sandboxes act.sandbox call.scope
  apart : ∀ act ∈ s.acts, ∀ act' ∈ s.acts, act.sandbox = act'.sandbox →
    ∀ call ∈ s.calls[act.call]?, ∀ call' ∈ s.calls[act'.call]?, call.scope = call'.scope
  single : SingleLive s.sandboxes
  once : ∀ i, s.starts i ≤ 1

/-! ### The invariant -/

/-- Whether a call may still start its command. -/
def SandboxPhase.before : SandboxPhase → Bool
  | .resolve | .listing | .connecting _ | .ready _ | .invalidate => true
  | .running _ | .files .. | .done _ => false

/-- The handles of a call are of sandboxes of its run, and those that are left to try are all that
are alive. -/
def SandboxCall.Sound (sandboxes : List SandboxRecord) (call : SandboxCall) : Prop :=
  match call.phase with
  | .connecting infos => (∀ sandbox ∈ infos, CreatedFor sandboxes sandbox call.scope) ∧
      ∀ (sandbox : ℕ) (record : SandboxRecord), sandboxes[sandbox]? = some record →
        record.live = true → record.scope = call.scope → sandbox ∈ infos
  | .ready sandbox | .running sandbox | .files sandbox _ _ =>
      CreatedFor sandboxes sandbox call.scope
  | .resolve | .listing | .invalidate | .done _ => True

/-- **The invariant** of the process. -/
structure SandboxProcess.Inv (s : SandboxProcess) : Prop where
  metadata : ∀ record ∈ s.sandboxes, record.metadata = record.scope.key
  single : SingleLive s.sandboxes
  cache : ∀ scope : RunScope, ∀ sandbox ∈ s.cache.get? scope.key,
    CreatedFor s.sandboxes sandbox scope
  sound : ∀ call ∈ s.calls, call.Sound s.sandboxes
  locked : ∀ i, ∀ call ∈ s.calls[i]?, call.phase.locked = true → s.lock = some i
  own : ∀ act ∈ s.acts, ∃ call, s.calls[act.call]? = some call ∧
    CreatedFor s.sandboxes act.sandbox call.scope
  once : ∀ i, ∀ call ∈ s.calls[i]?, s.starts i ≤ if call.phase.before then 0 else 1

/-! ### Calls -/

variable {sandboxes sandboxes' : List SandboxRecord} {settings : SandboxSettings}

theorem SandboxCall.respond_spec (call : SandboxCall) {sandbox : ℕ}
    (h : CreatedFor sandboxes sandbox call.scope) (left : List String)
    (responses : List (String × Option String)) :
    (call.respond sandbox left responses).Sound sandboxes ∧
      (call.respond sandbox left responses).scope = call.scope ∧
        (call.respond sandbox left responses).phase.locked = false ∧
          (call.respond sandbox left responses).phase.before = false := by
  unfold respond
  split
  · exact ⟨trivial, rfl, rfl, rfl⟩
  · exact ⟨h, rfl, rfl, rfl⟩

theorem SandboxCall.obtain_spec (call : SandboxCall) {sandbox : ℕ}
    (h : CreatedFor sandboxes sandbox call.scope) :
    (call.obtain sandbox).Sound sandboxes ∧ (call.obtain sandbox).scope = call.scope ∧
      (call.obtain sandbox).phase.locked = false := by
  unfold obtain
  split
  · exact ⟨h, rfl, rfl⟩
  · obtain ⟨hsound, hscope, hfree, -⟩ := call.respond_spec h _ []
    exact ⟨hsound, hscope, hfree⟩

theorem SandboxCall.fail_spec (call : SandboxCall) (error : SdkError) :
    (call.fail error).Sound sandboxes ∧ (call.fail error).scope = call.scope ∧
      (call.fail error).phase.locked = false := by
  unfold fail
  split
  · split
    · exact ⟨trivial, rfl, rfl⟩
    · exact ⟨trivial, rfl, rfl⟩
  · exact ⟨trivial, rfl, rfl⟩

theorem SandboxCall.finish_spec (call : SandboxCall) (result : CommandResult) :
    (call.finish settings result).Sound sandboxes ∧
      (call.finish settings result).scope = call.scope ∧
        (call.finish settings result).phase.locked = false := by
  cases result with
  | completed => exact ⟨trivial, rfl, rfl⟩
  | exited => exact ⟨trivial, rfl, rfl⟩
  | timedOut => exact ⟨trivial, rfl, rfl⟩
  | raised error => exact call.fail_spec error

theorem SandboxCall.before_finish {call : SandboxCall} {result : CommandResult}
    (h : ∀ error, result = .raised error → error.notFound = false) :
    (call.finish settings result).phase.before = false := by
  cases result with
  | completed => rfl
  | exited => rfl
  | timedOut => rfl
  | raised error =>
    show (call.fail error).phase.before = false
    unfold fail
    split
    · rw [h error rfl, Bool.and_false]
      rfl
    · rfl

/-! ### Sandboxes -/

/-- What is not under the lock does not depend on which sandboxes are alive. -/
theorem SandboxCall.Sound.of_created {call : SandboxCall} (h : call.Sound sandboxes)
    (hcreated : ∀ sandbox scope, CreatedFor sandboxes sandbox scope →
      CreatedFor sandboxes' sandbox scope)
    (hlive : call.phase.locked = true → ∀ (sandbox : ℕ) (record : SandboxRecord),
      sandboxes'[sandbox]? = some record → record.live = true →
        ∃ record', sandboxes[sandbox]? = some record' ∧ record'.live = true ∧
          record'.scope = record.scope) : call.Sound sandboxes' := by
  unfold Sound at h ⊢
  split at h
  · next infos hphase =>
    rw [hphase] at hlive
    refine ⟨fun sandbox hmem => hcreated _ _ (h.1 sandbox hmem), fun sandbox record hrecord hl hs => ?_⟩
    obtain ⟨record', hrecord', hl', hscope⟩ := hlive rfl sandbox record hrecord hl
    exact h.2 sandbox record' hrecord' hl' (hscope.trans hs)
  · exact hcreated _ _ h
  · exact hcreated _ _ h
  · exact hcreated _ _ h
  · trivial
  · trivial
  · trivial
  · trivial

theorem getElem?_die {sandbox i : ℕ} {record : SandboxRecord}
    (h : (sandboxes.modify sandbox fun record => { record with live := false })[i]? = some record) :
    ∃ old, sandboxes[i]? = some old ∧ record.scope = old.scope ∧ record.metadata = old.metadata ∧
      (record.live = true → old.live = true) := by
  rw [getElem?_modify] at h
  obtain ⟨old, hold, rfl⟩ := Option.map_eq_some_iff.mp h
  refine ⟨old, hold, ?_⟩
  split
  · exact ⟨rfl, rfl, fun hlive => by cases hlive⟩
  · exact ⟨rfl, rfl, id⟩

theorem CreatedFor.die {sandbox i : ℕ} {scope : RunScope} (h : CreatedFor sandboxes i scope) :
    CreatedFor (sandboxes.modify sandbox fun record => { record with live := false }) i scope := by
  obtain ⟨record, hrecord, hscope⟩ := h
  unfold CreatedFor
  rw [getElem?_modify, hrecord]
  refine ⟨_, rfl, ?_⟩
  split
  · exact hscope
  · exact hscope

theorem CreatedFor.append {i : ℕ} {scope : RunScope} (h : CreatedFor sandboxes i scope)
    (new : List SandboxRecord) : CreatedFor (sandboxes ++ new) i scope := by
  obtain ⟨record, hrecord, hscope⟩ := h
  obtain ⟨hi, -⟩ := List.getElem?_eq_some_iff.mp hrecord
  exact ⟨record, by rw [getElem?_append_left hi, hrecord], hscope⟩

namespace SandboxProcess

variable {s s' : SandboxProcess} {i : ℕ} {call call' : SandboxCall} {lock : Option ℕ}

/-- A call goes on, and the others stay. -/
theorem Inv.update (h : s.Inv) (hi : s.calls[i]? = some call) (hscope : call'.scope = call.scope)
    (hsound : call'.Sound s.sandboxes) (hlocked : call'.phase.locked = false ∨ lock = some i)
    (hothers : ∀ j, j ≠ i → s.lock = some j → lock = some j)
    (hbefore : call'.phase.before = false ∨ call.phase.before = true) :
    (s.update i call' lock).Inv := by
  have hlt : i < s.calls.length := (List.getElem?_eq_some_iff.mp hi).1
  have hcalls : ∀ j, ∀ c ∈ (s.calls.set i call')[j]?, (j = i ∧ c = call') ∨
      (j ≠ i ∧ s.calls[j]? = some c) := by
    intro j c hc
    rcases eq_or_ne j i with rfl | hne
    · rw [getElem?_set_self hlt] at hc
      exact .inl ⟨rfl, (Option.some.inj hc).symm⟩
    · rw [getElem?_set_ne hne.symm] at hc
      exact .inr ⟨hne, hc⟩
  refine ⟨h.metadata, h.single, h.cache, fun c hc => ?_, fun j c hc hphase => ?_,
    fun act hact => ?_, fun j c hc => ?_⟩
  · rcases mem_or_eq_of_mem_set hc with hold | rfl
    · exact h.sound c hold
    · exact hsound
  · rcases hcalls j c hc with ⟨rfl, rfl⟩ | ⟨hne, hold⟩
    · rcases hlocked with hfree | hheld
      · rw [hfree] at hphase
        cases hphase
      · exact hheld
    · exact hothers j hne (h.locked j c hold hphase)
  · obtain ⟨c, hc, hcreated⟩ := h.own act hact
    rcases eq_or_ne act.call i with heq | hne
    · rw [heq, hi] at hc
      obtain rfl := Option.some.inj hc
      refine ⟨call', ?_, hscope ▸ hcreated⟩
      show (s.calls.set i call')[act.call]? = some call'
      rw [heq, getElem?_set_self hlt]
    · refine ⟨c, ?_, hcreated⟩
      show (s.calls.set i call')[act.call]? = some c
      rw [getElem?_set_ne hne.symm, hc]
  · show s.starts j ≤ _
    rcases hcalls j c hc with ⟨rfl, rfl⟩ | ⟨hne, hold⟩
    · have honce := h.once j call hi
      rcases hbefore with hafter | hbefore
      · rw [hafter]
        refine honce.trans ?_
        split <;> simp
      · rw [if_pos hbefore] at honce
        omega
    · exact h.once j c hold

theorem Inv.setCache (h : s.Inv) {sandbox : ℕ} {scope : RunScope}
    (hcreated : CreatedFor s.sandboxes sandbox scope) :
    { s with cache := s.cache.set scope.key sandbox }.Inv := by
  refine ⟨h.metadata, h.single, fun scope' sandbox' hget => ?_, h.sound, h.locked, h.own, h.once⟩
  rw [Dict.get?_set] at hget
  split at hget
  · next heq =>
    obtain rfl := Option.some.inj hget
    rwa [RunScope.key_inj heq]
  · exact h.cache scope' sandbox' hget

theorem Inv.eraseCache (h : s.Inv) (key : String) :
    { s with cache := s.cache.erase key }.Inv := by
  refine ⟨h.metadata, h.single, fun scope' sandbox' hget => ?_, h.sound, h.locked, h.own, h.once⟩
  rw [Dict.get?_erase] at hget
  split at hget
  · cases hget
  · exact h.cache scope' sandbox' hget

/-- A sandbox dies. -/
theorem Inv.die (h : s.Inv) (sandbox : ℕ) :
    { s with sandboxes := s.sandboxes.modify sandbox fun record =>
      { record with live := false } }.Inv := by
  refine ⟨fun record hrecord => ?_, fun j k a b ha hb hla hlb hscope => ?_,
    fun scope n hget => (h.cache scope n hget).die, fun c hc => ?_, h.locked, fun act hact => ?_,
    h.once⟩
  · obtain ⟨j, hj⟩ := mem_iff_getElem?.mp hrecord
    obtain ⟨old, hold, hscope, hmetadata, -⟩ := getElem?_die hj
    rw [hmetadata, hscope]
    exact h.metadata old (mem_of_getElem? hold)
  · obtain ⟨a', ha', hscope', -, hlive'⟩ := getElem?_die ha
    obtain ⟨b', hb', hscope'', -, hlive''⟩ := getElem?_die hb
    apply h.single j k a' b' ha' hb' (hlive' hla) (hlive'' hlb)
    rw [← hscope', ← hscope'', hscope]
  · refine (h.sound c hc).of_created (fun _ _ hcreated => hcreated.die) fun _ n record hrecord hl => ?_
    obtain ⟨old, hold, hscope, -, hlive⟩ := getElem?_die hrecord
    exact ⟨old, hold, hlive hl, hscope.symm⟩
  · obtain ⟨c, hc, hcreated⟩ := h.own act hact
    exact ⟨c, hc, hcreated.die⟩

/-- A sandbox is created for a run none of whose sandboxes is alive, while no call is under the
lock. -/
theorem Inv.createFor (h : s.Inv) (hlock : s.lock = none)
    (hnone : ∀ (n : ℕ) (record : SandboxRecord), s.sandboxes[n]? = some record →
      record.live = true → record.scope ≠ call.scope) : (s.createFor call).Inv := by
  have hnew : ∀ (n : ℕ) (record : SandboxRecord),
      (s.sandboxes ++ [{ metadata := call.scope.key, scope := call.scope }])[n]? = some record →
        s.sandboxes[n]? = some record ∨ (n = s.sandboxes.length ∧ record.scope = call.scope) := by
    intro n record hn
    rcases Nat.lt_or_ge n s.sandboxes.length with hlt | hge
    · rw [getElem?_append_left hlt] at hn
      exact .inl hn
    · rw [getElem?_append_right hge] at hn
      obtain ⟨hzero, rfl⟩ := List.getElem?_eq_some_iff.mp hn
      rw [length_singleton] at hzero
      exact .inr ⟨by omega, by simp⟩
  refine ⟨fun record hrecord => ?_, fun j k a b ha hb hla hlb hscope => ?_,
    fun scope n hget => (h.cache scope n hget).append _, fun c hc => ?_, h.locked,
    fun act hact => ?_, h.once⟩
  · rcases mem_append.mp hrecord with hold | hmem
    · exact h.metadata record hold
    · obtain rfl := mem_singleton.mp hmem
      rfl
  · rcases hnew j a ha with ha | ⟨rfl, hsa⟩
    · rcases hnew k b hb with hb | ⟨-, hsb⟩
      · exact h.single j k a b ha hb hla hlb hscope
      · exact absurd (hscope.trans hsb) (hnone j a ha hla)
    · rcases hnew k b hb with hb | ⟨rfl, -⟩
      · exact absurd (hscope.symm.trans hsa) (hnone k b hb hlb)
      · rfl
  · refine (h.sound c hc).of_created (fun _ _ hcreated => hcreated.append _) fun hphase => ?_
    obtain ⟨j, hj⟩ := mem_iff_getElem?.mp hc
    have hheld := h.locked j c hj hphase
    rw [hlock] at hheld
    cases hheld
  · obtain ⟨c, hc, hcreated⟩ := h.own act hact
    exact ⟨c, hc, hcreated.append _⟩

/-- Something is done in a sandbox of the run; a command only by a call that has started none. -/
theorem Inv.act (h : s.Inv) {a : SandboxAct} (hcall : s.calls[a.call]? = some call)
    (hcreated : CreatedFor s.sandboxes a.sandbox call.scope)
    (hstart : a.file = none → s.starts a.call = 0 ∧ call.phase.before = false) :
    (s.act a).Inv := by
  refine ⟨h.metadata, h.single, h.cache, h.sound, h.locked, fun act hact => ?_, fun j c hc => ?_⟩
  · rcases mem_append.mp hact with hold | hmem
    · exact h.own act hold
    · obtain rfl := mem_singleton.mp hmem
      exact ⟨call, hcall, hcreated⟩
  · have hold := h.once j c hc
    have hstarts : (s.act a).starts j =
        s.starts j + if a.call = j ∧ a.file = none then 1 else 0 := by
      simp [starts, SandboxProcess.act, countP_append, countP_singleton]
    rw [hstarts]
    split
    · next hboth =>
      obtain ⟨rfl, hfile⟩ := hboth
      obtain ⟨hzero, hafter⟩ := hstart hfile
      obtain rfl := Option.some.inj (hcall.symm.trans hc)
      simp [hzero, hafter]
    · exact hold

/-- A call begins. -/
theorem Inv.begin (h : s.Inv) (scope : RunScope) (op : SandboxOp) :
    ({ s with calls := s.calls ++ [{ scope := scope, op := op }] } : SandboxProcess).Inv := by
  have hnone : s.starts s.calls.length = 0 := by
    rw [starts, countP_eq_zero]
    intro act hact heq
    obtain ⟨c, hc, -⟩ := h.own act hact
    have hlt := (List.getElem?_eq_some_iff.mp hc).1
    have hcall : act.call = s.calls.length := (of_decide_eq_true heq).1
    omega
  have hcalls : ∀ (j : ℕ) (c : SandboxCall),
      (s.calls ++ [{ scope := scope, op := op }])[j]? = some c →
        s.calls[j]? = some c ∨ (j = s.calls.length ∧ c.phase = .resolve) := by
    intro j c hc
    rcases Nat.lt_or_ge j s.calls.length with hlt | hge
    · rw [getElem?_append_left hlt] at hc
      exact .inl hc
    · rw [getElem?_append_right hge] at hc
      obtain ⟨hzero, rfl⟩ := List.getElem?_eq_some_iff.mp hc
      rw [length_singleton] at hzero
      exact .inr ⟨by omega, by simp⟩
  refine ⟨h.metadata, h.single, h.cache, fun c hc => ?_, fun j c hc hphase => ?_,
    fun act hact => ?_, fun j c hc => ?_⟩
  · rcases mem_append.mp hc with hold | hmem
    · exact h.sound c hold
    · obtain rfl := mem_singleton.mp hmem
      trivial
  · rcases hcalls j c hc with hold | ⟨-, hresolve⟩
    · exact h.locked j c hold hphase
    · rw [hresolve] at hphase
      cases hphase
  · obtain ⟨c, hc, hcreated⟩ := h.own act hact
    refine ⟨c, ?_, hcreated⟩
    show (s.calls ++ [_])[act.call]? = some c
    rw [getElem?_append_left (List.getElem?_eq_some_iff.mp hc).1, hc]
  · rcases hcalls j c hc with hold | ⟨rfl, hresolve⟩
    · exact h.once j c hold
    · show s.starts s.calls.length ≤ _
      rw [hnone]
      exact Nat.zero_le _

/-! ### Steps -/

/-- The lookup under the lock. -/
theorem Inv.resolve (h : s.Inv) (hi : s.calls[i]? = some call) (hphase : call.phase = .resolve)
    (hlock : s.lock = none) : (s.resolve settings i call).Inv := by
  have hbefore : call.phase.before = true := by rw [hphase]; rfl
  unfold SandboxProcess.resolve
  split
  · next sandbox hcached =>
    obtain ⟨hsound, hscope, hfree⟩ := call.obtain_spec (h.cache call.scope sandbox hcached)
    exact h.update hi hscope hsound (.inl hfree) (fun _ _ => id) (.inr hbefore)
  · split
    · next error _ =>
      obtain ⟨hsound, hscope, hfree⟩ := SandboxCall.fail_spec call error
      exact h.update hi hscope hsound (.inl hfree) (fun _ _ => id) (.inr hbefore)
    · refine h.update hi rfl trivial (.inr rfl) (fun j _ hheld => ?_) (.inr hbefore)
      rw [hlock] at hheld
      cases hheld

theorem Inv.keep (h : s.Inv) (hi : s.calls[i]? = some call) (hbefore : call.phase.before = true)
    (hheld : ∀ j, j ≠ i → s.lock ≠ some j) {sandbox : ℕ}
    (hcreated : CreatedFor s.sandboxes sandbox call.scope) : (s.keep i call sandbox).Inv := by
  obtain ⟨hsound, hscope, hfree⟩ := call.obtain_spec hcreated
  have hupdate : (s.update i (call.obtain sandbox) none).Inv :=
    h.update hi hscope hsound (.inl hfree) (fun j hne hj => absurd hj (hheld j hne)) (.inr hbefore)
  exact hupdate.setCache hcreated

theorem Inv.fail (h : s.Inv) (hi : s.calls[i]? = some call) (hbefore : call.phase.before = true)
    (hheld : ∀ j, j ≠ i → s.lock ≠ some j) (error : SdkError) :
    (s.update i (call.fail error) none).Inv := by
  obtain ⟨hsound, hscope, hfree⟩ := SandboxCall.fail_spec call error
  exact h.update hi hscope hsound (.inl hfree) (fun j hne hj => absurd hj (hheld j hne))
    (.inr hbefore)

/-- A sandbox is created when none is left to try. -/
theorem Inv.create (h : s.Inv) (hi : s.calls[i]? = some call) (hphase : call.phase = .connecting [])
    (answer : CreateAnswer) : (s.create i call answer).Inv := by
  have hlt : i < s.calls.length := (List.getElem?_eq_some_iff.mp hi).1
  have hlock : s.lock = some i := h.locked i call hi (by rw [hphase]; rfl)
  have hheld : ∀ j, j ≠ i → s.lock ≠ some j := by
    intro j hne hj
    rw [hlock] at hj
    exact hne (Option.some.inj hj).symm
  have hbefore : call.phase.before = true := by rw [hphase]; rfl
  have hnone : ∀ (n : ℕ) (record : SandboxRecord), s.sandboxes[n]? = some record →
      record.live = true → record.scope ≠ call.scope := by
    intro n record hn hlive hscope
    have hsound := h.sound call (mem_of_getElem? hi)
    rw [SandboxCall.Sound, hphase] at hsound
    exact absurd (hsound.2 n record hn hlive hscope) not_mem_nil
  -- the call before the lock, whose sandbox is created
  have hfree : (s.update i { call with phase := .resolve } none).Inv :=
    h.update hi rfl trivial (.inl rfl) (fun j hne hj => absurd hj (hheld j hne)) (.inr hbefore)
  have hcreate := @Inv.createFor _ call hfree rfl hnone
  have hcall : (s.calls.set i { call with phase := .resolve })[i]? =
      some { call with phase := .resolve } := getElem?_set_self hlt
  have hagain : ∀ c : SandboxCall, ((s.update i { call with phase := .resolve } none).createFor
      call).update i c none = (s.createFor call).update i c none := by
    intro c
    simp [SandboxProcess.update, SandboxProcess.createFor, set_set]
  cases answer with
  | created =>
    have hnew : CreatedFor (s.createFor call).sandboxes s.sandboxes.length call.scope :=
      ⟨_, getElem?_concat_length, rfl⟩
    have hkeep := hcreate.keep hcall rfl (fun _ _ hj => by cases hj) hnew
    unfold SandboxProcess.keep at hkeep
    rw [hagain] at hkeep
    exact hkeep
  | raised error created =>
    cases created with
    | false => exact h.fail hi hbefore hheld error
    | true =>
      have hfail := hcreate.fail hcall rfl (fun _ _ hj => by cases hj) error
      rw [hagain] at hfail
      exact hfail

/-- **One step** keeps the invariant, where the provider answers as it should. -/
theorem Inv.step (h : s.Inv) {a : SandboxAction} (ha : s.Answers a)
    (hs : s.step settings a = some s') : s'.Inv := by
  cases a with
  | call scope op =>
    cases hs
    exact h.begin scope op
  | resolve i =>
    obtain ⟨call, hi, hs⟩ := Option.bind_eq_some_iff.mp hs
    split at hs
    · next hphase hlock =>
      cases hs
      exact h.resolve hi hphase hlock
    · cases hs
  | list i answer =>
    obtain ⟨call, hi, hs⟩ := Option.bind_eq_some_iff.mp hs
    split at hs
    · next hphase =>
      cases hs
      obtain ⟨infos, rfl, hgiven, hall⟩ := ha call hi
      have hbefore : call.phase.before = true := by rw [hphase]; rfl
      have hlock : s.lock = some i := h.locked i call hi (by rw [hphase]; rfl)
      refine h.update hi rfl ⟨fun sandbox hmem => ?_, fun sandbox record hrecord hlive hscope => ?_⟩
        (.inr hlock) (fun _ _ => id) (.inr hbefore)
      · obtain ⟨record, hrecord, hmetadata⟩ := hgiven sandbox hmem
        refine ⟨record, hrecord, RunScope.key_inj ?_⟩
        rw [← h.metadata record (mem_of_getElem? hrecord), hmetadata]
      · apply hall sandbox record hrecord hlive
        rw [h.metadata record (mem_of_getElem? hrecord), hscope]
    · cases hs
  | connect i ok =>
    obtain ⟨call, hi, hs⟩ := Option.bind_eq_some_iff.mp hs
    split at hs
    · next sandbox infos hphase =>
      have hok := ha call hi sandbox infos hphase
      have hbefore : call.phase.before = true := by rw [hphase]; rfl
      have hlock : s.lock = some i := h.locked i call hi (by rw [hphase]; rfl)
      have hsound := h.sound call (mem_of_getElem? hi)
      rw [SandboxCall.Sound, hphase] at hsound
      split at hs
      · cases hs
        refine h.keep hi hbefore (fun j hne hj => ?_) (hsound.1 sandbox mem_cons_self)
        rw [hlock] at hj
        exact hne (Option.some.inj hj).symm
      · next hdead =>
        cases hs
        refine h.update hi rfl ⟨fun n hmem => hsound.1 n (mem_cons_of_mem _ hmem),
          fun n record hrecord hlive hscope => ?_⟩ (.inr hlock) (fun _ _ => id) (.inr hbefore)
        -- a sandbox that is alive is not the one that was tried
        rcases mem_cons.mp (hsound.2 n record hrecord hlive hscope) with rfl | hmem
        · rw [hok, isLive, hrecord, Option.any_some, hlive] at hdead
          exact absurd rfl hdead
        · exact hmem
    · cases hs
  | create i answer =>
    obtain ⟨call, hi, hs⟩ := Option.bind_eq_some_iff.mp hs
    split at hs
    · next hphase =>
      cases hs
      exact h.create hi hphase answer
    · cases hs
  | run i result =>
    obtain ⟨call, hi, hs⟩ := Option.bind_eq_some_iff.mp hs
    split at hs
    · next sandbox hphase =>
      have hbefore : call.phase.before = true := by rw [hphase]; rfl
      have hsound := h.sound call (mem_of_getElem? hi)
      rw [SandboxCall.Sound, hphase] at hsound
      split at hs
      · cases hs
        obtain ⟨hfinish, hscope, hfree⟩ := SandboxCall.finish_spec call _
        exact h.update hi hscope hfinish (.inl hfree) (fun _ _ => id) (.inr hbefore)
      · split at hs
        · cases hs
          have hzero : s.starts i = 0 := by
            have honce := h.once i call hi
            rw [if_pos hbefore] at honce
            omega
          have hrunning : (s.update i { call with phase := .running sandbox } s.lock).Inv :=
            h.update hi rfl hsound (.inl rfl) (fun _ _ => id) (.inr hbefore)
          exact hrunning.act (getElem?_set_self (List.getElem?_eq_some_iff.mp hi).1) hsound
            fun _ => ⟨hzero, rfl⟩
        · cases hs
    · cases hs
  | finish i result =>
    obtain ⟨call, hi, hs⟩ := Option.bind_eq_some_iff.mp hs
    split at hs
    · next sandbox hphase =>
      cases hs
      obtain ⟨hfinish, hscope, hfree⟩ := SandboxCall.finish_spec call result
      have hafter : (call.finish settings result).phase.before = false := by
        apply SandboxCall.before_finish
        rintro error rfl
        exact ha
      exact h.update hi hscope hfinish (.inl hfree) (fun _ _ => id) (.inl hafter)
    · cases hs
  | invalidate i =>
    obtain ⟨call, hi, hs⟩ := Option.bind_eq_some_iff.mp hs
    split at hs
    · next hphase hlock =>
      cases hs
      have hbefore : call.phase.before = true := by rw [hphase]; rfl
      have hagain : (s.update i { call with phase := .resolve, retried := true } none).Inv := by
        refine h.update hi rfl trivial (.inl rfl) (fun j _ hj => ?_) (.inr hbefore)
        rw [hlock] at hj
        cases hj
      exact hagain.eraseCache _
    · cases hs
  | file i acted error =>
    obtain ⟨call, hi, hs⟩ := Option.bind_eq_some_iff.mp hs
    split at hs
    · next sandbox path left responses hphase =>
      have hsound := h.sound call (mem_of_getElem? hi)
      rw [SandboxCall.Sound, hphase] at hsound
      obtain ⟨hgoes, hscope, hfree, hafter⟩ :=
        call.respond_spec hsound left (responses ++ [(path, error.map fileError)])
      have hnext := h.update hi hscope hgoes (.inl hfree) (fun _ _ => id) (.inl hafter)
      dsimp only at hs
      split at hs
      · split at hs
        · cases hs
          refine hnext.act (getElem?_set_self (List.getElem?_eq_some_iff.mp hi).1) ?_ fun hfile => ?_
          · exact hscope ▸ hsound
          · cases hfile
        · cases hs
      · cases hs
        exact hnext
    · cases hs
  | die sandbox =>
    cases hs
    exact h.die sandbox

end SandboxProcess

theorem SandboxProcess.inv_init {s : SandboxProcess} (h : (sandboxBackend settings).init s) :
    s.Inv := by
  obtain ⟨sandboxes, rfl, hmetadata, hsingle⟩ := h
  refine ⟨hmetadata, hsingle, fun scope sandbox hget => ?_, fun call hcall => ?_,
    fun i call hcall => ?_, fun act hact => ?_, fun i call hcall => ?_⟩
  · cases hget
  · cases hcall
  · cases hcall
  · cases hact
  · cases hcall

theorem SandboxProcess.answers_nil {s : SandboxProcess} (h : s.sandboxes = []) (i : ℕ) :
    s.Answers (.list i (some [])) := by
  refine fun call _ => ⟨[], rfl, fun sandbox hsandbox => ?_, fun sandbox record hrecord => ?_⟩
  · cases hsandbox
  · rw [h] at hrecord
    cases hrecord

/-- The run of a user in a thread. -/
def sampleScope : RunScope where
  identity := "user:7"
  threadId := "3f2b8c1e-9a4d-4e6f-8b7a-0c5d1e2f3a4b"
  identity_ne := by decide
  isUuid := by decide

/-- Settings with which a sandbox can be created. -/
def sampleSettings : SandboxSettings where
  e2bApiKey := "key"
  template := "base"

end NextRole
