import NextRole.Api.EventSession

/-!
# The lifecycle of a session

The normal close of a run ends the namespaces that are open, deepest first, and the root
last.  An error event and the request of an input end the root at once, whatever is open
below it, and keep the normal close from running.  An upstream event or an `updates` event
ends a namespace without regard to what is open below it.  So the lifecycle is well formed
as long as only a namespace ends below which nothing is open, and none starts below a
namespace that has ended.

## Main definitions

* `ProtocolEvent.Ends`, `Opened`, `Ended` — lifecycle events.
* `WellFormedLifecycle` — the law.
* `KeepsNesting` — the source events that keep to it.
* `Nesting` — what holds of every run of them.

## Main results

* `wellFormedLifecycle_of_closed`, and `not_wellFormedLifecycle` without the condition.
-/

namespace NextRole

/-! ### The law -/

/-- An event is the terminal lifecycle event of a namespace. -/
def ProtocolEvent.Ends (e : ProtocolEvent) (ns : List String) : Prop :=
  ∃ status ∈ [LifecycleStatus.completed, .failed, .interrupted], e.Announces ns status

instance (e : ProtocolEvent) (ns : List String) : Decidable (e.Ends ns) :=
  inferInstanceAs (Decidable (∃ status ∈ _, _))

/-- The `started` of a namespace has been pushed. -/
def Opened (events : List ProtocolEvent) (ns : List String) : Prop :=
  ∃ e ∈ events, e.Announces ns .started

/-- A terminal event of a namespace has been pushed. -/
def Ended (events : List ProtocolEvent) (ns : List String) : Prop := ∃ e ∈ events, e.Ends ns

instance (events : List ProtocolEvent) (ns : List String) : Decidable (Opened events ns) :=
  inferInstanceAs (Decidable (∃ e ∈ events, _))

instance (events : List ProtocolEvent) (ns : List String) : Decidable (Ended events ns) :=
  inferInstanceAs (Decidable (∃ e ∈ events, _))

/-- A namespace is below another one. -/
def Below (ns ancestor : List String) : Prop := ancestor <+: ns ∧ ancestor ≠ ns

/-- Whatever was started below a namespace has ended before the namespace ends. -/
def DeepestFirst (events : List ProtocolEvent) : Prop :=
  ∀ before e after, events = before ++ e :: after → ∀ ancestor, e.Ends ancestor →
    ∀ ns, Opened events ns → Below ns ancestor → Ended before ns

/-- The root ends exactly once, and nothing ends before what was started below it. -/
def WellFormedLifecycle (events : List ProtocolEvent) : Prop :=
  (events.filter fun e => e.Ends []).length = 1 ∧ DeepestFirst events

/-! ### The condition -/

/-- Whatever was started below a namespace has ended. -/
def EndsLast (s : ProtocolSession) (ancestor : List String) : Prop :=
  ∀ ns, Opened s.pushed ns → Below ns ancestor → Ended s.pushed ns

/-- The segments of a namespace keep the zero byte out, and the first one is not empty. -/
def ProperNamespace (ns : List String) : Prop :=
  (∀ segment ∈ ns, '\x00' ∉ segment.toList) ∧ ns.head? ≠ some ""

/-- The root is announced as interrupted. -/
def RootInterrupted (s : ProtocolSession) : Prop :=
  s.hasStatus [] .interrupted (s.resolveGraphName [] (some s.rootGraphName)) = true

/-- The calls that keep namespaces nested: one ends only after what was started below it, and
starts only below what has not ended.  A new request ends the root. -/
def CallKeepsNesting (s : ProtocolSession) : SessionCall → Prop
  | .register ns => ProperNamespace ns
  | .push _ _ _ _ | .checkpoint _ _ => True
  | .started ns _ => ProperNamespace ns ∧ (namespaceKey ns ∈ s.wireStartedEmitted ∨
      ∀ ancestor, Below ns ancestor → ¬ Ended s.pushed ancestor)
  | .lifecycle ns status _ _ _ =>
    ProperNamespace ns ∧ (status.terminal = true → EndsLast s ns)
  | .childCompleted parent node =>
    ∀ info ∈ s.openChild parent node, EndsLast s info.ns
  | .requested _ requests => requests.any s.isNewRequest = true →
      RootInterrupted s ∨ (¬ Ended s.pushed [] ∧ EndsLast s [])

/-- The normal close can end what is open: the run is over, and nothing that was started and
has not ended is announced as running. -/
def Closable (s : ProtocolSession) (run : Option RunStatus) : Prop :=
  (∃ status ∈ run, (toLifecycleStatus status).terminal = true) ∧
    (s.terminalLifecycleEmitted = false → ∀ ns, Opened s.pushed ns → ¬ Ended s.pushed ns →
      (s.namespaces.get? (namespaceKey ns)).all fun info => info.status ≠ .running)

/-- The steps that keep namespaces nested.  An error ends the root. -/
def KeepsNesting (s : ProtocolSession) : SessionAction → Prop
  | .source e =>
    (e.name = "error" → ¬ Ended s.pushed [] ∧ EndsLast s []) ∧
      (e.name ≠ "metadata" → e.name ≠ "error" →
        CallsMeet CallKeepsNesting (s.openScope e.streamId) (s.callsOf e))
  | .clearInterrupt _ => True
  | .complete run _ => Closable s run

/-! ### The condition is decidable -/

theorem forall_opened_iff {events : List ProtocolEvent} {P : List String → Prop} :
    (∀ ns, Opened events ns → P ns) ↔ ∀ e ∈ events, e.Announces e.ns .started → P e.ns := by
  constructor
  · exact fun h e he hstart => h e.ns ⟨e, he, hstart⟩
  · rintro h ns ⟨e, he, hstart⟩
    obtain rfl := hstart.2.1
    exact h e he hstart

instance (ns ancestor : List String) : Decidable (Below ns ancestor) :=
  inferInstanceAs (Decidable (_ ∧ _))

instance (s : ProtocolSession) (ancestor : List String) : Decidable (EndsLast s ancestor) :=
  decidable_of_iff _ forall_opened_iff.symm

instance (ns : List String) : Decidable (ProperNamespace ns) :=
  inferInstanceAs (Decidable (_ ∧ _))

instance (s : ProtocolSession) : Decidable (RootInterrupted s) :=
  inferInstanceAs (Decidable (_ = true))

instance (s : ProtocolSession) (ns : List String) :
    Decidable (∀ ancestor, Below ns ancestor → ¬ Ended s.pushed ancestor) :=
  decidable_of_iff (∀ ancestor ∈ ns.inits, ancestor ≠ ns → ¬ Ended s.pushed ancestor)
    (by simp [Below])

instance (s : ProtocolSession) (run : Option RunStatus) : Decidable (Closable s run) :=
  @instDecidableAnd _ _ _ (@instDecidableForall _ _ _ (decidable_of_iff _ forall_opened_iff.symm))

instance (s : ProtocolSession) (c : SessionCall) : Decidable (CallKeepsNesting s c) := by
  match c with
  | .register _ | .push .. | .started .. | .lifecycle .. | .childCompleted .. | .requested ..
  | .checkpoint .. => unfold CallKeepsNesting; infer_instance

instance (s : ProtocolSession) (a : SessionAction) : Decidable (KeepsNesting s a) := by
  match a with
  | .source _ | .clearInterrupt _ | .complete .. => unfold KeepsNesting; infer_instance

/-! ### Lifecycle events -/

section

variable {events : List ProtocolEvent} {e : ProtocolEvent} {ns ns' : List String}
  {status : LifecycleStatus}

theorem ProtocolEvent.Announces.ends_iff (h : e.Announces ns status) :
    e.Ends ns' ↔ ns' = ns ∧ status.terminal = true := by
  constructor
  · rintro ⟨status', hmem, hends⟩
    obtain ⟨rfl, rfl⟩ := h.unique hends
    refine ⟨rfl, ?_⟩
    simp only [List.mem_cons, List.not_mem_nil, or_false] at hmem
    rcases hmem with rfl | rfl | rfl <;> rfl
  · rintro ⟨rfl, hterm⟩
    refine ⟨status, ?_, h⟩
    cases status <;> simp [LifecycleStatus.terminal] at hterm ⊢

theorem ProtocolEvent.not_announces (h : e.method ≠ "lifecycle") : ¬ e.Announces ns status :=
  fun ha => h ha.1

theorem ProtocolEvent.not_ends (h : e.method ≠ "lifecycle") : ¬ e.Ends ns :=
  fun ⟨_, _, ha⟩ => h ha.1

theorem opened_concat : Opened (events ++ [e]) ns ↔ Opened events ns ∨ e.Announces ns .started := by
  simp [Opened, or_and_right, exists_or]

theorem ended_concat : Ended (events ++ [e]) ns ↔ Ended events ns ∨ e.Ends ns := by
  simp [Ended, or_and_right, exists_or]

theorem opened_append {extra : List ProtocolEvent} (h : ∀ e ∈ extra, e.method ≠ "lifecycle") :
    Opened (events ++ extra) ns ↔ Opened events ns := by
  simp only [Opened, List.mem_append, or_and_right, exists_or]
  exact or_iff_left fun ⟨e, he, hstart⟩ => ProtocolEvent.not_announces (h e he) hstart

theorem ended_append {extra : List ProtocolEvent} (h : ∀ e ∈ extra, e.method ≠ "lifecycle") :
    Ended (events ++ extra) ns ↔ Ended events ns := by
  simp only [Ended, List.mem_append, or_and_right, exists_or]
  exact or_iff_left fun ⟨e, he, hends⟩ => ProtocolEvent.not_ends (h e he) hends

/-- One more event: it ends a namespace only where all below has ended, and starts one only
where all above has not. -/
theorem DeepestFirst.concat (h : DeepestFirst events)
    (hends : ∀ ancestor, e.Ends ancestor →
      ∀ ns, Opened events ns → Below ns ancestor → Ended events ns)
    (hstarts : ∀ ns, e.Announces ns .started →
      ∀ ancestor, Below ns ancestor → ¬ Ended events ancestor) :
    DeepestFirst (events ++ [e]) := by
  intro before f after hsplit ancestor hf ns hopened hbelow
  rcases List.eq_nil_or_concat after with rfl | ⟨after, x, rfl⟩
  · -- the new event ends the namespace
    obtain ⟨rfl, hlast⟩ := List.append_inj' hsplit rfl
    obtain rfl : e = f := by simpa using hlast
    rcases opened_concat.mp hopened with hopened | hstart
    · exact hends ancestor hf ns hopened hbelow
    · have hterm := (hstart.ends_iff.mp hf).2
      cases hterm
  · -- an earlier event does
    rw [List.concat_eq_append, ← List.cons_append, ← List.append_assoc] at hsplit
    obtain ⟨hevents, hx⟩ := List.append_inj' hsplit rfl
    rcases opened_concat.mp hopened with hopened | hstart
    · exact h before f after hevents ancestor hf ns hopened hbelow
    · refine absurd ⟨f, ?_, hf⟩ (hstarts ns hstart ancestor hbelow)
      rw [hevents]
      exact List.mem_append_right _ List.mem_cons_self

end

/-! ### Namespaces and their keys -/

theorem ProperNamespace.of_prefix {ns part : List String} (h : ProperNamespace ns)
    (hp : part <+: ns) : ProperNamespace part := by
  obtain ⟨rest, rfl⟩ := hp
  refine ⟨fun segment hs => h.1 segment (List.mem_append_left _ hs), fun hhead => h.2 ?_⟩
  cases part with
  | nil => cases hhead
  | cons segment part => exact hhead

/-- A proper namespace that is not the root has a key of its own. -/
theorem namespaceKey_inj {ns ns' : List String} (h : ProperNamespace ns) (h' : ProperNamespace ns')
    (heq : namespaceKey ns = namespaceKey ns') : ns = ns' := by
  have htext := String.ofList_injective heq
  rcases eq_or_ne ns [] with rfl | hne
  · exact (eq_nil_of_namespaceKey h'.2 heq.symm).symm
  rcases eq_or_ne ns' [] with rfl | hne'
  · exact eq_nil_of_namespaceKey h.2 heq
  have hsep : ∀ {ns : List String}, ProperNamespace ns →
      ∀ s ∈ ns.map String.toList, '\x00' ∉ s := by
    intro ns h s hs
    obtain ⟨segment, hsegment, rfl⟩ := List.mem_map.mp hs
    exact h.1 segment hsegment
  refine List.map_injective_iff.mpr (fun _ _ => String.toList_injective) ?_
  exact Path.join_inj (hsep h) (hsep h') (by simpa using hne) (by simpa using hne') htext

theorem properNamespace_nil : ProperNamespace [] := ⟨by simp, by simp⟩

theorem get?_set_namespace {ns ns' : List String} (h : ProperNamespace ns)
    (h' : ProperNamespace ns') (hne : ns' ≠ ns) (d : Dict String NamespaceInfo)
    (info : NamespaceInfo) :
    (d.set (namespaceKey ns) info).get? (namespaceKey ns') = d.get? (namespaceKey ns') :=
  Dict.get?_set_of_ne d info fun heq => hne (namespaceKey_inj h' h heq)

/-! ### Runs -/

/-- Until the root ends, the session has it for running; then it has ended once.  What was
started and has not ended is known as started or running. -/
structure Nesting (s : ProtocolSession) : Prop where
  keyed : ∀ key info, s.namespaces.get? key = some info →
    key = namespaceKey info.ns ∧ ProperNamespace info.ns
  proper : ∀ ns, Opened s.pushed ns → ProperNamespace ns ∧ ns ≠ []
  root : (s.terminalLifecycleEmitted = false ∧ ¬ Ended s.pushed [] ∧
      ∃ info, s.namespaces.get? (namespaceKey []) = some info ∧ info.status = .running) ∨
    (s.terminalLifecycleEmitted = true ∧ (s.pushed.filter fun e => e.Ends []).length = 1)
  known : ∀ ns, Opened s.pushed ns → Ended s.pushed ns ∨
    ∃ info, s.namespaces.get? (namespaceKey ns) = some info ∧ info.ns = ns ∧
      info.status.terminal = false
  nested : DeepestFirst s.pushed

namespace Nesting

variable {s t : ProtocolSession}

theorem congr (h : Nesting s) (hns : t.namespaces = s.namespaces) (hpushed : t.pushed = s.pushed)
    (hlatch : t.terminalLifecycleEmitted = s.terminalLifecycleEmitted) : Nesting t where
  keyed := hns ▸ h.keyed
  proper := hpushed ▸ h.proper
  root := by
    rw [hns, hpushed, hlatch]
    exact h.root
  known := by
    rw [hns, hpushed]
    exact h.known
  nested := hpushed ▸ h.nested

theorem running_of_not_ended (h : Nesting s) (hended : ¬ Ended s.pushed []) :
    s.terminalLifecycleEmitted = false ∧
      ∃ info, s.namespaces.get? (namespaceKey []) = some info ∧ info.status = .running := by
  rcases h.root with ⟨hlatch, -, hrunning⟩ | ⟨-, hone⟩
  · exact ⟨hlatch, hrunning⟩
  · obtain ⟨e, he⟩ := List.length_pos_iff_exists_mem.mp (hone ▸ Nat.one_pos)
    obtain ⟨he, hends⟩ := List.mem_filter.mp he
    exact absurd ⟨e, he, of_decide_eq_true hends⟩ hended

/-- An event that is no lifecycle event. -/
theorem log (h : Nesting s) {e : ProtocolEvent} (he : e.method ≠ "lifecycle")
    (hns : t.namespaces = s.namespaces) (hpushed : t.pushed = s.pushed ++ [e])
    (hlatch : t.terminalLifecycleEmitted = s.terminalLifecycleEmitted) : Nesting t := by
  have hopened : ∀ ns, Opened t.pushed ns ↔ Opened s.pushed ns := fun ns => by
    rw [hpushed, opened_concat, or_iff_left (ProtocolEvent.not_announces he)]
  have hended : ∀ ns, Ended t.pushed ns ↔ Ended s.pushed ns := fun ns => by
    rw [hpushed, ended_concat, or_iff_left (ProtocolEvent.not_ends he)]
  refine ⟨hns ▸ h.keyed, fun ns hns => h.proper ns ((hopened ns).mp hns), ?_, fun ns hns' => ?_, ?_⟩
  · rw [hns, hlatch, hended, hpushed, List.filter_append]
    simpa [ProtocolEvent.not_ends he] using h.root
  · rw [hns, hended]
    exact h.known ns ((hopened ns).mp hns')
  · rw [hpushed]
    refine h.nested.concat (fun ancestor hends => absurd hends (ProtocolEvent.not_ends he)) ?_
    exact fun ns hstart => absurd hstart (ProtocolEvent.not_announces he)

/-- Another status of a proper namespace: one that keeps it open, or it has ended. -/
theorem setStatus (h : Nesting s) (info : NamespaceInfo) (hproper : ProperNamespace info.ns)
    (hne : info.ns ≠ []) (hstatus : info.status.terminal = true → Ended s.pushed info.ns)
    (hns : t.namespaces = s.namespaces.set (namespaceKey info.ns) info)
    (hpushed : t.pushed = s.pushed)
    (hlatch : t.terminalLifecycleEmitted = s.terminalLifecycleEmitted) : Nesting t := by
  refine ⟨?_, hpushed ▸ h.proper, ?_, fun ns hopened => ?_, hpushed ▸ h.nested⟩
  · rw [hns]
    exact Dict.forall_set ⟨rfl, hproper⟩ fun key x _ => h.keyed key x
  · rw [hns, get?_set_namespace hproper properNamespace_nil hne.symm, hpushed, hlatch]
    exact h.root
  · rw [hpushed] at hopened ⊢
    rw [hns]
    rcases eq_or_ne ns info.ns with rfl | hns'
    · cases hterm : info.status.terminal with
      | true => exact .inl (hstatus hterm)
      | false => exact .inr ⟨info, Dict.get?_set_self _ _ _, rfl, hterm⟩
    · rw [get?_set_namespace hproper (h.proper ns hopened).1 hns']
      exact h.known ns hopened

/-- A lifecycle event of a namespace below the root. -/
theorem announce (h : Nesting s) {e : ProtocolEvent} (info : NamespaceInfo)
    (he : e.Announces info.ns info.status) (hproper : ProperNamespace info.ns) (hne : info.ns ≠ [])
    (hends : info.status.terminal = true → EndsLast s info.ns)
    (hstarts : info.status = .started →
      ∀ ancestor, Below info.ns ancestor → ¬ Ended s.pushed ancestor)
    (hns : t.namespaces = s.namespaces.set (namespaceKey info.ns) info)
    (hpushed : t.pushed = s.pushed ++ [e])
    (hlatch : t.terminalLifecycleEmitted = s.terminalLifecycleEmitted) : Nesting t := by
  have hroot : ¬ e.Ends [] := fun hroot => hne (he.ends_iff.mp hroot).1.symm
  have hended : ∀ ns, Ended s.pushed ns → Ended (s.pushed ++ [e]) ns := fun ns hended =>
    ended_concat.mpr (.inl hended)
  have hlogged : Nesting { s with pushed := s.pushed ++ [e], namespaces := t.namespaces } := by
    refine ⟨?_, fun ns hopened => ?_, ?_, fun ns hopened => ?_, ?_⟩
    · simp only [hns]
      exact Dict.forall_set ⟨rfl, hproper⟩ fun key x _ => h.keyed key x
    · rcases opened_concat.mp hopened with hopened | hstart
      · exact h.proper ns hopened
      · obtain ⟨rfl, -⟩ := he.unique hstart
        exact ⟨hproper, hne⟩
    · simp only [hns, get?_set_namespace hproper properNamespace_nil hne.symm, ended_concat,
        or_iff_left hroot, List.filter_append]
      simpa [hroot] using h.root
    · simp only [hns]
      rcases eq_or_ne ns info.ns with rfl | hns'
      · cases hterm : info.status.terminal with
        | true => exact .inl (ended_concat.mpr (.inr (he.ends_iff.mpr ⟨rfl, hterm⟩)))
        | false => exact .inr ⟨info, Dict.get?_set_self _ _ _, rfl, hterm⟩
      · have hopened : Opened s.pushed ns :=
          (opened_concat.mp hopened).resolve_right fun hstart => hns' (he.unique hstart).1.symm
        rw [get?_set_namespace hproper (h.proper ns hopened).1 hns']
        exact (h.known ns hopened).imp_left (hended ns)
    · refine h.nested.concat (fun ancestor hanc => ?_) (fun ns hstart => ?_)
      · obtain ⟨rfl, hterm⟩ := he.ends_iff.mp hanc
        exact hends hterm
      · obtain ⟨rfl, hstatus⟩ := he.unique hstart
        exact hstarts hstatus
  exact hlogged.congr rfl hpushed hlatch

theorem registerNamespaces (h : Nesting s) {ns : List String} (hproper : ProperNamespace ns) :
    Nesting (s.registerNamespaces ns) := by
  refine ProtocolSession.registerNamespaces_invariant s ns h fun t part hpart hne ht => ?_
  rcases t.registerNamespace_cases part with heq | ⟨name, heq⟩
  · rw [heq]
    exact ht
  · rw [heq]
    exact ht.setStatus ⟨part, .started, name⟩ (hproper.of_prefix hpart) hne (nomatch ·)
      rfl rfl rfl

theorem registerUnknown (h : Nesting s) {ns : List String} (hproper : ProperNamespace ns) :
    Nesting (s.registerUnknown ns) := by
  unfold ProtocolSession.registerUnknown
  split
  · exact h.registerNamespaces hproper
  · exact h

theorem emitNamespaceStarted (h : Nesting s) {ns : List String} {data : Json}
    (hstarted : textField data "event" = some "started")
    (hkeep : CallKeepsNesting s (.started ns data)) : Nesting (s.emitNamespaceStarted ns data) := by
  obtain ⟨hproper, hfirst⟩ := hkeep
  rcases s.emitNamespaceStarted_cases ns data with ⟨-, heq⟩ | ⟨hne, hnew, name, heq⟩
  · rw [heq]
    exact h
  · obtain ⟨e, scope, hwire, hns, -, hemit⟩ := ProtocolSession.emit_none { s with
      wireStartedEmitted := s.wireStartedEmitted ++ [namespaceKey ns]
      namespaces := s.namespaces.set (namespaceKey ns) ⟨ns, .started, name⟩ } "lifecycle" ns data none
    rw [wireEvent_lifecycle, Prod.mk.injEq] at hwire
    rw [heq, hemit]
    refine h.announce (e := e) ⟨ns, .started, name⟩ ⟨hwire.1, hns, hwire.2 ▸ hstarted⟩
      hproper hne (nomatch ·) ?_ rfl rfl rfl
    exact fun _ => hfirst.resolve_left hnew

/-- A lifecycle event of a namespace below the root, where it is not dropped. -/
theorem emitNamespaceLifecycle (h : Nesting s) {ns : List String} {status : LifecycleStatus}
    (hproper : ProperNamespace ns) (hne : ns ≠ []) (hstarted : status ≠ .started)
    (hends : status.terminal = true → EndsLast s ns) (graphName : Option String)
    (error cause : Option Json) :
    Nesting (s.emitNamespaceLifecycle ns status graphName error cause) := by
  have hregister := h.registerUnknown hproper
  have hcases := s.emitNamespaceLifecycle_cases ns status graphName error cause
  obtain ⟨namespaces, ht⟩ := s.registerUnknown_eq ns
  rw [ht] at hregister hcases
  rcases hcases with ⟨-, heq⟩ | ⟨-, e, name, he, -, heq⟩
  · rw [heq]
    exact hregister
  · rw [heq]
    exact hregister.announce ⟨ns, status, name⟩ he hproper hne hends
      (fun heq => absurd heq hstarted) rfl rfl rfl

/-- The root ends, once all below it has ended. -/
theorem endRoot (h : Nesting s) (hended : ¬ Ended s.pushed []) (hlast : EndsLast s [])
    (status : LifecycleStatus) (hterm : status.terminal = true) (graphName : Option String)
    (error cause : Option Json) {t : ProtocolSession} (hns : t.namespaces = s.namespaces)
    (hpushed : t.pushed = s.pushed) :
    Nesting { t.emitNamespaceLifecycle [] status graphName error cause with
      terminalLifecycleEmitted := true } := by
  obtain ⟨-, info, hinfo, hrunning⟩ := h.running_of_not_ended hended
  have hcases := t.emitNamespaceLifecycle_cases [] status graphName error cause
  rw [t.registerUnknown_nil] at hcases
  rcases hcases with ⟨⟨hdrop, -⟩, -⟩ | ⟨-, e, name, he, -, heq⟩
  · -- the session has the root for running
    rw [ProtocolSession.hasStatus, hns, hinfo] at hdrop
    simp only [Option.any_some, Bool.and_eq_true, decide_eq_true_eq, hrunning] at hdrop
    rw [← hdrop.1] at hterm
    cases hterm
  · rw [heq]
    have hroot : e.Ends [] := he.ends_iff.mpr ⟨rfl, hterm⟩
    have hnone : s.pushed.filter (fun e => e.Ends []) = [] :=
      List.filter_eq_nil_iff.mpr fun x hx hends => hended ⟨x, hx, of_decide_eq_true hends⟩
    have hopened : ∀ ns, Opened (s.pushed ++ [e]) ns → Opened s.pushed ns := fun ns hopened =>
      (opened_concat.mp hopened).resolve_right fun hstart => by
        obtain ⟨-, rfl⟩ := he.unique hstart
        cases hterm
    refine ⟨?_, fun ns hns => ?_, .inr ⟨rfl, ?_⟩, fun ns hns' => ?_, ?_⟩
    · simp only [hns]
      exact Dict.forall_set ⟨rfl, properNamespace_nil⟩ fun key x _ => h.keyed key x
    · simp only [hpushed] at hns
      exact h.proper ns (hopened ns hns)
    · simp only [hpushed, List.filter_append, hnone, List.nil_append]
      simp [hroot]
    · simp only [hpushed] at hns' ⊢
      have hopened := hopened ns hns'
      refine .inl (ended_concat.mpr (.inl (hlast ns hopened ⟨List.nil_prefix, ?_⟩)))
      exact (h.proper ns hopened).2.symm
    · simp only [hpushed]
      refine h.nested.concat (fun ancestor hanc => ?_) (fun ns hstart => ?_)
      · obtain ⟨rfl, -⟩ := he.ends_iff.mp hanc
        exact hlast
      · obtain ⟨-, rfl⟩ := he.unique hstart
        cases hterm

theorem emitChildNodeCompleted (h : Nesting s) {parent : List String} {node : String}
    (hkeep : CallKeepsNesting s (.childCompleted parent node)) :
    Nesting (s.emitChildNodeCompleted parent node) := by
  unfold ProtocolSession.emitChildNodeCompleted
  split
  · exact h
  · split
    · exact h
    · next info hchild =>
      obtain ⟨⟨key, hkey⟩, -, hne⟩ := s.openChild_spec hchild
      obtain ⟨-, hproper⟩ := h.keyed key info hkey
      exact h.emitNamespaceLifecycle hproper hne (by decide) (fun _ => hkeep info hchild) _ _ _

theorem logs (h : Nesting s) {events : List ProtocolEvent}
    (hevents : ∀ e ∈ events, e.method ≠ "lifecycle") (hns : t.namespaces = s.namespaces)
    (hpushed : t.pushed = s.pushed ++ events)
    (hlatch : t.terminalLifecycleEmitted = s.terminalLifecycleEmitted) : Nesting t := by
  induction events generalizing s with
  | nil => exact h.congr hns (by rw [hpushed, List.append_nil]) hlatch
  | cons e events ih =>
    obtain ⟨he, hrest⟩ := List.forall_mem_cons.mp hevents
    have hlogged : Nesting { s with pushed := s.pushed ++ [e] } := h.log he rfl rfl rfl
    refine ih hlogged hrest hns ?_ hlatch
    rw [hpushed, List.append_assoc, List.singleton_append]

theorem emitInputRequestedEvents (h : Nesting s) {ns : List String} {requests : List InputRequest}
    (hkeep : CallKeepsNesting s (.requested ns requests)) :
    Nesting (s.emitInputRequestedEvents ns requests) := by
  obtain ⟨pending, nextSeq, events, hevents, heq⟩ := s.requestInputs_eq ns requests
  have hplain : ∀ e ∈ events, e.method ≠ "lifecycle" := fun e he => by simp [hevents e he]
  have hlogged : Nesting { s with
      pendingInterrupts := pending, nextSeq := nextSeq, pushed := s.pushed ++ events } :=
    h.logs hplain rfl rfl rfl
  simp only [ProtocolSession.emitInputRequestedEvents, heq]
  split
  · next hany =>
    rcases hkeep hany with hroot | ⟨hended, hlast⟩
    · -- the root is interrupted already, and the announcement is dropped
      have hcases := ProtocolSession.emitNamespaceLifecycle_cases { s with
        pendingInterrupts := pending, nextSeq := nextSeq, pushed := s.pushed ++ events } []
        .interrupted (some s.rootGraphName) none none
      rcases hcases with ⟨-, hdrop⟩ | ⟨hnot, -⟩
      · rw [hdrop]
        have hlatch : s.terminalLifecycleEmitted = true := by
          rcases h.root with ⟨-, -, info, hinfo, hrunning⟩ | ⟨hlatch, -⟩
          · rw [RootInterrupted, ProtocolSession.hasStatus, hinfo] at hroot
            simp [hrunning] at hroot
          · exact hlatch
        refine hlogged.congr ?_ ?_ hlatch.symm <;> simp
      · exact absurd ⟨hroot, rfl, rfl⟩ hnot
    · refine hlogged.endRoot ?_ (fun ns hopened hbelow => ?_) .interrupted rfl _ _ _ rfl rfl
      · rwa [ended_append hplain]
      · rw [ended_append hplain]
        exact hlast ns ((opened_append hplain).mp hopened) hbelow
  · exact hlogged

theorem emitCheckpointEnvelope (h : Nesting s) (ns : List String) (envelope : Json) :
    Nesting (s.emitCheckpointEnvelope ns envelope) := by
  rcases s.emitCheckpointEnvelope_cases ns envelope with heq | ⟨cpId, -, -, heq⟩
  · rw [heq]
    exact h
  · obtain ⟨e, hwire, -, -, hemit⟩ := ProtocolSession.emit_some { s with
      emittedCheckpoints := s.emittedCheckpoints ++ [(namespaceKey ns, cpId)] } "checkpoints" ns
      envelope none (synthEventId s.env.runId ["checkpoint", namespaceKey ns, cpId])
    rw [heq, hemit]
    exact h.log (e := e) (ProtocolEvent.ne_lifecycle_of_wireEvent hwire (by decide)) rfl rfl rfl

/-- A call that keeps namespaces nested. -/
theorem call (h : Nesting s) {c : SessionCall} (hc : c.Handed) (hkeep : CallKeepsNesting s c) :
    Nesting (s.call c) := by
  cases c with
  | register ns => exact h.registerNamespaces hkeep
  | push method ns data node =>
    obtain ⟨e, scope, hwire, -, -, hemit⟩ := s.emit_none method ns data node
    rw [ProtocolSession.call, hemit]
    exact h.log (e := e) (ProtocolEvent.ne_lifecycle_of_wireEvent hwire hc) rfl rfl rfl
  | started ns data => exact h.emitNamespaceStarted hc hkeep
  | lifecycle ns status graphName error cause =>
    exact h.emitNamespaceLifecycle hkeep.1 hc.1 hc.2 hkeep.2 graphName error cause
  | childCompleted parent node => exact h.emitChildNodeCompleted hkeep
  | requested ns requests => exact h.emitInputRequestedEvents hkeep
  | checkpoint ns envelope => exact h.emitCheckpointEnvelope ns envelope

/-- The loop of the normal close: what is open ends, deepest first. -/
theorem completeNamespaces {infos : List NamespaceInfo}
    (h : Nesting { t with terminalLifecycleEmitted := false })
    (hsorted : infos.Pairwise fun info info' => info'.ns.length ≤ info.ns.length)
    (hinfos : ∀ info ∈ infos, ProperNamespace info.ns ∧ info.ns ≠ [])
    (hopen : ∀ ns, Opened t.pushed ns → Ended t.pushed ns ∨ ∃ info ∈ infos, info.ns = ns ∧
      (t.namespaces.get? (namespaceKey ns)).any fun info => info.status = .started) :
    let t' := infos.foldl ProtocolSession.completeNamespace t
    Nesting { t' with terminalLifecycleEmitted := false } ∧
      ∀ ns, Opened t'.pushed ns → Ended t'.pushed ns := by
  induction infos generalizing t with
  | nil =>
    refine ⟨h, fun ns hopened => (hopen ns hopened).resolve_right ?_⟩
    simp
  | cons info infos ih =>
    obtain ⟨hfirst, hsorted⟩ := List.pairwise_cons.mp hsorted
    obtain ⟨⟨hproper, hne⟩, hinfos⟩ := List.forall_mem_cons.mp hinfos
    rw [List.foldl_cons]
    rcases Decidable.em ((t.namespaces.get? (namespaceKey info.ns)).any
      (fun info => info.status = .started) = true) with hstarted | hstarted
    · obtain ⟨e, name, he, -, heq⟩ := t.emitNamespaceLifecycle_of_open info.ns .completed (by decide)
        hstarted (some info.graphName) none none
      have hturn : t.completeNamespace info = _ := (if_pos hstarted).trans heq
      rw [hturn]
      -- what is open below the namespace would come before it
      have hlast : EndsLast { t with terminalLifecycleEmitted := false } info.ns := by
        intro ns hopened hbelow
        refine (hopen ns hopened).resolve_right fun hlater => ?_
        obtain ⟨x, hx, hns, -⟩ := hlater
        rcases List.mem_cons.mp hx with rfl | hx
        · exact hbelow.2 hns
        · have hle := hfirst x hx
          rw [hns] at hle
          exact hbelow.2 (hbelow.1.eq_of_length_le hle)
      refine ih (h.announce ⟨info.ns, .completed, name⟩ he hproper hne (fun _ => hlast)
        (fun heq => by cases heq) rfl rfl rfl) hsorted hinfos fun ns hopened => ?_
      rcases eq_or_ne ns info.ns with rfl | hns
      · exact .inl (ended_concat.mpr (.inr (he.ends_iff.mpr ⟨rfl, rfl⟩)))
      · have hopened : Opened t.pushed ns :=
          (opened_concat.mp hopened).resolve_right fun hstart => hns (he.unique hstart).1.symm
        rcases hopen ns hopened with hended | ⟨x, hx, hxns, hany⟩
        · exact .inl (ended_concat.mpr (.inl hended))
        · refine .inr ⟨x, (List.mem_cons.mp hx).resolve_left fun hxinfo => ?_, hxns, ?_⟩
          · exact hns (hxns.symm.trans (congrArg NamespaceInfo.ns hxinfo))
          · rw [get?_set_namespace hproper (h.proper ns hopened).1 hns]
            exact hany
    · have hturn : t.completeNamespace info = t := if_neg hstarted
      rw [hturn]
      refine ih h hsorted hinfos fun ns hopened => ?_
      refine (hopen ns hopened).imp_right fun hlater => ?_
      obtain ⟨x, hx, hxns, hany⟩ := hlater
      refine ⟨x, ?_, hxns, hany⟩
      refine (List.mem_cons.mp hx).resolve_left fun hxinfo => hstarted ?_
      rw [← hxinfo, hxns]
      exact hany

/-- The normal close ends what is open. -/
theorem completeStaleNamespaces (h : Nesting { t with terminalLifecycleEmitted := false })
    (hopen : ∀ ns, Opened t.pushed ns → ¬ Ended t.pushed ns →
      (t.namespaces.get? (namespaceKey ns)).all fun info => info.status ≠ .running) :
    let t' := t.completeStaleNamespaces []
    Nesting { t' with terminalLifecycleEmitted := false } ∧
      ∀ ns, Opened t'.pushed ns → Ended t'.pushed ns := by
  refine completeNamespaces h ?_ (fun info hinfo => ?_) fun ns hopened => ?_
  · refine (List.pairwise_mergeSort (fun a b c hab hbc => ?_) (fun a b => ?_) _).imp
      of_decide_eq_true
    · exact decide_eq_true ((of_decide_eq_true hbc).trans (of_decide_eq_true hab))
    · rw [Bool.or_eq_true, decide_eq_true_eq, decide_eq_true_eq]
      exact Nat.le_total _ _
  · obtain ⟨⟨key, hkey⟩, -, hne⟩ := t.mem_staleNamespaces_nil.mp hinfo
    exact ⟨(h.keyed key info hkey).2, hne⟩
  · rcases Decidable.em (Ended t.pushed ns) with hended | hended
    · exact .inl hended
    · obtain ⟨info, hinfo, hns, hstatus⟩ := (h.known ns hopened).resolve_left hended
      have hrunning := hopen ns hopened hended
      simp only at hinfo
      have hstarted : info.status = .started := by
        rw [hinfo] at hrunning
        cases hs : info.status <;> simp_all [LifecycleStatus.terminal]
      refine .inr ⟨info, t.mem_staleNamespaces_nil.mpr ⟨⟨_, hinfo⟩, hstarted, ?_⟩, hns, ?_⟩
      · exact hns ▸ (h.proper ns hopened).2
      · simp [hinfo, hstarted]

/-- The normal close of a run that is over. -/
theorem emitTerminalLifecycle (h : Nesting s) {run : Option RunStatus} (hclose : Closable s run)
    (fetched : Option (List StateTask)) :
    Nesting (s.emitTerminalLifecycle run fetched) ∧
      WellFormedLifecycle (s.emitTerminalLifecycle run fetched).pushed := by
  obtain ⟨⟨status, rfl, hterm⟩, hrunning⟩ := hclose
  unfold ProtocolSession.emitTerminalLifecycle
  rcases h.root with ⟨hlatch, hended, -⟩ | ⟨hlatch, hone⟩
  · have hne := resolveEffectiveStatus_ne_running hterm fetched
    have hresolved := terminal_resolveEffectiveStatus hne
    rw [if_neg (by simp [hlatch])]
    simp only [if_neg hne]
    obtain ⟨hcascade, hall⟩ := completeStaleNamespaces
      (t := { s with terminalLifecycleEmitted := true }) (h.congr rfl rfl hlatch.symm)
      (hrunning hlatch)
    have hlatch' := (ProtocolSession.sameScope_completeStaleNamespaces
      { s with terminalLifecycleEmitted := true } []).latch
    generalize ProtocolSession.completeStaleNamespaces
      { s with terminalLifecycleEmitted := true } [] = t at hcascade hall hlatch' ⊢
    have hended' : ¬ Ended t.pushed [] := by
      rcases hcascade.root with ⟨-, hended', -⟩ | ⟨hfalse, -⟩
      · exact hended'
      · cases hfalse
    have hroot := hcascade.endRoot hended' (fun ns hopened _ => hall ns hopened) _ hresolved
      s.rootGraphName none none (t := t) rfl rfl
    have hnesting := hroot.congr
      (t := t.emitNamespaceLifecycle [] _ s.rootGraphName none none) rfl rfl
      ((t.sameScope_emitNamespaceLifecycle _ _ _ _ _).latch.trans hlatch')
    have hone := (hroot.root.resolve_left fun hfalse => nomatch hfalse.1).2
    exact ⟨hnesting, hone, hnesting.nested⟩
  · rw [if_pos hlatch]
    exact ⟨h, hone, h.nested⟩

/-- A step that keeps namespaces nested. -/
theorem step (h : Nesting s) {a : SessionAction} (hkeep : KeepsNesting s a)
    (hstep : protocolSession.step s a = some t) : Nesting t := by
  cases a with
  | source e =>
    cases hstep
    rcases s.handleSourceEvent_cases e with heq | ⟨herror, heq⟩ | ⟨hmeta, herror, heq⟩
    · rw [heq]
      exact h
    · rw [heq]
      obtain ⟨hended, hlast⟩ := hkeep.1 herror
      have hroot := h.endRoot hended hlast .failed rfl s.rootGraphName
        (e.errorMessage s.env) none (t := { s with terminalLifecycleEmitted := true }) rfl rfl
      refine hroot.congr rfl rfl ?_
      exact (ProtocolSession.sameScope_emitNamespaceLifecycle _ _ _ _ _ _).latch
    · rw [heq]
      have hcalls : Nesting ((s.callsOf e).foldl ProtocolSession.call (s.openScope e.streamId)) :=
        ProtocolSession.foldl_call (fun t c hc ht hok => ht.call hc hok) (s.handed_callsOf e)
          (hkeep.2 hmeta herror) (h.congr rfl rfl rfl)
      unfold ProtocolSession.closeScope
      split
      · exact hcalls.congr rfl rfl rfl
      · exact hcalls
  | clearInterrupt id =>
    cases hstep
    exact h.congr rfl rfl rfl
  | complete run fetched =>
    cases hstep
    exact (h.emitTerminalLifecycle hkeep fetched).1

theorem of_started (h : s.Started) : Nesting s := by
  obtain ⟨env, nextSeq, graphId, assistantId, rfl⟩ := h
  obtain ⟨e, root, name, he, -, heq⟩ := ProtocolSession.start_eq
    { env := env, nextSeq := nextSeq } graphId assistantId
  rw [heq]
  have hopened : ∀ ns, ¬ Opened [e] ns := fun ns ⟨x, hx, hstart⟩ => by
    obtain rfl := List.mem_singleton.mp hx
    cases (he.unique hstart).2
  have hended : ∀ ns, ¬ Ended [e] ns := fun ns ⟨x, hx, hends⟩ => by
    obtain rfl := List.mem_singleton.mp hx
    cases (he.ends_iff.mp hends).2
  refine ⟨?_, fun ns hns => absurd hns (hopened ns), .inl ⟨rfl, hended [], ?_⟩,
    fun ns hns => absurd hns (hopened ns), fun before f after hsplit ancestor hf ns hns => ?_⟩
  · exact Dict.forall_set ⟨rfl, properNamespace_nil⟩ fun key info _ hinfo => nomatch hinfo
  · exact ⟨_, Dict.get?_set_self _ _ _, rfl⟩
  · exact absurd hns (hopened ns)

end Nesting

theorem WellFormedLifecycle.ended {events : List ProtocolEvent} (h : WellFormedLifecycle events)
    {ns : List String} (hopened : Opened events ns) (hne : ns ≠ []) : Ended events ns := by
  obtain ⟨e, he⟩ := List.length_pos_iff_exists_mem.mp (h.1 ▸ Nat.one_pos)
  obtain ⟨he, hroot⟩ := List.mem_filter.mp he
  obtain ⟨before, after, hsplit⟩ := List.append_of_mem he
  obtain ⟨x, hx, hends⟩ := h.2 before e after hsplit [] (of_decide_eq_true hroot) ns hopened
    ⟨List.nil_prefix, hne.symm⟩
  exact ⟨x, hsplit ▸ List.mem_append_left _ hx, hends⟩

/-- In every run that keeps namespaces nested, the lifecycle is well formed once the run is
over and the session has closed. -/
theorem wellFormedLifecycle_of_closed {s : ProtocolSession}
    (h : protocolSession.Reachable KeepsNesting s) {run : Option RunStatus}
    (hclose : Closable s run) (fetched : Option (List StateTask)) :
    WellFormedLifecycle (s.emitTerminalLifecycle run fetched).pushed := by
  have hnesting : Nesting s := h.invariant (fun _ => .of_started) fun _ _ _ _ hI hkeep hstep =>
    hI.step hkeep hstep
  exact (hnesting.emitTerminalLifecycle hclose fetched).2

/-- The upstream `started` of a namespace. -/
def startedEvent (name streamId : String) : SourceEvent where
  name := name
  message := some (.obj [("event", .str "started"), ("graph_name", .str "researcher")])
  streamId := some streamId

/-- A subagent and its tools are open when the run succeeds. -/
theorem wellFormedLifecycle_subagent :
    ∃ s, protocolSession.Reachable KeepsNesting s ∧
      Opened s.pushed ["researcher:1", "tools:2"] ∧
      WellFormedLifecycle (s.emitTerminalLifecycle (some .success) none).pushed := by
  obtain ⟨s, h, hs⟩ := protocolSession.exists_reachable KeepsNesting agentSession_started
    [.source (startedEvent "lifecycle|researcher:1" "1-0"),
      .source (startedEvent "lifecycle|researcher:1|tools:2" "2-0")]
    (fun s => Closable s (some .success) ∧ Opened s.pushed ["researcher:1", "tools:2"])
    (by decide +kernel)
  obtain ⟨hclose, hopened⟩ := of_decide_eq_true hs
  exact ⟨s, h, hopened, wellFormedLifecycle_of_closed h hclose none⟩

/-- A subagent is open when the run fails: its namespace never ends. -/
theorem not_wellFormedLifecycle :
    ∃ s, protocolSession.Reachable Machine.free s ∧
      ¬ WellFormedLifecycle (s.emitTerminalLifecycle (some .error) none).pushed := by
  obtain ⟨s, h, hs⟩ := protocolSession.exists_reachable Machine.free agentSession_started
    [.source (startedEvent "lifecycle|researcher:1" "1-0"),
      .source { name := "error", message := some (.obj [("message", .str "boom")]) }]
    (fun s => Opened (s.emitTerminalLifecycle (some .error) none).pushed ["researcher:1"] ∧
      ¬ Ended (s.emitTerminalLifecycle (some .error) none).pushed ["researcher:1"])
    (by decide +kernel)
  obtain ⟨hopened, hended⟩ := of_decide_eq_true hs
  exact ⟨s, h, fun hwell => hended (hwell.ended hopened (by simp))⟩

end NextRole
