import NextRole.Api.EventSession

/-!
# The ids of the events of a session

An event has the id of its upstream event with a count, a synthetic id of what it says, or
one of its sequence number.  The synthetic ids are made of state that recurs: a namespace
that is entered again after it has completed completes again under the id of the first
time, and so do a second error and an interrupt that is requested again.  As long as nothing
that was announced recurs, the ids are distinct.

## Main definitions

* `MintedId` — an id by its scheme; `MintedId.render` — its text.
* `MintedId.Known` — what a session remembers of the ids that it has given.
* `KeepsIds` — the steps that repeat nothing.
* `UniqueIds` — what holds of every run of them.

## Main results

* `MintedId.render_injective` — the schemes do not meet.
* `eventId_nodup_of_keepsIds`, and `not_eventId_nodup` without the condition.
-/

namespace NextRole

/-! ### Ids -/

/-- An id by its scheme. -/
inductive MintedId
  | stream (id : String) (count : ℕ)
  | seq (n : ℕ)
  | lifecycle (key : String) (status : LifecycleStatus)
  | input (key interruptId : String)
  | checkpoint (key cpId : String)
  deriving DecidableEq

namespace MintedId

/-- The parts of a synthetic id. -/
def parts : MintedId → List String
  | stream _ _ => []
  | seq n => [toString n]
  | lifecycle key status => ["lc", key, status.text]
  | input key interruptId => ["input", key, interruptId]
  | checkpoint key cpId => ["checkpoint", key, cpId]

/-- The text of an id. -/
def render (runId : String) : MintedId → String
  | stream id count => if count = 0 then id else id ++ "." ++ toString count
  | i => synthEventId runId i.parts

/-- A stream id is no synthetic one and has no count; a last part has no separator. -/
def Valid : MintedId → Prop
  | stream id _ => '.' ∉ id.toList ∧ ¬ "synth:".toList <+: id.toList
  | input _ id | checkpoint _ id => '|' ∉ id.toList
  | _ => True

theorem join_of_synthEventId {runId : String} {parts parts' : List String}
    (h : synthEventId runId parts = synthEventId runId parts') :
    Path.join '|' (parts.map String.toList) = Path.join '|' (parts'.map String.toList) := by
  have htext := congrArg String.toList h
  simp only [synthEventId, String.toList_append, String.toList_ofList, List.append_assoc] at htext
  exact List.append_cancel_left (List.append_cancel_left (List.append_cancel_left htext))

theorem first_parts {head : String} (h : '|' ∉ head.toList) (tail : List String) :
    Path.first '|' (Path.join '|' ((head :: tail).map String.toList)) = head.toList :=
  Path.first_join h _

theorem parts_inj {head key last key' last' : String} (h : '|' ∉ last.toList)
    (h' : '|' ∉ last'.toList)
    (heq : Path.join '|' ([head, key, last].map String.toList) =
      Path.join '|' ([head, key', last'].map String.toList)) : key = key' ∧ last = last' := by
  simp only [List.map_cons, List.map_nil, Path.join_cons_of_ne_nil _ (List.cons_ne_nil _ _),
    Path.join_singleton] at heq
  have htail := (List.cons.inj (List.append_cancel_left heq)).2
  obtain ⟨hkey, hlast⟩ := Path.append_sep_inj h h' htail
  exact ⟨String.toList_injective hkey, String.toList_injective hlast⟩

theorem notMem_status (status : LifecycleStatus) : '|' ∉ status.text.toList := by
  cases status <;> decide

/-- The first part of a synthetic id. -/
def scheme : MintedId → String
  | stream _ _ => ""
  | seq n => toString n
  | lifecycle _ _ => "lc"
  | input _ _ => "input"
  | checkpoint _ _ => "checkpoint"

theorem scheme_eq {i j : MintedId} {runId : String} (hi : i.parts.head? = some i.scheme)
    (hj : j.parts.head? = some j.scheme)
    (h : synthEventId runId i.parts = synthEventId runId j.parts) : i.scheme = j.scheme := by
  have hsep : ∀ k : MintedId, '|' ∉ k.scheme.toList := by
    intro k
    cases k with
    | stream _ _ => exact List.not_mem_nil
    | seq n => exact Path.notMem_toString (by decide) n
    | lifecycle _ _ => exact (by decide : '|' ∉ "lc".toList)
    | input _ _ => exact (by decide : '|' ∉ "input".toList)
    | checkpoint _ _ => exact (by decide : '|' ∉ "checkpoint".toList)
  have hfirst := congrArg (Path.first '|') (join_of_synthEventId h)
  obtain ⟨tail, hi⟩ := List.head?_eq_some_iff.mp hi
  obtain ⟨tail', hj⟩ := List.head?_eq_some_iff.mp hj
  rw [hi, hj, first_parts (hsep i), first_parts (hsep j)] at hfirst
  exact String.toList_injective hfirst

/-- A stream id with its count is no synthetic id. -/
theorem render_stream_ne {id : String} {count : ℕ} (h : (stream id count).Valid) (runId : String)
    (parts : List String) : (stream id count).render runId ≠ synthEventId runId parts := by
  intro heq
  have hpre : "synth:".toList <+: (synthEventId runId parts).toList := by
    simp only [synthEventId, String.toList_append, List.append_assoc]
    exact List.prefix_append _ _
  rw [← heq, render] at hpre
  split at hpre
  · exact h.2 hpre
  · rw [String.toList_append, String.toList_append, List.append_assoc] at hpre
    have hfirst := Path.prefix_first (by decide : '.' ∉ "synth:".toList) hpre
    exact h.2 (Path.first_append_sep h.1 _ ▸ hfirst)

/-- A stream id and its count read back. -/
theorem stream_inj {id id' : String} {count count' : ℕ} {runId : String}
    (h : (stream id count).Valid) (h' : (stream id' count').Valid)
    (heq : (stream id count).render runId = (stream id' count').render runId) :
    stream id count = stream id' count' := by
  have htext : ∀ {id : String} {count : ℕ}, (stream id count).Valid →
      Path.first '.' ((stream id count).render runId).toList = id.toList := by
    intro id count h
    rw [render]
    split
    · exact Path.first_of_notMem h.1
    · rw [String.toList_append, String.toList_append, List.append_assoc]
      exact Path.first_append_sep h.1 _
  have hid : id = id' := by
    refine String.toList_injective ?_
    rw [← htext h, ← htext h', heq]
  subst hid
  have hlist := congrArg String.toList heq
  have hcount : count = count' := by
    simp only [render] at hlist
    split at hlist <;> split at hlist
    · next h0 h0' => rw [h0, h0']
    · simp at hlist
    · simp at hlist
    · simp only [String.toList_append, List.append_assoc] at hlist
      have htail := List.append_cancel_left (List.append_cancel_left hlist)
      exact Path.toString_injective (String.toList_injective htail)
  rw [hcount]

theorem toString_ne {n : ℕ} {s : String} (h : s.toList.any (fun c => !c.isDigit) = true) :
    toString n ≠ s := by
  rintro rfl
  obtain ⟨c, hc, hdigit⟩ := List.any_eq_true.mp h
  exact Path.notMem_toString (by simpa using hdigit) n hc

/-- Ids of one scheme, where none comes from a stream. -/
inductive SameScheme : MintedId → MintedId → Prop
  | seq (n m : ℕ) : SameScheme (seq n) (seq m)
  | lifecycle (key key' : String) (status status' : LifecycleStatus) :
      SameScheme (lifecycle key status) (lifecycle key' status')
  | input (key key' id id' : String) : SameScheme (input key id) (input key' id')
  | checkpoint (key key' id id' : String) : SameScheme (checkpoint key id) (checkpoint key' id')

theorem sameScheme {i j : MintedId} (hi : i.parts.head? = some i.scheme)
    (hj : j.parts.head? = some j.scheme) (h : i.scheme = j.scheme) : SameScheme i j := by
  have hlc (n : ℕ) : toString n ≠ "lc" := toString_ne (by decide)
  have hinput (n : ℕ) : toString n ≠ "input" := toString_ne (by decide)
  have hcheckpoint (n : ℕ) : toString n ≠ "checkpoint" := toString_ne (by decide)
  cases i with
  | stream id count => cases hi
  | seq n =>
    cases j with
    | stream id count => cases hj
    | seq m => exact .seq n m
    | lifecycle key status => exact absurd h (hlc n)
    | input key id => exact absurd h (hinput n)
    | checkpoint key id => exact absurd h (hcheckpoint n)
  | lifecycle key status =>
    cases j with
    | stream id count => cases hj
    | seq m => exact absurd h.symm (hlc m)
    | lifecycle key' status' => exact .lifecycle key key' status status'
    | input key' id' => exact absurd h (by decide : "lc" ≠ "input")
    | checkpoint key' id' => exact absurd h (by decide : "lc" ≠ "checkpoint")
  | input key id =>
    cases j with
    | stream id count => cases hj
    | seq m => exact absurd h.symm (hinput m)
    | lifecycle key' status' => exact absurd h (by decide : "input" ≠ "lc")
    | input key' id' => exact .input key key' id id'
    | checkpoint key' id' => exact absurd h (by decide : "input" ≠ "checkpoint")
  | checkpoint key id =>
    cases j with
    | stream id count => cases hj
    | seq m => exact absurd h.symm (hcheckpoint m)
    | lifecycle key' status' => exact absurd h (by decide : "checkpoint" ≠ "lc")
    | input key' id' => exact absurd h (by decide : "checkpoint" ≠ "input")
    | checkpoint key' id' => exact .checkpoint key key' id id'

/-- **The schemes do not meet**: valid ids have different texts. -/
theorem render_injective {runId : String} {i j : MintedId} (hi : i.Valid) (hj : j.Valid)
    (h : i.render runId = j.render runId) : i = j := by
  have hsynth : ∀ {i j : MintedId}, i.Valid → j.Valid → i.parts.head? = some i.scheme →
      j.parts.head? = some j.scheme → synthEventId runId i.parts = synthEventId runId j.parts →
      i = j := by
    intro i j hi hj hparts hparts' h
    cases sameScheme hparts hparts' (scheme_eq hparts hparts' h) with
    | seq n m => rw [Path.toString_injective (scheme_eq hparts hparts' h)]
    | lifecycle key key' status status' =>
      obtain ⟨rfl, htext⟩ := parts_inj (notMem_status status) (notMem_status status')
        (join_of_synthEventId h)
      rw [LifecycleStatus.text_injective htext]
    | input key key' id id' =>
      obtain ⟨rfl, rfl⟩ := parts_inj hi hj (join_of_synthEventId h)
      rfl
    | checkpoint key key' id id' =>
      obtain ⟨rfl, rfl⟩ := parts_inj hi hj (join_of_synthEventId h)
      rfl
  cases i with
  | stream id count =>
    cases j with
    | stream id' count' => exact stream_inj hi hj h
    | _ => exact absurd h (render_stream_ne hi _ _)
  | _ =>
    cases j with
    | stream id' count' => exact absurd h.symm (render_stream_ne hj _ _)
    | _ => exact hsynth hi hj rfl rfl h

end MintedId

/-! ### What recurs -/

/-- A status was announced for the key of a namespace. -/
def AnnouncedAt (events : List ProtocolEvent) (key : String) (status : LifecycleStatus) : Prop :=
  ∃ e ∈ events, namespaceKey e.ns = key ∧ e.Announces e.ns status

/-- An interrupt was requested. -/
def RequestedBefore (events : List ProtocolEvent) (id : String) : Prop :=
  ∃ e ∈ events, e.method = "input.requested" ∧ textField e.data "interrupt_id" = some id

instance (events : List ProtocolEvent) (key : String) (status : LifecycleStatus) :
    Decidable (AnnouncedAt events key status) :=
  inferInstanceAs (Decidable (∃ e ∈ events, _))

instance (events : List ProtocolEvent) (id : String) : Decidable (RequestedBefore events id) :=
  inferInstanceAs (Decidable (∃ e ∈ events, _))

namespace ProtocolSession

variable (s : ProtocolSession)

/-- How many events of a stream id have got it. -/
def streamCount (id : String) : ℕ :=
  match s.scope with
  | some (current, count) =>
    if current = id then count else (s.streamIdCounts.get? id).getD 0
  | none => (s.streamIdCounts.get? id).getD 0

/-- A lifecycle event says what the session has for the namespace already, and is dropped. -/
def Dropped (ns : List String) (status : LifecycleStatus) (graphName : Option String)
    (error cause : Option Json) : Prop :=
  s.hasStatus ns status (s.resolveGraphName ns graphName) = true ∧ error = none ∧ cause = none

/-- No namespace around an event was announced as completed. -/
def NoneCompleted (ns : List String) : Prop :=
  ∀ part, part <+: ns → part ≠ [] → ¬ AnnouncedAt s.pushed (namespaceKey part) .completed

end ProtocolSession

/-- The calls that repeat nothing: no namespace is entered again after it has completed, no
status is announced again, and no interrupt is requested again. -/
def CallKeepsIds (s : ProtocolSession) : SessionCall → Prop
  | .register ns => ns.head? ≠ some "" ∧ s.NoneCompleted ns
  | .push _ _ _ _ | .childCompleted _ _ => True
  | .started ns _ => ns.head? ≠ some "" ∧ (namespaceKey ns ∈ s.wireStartedEmitted ∨
      ¬ AnnouncedAt s.pushed (namespaceKey ns) .completed)
  | .lifecycle ns status graphName error cause => ns.head? ≠ some "" ∧
      ((s.namespaces.get? (namespaceKey ns)).isNone = true → s.NoneCompleted ns) ∧
      (s.Dropped ns status graphName error cause ∨
        ¬ AnnouncedAt s.pushed (namespaceKey ns) status)
  | .requested _ requests =>
    (∀ r ∈ requests, s.isNewRequest r = true →
      '|' ∉ r.interruptId.toList ∧ ¬ RequestedBefore s.pushed r.interruptId) ∧
    (requests.any s.isNewRequest = true →
      s.Dropped [] .interrupted (some s.rootGraphName) none none ∨
        ¬ AnnouncedAt s.pushed (namespaceKey []) .interrupted)
  | .checkpoint _ envelope => ∀ id ∈ textField envelope "id", '|' ∉ id.toList

/-- The steps that repeat nothing.  A stream id has no count of its own and is not
synthetic. -/
def KeepsIds (s : ProtocolSession) : SessionAction → Prop
  | .source e =>
    (e.name = "error" → s.Dropped [] .failed (some s.rootGraphName) (e.errorMessage s.env) none ∨
      ¬ AnnouncedAt s.pushed (namespaceKey []) .failed) ∧
    (e.name ≠ "metadata" → e.name ≠ "error" →
      (∀ id ∈ nonemptyName e.streamId, (MintedId.stream id 0).Valid) ∧
        CallsMeet CallKeepsIds (s.openScope e.streamId) (s.callsOf e))
  | .clearInterrupt _ | .complete _ _ => True

/-! ### The condition is decidable -/

instance (i : MintedId) : Decidable i.Valid := by
  cases i <;> unfold MintedId.Valid <;> infer_instance

instance (s : ProtocolSession) (ns : List String) (status : LifecycleStatus)
    (graphName : Option String) (error cause : Option Json) :
    Decidable (s.Dropped ns status graphName error cause) :=
  inferInstanceAs (Decidable (_ ∧ _))

instance (s : ProtocolSession) (ns : List String) : Decidable (s.NoneCompleted ns) :=
  decidable_of_iff (∀ part ∈ ns.inits, part ≠ [] →
    ¬ AnnouncedAt s.pushed (namespaceKey part) .completed) (by simp [ProtocolSession.NoneCompleted])

instance (s : ProtocolSession) (c : SessionCall) : Decidable (CallKeepsIds s c) := by
  cases c <;> unfold CallKeepsIds <;> infer_instance

instance (s : ProtocolSession) (a : SessionAction) : Decidable (KeepsIds s a) := by
  cases a <;> unfold KeepsIds <;> infer_instance

/-! ### What a session remembers -/

/-- The session remembers that it has given an id. -/
def MintedId.Known (s : ProtocolSession) : MintedId → Prop
  | .stream id count => count < s.streamCount id
  | .seq n => n ≤ s.nextSeq
  | .lifecycle key status => AnnouncedAt s.pushed key status
  | .input _ id => RequestedBefore s.pushed id
  | .checkpoint key cpId => (key, cpId) ∈ s.emittedCheckpoints

section

variable {s t : ProtocolSession} {e : ProtocolEvent} {i : MintedId}

theorem MintedId.Known.mono (h : i.Known s) (hcount : ∀ id, s.streamCount id ≤ t.streamCount id)
    (hseq : s.nextSeq ≤ t.nextSeq) (hpushed : s.pushed ⊆ t.pushed)
    (hcheckpoints : s.emittedCheckpoints ⊆ t.emittedCheckpoints) : i.Known t := by
  cases i with
  | stream id count => exact h.trans_le (hcount id)
  | seq n => exact h.trans hseq
  | lifecycle key status =>
    obtain ⟨e, he, hkey⟩ := h
    exact ⟨e, hpushed he, hkey⟩
  | input key id =>
    obtain ⟨e, he, hid⟩ := h
    exact ⟨e, hpushed he, hid⟩
  | checkpoint key cpId => exact hcheckpoints h

theorem MintedId.Known.of_push (h : i.Known s) (hcount : ∀ id, s.streamCount id ≤ t.streamCount id)
    (hseq : t.nextSeq = s.nextSeq + 1) (hpushed : t.pushed = s.pushed ++ [e])
    (hcheckpoints : s.emittedCheckpoints ⊆ t.emittedCheckpoints) : i.Known t := by
  refine h.mono hcount ?_ ?_ hcheckpoints
  · rw [hseq]
    exact Nat.le_succ s.nextSeq
  · rw [hpushed]
    exact List.subset_append_left _ _

/-- The ids of the events pushed are texts of distinct ids that the session remembers. -/
def Minted (s : ProtocolSession) : Prop :=
  ∃ ids : List MintedId, s.pushed.map ProtocolEvent.eventId = ids.map (MintedId.render s.env.runId) ∧
    ids.Nodup ∧ ∀ i ∈ ids, i.Valid ∧ i.Known s

theorem Minted.nodup (h : Minted s) : (s.pushed.map ProtocolEvent.eventId).Nodup := by
  obtain ⟨ids, heq, hnodup, hids⟩ := h
  rw [heq]
  exact hnodup.map_on fun i hi j hj hij =>
    MintedId.render_injective (hids i hi).1 (hids j hj).1 hij

theorem Minted.mono (h : Minted s) (henv : t.env = s.env) (hpushed : t.pushed = s.pushed)
    (hknown : ∀ i : MintedId, i.Known s → i.Known t) : Minted t := by
  obtain ⟨ids, heq, hnodup, hids⟩ := h
  exact ⟨ids, by rw [hpushed, henv, heq], hnodup, fun i hi => ⟨(hids i hi).1, hknown i (hids i hi).2⟩⟩

/-- One more event, with an id that the session does not know and then remembers. -/
theorem Minted.mint (h : Minted s) (i : MintedId) (hvalid : i.Valid) (hnew : ¬ i.Known s)
    (hid : e.eventId = i.render s.env.runId) (henv : t.env = s.env)
    (hpushed : t.pushed = s.pushed ++ [e]) (hknown : ∀ j : MintedId, j.Known s → j.Known t)
    (hthen : i.Known t) : Minted t := by
  obtain ⟨ids, heq, hnodup, hids⟩ := h
  refine ⟨ids ++ [i], ?_, ?_, fun j hj => ?_⟩
  · rw [hpushed, henv, List.map_append, List.map_append, heq, List.map_singleton, hid,
      List.map_singleton]
  · refine List.nodup_append.mpr ⟨hnodup, List.nodup_singleton i, fun j hj k hk hjk => ?_⟩
    obtain rfl := List.mem_singleton.mp hk
    exact hnew (hjk ▸ (hids j hj).2)
  · rcases List.mem_append.mp hj with hj | hj
    · exact ⟨(hids j hj).1, hknown j (hids j hj).2⟩
    · obtain rfl := List.mem_singleton.mp hj
      exact ⟨hvalid, hthen⟩

end

/-! ### Runs -/

/-- The ids are distinct, nothing is open that was announced as completed, and the root has
not ended until the session says so. -/
structure UniqueIds (s : ProtocolSession) : Prop where
  minted : Minted s
  scope : ∀ id count, s.scope = some (id, count) → (MintedId.stream id count).Valid
  keyed : ∀ key info, s.namespaces.get? key = some info →
    key = namespaceKey info.ns ∧ info.ns.head? ≠ some ""
  fresh : ∀ key info, s.namespaces.get? key = some info → info.status = .started →
    ¬ AnnouncedAt s.pushed key .completed
  root : s.terminalLifecycleEmitted = false → ∀ status : LifecycleStatus, status.terminal = true →
    ¬ AnnouncedAt s.pushed (namespaceKey []) status

section

variable {events : List ProtocolEvent} {e : ProtocolEvent} {key : String} {ns : List String}
  {status status' : LifecycleStatus}

theorem announcedAt_concat (he : e.Announces ns status) : AnnouncedAt (events ++ [e]) key status' ↔
    AnnouncedAt events key status' ∨ (key = namespaceKey ns ∧ status' = status) := by
  have hone : (namespaceKey e.ns = key ∧ e.Announces e.ns status') ↔
      key = namespaceKey ns ∧ status' = status := by
    constructor
    · rintro ⟨rfl, hannounces⟩
      obtain ⟨hns, rfl⟩ := hannounces.unique he
      exact ⟨congrArg namespaceKey hns, rfl⟩
    · rintro ⟨rfl, rfl⟩
      obtain ⟨hmethod, rfl, htext⟩ := he
      exact ⟨rfl, hmethod, rfl, htext⟩
  rw [← hone]
  simp [AnnouncedAt, or_and_right, exists_or]

theorem announcedAt_append {extra : List ProtocolEvent} (h : ∀ e ∈ extra, e.method ≠ "lifecycle") :
    AnnouncedAt (events ++ extra) key status ↔ AnnouncedAt events key status := by
  simp only [AnnouncedAt, List.mem_append, or_and_right, exists_or]
  exact or_iff_left fun ⟨e, he, hkey⟩ => h e he hkey.2.1

end

namespace UniqueIds

variable {s t : ProtocolSession} {e : ProtocolEvent}

/-- Nothing but the sequence, the latch and the pending interrupts changes. -/
theorem congr (h : UniqueIds s) (hminted : Minted t)
    (hscope : ∀ id count, t.scope = some (id, count) → (MintedId.stream id count).Valid)
    (hns : t.namespaces = s.namespaces) (hpushed : t.pushed = s.pushed)
    (hlatch : t.terminalLifecycleEmitted = false → s.terminalLifecycleEmitted = false) :
    UniqueIds t where
  minted := hminted
  scope := hscope
  keyed := hns ▸ h.keyed
  fresh := by
    rw [hns, hpushed]
    exact h.fresh
  root hfalse := hpushed ▸ h.root (hlatch hfalse)

theorem relatch (h : UniqueIds s) {b : Bool}
    (hlatch : b = false → s.terminalLifecycleEmitted = false) :
    UniqueIds { s with terminalLifecycleEmitted := b } :=
  h.congr (h.minted.mono rfl rfl fun _ hi => hi) h.scope rfl rfl hlatch

/-- Events that are no lifecycle events. -/
theorem logs (h : UniqueIds s) {extra : List ProtocolEvent} (hminted : Minted t)
    (hscope : ∀ id count, t.scope = some (id, count) → (MintedId.stream id count).Valid)
    (hextra : ∀ e ∈ extra, e.method ≠ "lifecycle") (hns : t.namespaces = s.namespaces)
    (hpushed : t.pushed = s.pushed ++ extra)
    (hlatch : t.terminalLifecycleEmitted = s.terminalLifecycleEmitted) : UniqueIds t where
  minted := hminted
  scope := hscope
  keyed := hns ▸ h.keyed
  fresh := by
    simp only [hns, hpushed, announcedAt_append hextra]
    exact h.fresh
  root := by
    simp only [hlatch, hpushed, announcedAt_append hextra]
    exact h.root

theorem setStarted (h : UniqueIds s) (ns : List String) (name : String)
    (hhead : ns.head? ≠ some "") (hnot : ¬ AnnouncedAt s.pushed (namespaceKey ns) .completed) :
    UniqueIds { s with namespaces := s.namespaces.set (namespaceKey ns) ⟨ns, .started, name⟩ } := by
  refine ⟨h.minted.mono rfl rfl fun _ hi => hi, h.scope, ?_, ?_, h.root⟩
  · exact Dict.forall_set ⟨rfl, hhead⟩ fun key info _ => h.keyed key info
  · exact Dict.forall_set (fun _ => hnot) fun key info _ => h.fresh key info

/-- A lifecycle event of a namespace below the root. -/
theorem announce (h : UniqueIds s) (info : NamespaceInfo) (hminted : Minted t)
    (hscope : ∀ id count, t.scope = some (id, count) → (MintedId.stream id count).Valid)
    (he : e.Announces info.ns info.status) (hhead : info.ns.head? ≠ some "") (hne : info.ns ≠ [])
    (hstarted : info.status = .started →
      ¬ AnnouncedAt s.pushed (namespaceKey info.ns) .completed)
    (hns : t.namespaces = s.namespaces.set (namespaceKey info.ns) info)
    (hpushed : t.pushed = s.pushed ++ [e])
    (hlatch : t.terminalLifecycleEmitted = s.terminalLifecycleEmitted) : UniqueIds t where
  minted := hminted
  scope := hscope
  keyed := by
    rw [hns]
    exact Dict.forall_set ⟨rfl, hhead⟩ fun key x _ => h.keyed key x
  fresh := by
    rw [hns, hpushed]
    refine Dict.forall_set (fun hopen => ?_) fun key x hkey hx hopen => ?_
    · rw [announcedAt_concat he]
      rintro (hannounced | ⟨-, hstatus⟩)
      · exact hstarted hopen hannounced
      · rw [hopen] at hstatus
        cases hstatus
    · rw [announcedAt_concat he]
      rintro (hannounced | ⟨heq, -⟩)
      · exact h.fresh key x hx hopen hannounced
      · exact hkey heq
  root hfalse status hterm := by
    rw [hpushed, announcedAt_concat he]
    rintro (hannounced | ⟨heq, -⟩)
    · exact h.root (hlatch ▸ hfalse) status hterm hannounced
    · exact hne (eq_nil_of_namespaceKey hhead heq.symm)

/-- A synthetic lifecycle event is new where its status was not announced. -/
theorem mint_lifecycle (h : UniqueIds s) {ns : List String} {status : LifecycleStatus}
    (hnot : ¬ AnnouncedAt s.pushed (namespaceKey ns) status) (he : e.Announces ns status)
    (hid : e.eventId = synthEventId s.env.runId ["lc", namespaceKey ns, status.text])
    (namespaces : Dict String NamespaceInfo) (latch : Bool) :
    Minted { s with
      namespaces := namespaces
      nextSeq := s.nextSeq + 1
      pushed := s.pushed ++ [e]
      terminalLifecycleEmitted := latch } := by
  refine h.minted.mint (.lifecycle (namespaceKey ns) status) trivial hnot hid rfl rfl
    (fun _ hi => hi.of_push (fun _ => le_rfl) rfl rfl (List.Subset.refl _)) ?_
  exact (announcedAt_concat he).mpr (.inr ⟨rfl, rfl⟩)

/-- An event that gets its id from the stream, or from the sequence. -/
theorem mint_none (h : UniqueIds s) (method : String) (ns : List String) (data : Json)
    (node : Option String) :
    Minted (s.emit method ns data node none) ∧ ∀ id count,
      (s.emit method ns data node none).scope = some (id, count) →
        (MintedId.stream id count).Valid := by
  obtain ⟨e, scope, -, -, hcases, hemit⟩ := s.emit_none method ns data node
  rw [hemit]
  rcases hcases with ⟨id, n, hscope, rfl, hid⟩ | ⟨hscope, rfl, hid⟩
  · have hvalid := h.scope id n hscope
    have hcount : s.streamCount id = n := by simp [ProtocolSession.streamCount, hscope]
    refine ⟨h.minted.mint (.stream id n) hvalid ?_ hid rfl rfl (fun i hi =>
      hi.of_push (fun id' => ?_) rfl rfl (List.Subset.refl _)) ?_, fun id' count hsome => ?_⟩
    · exact fun hknown => absurd hknown (by simp [MintedId.Known, hcount])
    · simp only [ProtocolSession.streamCount, hscope]
      split
      · exact Nat.le_succ n
      · exact le_rfl
    · simp [MintedId.Known, ProtocolSession.streamCount]
    · obtain ⟨rfl, rfl⟩ := Prod.mk.inj (Option.some.inj hsome)
      exact hvalid
  · refine ⟨h.minted.mint (.seq (s.nextSeq + 1)) trivial ?_ hid rfl rfl (fun i hi =>
      hi.of_push (fun id' => ?_) rfl rfl (List.Subset.refl _)) ?_,
      fun _ _ hsome => by cases hsome⟩
    · exact Nat.not_succ_le_self s.nextSeq
    · simp [ProtocolSession.streamCount, hscope]
    · exact le_rfl (a := s.nextSeq + 1)

theorem push (h : UniqueIds s) {method : String} (hmethod : method ≠ "lifecycle")
    (ns : List String) (data : Json) (node : Option String) :
    UniqueIds (s.emit method ns data node none) := by
  obtain ⟨hminted, hscope⟩ := h.mint_none method ns data node
  obtain ⟨e, scope, hwire, -, -, hemit⟩ := s.emit_none method ns data node
  rw [hemit] at hminted hscope ⊢
  refine h.logs hminted hscope (List.forall_mem_singleton.mpr ?_) rfl rfl rfl
  exact ProtocolEvent.ne_lifecycle_of_wireEvent hwire hmethod

theorem registerNamespaces (h : UniqueIds s) {ns : List String} (hhead : ns.head? ≠ some "")
    (hnone : s.NoneCompleted ns) : UniqueIds (s.registerNamespaces ns) := by
  have hboth : UniqueIds (s.registerNamespaces ns) ∧ (s.registerNamespaces ns).pushed = s.pushed := by
    refine ProtocolSession.registerNamespaces_invariant s ns
      (P := fun t => UniqueIds t ∧ t.pushed = s.pushed) ⟨h, rfl⟩ fun t part hpart hne ht => ?_
    rcases t.registerNamespace_cases part with heq | ⟨name, heq⟩
    · rw [heq]
      exact ht
    · rw [heq]
      refine ⟨ht.1.setStarted part name ?_ ?_, ht.2⟩
      · obtain ⟨rest, rfl⟩ := hpart
        cases part with
        | nil => exact absurd rfl hne
        | cons segment part => exact hhead
      · rw [ht.2]
        exact hnone part hpart hne
  exact hboth.1

theorem emitNamespaceStarted (h : UniqueIds s) {ns : List String} {data : Json}
    (hstarted : textField data "event" = some "started")
    (hkeep : CallKeepsIds s (.started ns data)) : UniqueIds (s.emitNamespaceStarted ns data) := by
  obtain ⟨hhead, hfirst⟩ := hkeep
  rcases s.emitNamespaceStarted_cases ns data with ⟨-, heq⟩ | ⟨hne, hnew, name, heq⟩
  · rw [heq]
    exact h
  · have hnot := hfirst.resolve_left hnew
    have hset := h.setStarted ns name hhead hnot
    have hwired : UniqueIds { s with
        wireStartedEmitted := s.wireStartedEmitted ++ [namespaceKey ns]
        namespaces := s.namespaces.set (namespaceKey ns) ⟨ns, .started, name⟩ } :=
      hset.congr (hset.minted.mono rfl rfl fun _ hi => hi) hset.scope rfl rfl id
    obtain ⟨hminted, hscope⟩ := hwired.mint_none "lifecycle" ns data none
    obtain ⟨e, scope, hwire, hns, -, hemit⟩ := ProtocolSession.emit_none { s with
      wireStartedEmitted := s.wireStartedEmitted ++ [namespaceKey ns]
      namespaces := s.namespaces.set (namespaceKey ns) ⟨ns, .started, name⟩ } "lifecycle" ns data none
    rw [wireEvent_lifecycle, Prod.mk.injEq] at hwire
    rw [heq]
    rw [hemit] at hminted hscope ⊢
    exact h.announce (e := e) ⟨ns, .started, name⟩ hminted hscope
      ⟨hwire.1, hns, hwire.2 ▸ hstarted⟩ hhead hne (fun _ => hnot) rfl rfl rfl

theorem emitNamespaceLifecycle (h : UniqueIds s) {ns : List String} {status : LifecycleStatus}
    (hne : ns ≠ []) (hstatus : status ≠ .started) {graphName : Option String}
    {error cause : Option Json}
    (hkeep : CallKeepsIds s (.lifecycle ns status graphName error cause)) :
    UniqueIds (s.emitNamespaceLifecycle ns status graphName error cause) := by
  obtain ⟨hhead, hunknown, hnew⟩ := hkeep
  have hregister : UniqueIds (s.registerUnknown ns) := by
    unfold ProtocolSession.registerUnknown
    split
    · next hcond => exact h.registerNamespaces hhead (hunknown hcond.2)
    · exact h
  -- a namespace that is not known is registered as started
  have hdropped : s.Dropped ns status graphName error cause → s.registerUnknown ns = s := by
    intro hdrop
    unfold ProtocolSession.registerUnknown
    refine if_neg fun hcond => ?_
    have hhas := hdrop.1
    rw [ProtocolSession.hasStatus, Option.isNone_iff_eq_none.mp hcond.2] at hhas
    cases hhas
  have hcases := s.emitNamespaceLifecycle_cases ns status graphName error cause
  rcases hcases with ⟨-, heq⟩ | ⟨hnot, e, name, he, hid, heq⟩
  · rw [heq]
    exact hregister
  · have hannounced : ¬ AnnouncedAt s.pushed (namespaceKey ns) status := by
      refine hnew.resolve_left fun hdrop => hnot ?_
      rw [hdropped hdrop]
      exact hdrop
    obtain ⟨namespaces, ht⟩ := s.registerUnknown_eq ns
    rw [heq]
    rw [ht] at hregister ⊢
    exact hregister.announce ⟨ns, status, name⟩
      (hregister.mint_lifecycle hannounced he hid _ s.terminalLifecycleEmitted) hregister.scope he
      hhead hne (fun hst => absurd hst hstatus) rfl rfl rfl

/-- The root ends, whatever the latch is. -/
theorem emitRoot {b : Bool} (h : UniqueIds { s with terminalLifecycleEmitted := b })
    {status : LifecycleStatus} (hterm : status.terminal = true) (graphName : Option String) (error cause : Option Json)
    (hnew : s.Dropped [] status graphName error cause ∨
      ¬ AnnouncedAt s.pushed (namespaceKey []) status) :
    UniqueIds { s.emitNamespaceLifecycle [] status graphName error cause with
      terminalLifecycleEmitted := true } := by
  have hcases := s.emitNamespaceLifecycle_cases [] status graphName error cause
  rw [s.registerUnknown_nil] at hcases
  rcases hcases with ⟨-, heq⟩ | ⟨hnot, e, name, he, hid, heq⟩
  · rw [heq]
    exact h.relatch (b := true) (nomatch ·)
  · rw [heq]
    have hannounced := hnew.resolve_left hnot
    refine ⟨h.mint_lifecycle hannounced he hid _ true, h.scope, ?_, ?_, (nomatch ·)⟩
    · exact Dict.forall_set ⟨rfl, by simp⟩ fun key x _ => h.keyed key x
    · refine Dict.forall_set (fun hopen => ?_) fun key x hkey hx hopen => ?_
      · obtain rfl : status = .started := hopen
        cases hterm
      · rw [announcedAt_concat he]
        rintro (hannounced | ⟨heq, -⟩)
        · exact h.fresh key x hx hopen hannounced
        · exact hkey heq

/-- A namespace that is open ends for the first time, whatever the latch is. -/
theorem completeOpen {b : Bool} (h : UniqueIds { s with terminalLifecycleEmitted := b })
    {ns : List String} (hhead : ns.head? ≠ some "") (hne : ns ≠ [])
    (hopen : (s.namespaces.get? (namespaceKey ns)).any (fun info => info.status = .started) = true)
    (graphName : Option String) :
    UniqueIds { s.emitNamespaceLifecycle ns .completed graphName none none with
      terminalLifecycleEmitted := b } := by
  obtain ⟨info, hinfo, hstarted⟩ := (Option.any_eq_true _ _).mp hopen
  have hnot := h.fresh _ info hinfo (of_decide_eq_true hstarted)
  obtain ⟨e, name, he, hid, heq⟩ := s.emitNamespaceLifecycle_of_open ns .completed (by decide)
    hopen graphName none none
  rw [heq]
  exact h.announce ⟨ns, .completed, name⟩
    (h.mint_lifecycle hnot he hid _ b) h.scope he hhead hne (nomatch ·) rfl rfl rfl

theorem emitChildNodeCompleted (h : UniqueIds s) (parent : List String) (node : String) :
    UniqueIds (s.emitChildNodeCompleted parent node) := by
  unfold ProtocolSession.emitChildNodeCompleted
  split
  · exact h
  · split
    · exact h
    · next info hchild =>
      obtain ⟨⟨key, hinfo⟩, hstarted, hne⟩ := s.openChild_spec hchild
      obtain ⟨rfl, hhead⟩ := h.keyed key info hinfo
      have hcompleted := completeOpen (b := s.terminalLifecycleEmitted) h hhead hne
        (by simp [hinfo, hstarted]) (some info.graphName)
      exact hcompleted.relatch (s.sameScope_emitNamespaceLifecycle _ _ _ _ _).latch.symm.trans

/-- A request of an interrupt that was not requested before. -/
theorem requestInput (h : UniqueIds s) {ns : List String} {r : InputRequest}
    (hnew : s.isNewRequest r = true →
      '|' ∉ r.interruptId.toList ∧ ¬ RequestedBefore s.pushed r.interruptId) :
    UniqueIds (s.requestInput ns r) := by
  rcases s.requestInput_cases ns r with ⟨-, heq⟩ | ⟨hisnew, e, hmethod, hns, hdata, hid, heq⟩
  · rw [heq]
    exact h
  · rw [heq]
    obtain ⟨hsep, hnot⟩ := hnew hisnew
    refine h.logs (h.minted.mint (.input (namespaceKey ns) r.interruptId) hsep hnot hid rfl rfl
      (fun _ hi => hi.of_push (fun _ => le_rfl) rfl rfl (List.Subset.refl _)) ?_) h.scope
      (List.forall_mem_singleton.mpr ?_) rfl rfl rfl
    · refine ⟨e, List.mem_append_right _ (List.mem_singleton_self e), hmethod, ?_⟩
      rw [hdata]
      rfl
    · simp [hmethod]

theorem requestInputs (h : UniqueIds s) (ns : List String) {requests : List InputRequest}
    (hnew : ∀ r ∈ requests, s.isNewRequest r = true →
      '|' ∉ r.interruptId.toList ∧ ¬ RequestedBefore s.pushed r.interruptId) :
    UniqueIds (requests.foldl (fun s r => s.requestInput ns r) s) := by
  induction requests generalizing s with
  | nil => exact h
  | cons r requests ih =>
    obtain ⟨hr, hrest⟩ := List.forall_mem_cons.mp hnew
    refine ih (h.requestInput hr) fun r' hr' hisnew => ?_
    simp only at hisnew ⊢
    rcases s.requestInput_cases ns r with ⟨-, heq⟩ | ⟨-, e, hmethod, -, hdata, -, heq⟩
    · rw [heq] at hisnew ⊢
      exact hrest r' hr' hisnew
    · rw [heq] at hisnew ⊢
      -- the interrupt is another one, since this one is pending now
      simp only [ProtocolSession.isNewRequest, Dict.get?_set, Bool.and_eq_true,
        decide_eq_true_eq] at hisnew
      have hne : r'.interruptId ≠ r.interruptId := fun heq => by simp [heq] at hisnew
      rw [if_neg hne] at hisnew
      obtain ⟨hsep, hnot⟩ := hrest r' hr' (by simpa [ProtocolSession.isNewRequest] using hisnew)
      refine ⟨hsep, fun hbefore => ?_⟩
      obtain ⟨x, hx, hxmethod, hxid⟩ := hbefore
      rcases List.mem_append.mp hx with hx | hx
      · exact hnot ⟨x, hx, hxmethod, hxid⟩
      · obtain rfl := List.mem_singleton.mp hx
        rw [hdata] at hxid
        exact hne (Option.some.inj hxid).symm

theorem emitInputRequestedEvents (h : UniqueIds s) {ns : List String}
    {requests : List InputRequest} (hkeep : CallKeepsIds s (.requested ns requests)) :
    UniqueIds (s.emitInputRequestedEvents ns requests) := by
  obtain ⟨hnew, hroot⟩ := hkeep
  have hrequested := h.requestInputs ns hnew
  obtain ⟨pending, nextSeq, events, hevents, heq⟩ := s.requestInputs_eq ns requests
  have hplain : ∀ e ∈ events, e.method ≠ "lifecycle" := fun e he => by simp [hevents e he]
  simp only [ProtocolSession.emitInputRequestedEvents]
  rw [heq] at hrequested ⊢
  split
  · next hany =>
    refine emitRoot hrequested rfl _ _ _ ((hroot hany).imp id fun hnot => ?_)
    rwa [announcedAt_append hplain]
  · exact hrequested

theorem emitCheckpointEnvelope (h : UniqueIds s) {ns : List String} {envelope : Json}
    (hkeep : CallKeepsIds s (.checkpoint ns envelope)) :
    UniqueIds (s.emitCheckpointEnvelope ns envelope) := by
  rcases s.emitCheckpointEnvelope_cases ns envelope with heq | ⟨cpId, hcp, hnew, heq⟩
  · rw [heq]
    exact h
  · obtain ⟨e, hwire, -, hid, hemit⟩ := ProtocolSession.emit_some { s with
      emittedCheckpoints := s.emittedCheckpoints ++ [(namespaceKey ns, cpId)] } "checkpoints" ns
      envelope none (synthEventId s.env.runId ["checkpoint", namespaceKey ns, cpId])
    rw [heq, hemit]
    refine h.logs (h.minted.mint (.checkpoint (namespaceKey ns) cpId) (hkeep cpId hcp) hnew hid rfl
      rfl (fun _ hi => hi.of_push (fun _ => le_rfl) rfl rfl (List.subset_append_left _ _)) ?_)
      h.scope (List.forall_mem_singleton.mpr ?_) rfl rfl rfl
    · exact List.mem_append_right _ (List.mem_singleton_self _)
    · exact ProtocolEvent.ne_lifecycle_of_wireEvent hwire (by decide)

theorem call (h : UniqueIds s) {c : SessionCall} (hc : c.Handed) (hkeep : CallKeepsIds s c) :
    UniqueIds (s.call c) := by
  cases c with
  | register ns => exact h.registerNamespaces hkeep.1 hkeep.2
  | push method ns data node => exact h.push hc ns data node
  | started ns data => exact h.emitNamespaceStarted hc hkeep
  | lifecycle ns status graphName error cause => exact h.emitNamespaceLifecycle hc.1 hc.2 hkeep
  | childCompleted parent node => exact h.emitChildNodeCompleted parent node
  | requested ns requests => exact h.emitInputRequestedEvents hkeep
  | checkpoint ns envelope => exact h.emitCheckpointEnvelope hkeep

/-- The loop of the normal close. -/
theorem completeNamespaces {b : Bool} (h : UniqueIds { s with terminalLifecycleEmitted := b })
    {infos : List NamespaceInfo} (hinfos : ∀ info ∈ infos, info.ns.head? ≠ some "" ∧ info.ns ≠ []) :
    UniqueIds { infos.foldl ProtocolSession.completeNamespace s with
      terminalLifecycleEmitted := b } := by
  induction infos generalizing s with
  | nil => exact h
  | cons info infos ih =>
    obtain ⟨⟨hhead, hne⟩, hinfos⟩ := List.forall_mem_cons.mp hinfos
    refine ih ?_ hinfos
    unfold ProtocolSession.completeNamespace
    split
    · next hopen => exact completeOpen h hhead hne hopen _
    · exact h

theorem completeStaleNamespaces {b : Bool} (h : UniqueIds { s with terminalLifecycleEmitted := b }) :
    UniqueIds { s.completeStaleNamespaces [] with terminalLifecycleEmitted := b } := by
  refine completeNamespaces h fun info hinfo => ?_
  obtain ⟨⟨key, hkey⟩, -, hne⟩ := s.mem_staleNamespaces_nil.mp hinfo
  exact ⟨(h.keyed key info hkey).2, hne⟩

theorem emitTerminalLifecycle (h : UniqueIds s) (run : Option RunStatus)
    (fetched : Option (List StateTask)) : UniqueIds (s.emitTerminalLifecycle run fetched) := by
  unfold ProtocolSession.emitTerminalLifecycle
  split
  · exact h
  · next hlatch =>
    have hlatch : s.terminalLifecycleEmitted = false := by simpa using hlatch
    cases run with
    | none => exact h.relatch (b := true) (nomatch ·)
    | some run =>
      dsimp only
      split
      · exact h
      · next hne =>
        have hterm := terminal_resolveEffectiveStatus hne
        have hunlatched : UniqueIds { s with terminalLifecycleEmitted := false } :=
          h.relatch fun _ => hlatch
        have hcascade := completeStaleNamespaces
          (s := { s with terminalLifecycleEmitted := true }) hunlatched
        have hlatch' := (ProtocolSession.sameScope_completeStaleNamespaces
          { s with terminalLifecycleEmitted := true } []).latch
        generalize ProtocolSession.completeStaleNamespaces
          { s with terminalLifecycleEmitted := true } [] = t at hcascade hlatch' ⊢
        have hroot := emitRoot hcascade hterm s.rootGraphName none none
          (.inr (hcascade.root rfl _ hterm))
        have hsame := t.sameScope_emitNamespaceLifecycle []
          (ProtocolSession.resolveEffectiveStatus run fetched) s.rootGraphName none none
        exact hroot.relatch (hsame.latch.trans hlatch').symm.trans

/-- The scope of a source event goes on from the count of its stream id. -/
theorem openScope (h : UniqueIds s) (hidle : s.scope = none) {streamId : Option String}
    (hvalid : ∀ id ∈ nonemptyName streamId, (MintedId.stream id 0).Valid) :
    UniqueIds (s.openScope streamId) := by
  have hcount : ∀ id, s.streamCount id = (s.openScope streamId).streamCount id := by
    intro id
    simp only [ProtocolSession.streamCount, ProtocolSession.openScope, hidle]
    cases nonemptyName streamId with
    | none => rfl
    | some current =>
      dsimp only [Option.map_some]
      split
      · next heq => rw [heq]
      · rfl
  refine h.congr (h.minted.mono rfl rfl fun _ hi => hi.mono (fun id => (hcount id).le) le_rfl
    (List.Subset.refl _) (List.Subset.refl _)) (fun id count hscope => ?_) rfl rfl id
  obtain ⟨current, hcurrent, hpair⟩ := Option.map_eq_some_iff.mp hscope
  obtain ⟨rfl, -⟩ := Prod.mk.inj hpair
  exact hvalid _ hcurrent

/-- The count of the stream id is kept. -/
theorem closeScope (h : UniqueIds s) : UniqueIds s.closeScope ∧ s.closeScope.scope = none := by
  unfold ProtocolSession.closeScope
  split
  · next id count hscope =>
    have hcount : ∀ id', s.streamCount id' = ProtocolSession.streamCount { s with
        streamIdCounts := s.streamIdCounts.set id count, scope := none } id' := by
      intro id'
      simp only [ProtocolSession.streamCount, hscope, Dict.get?_set, eq_comm (a := id)]
      split
      · rfl
      · rfl
    exact ⟨h.congr (h.minted.mono rfl rfl fun _ hi => hi.mono (fun id => (hcount id).le) le_rfl
      (List.Subset.refl _) (List.Subset.refl _)) (fun _ _ hsome => by cases hsome)
      rfl rfl fun hlatch => hlatch, rfl⟩
  · next hscope => exact ⟨h, hscope⟩

/-- A step that repeats nothing, between source events. -/
theorem step (h : UniqueIds s) (hidle : s.scope = none) {a : SessionAction} (hkeep : KeepsIds s a)
    (hstep : protocolSession.step s a = some t) : UniqueIds t ∧ t.scope = none := by
  cases a with
  | source e =>
    cases hstep
    rcases s.handleSourceEvent_cases e with heq | ⟨herror, heq⟩ | ⟨hmeta, herror, heq⟩
    · rw [heq]
      exact ⟨h, hidle⟩
    · rw [heq]
      have hsame := ProtocolSession.sameScope_emitNamespaceLifecycle
        { s with terminalLifecycleEmitted := true } [] .failed s.rootGraphName
        (e.errorMessage s.env) none
      have hroot := emitRoot (s := { s with terminalLifecycleEmitted := true })
        (b := s.terminalLifecycleEmitted) h rfl s.rootGraphName (e.errorMessage s.env) none
        (hkeep.1 herror)
      exact ⟨hroot.relatch hsame.latch.symm.trans, hsame.scope.trans hidle⟩
    · rw [heq]
      obtain ⟨hvalid, hcalls⟩ := hkeep.2 hmeta herror
      exact closeScope (ProtocolSession.foldl_call (fun t c hc ht hok => ht.call hc hok)
        (s.handed_callsOf e) hcalls (h.openScope hidle hvalid))
  | clearInterrupt id =>
    cases hstep
    exact ⟨h.congr (h.minted.mono rfl rfl fun _ hi => hi) h.scope rfl rfl fun hlatch => hlatch,
      hidle⟩
  | complete run fetched =>
    cases hstep
    exact ⟨h.emitTerminalLifecycle run fetched, hidle ▸ s.scope_emitTerminalLifecycle run fetched⟩

theorem of_started (h : s.Started) : UniqueIds s ∧ s.scope = none := by
  obtain ⟨env, nextSeq, graphId, assistantId, rfl⟩ := h
  have hnone : ∀ key status, ¬ AnnouncedAt [] key status := fun key status ⟨e, he, _⟩ => nomatch he
  have hbase : UniqueIds { env := env, nextSeq := nextSeq } :=
    { minted := ⟨[], rfl, List.nodup_nil, by simp⟩
      scope := by simp
      keyed := fun _ _ hinfo => nomatch hinfo
      fresh := fun _ _ hinfo => nomatch hinfo
      root := fun _ status _ => hnone _ status }
  obtain ⟨e, root, name, he, hid, heq⟩ := ProtocolSession.start_eq
    { env := env, nextSeq := nextSeq } graphId assistantId
  rw [heq]
  have hminted := hbase.mint_lifecycle (hnone _ _) he hid
    (Dict.set {} (namespaceKey []) ⟨[], .running, name⟩) false
  refine ⟨⟨hminted.mono rfl rfl fun _ hi => hi, by simp, ?_, ?_, fun _ status hterm => ?_⟩, rfl⟩
  · exact Dict.forall_set ⟨rfl, by simp⟩ fun key info _ hinfo => nomatch hinfo
  · exact Dict.forall_set (nomatch ·) fun key info _ hinfo => nomatch hinfo
  · rw [announcedAt_concat he]
    rintro (hannounced | ⟨-, rfl⟩)
    · exact hnone _ _ hannounced
    · cases hterm

end UniqueIds

/-- In every run that repeats nothing, no two events of the session have the same id. -/
theorem eventId_nodup_of_keepsIds {s : ProtocolSession}
    (h : protocolSession.Reachable KeepsIds s) : (s.pushed.map ProtocolEvent.eventId).Nodup := by
  have hunique : UniqueIds s ∧ s.scope = none :=
    h.invariant (I := fun t => UniqueIds t ∧ t.scope = none) (fun _ => UniqueIds.of_started)
      fun _ _ _ _ hI hkeep hstep => hI.1.step hI.2 hkeep hstep
  exact hunique.1.minted.nodup

/-- A state of a namespace. -/
def valuesSource (name streamId : String) : SourceEvent where
  name := name
  message := some (.obj [("x", .num 1)])
  streamId := some streamId

/-- The end of a node of the root. -/
def updatesSource (node streamId : String) : SourceEvent where
  name := "updates"
  message := some (.obj [(node, .obj [("x", .num 1)])])
  streamId := some streamId

/-- A subgraph runs and completes, and the run succeeds. -/
theorem eventId_nodup_subgraph :
    ∃ s, protocolSession.Reachable KeepsIds s ∧ 5 ≤ s.pushed.length ∧
      (s.pushed.map ProtocolEvent.eventId).Nodup := by
  obtain ⟨s, h, hs⟩ := protocolSession.exists_reachable KeepsIds agentSession_started
    [.source (valuesSource "values|a:1" "1-0"), .source (updatesSource "a" "2-0"),
      .complete (some .success) none] (fun s => 5 ≤ s.pushed.length) (by decide +kernel)
  exact ⟨s, h, of_decide_eq_true hs, eventId_nodup_of_keepsIds h⟩

/-- A subgraph is entered again after it has completed: it completes again when the run
succeeds, under the same id. -/
theorem not_eventId_nodup :
    ∃ s, protocolSession.Reachable Machine.free s ∧
      ¬ (s.pushed.map ProtocolEvent.eventId).Nodup := by
  obtain ⟨s, h, hs⟩ := protocolSession.exists_reachable Machine.free agentSession_started
    [.source (valuesSource "values|a:1" "1-0"), .source (updatesSource "a" "2-0"),
      .source (valuesSource "values|a:1" "3-0"), .complete (some .success) none]
    (fun s => ¬ (s.pushed.map ProtocolEvent.eventId).Nodup) (by decide +kernel)
  exact ⟨s, h, of_decide_eq_true hs⟩

end NextRole
