import NextRole.Lib.Json
import NextRole.Lib.Path
import NextRole.Schema

/-!
# Protocol events and subscriptions

The envelopes of `event_streaming/session.py`, the namespaces of
`event_streaming/namespace.py`, and which events a subscription is for.

## Main definitions

* `ProtocolEvent` — an envelope.
* `namespaceKey`, `isPrefixMatch`, `guessGraphName` — namespaces.
* `Subscription`, `Subscription.matches` — `_matches_subscription`.
-/

namespace NextRole

/-- A protocol event, as `_create_event` builds it. -/
structure ProtocolEvent where
  eventId : String := ""
  seq : ℕ := 0
  method : String
  /-- `params.namespace`. -/
  ns : List String := []
  timestamp : Timestamp := 0
  data : Json := .null
  node : Option String := none
  deriving DecidableEq

/-! ### Namespaces -/

/-- `to_namespace_key`. -/
def namespaceKey (ns : List String) : String :=
  String.ofList (Path.join '\x00' (ns.map String.toList))

theorem eq_nil_of_namespaceKey {ns : List String} (h : ns.head? ≠ some "")
    (heq : namespaceKey ns = namespaceKey []) : ns = [] := by
  cases ns with
  | nil => rfl
  | cons segment ns =>
    have hnil : Path.join '\x00' ((segment :: ns).map String.toList) = [] :=
      String.ofList_injective heq
    have hpre : segment.toList <+: Path.join '\x00' ((segment :: ns).map String.toList) :=
      Path.prefix_join _ _
    rw [hnil, List.prefix_nil, String.toList_eq_nil_iff] at hpre
    exact absurd (congrArg some hpre) h

/-- `normalize_namespace_segment`: a segment up to its first colon. -/
def normalizeSegment (segment : String) : String :=
  String.ofList (Path.first ':' segment.toList)

/-- `is_prefix_match`. -/
def isPrefixMatch : List String → List String → Bool
  | _, [] => true
  | [], _ :: _ => false
  | candidate :: ns, segment :: start =>
    (candidate = segment ||
      (!segment.toList.contains ':' && normalizeSegment candidate = segment)) &&
      isPrefixMatch ns start

/-- `guess_graph_name`. -/
def guessGraphName (ns : List String) : String :=
  match ns.getLast? with
  | none => "root"
  | some segment => normalizeSegment segment

/-! ### Subscriptions -/

/-- `SUPPORTED_CHANNELS`. -/
def supportedChannels : List String :=
  ["values", "updates", "checkpoints", "messages", "tools", "custom", "lifecycle", "input", "tasks"]

/-- `_is_supported_channel`. -/
def isSupportedChannel (value : String) : Bool :=
  supportedChannels.contains value ||
    ("custom:".toList.isPrefixOf value.toList && "custom:".length < value.length)

/-- `_custom_event_matches`.  A name that is not text names no channel. -/
def customEventMatches (dataName : Option Json) (subscribed : List String) : Bool :=
  subscribed.contains "custom" ||
    match dataName with
    | some (.str name) => subscribed.contains ("custom:" ++ name)
    | _ => false

/-- A subscription object.  Two objects of one id are told apart by `ref`. -/
structure Subscription where
  id : String
  channels : List String
  namespaces : Option (List (List String)) := none
  depth : Option ℕ := none
  active : Bool := false
  ref : ℕ := 0
  deriving DecidableEq

/-- `_matches_subscription`. -/
def Subscription.matches (sub : Subscription) (e : ProtocolEvent) : Bool :=
  let channel := if e.method = "input.requested" then "input" else e.method
  isSupportedChannel channel &&
    (if channel = "custom" then customEventMatches (e.data.get? "name") sub.channels
      else sub.channels.contains channel) &&
    match sub.namespaces with
    | none | some [] => true
    | some starts => starts.any fun start =>
        isPrefixMatch e.ns start &&
          sub.depth.all fun depth => e.ns.length - start.length ≤ depth

end NextRole
