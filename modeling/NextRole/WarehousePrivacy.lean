import Mathlib.Data.List.Forall2
import NextRole.Analytics.Transforms

/-!
# What does not leave for the warehouse

A policy says what of a value may leave: all of it, its length, whether it is empty, some of its
fields.  Two values that a policy does not tell apart differ only in content, and the rows that
are shaped from them are equal.

## Main definitions

* `Policy`, `Policy.Same` — policies, and the values that one does not tell apart.
* `Policy.runKwargs`, `Policy.threadValues`, `Policy.message`, … — the policies of the columns.
* `AlikeRun`, `AlikeThread`, `AlikeCheckpoint` — rows that differ only in content.

## Main results

* `Policy.Same.dictGet` — a field that is read of two such values.
* `shape_eq_of_same` — the rows of two runs, threads, messages or checkpoints are equal.
-/

namespace NextRole

/-! ### Policies -/

/-- What of a value may leave. -/
inductive Policy
  /-- The value itself. -/
  | whole
  /-- Nothing of it. -/
  | nothing
  /-- Whether it is empty. -/
  | emptiness
  /-- How many elements or fields it has. -/
  | size
  /-- How long its texts are together. -/
  | text
  /-- Something of each of its elements. -/
  | items (p : Policy)
  /-- Something of each of its fields. -/
  | fields (p : String → Policy)
  /-- Something of each of its fields if it is a dictionary, and else nothing. -/
  | record (p : String → Policy)

/-- A dictionary of which only some fields may leave. -/
def Policy.only (keys : List String) : Policy :=
  .fields fun k => if k ∈ keys then .whole else .nothing

/-- The texts of the content of a message: a text, or the texts of its parts. -/
def messageTexts : Json → List String
  | .str s => [s]
  | .arr parts => parts.filterMap fun
    | .str s => some s
    | part => (part.get? "text").bind asStr
  | _ => []

/-- Two values that a policy does not tell apart. -/
def Policy.Same : Policy → Json → Json → Prop
  | .whole => fun x y => x = y
  | .nothing => fun _ _ => True
  | .emptiness => fun x y => truthy (some x) = truthy (some y)
  | .size => fun x y => x = y ∨
      (∃ xs ys, x = .arr xs ∧ y = .arr ys ∧ xs.length = ys.length) ∨
      ∃ kvs kvs', x = .obj kvs ∧ y = .obj kvs' ∧ kvs.length = kvs'.length
  | .text => fun x y =>
      ((messageTexts x).map String.length).sum = ((messageTexts y).map String.length).sum
  | .items p => fun x y => x = y ∨
      ∃ xs ys, x = .arr xs ∧ y = .arr ys ∧ List.Forall₂ p.Same xs ys
  | .fields p => fun x y => x = y ∨
      ∃ kvs kvs', x = .obj kvs ∧ y = .obj kvs' ∧
        ∀ k, (p k).Same ((kvs.lookup k).getD .null) ((kvs'.lookup k).getD .null)
  | .record p => fun x y => x = y ∨
      ((∀ kvs, x ≠ .obj kvs) ∧ ∀ kvs, y ≠ .obj kvs) ∨
      ∃ kvs kvs', x = .obj kvs ∧ y = .obj kvs' ∧
        ∀ k, (p k).Same ((kvs.lookup k).getD .null) ((kvs'.lookup k).getD .null)

theorem Policy.Same.refl (p : Policy) (x : Json) : p.Same x x := by
  cases p with
  | whole => rfl
  | nothing => trivial
  | emptiness => rfl
  | text => rfl
  | size => exact .inl rfl
  | items p => exact .inl rfl
  | fields p => exact .inl rfl
  | record p => exact .inl rfl

/-- Two dictionaries with the same keys, each with something of its field. -/
theorem Policy.same_lookup {p : String → Policy} {kvs kvs' : List (String × Json)}
    (h : List.Forall₂ (fun e e' => e.1 = e'.1 ∧ (p e.1).Same e.2 e'.2) kvs kvs') (k : String) :
    (p k).Same ((kvs.lookup k).getD .null) ((kvs'.lookup k).getD .null) := by
  induction h with
  | nil => exact .refl _ _
  | @cons e e' _ _ he _ ih =>
    obtain ⟨key, v⟩ := e
    obtain ⟨key', v'⟩ := e'
    obtain ⟨rfl, he⟩ := he
    rw [List.lookup_cons, List.lookup_cons]
    by_cases hk : k = key
    · subst hk
      simpa using he
    · simpa only [beq_false_of_ne hk] using ih

/-! ### Reading values that a policy does not tell apart -/

section Reading

variable {x y : Json} {p : String → Policy}

theorem bind_eq_of_rel {α β γ : Type*} {R : α → β → Prop} {a : Option α} {b : Option β}
    {f : α → Option γ} {g : β → Option γ} (h : Option.Rel R a b)
    (hfg : ∀ v w, R v w → f v = g w) : a.bind f = b.bind g := by
  cases h with
  | some h => exact hfg _ _ h
  | none => rfl

theorem eq_of_rel_eq {α : Type*} {a b : Option α} (h : Option.Rel (· = ·) a b) : a = b := by
  cases h with
  | some h => rw [h]
  | none => rfl

theorem rel_dictGet_self (q : String → Policy) (x : Json) (k : String) :
    Option.Rel (q k).Same (dictGet x k) (dictGet x k) := by
  cases dictGet x k with
  | none => exact .none
  | some v => exact .some (Policy.Same.refl (q k) v)

theorem orElse_obj (kvs : List (String × Json)) :
    orElse (.obj kvs) (.obj []) = .obj kvs := by
  cases kvs <;> rfl

theorem orElse_arr (xs : List Json) : orElse (.arr xs) (.arr []) = .arr xs := by
  cases xs <;> rfl

theorem Policy.Same.dictGet (h : (Policy.fields p).Same x y) (k : String) :
    Option.Rel (p k).Same (dictGet (orElse x (.obj [])) k) (dictGet (orElse y (.obj [])) k) := by
  obtain rfl | ⟨kvs, kvs', rfl, rfl, h⟩ := h
  · exact rel_dictGet_self p _ k
  · rw [orElse_obj, orElse_obj]
    exact .some (h k)

theorem Policy.Same.dictGet_whole (h : (Policy.fields p).Same x y) {k : String}
    (hk : p k = .whole) :
    NextRole.dictGet (orElse x (.obj [])) k = NextRole.dictGet (orElse y (.obj [])) k := by
  have hrel := h.dictGet k
  rw [hk] at hrel
  exact eq_of_rel_eq hrel

theorem Policy.Same.pyLen {d : Json} (hd : d = .arr [] ∨ d = .obj [])
    (h : Policy.size.Same x y) : pyLen (orElse x d) = pyLen (orElse y d) := by
  obtain rfl | ⟨xs, ys, rfl, rfl, h⟩ | ⟨kvs, kvs', rfl, rfl, h⟩ := h
  · rfl
  · obtain rfl | rfl := hd <;> cases xs <;> cases ys <;> simp_all [orElse, truthy, NextRole.pyLen]
  · obtain rfl | rfl := hd <;> cases kvs <;> cases kvs' <;>
      simp_all [orElse, truthy, NextRole.pyLen]

/-- A field of a dictionary; what is no dictionary has none. -/
theorem Policy.Same.dictGet_record (h : (Policy.record p).Same x y) (k : String) :
    Option.Rel (p k).Same (NextRole.dictGet x k) (NextRole.dictGet y k) := by
  obtain rfl | ⟨hx, hy⟩ | ⟨kvs, kvs', rfl, rfl, h⟩ := h
  · exact rel_dictGet_self p _ k
  · have hnone : ∀ z : Json, (∀ kvs, z ≠ .obj kvs) → NextRole.dictGet z k = none := by
      intro z hz
      cases z with
      | obj kvs => exact absurd rfl (hz kvs)
      | _ => rfl
    rw [hnone x hx, hnone y hy]
    exact .none
  · exact .some (h k)

theorem Policy.Same.iterate {q : Policy} (h : (Policy.items q).Same x y) :
    Option.Rel (List.Forall₂ q.Same) (iterate (orElse x (.arr [])))
      (iterate (orElse y (.arr []))) := by
  obtain rfl | ⟨xs, ys, rfl, rfl, h⟩ := h
  · cases NextRole.iterate (orElse x (.arr [])) with
    | none => exact .none
    | some l => exact .some (List.forall₂_same.mpr fun v _ => .refl q v)
  · rw [orElse_arr, orElse_arr]
    exact .some h

theorem Policy.Same.size {q : Policy} (h : (Policy.items q).Same x y) : Policy.size.Same x y := by
  obtain rfl | ⟨xs, ys, rfl, rfl, h⟩ := h
  · exact .inl rfl
  · exact .inr (.inl ⟨xs, ys, rfl, rfl, h.length_eq⟩)

end Reading

/-! ### Runs -/

/-- Of the metadata of a run only its owner leaves. -/
def Policy.runMetadata : Policy := .only ["owner"]

/-- Of the payload of a run only the overrides of the models leave. -/
def Policy.runKwargs : Policy :=
  .fields fun
    | "config" => .fields fun
      | "configurable" => .only ["main_agent_model", "subagent_model"]
      | _ => .nothing
    | _ => .nothing

/-- Two runs that differ only in content. -/
structure AlikeRun (r r' : Run) : Prop where
  columns : { r with metadata := r'.metadata, kwargs := r'.kwargs } = r'
  metadata : Policy.runMetadata.Same r.metadata r'.metadata
  kwargs : Policy.runKwargs.Same r.kwargs r'.kwargs

theorem AlikeRun.modelOverride_eq {x y : Json} {key : String}
    (h : dictGet x key = dictGet y key) : modelOverride x key = modelOverride y key := by
  rw [modelOverride, modelOverride, h]

theorem AlikeRun.shapeRun_eq {r r' : Run} (h : AlikeRun r r') : shapeRun r = shapeRun r' := by
  obtain ⟨hcolumns, hmetadata, hkwargs⟩ := h
  rw [← hcolumns]
  have howner := hmetadata.dictGet_whole (k := "owner") rfl
  refine bind_eq_of_rel (hkwargs.dictGet "config") fun config config' hconfig => ?_
  refine bind_eq_of_rel (hconfig.dictGet "configurable") fun conf conf' hconf => ?_
  have hmain := AlikeRun.modelOverride_eq (hconf.dictGet_whole (k := "main_agent_model") rfl)
  have hsub := AlikeRun.modelOverride_eq (hconf.dictGet_whole (k := "subagent_model") rfl)
  simp only [hmain, hsub, howner]

/-! ### Threads -/

/-- Of the metadata of a thread only its owner and what runs on it leave. -/
def Policy.threadMetadata : Policy := .only ["owner", "graph_id", "assistant_id"]

/-- Of the values of a thread only numbers of messages, files and todos leave. -/
def Policy.threadValues : Policy :=
  .fields fun
    | "messages" | "files" | "todos" => .size
    | _ => .nothing

/-- Two threads that differ only in content. -/
structure AlikeThread (t t' : Thread) : Prop where
  columns : { t with
    metadata := t'.metadata
    config := t'.config
    values := t'.values
    interrupts := t'.interrupts
    error := t'.error } = t'
  metadata : Policy.threadMetadata.Same t.metadata t'.metadata
  values : Policy.threadValues.Same (t.values.getD .null) (t'.values.getD .null)
  interrupts : Policy.emptiness.Same t.interrupts t'.interrupts

theorem AlikeThread.shapeThread_eq {t t' : Thread} (h : AlikeThread t t') :
    shapeThread t = shapeThread t' := by
  obtain ⟨hcolumns, hmetadata, hvalues, hinterrupts⟩ := h
  have hinterrupts : truthy (some t.interrupts) = truthy (some t'.interrupts) := hinterrupts
  rw [← hcolumns]
  have howner := hmetadata.dictGet_whole (k := "owner") rfl
  have hgraph := hmetadata.dictGet_whole (k := "graph_id") rfl
  have hassistant := hmetadata.dictGet_whole (k := "assistant_id") rfl
  refine bind_eq_of_rel (hvalues.dictGet "messages") fun messages messages' hmessages => ?_
  refine bind_eq_of_rel (hvalues.dictGet "files") fun files files' hfiles => ?_
  refine bind_eq_of_rel (hvalues.dictGet "todos") fun todos todos' htodos => ?_
  have hmessages := hmessages.pyLen (d := .arr []) (.inl rfl)
  have hfiles := hfiles.pyLen (d := .obj []) (.inr rfl)
  have htodos := htodos.pyLen (d := .arr []) (.inl rfl)
  simp only [howner, hgraph, hassistant, hmessages, hfiles, htodos, hinterrupts]

/-! ### Messages -/

/-- Of a tool call only its name leaves. -/
def Policy.toolCall : Policy :=
  .record fun
    | "name" => .whole
    | _ => .nothing

/-- Of the usage only the counts leave. -/
def Policy.usageMetadata : Policy :=
  .fields fun
    | "input_tokens" | "output_tokens" | "total_tokens" => .whole
    | "input_token_details" => .only ["cache_creation", "cache_read"]
    | "output_token_details" => .only ["reasoning"]
    | _ => .nothing

/-- Of the content of a message only its length leaves. -/
def Policy.message : Policy :=
  .record fun
    | "type" | "id" | "name" | "status" | "tool_call_id" => .whole
    | "usage_metadata" => usageMetadata
    | "response_metadata" => .only ["model_name", "model_provider", "finish_reason"]
    | "tool_calls" => .items toolCall
    | "content" => .text
    | _ => .nothing

theorem contentLength_eq (x : Json) :
    contentLength x = ((messageTexts x).map String.length).sum := by
  cases x with
  | arr parts =>
    simp only [contentLength, messageTexts]
    induction parts with
    | nil => rfl
    | cons part parts ih =>
      rw [List.map_cons, List.sum_cons, ih, List.filterMap_cons]
      cases part with
      | str s => rfl
      | obj kvs =>
        cases h : (Json.obj kvs).get? "text" with
        | none => simp [h]
        | some v => cases v <;> simp [h, asStr]
      | _ => simp [Json.get?]
  | str s => simp [contentLength, messageTexts]
  | _ => rfl

/-- The name of a tool call. -/
def toolCallName (call : Json) : Option Json :=
  (dictGet call "name").filter fun name => truthy (some name)

theorem toolCallNames_eq_mapM (calls : List Json) :
    toolCallNames calls = (calls.filterMap toolCallName).mapM asStr := by
  unfold toolCallNames
  refine congrArg (fun names => names.mapM asStr) (List.filterMap_congr fun call _ => ?_)
  cases call with
  | obj kvs =>
    have hnull : ∀ v : Option Json, v.filter (fun name => truthy (some name)) =
        (some (v.getD .null)).filter fun name => truthy (some name) := by
      intro v
      cases v <;> rfl
    exact hnull (kvs.lookup "name")
  | _ => rfl

theorem toolCallNames_eq {xs ys : List Json} (h : List.Forall₂ Policy.toolCall.Same xs ys) :
    toolCallNames xs = toolCallNames ys := by
  rw [toolCallNames_eq_mapM, toolCallNames_eq_mapM]
  congr 1
  induction h with
  | nil => rfl
  | cons hcall _ ih =>
    have hname : toolCallName _ = toolCallName _ :=
      congrArg (fun v => v.filter fun name => truthy (some name))
        (eq_of_rel_eq (hcall.dictGet_record "name"))
    rw [List.filterMap_cons, List.filterMap_cons, ih, hname]

/-- **Messages that differ only in content have the same row.** -/
theorem shapeMessage_eq {x y : Json} (h : Policy.message.Same x y) (threadId : Uuid) (index : ℕ) :
    shapeMessage threadId index x = shapeMessage threadId index y := by
  have hid : dictGet x "id" = dictGet y "id" := eq_of_rel_eq (h.dictGet_record "id")
  have htype : dictGet x "type" = dictGet y "type" := eq_of_rel_eq (h.dictGet_record "type")
  have hname : dictGet x "name" = dictGet y "name" := eq_of_rel_eq (h.dictGet_record "name")
  have hstatus : dictGet x "status" = dictGet y "status" :=
    eq_of_rel_eq (h.dictGet_record "status")
  have hcall : dictGet x "tool_call_id" = dictGet y "tool_call_id" :=
    eq_of_rel_eq (h.dictGet_record "tool_call_id")
  unfold shapeMessage
  refine bind_eq_of_rel (h.dictGet_record "usage_metadata") fun usage usage' husage => ?_
  refine bind_eq_of_rel (husage.dictGet "input_token_details") fun input input' hinput => ?_
  refine bind_eq_of_rel (husage.dictGet "output_token_details") fun output output' houtput => ?_
  refine bind_eq_of_rel (h.dictGet_record "response_metadata") fun resp resp' hresp => ?_
  refine bind_eq_of_rel (h.dictGet_record "tool_calls") fun calls calls' hcalls => ?_
  refine bind_eq_of_rel hcalls.iterate fun list list' hlist => ?_
  have hnames := toolCallNames_eq hlist
  have hcount := hcalls.size.pyLen (d := .arr []) (.inl rfl)
  have hmodel := hresp.dictGet_whole (k := "model_name") rfl
  have hprovider := hresp.dictGet_whole (k := "model_provider") rfl
  have hreason := hresp.dictGet_whole (k := "finish_reason") rfl
  have hin := husage.dictGet_whole (k := "input_tokens") rfl
  have hout := husage.dictGet_whole (k := "output_tokens") rfl
  have htotal := husage.dictGet_whole (k := "total_tokens") rfl
  have hcreation := hinput.dictGet_whole (k := "cache_creation") rfl
  have hread := hinput.dictGet_whole (k := "cache_read") rfl
  have hreasoning := houtput.dictGet_whole (k := "reasoning") rfl
  simp only [hnames, hcount, hmodel, hprovider, hreason, hin, hout, htotal, hcreation, hread,
    hreasoning, hid, htype, hname, hstatus, hcall]
  -- the length of the content is read between the other fields
  iterate 8 refine Option.bind_congr fun _ _ => ?_
  refine bind_eq_of_rel (h.dictGet_record "content") fun content content' hcontent => ?_
  have hlength : contentLength content = contentLength content' := by
    rw [contentLength_eq, contentLength_eq]
    exact hcontent
  rw [hlength]

/-- Lists of messages that differ only in content have the same rows. -/
theorem explodeMessages_eq {messages messages' : Option Json}
    (h : Option.Rel (Policy.items .message).Same messages messages') (threadId : Uuid) :
    explodeMessages threadId messages = explodeMessages threadId messages' := by
  cases h with
  | none => rfl
  | some h =>
    obtain rfl | ⟨xs, ys, rfl, rfl, h⟩ := h
    · rfl
    simp only [explodeMessages]
    -- the rows from any index on
    generalize 0 = index
    induction h generalizing index with
    | nil => rfl
    | @cons x y xs ys hxy _ ih =>
      have htype : dictGet x "type" = dictGet y "type" :=
        eq_of_rel_eq (hxy.dictGet_record "type")
      have hrow := shapeMessage_eq hxy threadId index
      simp only [List.zipIdx_cons, List.filter_cons, htype]
      split
      · rw [List.mapM_cons, List.mapM_cons, hrow, ih (index + 1)]
      · exact ih (index + 1)

/-! ### Checkpoints -/

/-- Of the metadata of a checkpoint only what traces it leaves. -/
def Policy.checkpointMetadata : Policy :=
  .only ["source", "step", "graph_id", "assistant_id", "owner", "user_id"]

/-- Two checkpoints that differ only in content. -/
structure AlikeCheckpoint (c c' : Checkpoint) : Prop where
  columns : { c with
    parentCheckpointId := c'.parentCheckpointId
    checkpoint := c'.checkpoint
    metadata := c'.metadata } = c'
  ts : c.checkpoint.text? "ts" = c'.checkpoint.text? "ts"
  metadata : Policy.checkpointMetadata.Same c.metadata c'.metadata

theorem AlikeCheckpoint.shapeCheckpointMeta_eq {c c' : Checkpoint} (h : AlikeCheckpoint c c') :
    shapeCheckpointMeta c = shapeCheckpointMeta c' := by
  obtain ⟨hcolumns, hts, hmetadata⟩ := h
  rw [← hcolumns]
  have hsource := hmetadata.dictGet_whole (k := "source") rfl
  have hstep := hmetadata.dictGet_whole (k := "step") rfl
  have hgraph := hmetadata.dictGet_whole (k := "graph_id") rfl
  have hassistant := hmetadata.dictGet_whole (k := "assistant_id") rfl
  have howner := hmetadata.dictGet_whole (k := "owner") rfl
  have huser := hmetadata.dictGet_whole (k := "user_id") rfl
  simp only [shapeCheckpointMeta, hts, hsource, hstep, hgraph, hassistant, howner, huser]

/-! ### All rows -/

/-- **Content does not leave for the warehouse**: runs, threads, messages and checkpoints that
differ only in content have the same rows. -/
theorem shape_eq_of_same {r r' : Run} (hr : AlikeRun r r') {t t' : Thread} (ht : AlikeThread t t')
    {messages messages' : Option Json}
    (hm : Option.Rel (Policy.items .message).Same messages messages')
    {c c' : Checkpoint} (hc : AlikeCheckpoint c c') :
    shapeRun r = shapeRun r' ∧ shapeThread t = shapeThread t' ∧
      (∀ threadId, explodeMessages threadId messages = explodeMessages threadId messages') ∧
        shapeCheckpointMeta c = shapeCheckpointMeta c' :=
  ⟨hr.shapeRun_eq, ht.shapeThread_eq, explodeMessages_eq hm, hc.shapeCheckpointMeta_eq⟩

/-- A run that asks for something. -/
def runAsking (text : String) : Run where
  runId := 1
  threadId := 1
  assistantId := 1
  kwargs := .obj [("input", .str text), ("config", .obj [("configurable",
    .obj [("main_agent_model", .str "m"), ("note", .str text)])])]

/-- A thread with a document and one message. -/
def threadWith (text : String) : Thread where
  threadId := 1
  values := some (.obj [("files", .obj [("/cv.md", .str text)]), ("messages", .arr [.str text])])

/-- A message of the agent that calls a tool. -/
def messageCalling (text : String) : Json :=
  .obj [("type", .str "ai"), ("content", .arr [.obj [("text", .str text)]]),
    ("tool_calls", .arr [.obj [("name", .str "read"), ("args", .str text)]])]

/-- A checkpoint with a note of the client. -/
def checkpointNoting (text : String) : Checkpoint where
  threadId := 1
  checkpointId := 1
  checkpoint := .obj [("channel_values", .str text)]
  metadata := .obj [("note", .str text)]

/-- Two users with different documents. -/
theorem shape_eq_documents :
    shapeRun (runAsking "mine") = shapeRun (runAsking "hers") ∧
      shapeThread (threadWith "mine") = shapeThread (threadWith "hers") ∧
      (∀ threadId, explodeMessages threadId (some (.arr [messageCalling "mine"])) =
        explodeMessages threadId (some (.arr [messageCalling "hers"]))) ∧
      shapeCheckpointMeta (checkpointNoting "mine") =
        shapeCheckpointMeta (checkpointNoting "hers") := by
  have hconfigurable := Policy.same_lookup (p := fun k =>
    if k ∈ ["main_agent_model", "subagent_model"] then .whole else .nothing)
    (.cons ⟨rfl, rfl⟩ (.cons ⟨rfl, trivial⟩ .nil) : List.Forall₂ _
      [("main_agent_model", Json.str "m"), ("note", .str "mine")]
      [("main_agent_model", Json.str "m"), ("note", .str "hers")])
  have hr : AlikeRun (runAsking "mine") (runAsking "hers") :=
    ⟨rfl, .refl _ _, .inr ⟨_, _, rfl, rfl, Policy.same_lookup (.cons ⟨rfl, trivial⟩
      (.cons ⟨rfl, .inr ⟨_, _, rfl, rfl, Policy.same_lookup
        (.cons ⟨rfl, .inr ⟨_, _, rfl, rfl, hconfigurable⟩⟩ .nil)⟩⟩ .nil))⟩⟩
  have ht : AlikeThread (threadWith "mine") (threadWith "hers") :=
    ⟨rfl, .refl _ _, .inr ⟨_, _, rfl, rfl, Policy.same_lookup
      (.cons ⟨rfl, .inr (.inr ⟨_, _, rfl, rfl, rfl⟩)⟩
        (.cons ⟨rfl, .inr (.inl ⟨_, _, rfl, rfl, rfl⟩)⟩ .nil))⟩, rfl⟩
  have hcall : Policy.toolCall.Same (.obj [("name", .str "read"), ("args", .str "mine")])
      (.obj [("name", .str "read"), ("args", .str "hers")]) :=
    .inr (.inr ⟨_, _, rfl, rfl, Policy.same_lookup
      (.cons ⟨rfl, rfl⟩ (.cons ⟨rfl, trivial⟩ .nil))⟩)
  have hm : Policy.message.Same (messageCalling "mine") (messageCalling "hers") :=
    .inr (.inr ⟨_, _, rfl, rfl, Policy.same_lookup (.cons ⟨rfl, rfl⟩ (.cons ⟨rfl, rfl⟩
      (.cons ⟨rfl, .inr ⟨_, _, rfl, rfl, .cons hcall .nil⟩⟩ .nil)))⟩)
  have hc : AlikeCheckpoint (checkpointNoting "mine") (checkpointNoting "hers") :=
    ⟨rfl, rfl, .inr ⟨_, _, rfl, rfl, Policy.same_lookup (.cons ⟨rfl, trivial⟩ .nil)⟩⟩
  exact shape_eq_of_same hr ht (.some (.inr ⟨_, _, rfl, rfl, .cons hm .nil⟩)) hc

end NextRole
