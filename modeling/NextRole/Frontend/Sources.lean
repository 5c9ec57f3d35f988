import NextRole.Frontend.JavaScript
import NextRole.Frontend.ToolCalls
import NextRole.Lib.Replacement

/-!
# The sources of a search

`app/utils/sources.ts` reads the output of a search tool, which is JSON, a dictionary as Python
prints it, or Markdown, and lists each url once.  What `JSON.parse` makes of the text of a number is
a parameter.

## Main definitions

* `tryParsePythonish` — JSON, or what is JSON when quotes and words are replaced.
* `extractFromJsonShape` — the entries of `results`.
* `parseFromString` — the entries of a text.
* `extractSources`, `extractSourcesFromToolCalls` — the sources of messages and of tool calls.
-/

namespace NextRole

/-- A result with what is shown of it. -/
structure SourceEntry where
  title : String
  url : String
  deriving DecidableEq

structure Source where
  id : String
  title : String
  url : String
  toolCallId : String
  deriving DecidableEq

/-- `SEARCH_TOOL_NAMES`. -/
def searchToolNames : List String := ["tavily_search", "web_search"]

/-! ### Texts -/

/-- The characters of `**URL:**`, the white space behind it, and a captured url. -/
def urlPattern : Pattern :=
  ['*', '*', 'U', 'R', 'L', ':', '*', '*'].map PatternItem.char ++
    [.run jsSpace 1 false false, .run (fun c => !jsSpace c) 1 false true]

/-- `MARKDOWN_BLOCK`: a heading, and a url in the line behind it. -/
def markdownBlock : Pattern :=
  [.lineStart, .char '#', .char '#', .run jsSpace 1 false false,
    .run (fun c => !jsLineEnd c) 1 true true, .run jsSpace 0 false false, .char '\n'] ++ urlPattern

/-- Single quotes become double ones. -/
def doubleQuote (c : Char) : Char := if c = '\'' then '"' else c

/-- The words of Python become those of JSON. -/
def replaceWords (cs : List Char) : List Char :=
  replaceWord ['N', 'o', 'n', 'e'] ['n', 'u', 'l', 'l'] false 0
    (replaceWord ['F', 'a', 'l', 's', 'e'] ['f', 'a', 'l', 's', 'e'] false 0
      (replaceWord ['T', 'r', 'u', 'e'] ['t', 'r', 'u', 'e'] false 0 cs))

/-- `tryParsePythonish`; what cannot be read is null. -/
def tryParsePythonish (number : List Char → Rat) (raw : List Char) : Json :=
  match Json.parse number raw with
  | some v => v
  | none => (Json.parse number (replaceWords (raw.map doubleQuote))).getD .null

/-! ### Entries -/

/-- A property of an object: of fields with one name `JSON.parse` keeps the last. -/
def lastField (fields : List (String × Json)) (name : String) : Option Json :=
  fields.reverse.lookup name

/-- What is pushed for an item of `results`. -/
def entryOfItem (item : Json) : Option SourceEntry :=
  match item with
  | .obj fields =>
    let url := match lastField fields "url" with
      | some (.str url) => url
      | _ => ""
    let title := match lastField fields "title" with
      | some (.str title) => title
      | _ => url
    if url = "" then none else some { title := if title = "" then url else title, url }
  | _ => none

/-- `extractFromJsonShape`. -/
def extractFromJsonShape (data : Json) : List SourceEntry :=
  match data with
  | .obj fields =>
    match lastField fields "results" with
    | some (.arr results) => results.filterMap entryOfItem
    | _ => []
  | _ => []

/-- What is captured, without white space at its ends. -/
def trimCaptured (cs : List Char) : String := jsTrim (String.ofList cs)

/-- The headings with the urls behind them, or else the urls. -/
def fromMarkdown (raw : List Char) : List SourceEntry :=
  let out := (matchAll markdownBlock none 0 raw).filterMap fun captured =>
    match captured with
    | [title, url] => some { title := trimCaptured title, url := trimCaptured url }
    | _ => none
  if out.length > 0 then out
  else
    (matchAll urlPattern none 0 raw).filterMap fun captured =>
      match captured with
      | [url] => some { title := trimCaptured url, url := trimCaptured url }
      | _ => none

/-- `parseFromString`. -/
def parseFromString (number : List Char → Rat) (raw : String) : List SourceEntry :=
  let trimmed := (jsTrim raw).toList
  let fromJson :=
    if trimmed.head? = some '\x7b' || trimmed.head? = some '[' then
      let parsed := tryParsePythonish number trimmed
      if jsTruthy (some parsed) then extractFromJsonShape parsed else []
    else []
  if trimmed = [] then []
  else if fromJson.length > 0 then fromJson
  else fromMarkdown raw.toList

/-! ### Sources -/

/-- The search calls of messages, with their names. -/
def searchToolCalls (messages : List StreamMessage) : Dict String String :=
  messages.foldl (fun calls message =>
    match message.body with
    | .ai toolCalls _ =>
      toolCalls.foldl (fun calls call =>
        if call.id = "" || call.name = "" then calls
        else if searchToolNames.contains call.name then calls.set call.id call.name
        else calls) calls
    | _ => calls) {}

/-- The sources of a call's entries, each with its index. -/
def sourcesOf (toolCallId : String) (parsed : List SourceEntry) : List Source :=
  parsed.mapIdx fun idx entry =>
    { id := toolCallId ++ ":" ++ toString idx, title := entry.title, url := entry.url,
      toolCallId := toolCallId }

/-- The loop over entries: a source whose url was seen is left out. -/
def pushSources (state : List Source × List String) (toolCallId : String)
    (parsed : List SourceEntry) : List Source × List String :=
  (sourcesOf toolCallId parsed).foldl (List.firstsStep Source.url) state

/-- `extractSources`. -/
def extractSources (number : List Char → Rat) (messages : List StreamMessage) : List Source :=
  let calls := searchToolCalls messages
  (messages.foldl (fun state message =>
    match message.body with
    | .tool id =>
      if id = "" || (calls.get? id).isNone then state
      else pushSources state id (parseFromString number message.text)
    | _ => state) ([], [])).1

/-- `extractSourcesFromToolCalls`. -/
def extractSourcesFromToolCalls (number : List Char → Rat) (toolCalls : List AssembledToolCall) :
    List Source :=
  (toolCalls.foldl (fun state tc =>
    if !searchToolNames.contains tc.name || tc.status ≠ .finished then state
    else
      pushSources state tc.id
        (match tc.output with
          | .str output => parseFromString number output
          | output => extractFromJsonShape output)) ([], [])).1

end NextRole
