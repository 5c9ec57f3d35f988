import NextRole.Frontend.Sources
import NextRole.Lib.Firsts
import NextRole.PythonText

/-!
# Search sources are read back

The sources of a search are the urls of its results, each once and with the title of the first
result that has it.  What `json.dumps` writes is always read back.  What `str` writes is read back
where the quotes and the words that are replaced are those of Python alone; results without a url
are left out, and an empty title is as good as none.

## Main definitions

* `SearchResult`, `Rendering` — a result, and how the results were written.
* `StrKeeps` — the strings of results that survive `str`.
* `SourcesRead` — the sources of messages are those of their results.

## Main results

* `parse_pyStr` — what is parsed of a text that `str` wrote.
* `parseFromString_text` — the entries of a rendering are those of its results.
* `sourcesRead` — **search sources are read back from both renderings**.
* `not_sourcesRead` — an empty title is not shown.
-/

namespace NextRole

open Json

variable {py : PyText} {number : List Char → Rat}

/-! ### Results -/

/-- A result of a search: a dictionary with a url, and perhaps with a title. -/
structure SearchResult where
  fields : List (String × Json)
  nodup : (fields.map Prod.fst).Nodup
  url : String
  title : Option String
  hasUrl : ("url", .str url) ∈ fields
  hasTitle : ∀ v, ("title", v) ∈ fields → v = title.elim .null .str
  titled : ∀ t ∈ title, ("title", .str t) ∈ fields

/-- `{'results': [...]}`. -/
def dataOf (results : List SearchResult) : Json :=
  .obj [("results", .arr (results.map fun r => .obj r.fields))]

/-- How results were written. -/
inductive Rendering
  | dumps (ensureAscii : Bool)
  | str
  deriving DecidableEq

def Rendering.text (py : PyText) (rendering : Rendering) (v : Json) : String :=
  match rendering with
  | .dumps ensureAscii => jsonDumps py ensureAscii v
  | .str => pyStr py v

/-- What is shown of a result, if it has a url: an empty title is as good as none. -/
def shownEntry (r : SearchResult) : Option SourceEntry :=
  if r.url = "" then none
  else some { title := (r.title.filter fun t => t ≠ "").getD r.url, url := r.url }

/-- What a result says: its url, with its title or with the url. -/
def statedEntry (r : SearchResult) : Option SourceEntry :=
  some { title := r.title.getD r.url, url := r.url }

/-! ### Strings that survive -/

/-- A character that `repr` writes with `\x` or `\U`. -/
def isHexEscaped (py : PyText) (c : Char) : Bool :=
  (c.toNat < 0x20 && c ≠ '\n' && c ≠ '\r' && c ≠ '\t') || c.toNat = 0x7f ||
    (0x7f < c.toNat && !py.printable c && (c.toNat < 0x100 || 0x10000 ≤ c.toNat))

/-- A string without quotes and without characters that JSON cannot escape so. -/
def Unquoted (py : PyText) (s : String) : Prop :=
  ∀ c ∈ s.toList, c ≠ '\'' ∧ c ≠ '"' ∧ isHexEscaped py c = false

instance (py : PyText) (s : String) : Decidable (Unquoted py s) :=
  decidable_of_iff (s.toList.all fun c => c ≠ '\'' && (c ≠ '"' && !isHexEscaped py c))
    (by simp [Unquoted])

/-- What `repr` writes between the quotes of a string that has none. -/
def reprBody (py : PyText) (s : String) : List Char := s.toList.flatMap (reprEscape py '\'')

/-- No word of a string is taken for one of Python. -/
def NoWords (py : PyText) (s : String) : Prop := replaceWords (reprBody py s) = reprBody py s

instance (py : PyText) (s : String) : Decidable (NoWords py s) :=
  inferInstanceAs (Decidable (replaceWords (reprBody py s) = reprBody py s))

/-- The results whose texts survive `str`. -/
structure StrKeeps (py : PyText) (results : List SearchResult) : Prop where
  strings : ∀ r ∈ results, AllFields (Unquoted py) r.fields
  urls : ∀ r ∈ results, NoWords py r.url
  titles : ∀ r ∈ results, ∀ t ∈ r.title, NoWords py t

/-- The renderings that are read back. -/
def Rendering.Keeps (py : PyText) (rendering : Rendering) (results : List SearchResult) : Prop :=
  match rendering with
  | .dumps _ => True
  | .str => StrKeeps py results

/-- The results of one search call. -/
structure SearchAnswer where
  toolCallId : String
  name : String
  isSearch : name ∈ searchToolNames
  results : List SearchResult
  rendering : Rendering

/-- The messages of tools that answer search calls, with their texts. -/
def searchAnswers (messages : List StreamMessage) : List (String × String) :=
  messages.filterMap fun message =>
    match message.body with
    | .tool id =>
      if id = "" || ((searchToolCalls messages).get? id).isNone then none
      else some (id, message.text)
    | _ => none

/-- A call as the tools channel has it when it has finished. -/
def SearchAnswer.finishedCall (a : SearchAnswer) : AssembledToolCall where
  id := a.toolCallId
  name := a.name
  output := dataOf a.results
  status := .finished

/-- The sources of messages are those of the results: the distinct urls in the order of their first
appearance, with what `entry` gives of that first result; and they are the same as those of the
parsed outputs. -/
structure SourcesRead (entry : SearchResult → Option SourceEntry) (number : List Char → Rat)
    (messages : List StreamMessage) (answers : List SearchAnswer) : Prop where
  listed : (extractSources number messages).map (fun s => SourceEntry.mk s.title s.url) =
    List.firsts SourceEntry.url [] (answers.flatMap fun a => a.results.filterMap entry)
  same : extractSources number messages =
    extractSourcesFromToolCalls number (answers.map SearchAnswer.finishedCall)

/-! ### The words of Python -/

theorem replaces_true : Replaces ['T', 'r', 'u', 'e'] ['t', 'r', 'u', 'e'] where
  ne_nil := by decide
  plain := by simp [isPlain]
  other := by simp [isPlain]
  head := by simp [simpleEscape]

theorem replaces_false : Replaces ['F', 'a', 'l', 's', 'e'] ['f', 'a', 'l', 's', 'e'] where
  ne_nil := by decide
  plain := by simp [isPlain]
  other := by simp [isPlain]
  head := by simp [simpleEscape]

theorem replaces_none : Replaces ['N', 'o', 'n', 'e'] ['n', 'u', 'l', 'l'] where
  ne_nil := by decide
  plain := by simp [isPlain]
  other := by simp [isPlain]
  head := by simp [simpleEscape]

theorem replaceWords_append_cons {c : Char} (hc : isAsciiWord c = false) (x y : List Char) :
    replaceWords (x ++ c :: y) = replaceWords x ++ c :: replaceWords y := by
  unfold replaceWords
  rw [replaceWord_append_cons replaces_true.ne_nil hc false x y (Nat.zero_le _),
    replaceWord_append_cons replaces_false.ne_nil hc false _ _ (Nat.zero_le _),
    replaceWord_append_cons replaces_none.ne_nil hc false _ _ (Nat.zero_le _)]

@[simp] theorem replaceWords_nil : replaceWords [] = [] := rfl

theorem replaceWords_of_notMem {x : List Char} (ht : 'T' ∉ x) (hf : 'F' ∉ x) (hn : 'N' ∉ x) :
    replaceWords x = x := by
  unfold replaceWords
  rw [replaceWord_of_notMem rfl ht, replaceWord_of_notMem rfl hf, replaceWord_of_notMem rfl hn]

/-- What is read between quotes is read still: as before, or with a word of JSON in it. -/
theorem exists_body_replaceWords {x cs : List Char} (h : Body x cs) :
    ∃ ds, Body (replaceWords x) ds ∧ (ds = cs ∨ ['t', 'r', 'u', 'e'] <:+: ds ∨
      ['f', 'a', 'l', 's', 'e'] <:+: ds ∨ ['n', 'u', 'l', 'l'] <:+: ds) := by
  obtain ⟨ds₁, hds₁, h₁⟩ := exists_body_replaceWord replaces_true h false
  obtain ⟨ds₂, hds₂, h₂⟩ := exists_body_replaceWord replaces_false hds₁ false
  obtain ⟨ds₃, hds₃, h₃⟩ := exists_body_replaceWord replaces_none hds₂ false
  refine ⟨ds₃, hds₃, ?_⟩
  rcases h₃ with rfl | h₃
  · rcases h₂ with rfl | h₂
    · exact h₁.imp_right .inl
    · exact .inr (.inr (.inl h₂))
  · exact .inr (.inr (.inr h₃))

/-! ### Strings -/

/-- An unquoted character is read back as `repr` writes it. -/
theorem body_reprEscape {c : Char} (hquote : c ≠ '"') (hsingle : c ≠ '\'')
    (hc : isHexEscaped py c = false) : Body (reprEscape py '\'' c) [c] := by
  simp only [isHexEscaped, Bool.or_eq_false_iff, Bool.and_eq_false_iff, decide_eq_false_iff_not,
    Bool.not_eq_false', not_not] at hc
  unfold reprEscape
  split_ifs with hescaped hnl hcr htab hcontrol hplain hsmall hlt
  · have hback : c = '\\' := by
      rw [Bool.or_eq_true, decide_eq_true_eq, decide_eq_true_eq] at hescaped
      exact hescaped.resolve_left hsingle
    subst hback
    exact .escape rfl .nil
  · subst hnl
    exact .escape rfl .nil
  · subst hcr
    exact .escape rfl .nil
  · subst htab
    exact .escape rfl .nil
  · exfalso
    rw [Bool.or_eq_true, decide_eq_true_eq, decide_eq_true_eq] at hcontrol
    rcases hcontrol with hcontrol | hcontrol
    · rcases hc.1.1 with ((hlt | h) | h) | h
      · exact hlt hcontrol
      · exact hnl h
      · exact hcr h
      · exact htab h
    · exact hc.1.2 hcontrol
  · refine .plain ?_ .nil
    rw [Bool.or_eq_true, decide_eq_true_eq, decide_eq_true_eq, not_or] at hcontrol hescaped
    simp only [isPlain, Bool.and_eq_true, decide_eq_true_eq]
    exact ⟨⟨Nat.le_of_not_lt hcontrol.1, hquote⟩, hescaped.2⟩
  · exfalso
    rw [Bool.or_eq_true, decide_eq_true_eq, not_or] at hplain
    rcases hc.2 with (hle | hprintable) | hlarge
    · have hne := hc.1.2
      omega
    · exact hplain.2 hprintable
    · exact hlarge.1 hsmall
  · exact body_unicodeEscape hlt
  · exfalso
    rw [Bool.or_eq_true, decide_eq_true_eq, not_or] at hplain
    rcases hc.2 with (hle | hprintable) | hlarge
    · have hne := hc.1.2
      omega
    · exact hplain.2 hprintable
    · exact hlarge.2 (Nat.le_of_not_lt hlt)

theorem Unquoted.body {s : String} (h : Unquoted py s) : Body (reprBody py s) s.toList :=
  body_flatMap fun c hc => body_reprEscape (h c hc).2.1 (h c hc).1 (h c hc).2.2

/-- What the text of a string is read as when its words were replaced. -/
def coerced (py : PyText) (s : String) : String :=
  ((readString none (replaceWords (reprBody py s) ++ ['"'])).map fun r => String.ofList r.1).getD s

theorem coerced_eq {s : String} {ds : List Char} (h : Body (replaceWords (reprBody py s)) ds) :
    coerced py s = String.ofList ds := by
  rw [coerced, readString_body h []]
  rfl

theorem Unquoted.coerced_spec {s : String} (h : Unquoted py s) :
    Body (replaceWords (reprBody py s)) (coerced py s).toList ∧
      (coerced py s = s ∨ ['t', 'r', 'u', 'e'] <:+: (coerced py s).toList ∨
        ['f', 'a', 'l', 's', 'e'] <:+: (coerced py s).toList ∨
          ['n', 'u', 'l', 'l'] <:+: (coerced py s).toList) := by
  obtain ⟨ds, hds, hor⟩ := exists_body_replaceWords h.body
  rw [coerced_eq hds, String.toList_ofList]
  refine ⟨hds, hor.imp_left fun heq => ?_⟩
  rw [heq, String.ofList_toList]

theorem Unquoted.coerced_of_noWords {s : String} (h : Unquoted py s) (hs : NoWords py s) :
    coerced py s = s := by
  have hbody := h.body
  rw [← hs] at hbody
  rw [coerced_eq hbody, String.ofList_toList]

theorem Unquoted.eq_of_coerced {s name : String} (h : Unquoted py s) (hs : coerced py s = name)
    (hname : ¬ ['t', 'r', 'u', 'e'] <:+: name.toList ∧
      ¬ ['f', 'a', 'l', 's', 'e'] <:+: name.toList ∧ ¬ ['n', 'u', 'l', 'l'] <:+: name.toList) :
    s = name := by
  obtain ⟨-, hor⟩ := h.coerced_spec
  rw [hs] at hor
  rcases hor with heq | htrue | hfalse | hnull
  · exact heq.symm
  · exact absurd htrue hname.1
  · exact absurd hfalse hname.2.1
  · exact absurd hnull hname.2.2

/-! ### Values -/

/-- The texts of Python's values when quotes and words were replaced. -/
def coercedWriter (py : PyText) : Writer where
  null := ['n', 'u', 'l', 'l']
  yes := ['t', 'r', 'u', 'e']
  no := ['f', 'a', 'l', 's', 'e']
  number := py.number
  string s := '"' :: replaceWords (reprBody py s) ++ ['"']

theorem reads_coercedWriter (py : PyText) :
    (coercedWriter py).Reads (Unquoted py) (coerced py) where
  null := rfl
  yes := rfl
  no := rfl
  number := py.isNumber_number
  string _ hs := ⟨_, rfl, hs.coerced_spec.1⟩

theorem isAsciiWord_of_isDivider {c : Char} (hc : isDivider c = true) :
    isAsciiWord c = false ∧ doubleQuote c = c := by
  simp only [isDivider, Bool.or_eq_true, decide_eq_true_eq] at hc
  rcases hc with (((((rfl | rfl) | rfl) | rfl) | rfl) | rfl) | rfl <;> decide

theorem map_doubleQuote {cs : List Char} (h : '\'' ∉ cs) : cs.map doubleQuote = cs := by
  refine (List.map_congr_left fun c hc => ?_).trans (List.map_id cs)
  refine if_neg fun heq => h ?_
  rwa [← heq]

theorem toNat_ofNat_or (n : ℕ) : (Char.ofNat n).toNat = n ∨ (Char.ofNat n).toNat = 0 := by
  unfold Char.ofNat
  split
  · exact .inl rfl
  · exact .inr rfl

theorem hexDigit_ne (d : ℕ) : '\'' ≠ hexDigit d := by
  intro heq
  have hnat : 39 = (hexDigit d).toNat := congrArg Char.toNat heq
  unfold hexDigit at hnat
  split at hnat
  · rcases toNat_ofNat_or (48 + d) with h | h
    · omega
    · omega
  · rcases toNat_ofNat_or (87 + d) with h | h
    · omega
    · omega

theorem notMem_reprBody {s : String} (h : Unquoted py s) : '\'' ∉ reprBody py s := by
  intro hmem
  obtain ⟨c, hc, hmem⟩ := List.mem_flatMap.mp hmem
  have hne := (h c hc).1.symm
  unfold reprEscape at hmem
  split_ifs at hmem <;> simp [hex2, hex4, unicodeEscape, hexDigit_ne, hne] at hmem

theorem pyRepr_eq {s : String} (h : Unquoted py s) :
    pyRepr py s = '\'' :: reprBody py s ++ ['\''] := by
  have hnot : '\'' ∉ s.toList := fun hmem => (h _ hmem).1 rfl
  have hquote : reprQuote s.toList = '\'' := by simp [reprQuote, hnot]
  rw [pyRepr, hquote, reprBody]

/-- What is parsed of Python's texts when quotes and words are replaced. -/
theorem through_strWriter (py : PyText) :
    (strWriter py).Through (fun cs => replaceWords (cs.map doubleQuote)) (coercedWriter py)
      (Unquoted py) where
  nil := rfl
  divider c hc x y := by
    obtain ⟨hword, hquote⟩ := isAsciiWord_of_isDivider hc
    rw [List.map_append, List.map_cons, hquote, replaceWords_append_cons hword]
  null := rfl
  yes := rfl
  no := rfl
  number q := by
    have hall := (isNumber_spec (py.isNumber_number q)).1
    have hnot : ∀ c, isNumberChar c = false → c ∉ py.number q := by
      intro c hc hmem
      rw [hall c hmem] at hc
      cases hc
    rw [show (strWriter py).number q = py.number q from rfl, map_doubleQuote (hnot _ (by decide))]
    exact replaceWords_of_notMem (hnot _ (by decide)) (hnot _ (by decide)) (hnot _ (by decide))
  string s hs := by
    rw [show (strWriter py).string s = pyRepr py s from rfl, pyRepr_eq hs]
    have hquote := replaceWords_append_cons (c := '"') (by decide) [] (reprBody py s ++ ['"'])
    have hclose := replaceWords_append_cons (c := '"') (by decide) (reprBody py s) []
    rw [replaceWords_nil, List.nil_append, List.nil_append] at hquote
    rw [replaceWords_nil] at hclose
    have hdouble : (reprBody py s).map doubleQuote = reprBody py s :=
      map_doubleQuote (notMem_reprBody hs)
    have hsingle : doubleQuote '\'' = '"' := rfl
    rw [List.cons_append, List.map_cons, List.map_append, hdouble, List.map_cons, List.map_nil,
      hsingle, hquote, hclose]
    rfl

/-! ### Texts of objects -/

theorem exists_layoutFields (w : Writer) (kvs : List (String × Json)) (divider : List Char) :
    ∃ x, layoutFields w divider kvs = x ++ ['\x7d'] := by
  induction kvs generalizing divider with
  | nil => exact ⟨[], rfl⟩
  | cons kv kvs ih =>
    obtain ⟨x, hx⟩ := ih [',', ' ']
    exact ⟨divider ++ (w.string kv.1 ++ (':' :: ' ' :: (layout w kv.2 ++ x))), by
      simp [layoutFields, hx]⟩

theorem jsTrim_layout (w : Writer) (kvs : List (String × Json)) :
    jsTrim (String.ofList (layout w (.obj kvs))) = String.ofList (layout w (.obj kvs)) := by
  obtain ⟨x, hx⟩ := exists_layoutFields w kvs []
  have hlast : layout w (.obj kvs) = ('\x7b' :: x) ++ ['\x7d'] := congrArg (List.cons '\x7b') hx
  have hfirst : (layout w (.obj kvs)).dropWhile jsSpace = layout w (.obj kvs) :=
    List.dropWhile_cons_of_neg (by decide)
  rw [jsTrim, String.toList_ofList, hfirst, hlast]
  rw [List.rdropWhile_concat_neg _ _ _ (by decide)]

/-- What is parsed of a text of `json.dumps`. -/
theorem tryParsePythonish_dumps (ensureAscii : Bool) (v : Json) :
    tryParsePythonish number (layout (dumpsWriter py ensureAscii) v) =
      mapLeaves id (fun q => number (py.number q)) v := by
  unfold tryParsePythonish
  rw [parse_layout (reads_dumpsWriter py ensureAscii) number (allStrings_true v)]
  rfl

/-- **What is parsed of a text of `str`**: `JSON.parse` reads no single quote, and then it reads
what the replacements made. -/
theorem parse_pyStr {k : String} {v : Json} {kvs : List (String × Json)}
    (h : AllFields (Unquoted py) ((k, v) :: kvs)) :
    tryParsePythonish number (layout (strWriter py) (.obj ((k, v) :: kvs))) =
      mapLeaves (coerced py) (fun q => number (py.number q)) (.obj ((k, v) :: kvs)) := by
  have hfail : Json.parse number (layout (strWriter py) (.obj ((k, v) :: kvs))) = none := by
    rw [layout, layoutFields, List.nil_append, show (strWriter py).string k = pyRepr py k from rfl,
      pyRepr_eq h.1]
    rfl
  have hall : AllStrings (Unquoted py) (.obj ((k, v) :: kvs)) := h
  have hreplaced := layout_through (through_strWriter py) _ hall
  unfold tryParsePythonish
  rw [hfail]
  dsimp only at hreplaced ⊢
  rw [hreplaced, parse_layout (reads_coercedWriter py) number hall]
  rfl

/-! ### Entries -/

/-- The names and the texts of a result stay, and no other name becomes one of them. -/
structure SearchResult.Kept (f : String → String) (r : SearchResult) : Prop where
  names : ∀ name ∈ ["url", "title"], f name = name ∧ ∀ kv ∈ r.fields, f kv.1 = name → kv.1 = name
  url : f r.url = r.url
  title : ∀ t ∈ r.title, f t = t

variable {f : String → String} {g : Rat → Rat}

theorem mapFields_eq_map (kvs : List (String × Json)) :
    mapFields f g kvs = kvs.map fun kv => (f kv.1, mapLeaves f g kv.2) := by
  induction kvs with
  | nil => rfl
  | cons kv kvs ih =>
    rw [mapFields, ih]
    rfl

theorem mapItems_eq_map (vs : List Json) : mapItems f g vs = vs.map (mapLeaves f g) := by
  induction vs with
  | nil => rfl
  | cons v vs ih =>
    rw [mapItems, ih]
    rfl

theorem lookup_mapped {name : String} (hname : f name = name) {l : List (String × Json)}
    (h : ∀ kv ∈ l, f kv.1 = name → kv.1 = name) :
    (l.map fun kv => (f kv.1, mapLeaves f g kv.2)).lookup name =
      (l.lookup name).map (mapLeaves f g) := by
  induction l with
  | nil => rfl
  | cons kv l ih =>
    obtain ⟨k, v⟩ := kv
    rw [List.forall_mem_cons] at h
    rw [List.map_cons, List.lookup_cons, List.lookup_cons, ih h.2]
    by_cases hk : k = name
    · subst hk
      simp [hname]
    · have hne : (name == k) = false := by simpa using Ne.symm hk
      have hne' : (name == f k) = false := by
        have hfk : f k ≠ name := fun heq => hk (h.1 heq)
        simpa using hfk.symm
      rw [hne, hne']

theorem lastField_mapFields {name : String} (hname : f name = name)
    {kvs : List (String × Json)} (h : ∀ kv ∈ kvs, f kv.1 = name → kv.1 = name) :
    lastField (mapFields f g kvs) name = (lastField kvs name).map (mapLeaves f g) := by
  unfold lastField
  rw [mapFields_eq_map, ← List.map_reverse]
  apply lookup_mapped hname
  intro kv hkv
  exact h kv (List.mem_reverse.mp hkv)

theorem SearchResult.lastField_eq_some (r : SearchResult) {name : String} {v : Json} :
    lastField r.fields name = some v ↔ (name, v) ∈ r.fields := by
  have hnodup : (r.fields.reverse.map Prod.fst).Nodup := by
    rw [List.map_reverse]
    exact List.nodup_reverse.mpr r.nodup
  unfold lastField
  rw [Dict.lookup_eq_some_iff hnodup, List.mem_reverse]

theorem SearchResult.lastField_url (r : SearchResult) :
    lastField r.fields "url" = some (.str r.url) := r.lastField_eq_some.mpr r.hasUrl

/-- The title of a result, if it is a string. -/
theorem SearchResult.lastField_title (r : SearchResult) :
    lastField r.fields "title" = r.title.map .str ∨
      r.title = none ∧ lastField r.fields "title" = some .null := by
  cases htitle : r.title with
  | some t => exact .inl (r.lastField_eq_some.mpr (r.titled t htitle))
  | none =>
    cases hfield : lastField r.fields "title" with
    | none => exact .inl rfl
    | some v =>
      have hv := r.hasTitle v (r.lastField_eq_some.mp hfield)
      rw [htitle] at hv
      exact .inr ⟨rfl, congrArg some hv⟩

/-- What is pushed for a result. -/
theorem entryOfItem_mapLeaves {r : SearchResult} (h : r.Kept f) :
    entryOfItem (mapLeaves f g (.obj r.fields)) = shownEntry r := by
  have hurl := h.names "url" (by decide)
  have htitle := h.names "title" (by decide)
  rw [mapLeaves, entryOfItem]
  rw [lastField_mapFields hurl.1 hurl.2, lastField_mapFields htitle.1 htitle.2, r.lastField_url]
  simp only [Option.map_some, mapLeaves, h.url]
  unfold shownEntry
  split
  · rfl
  · next hne =>
    rcases r.lastField_title with hfield | ⟨hnone, hfield⟩
    · rw [hfield]
      cases ht : r.title with
      | none => simp
      | some t =>
        have hkept := h.title t ht
        by_cases hempty : t = ""
        · subst hempty
          simp [mapLeaves, hkept, Option.filter]
        · simp [mapLeaves, hkept, hempty, Option.filter]
    · rw [hfield, hnone]
      simp [mapLeaves, hne]

/-- **The entries of the results**, when the names and their texts stay. -/
theorem extractFromJsonShape_mapLeaves {results : List SearchResult}
    (hresults : f "results" = "results") (h : ∀ r ∈ results, r.Kept f) :
    extractFromJsonShape (mapLeaves f g (dataOf results)) = results.filterMap shownEntry := by
  have hlast : extractFromJsonShape (mapLeaves f g (dataOf results)) =
      ((results.map fun r => Json.obj r.fields).map (mapLeaves f g)).filterMap entryOfItem := by
    rw [dataOf, mapLeaves, mapFields, mapFields, mapLeaves, mapItems_eq_map, hresults]
    rfl
  rw [hlast, List.filterMap_map, List.filterMap_map]
  apply List.filterMap_congr
  intro r hr
  exact entryOfItem_mapLeaves (h r hr)

theorem SearchResult.kept_id (r : SearchResult) : r.Kept id where
  names _ _ := ⟨rfl, fun _ _ h => h⟩
  url := rfl
  title _ _ := rfl

/-! ### Renderings -/

theorem allFields_of_mem {P : String → Prop} {kvs : List (String × Json)} (h : AllFields P kvs)
    {k : String} {v : Json} (hkv : (k, v) ∈ kvs) : P k ∧ AllStrings P v := by
  induction kvs with
  | nil => cases hkv
  | cons kv kvs ih =>
    obtain ⟨k', v'⟩ := kv
    cases hkv with
    | head => exact ⟨h.1, h.2.1⟩
    | tail _ hmem => exact ih h.2.2 hmem

theorem allItems_of_forall {P : String → Prop} {vs : List Json} (h : ∀ v ∈ vs, AllStrings P v) :
    AllItems P vs := by
  induction vs with
  | nil => trivial
  | cons v vs ih =>
    rw [List.forall_mem_cons] at h
    exact ⟨h.1, ih h.2⟩

/-- A string of small letters is unquoted, and is written as it is. -/
theorem unquoted_of_lower (py : PyText) {s : String} (h : s.toList.all Char.isLower = true) :
    Unquoted py s ∧ reprBody py s = s.toList := by
  have hrange : ∀ c ∈ s.toList, 97 ≤ c.toNat ∧ c.toNat ≤ 122 := by
    intro c hc
    have hlower := List.all_eq_true.mp h c hc
    rw [Char.isLower, Bool.and_eq_true, decide_eq_true_eq, decide_eq_true_eq] at hlower
    exact hlower
  have hne : ∀ c ∈ s.toList, ∀ d : Char, d.toNat < 97 → c ≠ d := by
    rintro c hc d hd rfl
    have hc' := (hrange c hc).1
    omega
  have hescape : ∀ c ∈ s.toList, reprEscape py '\'' c = [c] := by
    intro c hc
    have hc' := hrange c hc
    unfold reprEscape
    rw [if_neg (by simp [hne c hc '\'' (by decide), hne c hc '\\' (by decide)]),
      if_neg (hne c hc '\n' (by decide)), if_neg (hne c hc '\r' (by decide)),
      if_neg (hne c hc '\t' (by decide)), if_neg (by simp; omega), if_pos (by simp; omega)]
  constructor
  · intro c hc
    refine ⟨hne c hc _ (by decide), hne c hc _ (by decide), ?_⟩
    have hc' := hrange c hc
    simp [isHexEscaped]
    omega
  · rw [reprBody, List.flatMap_congr hescape]
    exact List.flatMap_singleton' _

theorem coerced_name (py : PyText) {name : String} (h : name ∈ ["results", "url", "title"]) :
    Unquoted py name ∧ coerced py name = name := by
  have hall : ∀ name ∈ ["results", "url", "title"], name.toList.all Char.isLower = true ∧
      'T' ∉ name.toList ∧ 'F' ∉ name.toList ∧ 'N' ∉ name.toList := by decide
  obtain ⟨hlower, ht, hf, hn⟩ := hall name h
  obtain ⟨hunquoted, hbody⟩ := unquoted_of_lower py hlower
  rw [← hbody] at ht hf hn
  exact ⟨hunquoted, hunquoted.coerced_of_noWords (replaceWords_of_notMem ht hf hn)⟩

/-- The names of results stay when words are replaced. -/
theorem StrKeeps.kept {results : List SearchResult} (h : StrKeeps py results) :
    ∀ r ∈ results, r.Kept (coerced py) := by
  intro r hr
  have hfields := h.strings r hr
  have hnames : ∀ name ∈ ["url", "title"], ¬ ['t', 'r', 'u', 'e'] <:+: name.toList ∧
      ¬ ['f', 'a', 'l', 's', 'e'] <:+: name.toList ∧ ¬ ['n', 'u', 'l', 'l'] <:+: name.toList := by
    decide
  constructor
  · intro name hname
    refine ⟨(coerced_name py (List.mem_cons_of_mem _ hname)).2, fun kv hkv heq => ?_⟩
    exact (allFields_of_mem hfields hkv).1.eq_of_coerced heq (hnames name hname)
  · have hurl : Unquoted py r.url := (allFields_of_mem hfields r.hasUrl).2
    exact hurl.coerced_of_noWords (h.urls r hr)
  · intro t ht
    have htitle : Unquoted py t := (allFields_of_mem hfields (r.titled t ht)).2
    exact htitle.coerced_of_noWords (h.titles r hr t ht)

/-- A character of a pattern is in what it matches. -/
theorem matchItems_of_notMem {c : Char} {pattern : Pattern} (hc : .char c ∈ pattern)
    {cs : List Char} (hcs : c ∉ cs) (before : Option Char) :
    matchItems pattern before cs = none := by
  induction pattern generalizing before cs with
  | nil => cases hc
  | cons item items ih =>
    cases item with
    | lineStart =>
      have hitems : .char c ∈ items := by simpa using hc
      rw [matchItems, ih hitems hcs, ite_self]
    | char d =>
      cases cs with
      | nil => rfl
      | cons first cs =>
        rw [List.mem_cons, not_or] at hcs
        rw [matchItems]
        split
        · next heq =>
          rcases List.mem_cons.mp hc with hitem | hitems
          · cases hitem
            exact absurd heq.symm hcs.1
          · exact ih hitems hcs.2 _
        · rfl
    | run among atLeast isLazy captured =>
      have hitems : .char c ∈ items := by simpa using hc
      rw [matchItems, List.findSome?_eq_none_iff]
      intro n _
      rw [ih hitems fun hmem => hcs (List.mem_of_mem_drop hmem)]
      rfl

theorem matchAll_of_notMem {c : Char} {pattern : Pattern} (hc : .char c ∈ pattern)
    {cs : List Char} (hcs : c ∉ cs) : matchAll pattern none 0 cs = [] := by
  suffices h : ∀ before, matchAll pattern before 0 cs = [] from h none
  induction cs with
  | nil => exact fun _ => rfl
  | cons first cs ih =>
    intro before
    rw [matchAll, matchItems_of_notMem hc hcs]
    exact ih (fun hmem => hcs (List.mem_cons_of_mem _ hmem)) _

/-- **What is parsed of a rendering** is the results, with other texts in other fields. -/
theorem tryParsePythonish_text (number : List Char → Rat) {rendering : Rendering} {results : List SearchResult}
    (h : rendering.Keeps py results) :
    ∃ f g, tryParsePythonish number (rendering.text py (dataOf results)).toList =
      mapLeaves f g (dataOf results) ∧ f "results" = "results" ∧ ∀ r ∈ results, r.Kept f := by
  cases rendering with
  | dumps ensureAscii =>
    refine ⟨id, fun q => number (py.number q), ?_, rfl, fun r _ => r.kept_id⟩
    rw [Rendering.text, jsonDumps, String.toList_ofList]
    exact tryParsePythonish_dumps ensureAscii _
  | str =>
    have hunquoted : StrKeeps py results := h
    obtain ⟨hname, hkept⟩ := coerced_name py (List.mem_cons_self (a := "results"))
    have hitems : AllItems (Unquoted py) (results.map fun r => .obj r.fields) := by
      apply allItems_of_forall
      intro v hv
      obtain ⟨r, hr, rfl⟩ := List.mem_map.mp hv
      exact hunquoted.strings r hr
    refine ⟨coerced py, fun q => number (py.number q), ?_, hkept, hunquoted.kept⟩
    rw [Rendering.text, pyStr, String.toList_ofList]
    exact parse_pyStr ⟨hname, hitems, trivial⟩

theorem Rendering.exists_layout (py : PyText) (rendering : Rendering)
    (results : List SearchResult) : ∃ w kvs,
      rendering.text py (dataOf results) = String.ofList (layout w (.obj kvs)) := by
  cases rendering with
  | dumps ensureAscii => exact ⟨dumpsWriter py ensureAscii, _, rfl⟩
  | str => exact ⟨strWriter py, _, rfl⟩

/-- What `parseFromString` has of a rendering before it looks for headings. -/
theorem parseFromString_eq {rendering : Rendering} {results : List SearchResult}
    (h : rendering.Keeps py results) :
    parseFromString number (rendering.text py (dataOf results)) =
      if (results.filterMap shownEntry).length > 0 then results.filterMap shownEntry
      else fromMarkdown (rendering.text py (dataOf results)).toList := by
  obtain ⟨w, kvs, htext⟩ := rendering.exists_layout py results
  obtain ⟨f, g, hparsed, hname, hkept⟩ := tryParsePythonish_text number h
  have hentries := extractFromJsonShape_mapLeaves (g := g) hname hkept
  have htrim : jsTrim (rendering.text py (dataOf results)) =
      rendering.text py (dataOf results) := by
    rw [htext, jsTrim_layout]
  have htruthy : jsTruthy (some (mapLeaves f g (dataOf results))) = true := rfl
  have hhead : (rendering.text py (dataOf results)).toList.head? = some '\x7b' := by
    rw [htext, String.toList_ofList]
    rfl
  have hcons : (rendering.text py (dataOf results)).toList ≠ [] := by
    intro hnil
    rw [hnil] at hhead
    cases hhead
  unfold parseFromString
  simp only [htrim, hhead, hparsed, htruthy, if_true, decide_true, Bool.true_or, hentries]
  rw [if_neg hcons]

/-- There is no source in the texts of no results. -/
theorem parseFromString_nil (rendering : Rendering) :
    parseFromString number (rendering.text py (dataOf [])) = [] := by
  have hkeeps : rendering.Keeps py [] := by
    cases rendering with
    | dumps ensureAscii => trivial
    | str => exact ⟨nofun, nofun, nofun⟩
  -- no heading and no star is in the texts
  have hnot : '#' ∉ (rendering.text py (dataOf [])).toList ∧
      '*' ∉ (rendering.text py (dataOf [])).toList := by
    cases rendering with
    | dumps ensureAscii =>
      have htext : layout (dumpsWriter py ensureAscii) (dataOf []) =
          "\x7b\"results\": []\x7d".toList := by cases ensureAscii <;> rfl
      rw [Rendering.text, jsonDumps, String.toList_ofList, htext]
      decide
    | str =>
      have htext : layout (strWriter py) (dataOf []) = "\x7b'results': []\x7d".toList := rfl
      rw [Rendering.text, pyStr, String.toList_ofList, htext]
      decide
  have hmarkdown : fromMarkdown (rendering.text py (dataOf [])).toList = [] := by
    unfold fromMarkdown
    rw [matchAll_of_notMem (c := '#') (by simp [markdownBlock]) hnot.1,
      matchAll_of_notMem (c := '*') (by simp [urlPattern]) hnot.2]
    rfl
  rw [parseFromString_eq hkeeps, hmarkdown]
  rfl

/-- **The entries of a rendering are those of its results.** -/
theorem parseFromString_text {rendering : Rendering} {results : List SearchResult}
    (h : rendering.Keeps py results) (hurl : results = [] ∨ ∃ r ∈ results, r.url ≠ "") :
    parseFromString number (rendering.text py (dataOf results)) =
      results.filterMap shownEntry := by
  rcases hurl with rfl | ⟨r, hr, hne⟩
  · exact parseFromString_nil rendering
  · have hpos : 0 < (results.filterMap shownEntry).length := by
      apply List.length_pos_of_mem
      exact List.mem_filterMap.mpr ⟨r, hr, if_neg hne⟩
    rw [parseFromString_eq h, if_pos hpos]

/-! ### Sources -/

theorem sourcesOf_entries (toolCallId : String) (parsed : List SourceEntry) :
    (sourcesOf toolCallId parsed).map (fun s => SourceEntry.mk s.title s.url) = parsed := by
  unfold sourcesOf
  induction parsed using List.reverseRecOn with
  | nil => rfl
  | append_singleton parsed entry ih =>
    rw [List.mapIdx_append, List.map_append, ih]
    rfl

theorem foldl_pushSources (answers : List (String × List SourceEntry))
    (state : List Source × List String) :
    answers.foldl (fun state a => pushSources state a.1 a.2) state =
      (answers.flatMap fun a => sourcesOf a.1 a.2).foldl (List.firstsStep Source.url) state := by
  induction answers generalizing state with
  | nil => rfl
  | cons a answers ih =>
    rw [List.foldl_cons, ih, List.flatMap_cons, List.foldl_append]
    rfl

/-- The sources of messages are the first ones of the answers. -/
theorem extractSources_eq (number : List Char → Rat) (messages : List StreamMessage) :
    extractSources number messages = List.firsts Source.url []
      ((searchAnswers messages).flatMap fun a => sourcesOf a.1 (parseFromString number a.2)) := by
  have hloop : extractSources number messages =
      (((searchAnswers messages).map fun a => (a.1, parseFromString number a.2)).foldl
        (fun state a => pushSources state a.1 a.2) ([], [])).1 := by
    unfold extractSources searchAnswers
    generalize searchToolCalls messages = calls
    generalize parseFromString number = parsed
    dsimp only
    generalize (([], []) : List Source × List String) = state
    induction messages generalizing state with
    | nil => rfl
    | cons message messages ih =>
      rw [List.foldl_cons, List.filterMap_cons]
      -- only the message of a tool that answers a search call adds sources
      cases hbody : message.body with
      | tool id =>
        dsimp only
        by_cases hskip : (decide (id = "") || (calls.get? id).isNone) = true
        · rw [if_pos hskip, if_pos hskip]
          exact ih state
        · rw [if_neg hskip, if_neg hskip, List.map_cons, List.foldl_cons]
          exact ih (pushSources state id (parsed message.text))
      | ai _ _ | human | other =>
        dsimp only
        exact ih state
  rw [hloop, foldl_pushSources, List.foldl_firstsStep, List.flatMap_map]
  rfl

/-- The sources of calls that have finished. -/
theorem extractSourcesFromToolCalls_eq (number : List Char → Rat) (answers : List SearchAnswer) :
    extractSourcesFromToolCalls number (answers.map SearchAnswer.finishedCall) =
      List.firsts Source.url []
        (answers.flatMap fun a => sourcesOf a.toolCallId (a.results.filterMap shownEntry)) := by
  have hentries : ∀ a : SearchAnswer,
      extractFromJsonShape (dataOf a.results) = a.results.filterMap shownEntry := by
    intro a
    rw [← extractFromJsonShape_mapLeaves (f := id) (g := id) rfl (fun r _ => r.kept_id),
      mapLeaves_id]
  have hloop : extractSourcesFromToolCalls number (answers.map SearchAnswer.finishedCall) =
      ((answers.map fun a => (a.toolCallId, a.results.filterMap shownEntry)).foldl
        (fun state a => pushSources state a.1 a.2) ([], [])).1 := by
    unfold extractSourcesFromToolCalls
    generalize (([], []) : List Source × List String) = state
    induction answers generalizing state with
    | nil => rfl
    | cons a answers ih =>
      have hsearch : (!searchToolNames.contains a.finishedCall.name ||
          decide (a.finishedCall.status ≠ .finished)) = false := by
        rw [show a.finishedCall.name = a.name from rfl, List.contains_iff_mem.mpr a.isSearch]
        rfl
      rw [List.map_cons, List.foldl_cons, hsearch, List.map_cons, List.foldl_cons, ← ih,
        ← hentries a]
      rfl
  rw [hloop, foldl_pushSources, List.foldl_firstsStep, List.flatMap_map]
  rfl

theorem extractSources_renderings (number : List Char → Rat) {messages : List StreamMessage} {answers : List SearchAnswer}
    (hanswers : searchAnswers messages =
      answers.map fun a => (a.toolCallId, a.rendering.text py (dataOf a.results)))
    (h : ∀ a ∈ answers, a.rendering.Keeps py a.results ∧
      (a.results = [] ∨ ∃ r ∈ a.results, r.url ≠ "")) :
    extractSources number messages = List.firsts Source.url []
      (answers.flatMap fun a => sourcesOf a.toolCallId (a.results.filterMap shownEntry)) := by
  rw [extractSources_eq, hanswers, List.flatMap_map]
  refine congrArg (List.firsts Source.url []) (List.flatMap_congr fun a ha => ?_)
  rw [parseFromString_text (h a ha).1 (h a ha).2]

/-- The first ones of the sources are those of the entries. -/
theorem map_firsts_sourcesOf (answers : List SearchAnswer) :
    (List.firsts Source.url []
      (answers.flatMap fun a => sourcesOf a.toolCallId (a.results.filterMap shownEntry))).map
        (fun s => SourceEntry.mk s.title s.url) =
      List.firsts SourceEntry.url [] (answers.flatMap fun a => a.results.filterMap shownEntry) := by
  generalize hl : (answers.flatMap fun a =>
    sourcesOf a.toolCallId (a.results.filterMap shownEntry)) = l
  have hmap : (List.firsts (SourceEntry.url ∘ fun s : Source => ⟨s.title, s.url⟩) [] l).map
      (fun s => SourceEntry.mk s.title s.url) =
        List.firsts SourceEntry.url [] (l.map fun s => ⟨s.title, s.url⟩) :=
    List.map_firsts _ [] l
  refine hmap.trans (congrArg (List.firsts SourceEntry.url []) ?_)
  rw [← hl, List.map_flatMap]
  exact List.flatMap_congr fun a _ => sourcesOf_entries _ _

/-- **Search sources are read back from both renderings**: each url once, with the title of the
first result that has it, as from the parsed outputs. -/
theorem sourcesRead {messages : List StreamMessage} {answers : List SearchAnswer}
    (hanswers : searchAnswers messages =
      answers.map fun a => (a.toolCallId, a.rendering.text py (dataOf a.results)))
    (h : ∀ a ∈ answers, a.rendering.Keeps py a.results ∧
      (a.results = [] ∨ ∃ r ∈ a.results, r.url ≠ "")) :
    SourcesRead shownEntry number messages answers := by
  have hsources := extractSources_renderings number hanswers h
  constructor
  · rw [hsources, map_firsts_sourcesOf]
  · rw [hsources, extractSourcesFromToolCalls_eq]

/-! ### Any dictionary -/

/-- The dictionaries that a rendering keeps: with `str`, those whose strings have no quotes, no such
escapes and no words of Python. -/
def Rendering.KeepsDict (py : PyText) (rendering : Rendering) (kvs : List (String × Json)) : Prop :=
  rendering = .str → AllFields (fun s => Unquoted py s ∧ NoWords py s) kvs

/-- **A dictionary is read back from both renderings**, however deep it is: with its numbers as the
reader has them. -/
theorem tryParsePythonish_dict {rendering : Rendering} {kvs : List (String × Json)}
    (h : rendering.KeepsDict py kvs) :
    tryParsePythonish number (rendering.text py (.obj kvs)).toList =
      mapLeaves id (fun q => number (py.number q)) (.obj kvs) := by
  cases rendering with
  | dumps ensureAscii =>
    rw [Rendering.text, jsonDumps, String.toList_ofList]
    exact tryParsePythonish_dumps ensureAscii _
  | str =>
    rw [Rendering.text, pyStr, String.toList_ofList]
    cases kvs with
    | nil => rfl
    | cons kv kvs =>
      have hall : AllStrings (fun s => Unquoted py s ∧ NoWords py s) (.obj (kv :: kvs)) := h rfl
      have hunquoted : AllStrings (Unquoted py) (.obj (kv :: kvs)) :=
        AllStrings.mono (fun s hs => hs.1) _ hall
      rw [parse_pyStr hunquoted]
      exact mapLeaves_congr (fun s hs => hs.1.coerced_of_noWords hs.2) _ hall

/-! ### Two searches -/

/-- Texts of numbers and characters as they are in the searches below. -/
def searchText : PyText where
  printable c := 0xa0 < c.toNat
  number q := if q = 1 / 2 then ['0', '.', '5'] else ['0']
  isNumber_number q := by
    split <;> decide

def searchNumber (cs : List Char) : Rat := if cs = ['0', '.', '5'] then 1 / 2 else 0

/-- A result with a title. -/
def titledResult (url title : String) : SearchResult where
  fields := [("url", .str url), ("title", .str title), ("score", .num (1 / 2))]
  nodup := by simp
  url := url
  title := some title
  hasUrl := by simp
  hasTitle v hv := by simpa using hv
  titled t ht := by simp_all

/-- A result without a title. -/
def untitledResult (url : String) : SearchResult where
  fields := [("title", .null), ("url", .str url), ("raw_content", .bool true)]
  nodup := by simp
  url := url
  title := none
  hasUrl := by simp
  hasTitle v hv := by simpa using hv
  titled _ ht := by cases ht

/-- Two calls, and the messages that answer them. -/
def twoSearches : List SearchAnswer :=
  [{ toolCallId := "a", name := "tavily_search", isSearch := by decide, rendering := .dumps true,
     results := [titledResult "https://x" "X\n\"new\"", untitledResult ""] },
   { toolCallId := "b", name := "web_search", isSearch := by decide, rendering := .str,
     results := [titledResult "https://x" "Other", untitledResult "https://y"] }]

def searchMessages (answers : List SearchAnswer) : List StreamMessage :=
  { id := "m", body := .ai (answers.map fun a => { id := a.toolCallId, name := a.name }) [] } ::
    answers.map fun a =>
      { id := a.toolCallId, text := a.rendering.text searchText (dataOf a.results),
        body := .tool a.toolCallId }

theorem searchAnswers_twoSearches : searchAnswers (searchMessages twoSearches) =
    twoSearches.map fun a => (a.toolCallId, a.rendering.text searchText (dataOf a.results)) := rfl

/-- The texts of the second answer have no quotes and no words. -/
theorem strKeeps_second : StrKeeps searchText
    [titledResult "https://x" "Other", untitledResult "https://y"] where
  strings r hr := by
    rcases List.mem_pair.mp hr with rfl | rfl
    · have hurl : Unquoted searchText "https://x" := by decide
      have htitle : Unquoted searchText "Other" := by decide
      exact ⟨by decide, hurl, by decide, htitle, by decide, trivial, trivial⟩
    · have hurl : Unquoted searchText "https://y" := by decide
      exact ⟨by decide, trivial, by decide, hurl, by decide, trivial, trivial⟩
  urls r hr := by
    rcases List.mem_pair.mp hr with rfl | rfl
    · decide
    · decide
  titles r hr t ht := by
    rcases List.mem_pair.mp hr with rfl | rfl
    · cases ht
      decide
    · cases ht

theorem sourcesRead_twoSearches :
    (extractSources searchNumber (searchMessages twoSearches)).map
      (fun s => SourceEntry.mk s.title s.url) =
        [⟨"X\n\"new\"", "https://x"⟩, ⟨"https://y", "https://y"⟩] := by
  refine (sourcesRead searchAnswers_twoSearches ?_).listed.trans (by decide)
  intro a ha
  rcases List.mem_pair.mp ha with rfl | rfl
  · exact ⟨trivial, .inr ⟨_, List.mem_cons_self, by decide⟩⟩
  · exact ⟨strKeeps_second, .inr ⟨_, List.mem_cons_self, by decide⟩⟩

/-- A dictionary with a value of each kind. -/
def nestedDict : List (String × Json) :=
  [("ok", .bool true), ("items", .arr [.null, .num (1 / 2), .str "naïve"])]

theorem tryParsePythonish_nestedDict :
    tryParsePythonish searchNumber (Rendering.str.text searchText (.obj nestedDict)).toList =
      .obj nestedDict := by
  have hstrings : ∀ s ∈ ["ok", "items", "naïve"], Unquoted searchText s ∧ NoWords searchText s := by
    decide
  have hkeeps : Rendering.str.KeepsDict searchText nestedDict := fun _ =>
    ⟨hstrings _ (by decide), trivial, hstrings _ (by decide),
      ⟨trivial, trivial, hstrings _ (by decide), trivial⟩, trivial⟩
  exact (tryParsePythonish_dict hkeeps).trans (by decide +kernel)

/-- One search whose result has an empty title. -/
def emptyTitle : List SearchAnswer :=
  [{ toolCallId := "a", name := "tavily_search", isSearch := by decide, rendering := .dumps true,
     results := [titledResult "https://x" ""] }]

/-- An empty title is not shown: the url takes its place. -/
theorem not_sourcesRead : ¬ ∀ (py : PyText) (number : List Char → Rat)
    (messages : List StreamMessage) (answers : List SearchAnswer), searchAnswers messages =
      (answers.map fun a => (a.toolCallId, a.rendering.text py (dataOf a.results))) →
        SourcesRead statedEntry number messages answers := by
  intro h
  have hread := h searchText searchNumber (searchMessages emptyTitle) emptyTitle rfl
  have hlisted := hread.listed
  have hanswers : searchAnswers (searchMessages emptyTitle) =
      emptyTitle.map fun a => (a.toolCallId, a.rendering.text searchText (dataOf a.results)) := rfl
  have hsources := extractSources_renderings searchNumber hanswers (by
      intro a ha
      obtain rfl := List.mem_singleton.mp ha
      exact ⟨trivial, .inr ⟨_, List.mem_singleton_self _, by decide⟩⟩)
  rw [hsources, map_firsts_sourcesOf] at hlisted
  revert hlisted
  decide

-- `str` writes a string with an apostrophe between double quotes, and the apostrophe becomes one
example : parseFromString searchNumber
    (pyStr searchText (dataOf [titledResult "https://x" "What's new"])) = [] := by decide +kernel

end NextRole
