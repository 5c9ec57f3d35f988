import NextRole.Agents.ObjectBackend
import NextRole.Agents.Scratch

/-!
# Statements for the warehouse

`analytics_agent/warehouse.py`: a statement is classified by its text, of which comments and string
literals are blanked out by regular expressions, and gets a row limit if there is none.

A regular expression is translated as what it matches at a place, from left to right; of what it
matches at one place the first alternative counts, and `*` takes as much as it can.

## Main definitions

* `stripNoise` — the text without comments and literals.
* `leadingKeyword`, `classifyStatement` — which statements may run.
* `ensureLimit` — the statement with a limit.
* `sentBody` — what is sent to the server.
-/

namespace NextRole

/-! ### Texts -/

/-- `str.rstrip`. -/
def rstripSpace (s : String) : String := String.ofList (s.toList.rdropWhile isSpace)

/-- A character of `[A-Za-z]`. -/
def isAsciiLetter (c : Char) : Bool := ('a' ≤ c && c ≤ 'z') || ('A' ≤ c && c ≤ 'Z')

/-- A character of `\w`; of characters that are not ASCII, `wide` says whether they are. -/
def isWordChar (wide : Char → Bool) (c : Char) : Bool :=
  if c.toNat < 128 then isAsciiAlnum c || c = '_' else wide c

/-! ### Comments and literals -/

/-- `_LINE_COMMENT.sub(" ", sql)`, within a match or not. -/
def subLineComments : Bool → List Char → List Char
  | _, [] => []
  | true, c :: cs => if c = '\n' then c :: subLineComments false cs else subLineComments true cs
  | false, '-' :: '-' :: cs => ' ' :: subLineComments true cs
  | false, c :: cs => c :: subLineComments false cs

/-- Whether a block comment ends in a text. -/
def closesBlock : List Char → Bool
  | [] => false
  | '*' :: '/' :: _ => true
  | _ :: cs => closesBlock cs

/-- `_BLOCK_COMMENT.sub(" ", sql)`, within a match or not. -/
def subBlockComments : Bool → List Char → List Char
  | _, [] => []
  | true, '*' :: '/' :: cs => subBlockComments false cs
  | true, _ :: cs => subBlockComments true cs
  | false, '/' :: '*' :: cs =>
    if closesBlock cs then ' ' :: subBlockComments true cs
    else '/' :: subBlockComments false ('*' :: cs)
  | false, c :: cs => c :: subBlockComments false cs

/-- What is left after the end of a literal that was opened; a doubled quote is taken as the end
only if no later quote is one. -/
def literalEnd : List Char → Option (List Char)
  | [] => none
  | '\'' :: '\'' :: cs => (literalEnd cs).orElse fun _ => some ('\'' :: cs)
  | '\'' :: cs => some cs
  | '\\' :: c :: cs => if c = '\n' then none else literalEnd cs
  | '\\' :: [] => none
  | _ :: cs => literalEnd cs

/-- `_STRING_LITERAL.sub("''", sql)`, with the number of characters that are still of a match. -/
def subLiterals : ℕ → List Char → List Char
  | _, [] => []
  | n + 1, _ :: cs => subLiterals n cs
  | 0, '\'' :: cs =>
    match literalEnd cs with
    | some rest => '\'' :: '\'' :: subLiterals (cs.length - rest.length) cs
    | none => '\'' :: subLiterals 0 cs
  | 0, c :: cs => c :: subLiterals 0 cs

/-- `strip_noise`. -/
def stripNoise (sql : List Char) : List Char :=
  subLiterals 0 (subBlockComments false (subLineComments false sql))

/-! ### Classification -/

/-- `_ALLOWED_LEADS`. -/
def allowedLeads : List String :=
  ["SELECT", "WITH", "DESCRIBE", "DESC", "SHOW", "EXPLAIN", "EXISTS"]

/-- `_WRITE_LEADS`. -/
def writeLeads : List String :=
  ["INSERT", "ALTER", "CREATE", "DROP", "TRUNCATE", "RENAME", "ATTACH", "DETACH", "OPTIMIZE",
    "SYSTEM", "KILL", "GRANT", "REVOKE", "SET", "USE"]

/-- `_NO_LIMIT_LEADS`. -/
def noLimitLeads : List String := ["DESCRIBE", "DESC", "SHOW", "EXPLAIN", "EXISTS"]

/-- `leading_keyword`. -/
def leadingKeyword (sql : List Char) : String :=
  let text := ((stripNoise sql).dropWhile isSpace).dropWhile fun c => c = '('
  String.ofList
    (((text.dropWhile fun c => !isAsciiLetter c).takeWhile isAsciiLetter).map Char.toUpper)

/-- The statement as it is looked at for semicolons. -/
def cleanedStatement (stripped : String) : String :=
  strip (rstripChar ';' (strip (String.ofList (stripNoise stripped.toList))))

/-- `classify_statement`. -/
def classifyStatement (sql : String) : Option String :=
  let stripped := strip sql
  if stripped = "" then some "Error: empty query. Pass a single SELECT statement."
  else
    let cleaned := cleanedStatement stripped
    if cleaned.toList.contains ';' then
      some ("Error: only one statement per call. Split the query and call " ++
        "run_sql once per statement.")
    else
      let lead := leadingKeyword cleaned.toList
      if lead ∈ writeLeads then
        some ("Error: " ++ lead ++ " is not allowed. This agent has read-only access to " ++
          "the warehouse; use SELECT (or DESCRIBE / SHOW / EXPLAIN).")
      else if lead ∉ allowedLeads then
        some ("Error: unsupported statement '" ++
          (if lead = "" then String.ofList (sql.toList.take 20) else lead) ++ "'. Allowed: " ++
            ", ".intercalate (allowedLeads.mergeSort fun s t => s ≤ t) ++ ".")
      else none

/-! ### Limits -/

/-- A character that matches `I` when case is ignored. -/
def matchesI (c : Char) : Bool := c = 'i' || c = 'I' || c.toNat = 0x130 || c.toNat = 0x131

/-- `LIMIT\b` in front of a text, when case is ignored. -/
def startsLimit (wide : Char → Bool) : List Char → Bool
  | l :: i :: m :: i' :: t :: rest =>
    (l = 'l' || l = 'L') && matchesI i && (m = 'm' || m = 'M') && matchesI i' &&
      (t = 't' || t = 'T') && !rest.head?.any (isWordChar wide)
  | _ => false

/-- `_LIMIT_CLAUSE.search`, after a character of a word or not. -/
def hasLimit (wide : Char → Bool) : Bool → List Char → Bool
  | _, [] => false
  | afterWord, c :: cs =>
    (!afterWord && startsLimit wide (c :: cs)) || hasLimit wide (isWordChar wide c) cs

/-- `sql.strip().rstrip(";").rstrip()`. -/
def statementBody (sql : String) : String := rstripSpace (rstripChar ';' (strip sql))

/-- `ensure_limit`. -/
def ensureLimit (wide : Char → Bool) (sql : String) (limit : ℕ) : String × Bool :=
  let body := statementBody sql
  if leadingKeyword body.toList ∈ noLimitLeads then (body, false)
  else if hasLimit wide false (stripNoise body.toList) then (body, false)
  else (body ++ "\nLIMIT " ++ toString limit, true)

/-- The body that `run_readonly` sends, and whether a limit was added. -/
def sentBody (wide : Char → Bool) (sql : String) (displayLimit : Option ℕ) : String × Bool :=
  match displayLimit with
  | none => (statementBody sql, false)
  | some limit => ensureLimit wide (statementBody sql) limit

end NextRole
