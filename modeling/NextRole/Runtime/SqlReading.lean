import Mathlib
import NextRole.Python

/-!
# How Postgres reads a text

A text of statements is read character by character: line comments and nested block comments, names
and literals in quotes, where a doubled quote is a character and a literal after a lone `e` has
escapes, and bodies between two equal dollar tags.  White space is what Python takes as such.

## Main definitions

* `SqlMode`, `SqlMode.step` — where the text stands after a character.
* `SqlMark`, `marks`, `tokensOf` — the tokens of a text, by their characters.
* `sqlStatements` — the tokens between semicolons.

## Main results

* `exists_of_semicolon` — **a semicolon of the tokens is one of the text**.
* `exists_of_statementsFrom` — neighbouring statements are divided by a semicolon.
-/

namespace NextRole

/-! ### Reading -/

/-- A character of a token: its first one, one that goes on with a word, or one of a literal. -/
inductive SqlMark
  | first (c : Char)
  | more (c : Char)
  | text (c : Char)
  deriving Repr, DecidableEq

inductive SqlQuote
  | single
  | double
  deriving Repr, DecidableEq

def SqlQuote.char : SqlQuote → Char
  | .single => '\''
  | .double => '"'

/-- Where a text stands. -/
inductive SqlMode
  | code
  /-- In a word, which is `e` or is not. -/
  | word (escapes : Bool)
  | dash
  | slash
  /-- Behind a dollar sign and what can be a tag. -/
  | tag (read : List Char)
  /-- Behind a quote that closes, unless it is doubled. -/
  | closed (quote : SqlQuote) (escapes : Bool)
  | line
  /-- In a block comment, in further ones around it, behind a character. -/
  | block (around : ℕ) (last : Char)
  | quoted (quote : SqlQuote) (escapes : Bool)
  | escaped (quote : SqlQuote)
  | body (label read : List Char)
  deriving Repr, DecidableEq

/-- A character of a word; a dollar sign is one behind another. -/
def wordChar (c : Char) : Bool :=
  c.isAlphanum || c = '_' || c = '$' || (128 ≤ c.toNat && !isSpace c)

/-- A character that can go on with a tag. -/
def tagChar (read : List Char) (c : Char) : Bool :=
  wordChar c && c ≠ '$' && (!read.isEmpty || !c.isDigit)

namespace SqlMode

/-- Whether the text is in none of a comment, a literal and a body. -/
def isCode : SqlMode → Bool
  | .code | .word _ | .dash | .slash | .tag _ | .closed _ _ => true
  | _ => false

/-- Whether a text may end here: what is open is a line comment at most. -/
def ended (m : SqlMode) : Bool := m.isCode || m = .line

/-- What was read of a token that is no token yet. -/
def held : SqlMode → List SqlMark
  | .dash => [.first '-']
  | .slash => [.first '/']
  | .tag read => .first '$' :: read.map .more
  | _ => []

/-- A character that begins something. -/
def begin (c : Char) : SqlMode × List SqlMark :=
  if isSpace c then (.code, [])
  else if c = '-' then (.dash, [])
  else if c = '/' then (.slash, [])
  else if c = '$' then (.tag [], [])
  else if c = '\'' then (.quoted .single false, [.text c])
  else if c = '"' then (.quoted .double false, [.text c])
  else if wordChar c then (.word (c = 'e' || c = 'E'), [.first c])
  else (.code, [.first c])

/-- A character behind a token that ends here. -/
def next (m : SqlMode) (c : Char) : SqlMode × List SqlMark := ((begin c).1, m.held ++ (begin c).2)

/-- One character more. -/
def step (m : SqlMode) (c : Char) : SqlMode × List SqlMark :=
  match m with
  | .code => m.next c
  | .word escapes =>
    if wordChar c then (.word false, [.more c])
    else if escapes && c = '\'' then (.quoted .single true, [.text c])
    else m.next c
  | .dash => if c = '-' then (.line, []) else m.next c
  | .slash => if c = '*' then (.block 0 ' ', []) else m.next c
  | .tag read =>
    if c = '$' then (.body read [], ('$' :: read ++ ['$']).map .text)
    else if tagChar read c then (.tag (read ++ [c]), [])
    else m.next c
  | .closed quote escapes =>
    if c = quote.char then (.quoted quote escapes, [.text c]) else m.next c
  | .line => (if c = '\n' || c = '\r' then .code else .line, [])
  | .block around last =>
    if last = '/' && c = '*' then (.block (around + 1) ' ', [])
    else if last = '*' && c = '/' then (if around = 0 then .code else .block (around - 1) ' ', [])
    else (.block around c, [])
  | .quoted quote escapes =>
    if c = quote.char then (.closed quote escapes, [.text c])
    else (if escapes && c = '\\' then .escaped quote else .quoted quote escapes, [.text c])
  | .escaped quote => (.quoted quote true, [.text c])
  | .body label read =>
    (if '$' :: label ++ ['$'] <:+ read ++ [c] then .code else .body label (read ++ [c]), [.text c])

/-- Where a text ends. -/
def after : SqlMode → List Char → SqlMode
  | m, [] => m
  | m, c :: cs => (m.step c).1.after cs

/-- The tokens that are read of a text. -/
def marks : SqlMode → List Char → List SqlMark
  | _, [] => []
  | m, c :: cs => (m.step c).2 ++ (m.step c).1.marks cs

@[simp] theorem after_nil (m : SqlMode) : m.after [] = m := rfl

@[simp] theorem marks_nil (m : SqlMode) : m.marks [] = [] := rfl

@[simp] theorem after_cons (m : SqlMode) (c : Char) (cs : List Char) :
    m.after (c :: cs) = (m.step c).1.after cs := rfl

@[simp] theorem marks_cons (m : SqlMode) (c : Char) (cs : List Char) :
    m.marks (c :: cs) = (m.step c).2 ++ (m.step c).1.marks cs := rfl

theorem after_append (m : SqlMode) (cs ds : List Char) :
    m.after (cs ++ ds) = (m.after cs).after ds := by
  induction cs generalizing m with
  | nil => rfl
  | cons c cs ih => exact ih (m.step c).1

theorem marks_append (m : SqlMode) (cs ds : List Char) :
    m.marks (cs ++ ds) = m.marks cs ++ (m.after cs).marks ds := by
  induction cs generalizing m with
  | nil => rfl
  | cons c cs ih =>
    rw [List.cons_append, marks_cons, marks_cons, ih, after_cons, List.append_assoc]

end SqlMode

open SqlMode

/-- The tokens of a text. -/
def tokensOf (cs : List Char) : List SqlMark :=
  SqlMode.code.marks cs ++ (SqlMode.code.after cs).held

/-- The token that ends a statement. -/
def semicolon : SqlMark := .first ';'

/-- The statements of tokens, of which some were read. -/
def statementsFrom : List SqlMark → List SqlMark → List (List SqlMark)
  | current, [] => if current = [] then [] else [current]
  | current, t :: ts =>
    if t = semicolon then
      (if current = [] then [] else [current]) ++ statementsFrom [] ts
    else statementsFrom (current ++ [t]) ts

/-- The statements of tokens, without empty ones. -/
def sqlStatements (ts : List SqlMark) : List (List SqlMark) := statementsFrom [] ts

/-! ### Index statements -/

/-- The first words of a statement, in lower case. -/
def firstWords : ℕ → List SqlMark → List (List Char)
  | 0, _ => []
  | n + 1, .first c :: ts =>
    let isMore : SqlMark → Bool := fun
      | .more _ => true
      | _ => false
    let letters := (ts.takeWhile isMore).map fun
      | .more c => c.toLower
      | .first c => c
      | .text c => c
    (c.toLower :: letters) :: firstWords n (ts.dropWhile isMore)
  | _ + 1, _ => []

/-- `CREATE [UNIQUE] INDEX CONCURRENTLY` or `DROP INDEX`. -/
def isIndexStatement (statement : List SqlMark) : Bool :=
  ["create".toList, "index".toList, "concurrently".toList].isPrefixOf (firstWords 4 statement) ||
    ["create".toList, "unique".toList, "index".toList, "concurrently".toList].isPrefixOf
      (firstWords 4 statement) ||
    ["drop".toList, "index".toList].isPrefixOf (firstWords 4 statement)

example : (sqlStatements (tokensOf "SELECT 1; -- x;\nDROP INDEX a;".toList)).map isIndexStatement =
    [false, true] := by decide +kernel

/-! ### Steps -/

/-- A character that ends what is a token by itself. -/
def separates (c : Char) : Bool := isSpace c || c = ';'

theorem ne_of_isSpace {c d : Char} (hc : isSpace c = true) (hd : isSpace d = false) : c ≠ d := by
  rintro rfl
  rw [hc] at hd
  cases hd

theorem toNat_of_isSpace {c : Char} (h : isSpace c = true) : c.toNat ≤ 0x20 ∨ 128 ≤ c.toNat := by
  simp only [isSpace, Bool.or_eq_true, Bool.and_eq_true, decide_eq_true_eq, List.mem_cons,
    List.not_mem_nil, or_false] at h
  omega

theorem toNat_of_isAlphanum {c : Char} (h : c.isAlphanum = true) :
    0x30 ≤ c.toNat ∧ c.toNat < 128 := by
  simp only [Char.isAlphanum, Char.isAlpha, Char.isUpper, Char.isLower, Char.isDigit,
    Bool.or_eq_true, Bool.and_eq_true, decide_eq_true_eq, UInt32.le_iff_toNat_le, ge_iff_le] at h
  have hval : c.toNat = c.val.toNat := rfl
  have hA : ('A' : Char).val.toNat = 65 := rfl
  have hZ : ('Z' : Char).val.toNat = 90 := rfl
  have ha : ('a' : Char).val.toNat = 97 := rfl
  have hz : ('z' : Char).val.toNat = 122 := rfl
  have h0 : ('0' : Char).val.toNat = 48 := rfl
  have h9 : ('9' : Char).val.toNat = 57 := rfl
  omega

theorem separates_spec {c : Char} (h : separates c = true) : wordChar c = false ∧ c ≠ '-' ∧
    c ≠ '/' ∧ c ≠ '*' ∧ c ≠ '$' ∧ c ≠ '\'' ∧ c ≠ '"' := by
  rw [separates, Bool.or_eq_true, decide_eq_true_eq] at h
  rcases h with h | rfl
  · refine ⟨?_, ne_of_isSpace h (by decide), ne_of_isSpace h (by decide),
      ne_of_isSpace h (by decide), ne_of_isSpace h (by decide), ne_of_isSpace h (by decide),
      ne_of_isSpace h (by decide)⟩
    have halnum : c.isAlphanum = false := by
      by_contra hnot
      rw [Bool.not_eq_false] at hnot
      have hlt := toNat_of_isAlphanum hnot
      have hspace := toNat_of_isSpace h
      omega
    have hunder := ne_of_isSpace (d := '_') h (by decide)
    have hdollar := ne_of_isSpace (d := '$') h (by decide)
    simp [wordChar, halnum, hunder, hdollar, h]
  · decide

/-- The character ends the token in which the text stands. -/
theorem step_of_separates {m : SqlMode} {c : Char} (hm : m.isCode = true)
    (hc : separates c = true) :
    m.step c = (.code, m.held ++ if isSpace c then [] else [semicolon]) := by
  obtain ⟨hword, hdash, hslash, hstar, hdollar, hsingle, hdouble⟩ := separates_spec hc
  have hbegin : begin c = (.code, if isSpace c then [] else [semicolon]) := by
    rw [begin]
    cases hspace : isSpace c with
    | true => rfl
    | false =>
      have hsemi : c = ';' := by
        rw [separates, hspace, Bool.false_or] at hc
        exact of_decide_eq_true hc
      subst hsemi
      decide
  have hnext : m.next c = (.code, m.held ++ if isSpace c then [] else [semicolon]) := by
    rw [next, hbegin]
  cases m with
  | code => exact hnext
  | word escapes =>
    rw [step, hword]
    simp [hsingle, hnext]
  | dash => simp [step, hdash, hnext]
  | slash => simp [step, hstar, hnext]
  | tag read => simp [step, hdollar, tagChar, hword, hnext]
  | closed quote escapes =>
    have hquote : c ≠ quote.char := by
      cases quote with
      | single => exact hsingle
      | double => exact hdouble
    simp [step, hquote, hnext]
  | line => cases hm
  | block around last => cases hm
  | quoted quote escapes => cases hm
  | escaped quote => cases hm
  | body label read => cases hm

theorem semicolon_notMem_held (m : SqlMode) : semicolon ∉ m.held := by
  cases m with
  | tag read => simp [held, semicolon]
  | dash => decide
  | slash => decide
  | _ => exact List.not_mem_nil

theorem eq_of_semicolon_mem_begin {c : Char} (h : semicolon ∈ (begin c).2) : c = ';' := by
  unfold begin at h
  split_ifs at h
  all_goals simp only [semicolon, List.mem_singleton, List.not_mem_nil, SqlMark.first.injEq,
    reduceCtorEq] at h
  all_goals exact h.symm

/-- **A semicolon is read of a semicolon** that is in no comment, literal or body. -/
theorem of_semicolon_mem_step {m : SqlMode} {c : Char} (h : semicolon ∈ (m.step c).2) :
    c = ';' ∧ m.isCode = true := by
  have hnext : ∀ m : SqlMode, semicolon ∈ (m.next c).2 → c = ';' := by
    intro m hmem
    rcases List.mem_append.mp hmem with hheld | hmem
    · exact absurd hheld (semicolon_notMem_held m)
    · exact eq_of_semicolon_mem_begin hmem
  have hcode : m.isCode = true := by
    by_contra hnot
    cases m with
    | line => cases h
    | block around last =>
      rw [step] at h
      split_ifs at h <;> cases h
    | quoted quote escapes =>
      rw [step] at h
      split_ifs at h <;> simp [semicolon] at h
    | escaped quote => simp [step, semicolon] at h
    | body label read => simp [step, semicolon] at h
    | _ => exact hnot rfl
  refine ⟨?_, hcode⟩
  cases m with
  | code => exact hnext _ h
  | word escapes =>
    rw [step] at h
    split_ifs at h
    · simp [semicolon] at h
    · simp [semicolon] at h
    · exact hnext _ h
  | dash =>
    rw [step] at h
    split_ifs at h
    · cases h
    · exact hnext _ h
  | slash =>
    rw [step] at h
    split_ifs at h
    · cases h
    · exact hnext _ h
  | tag read =>
    rw [step] at h
    split_ifs at h
    · simp [semicolon] at h
    · cases h
    · exact hnext _ h
  | closed quote escapes =>
    rw [step] at h
    split_ifs at h
    · simp [semicolon] at h
    · exact hnext _ h
  | _ => cases hcode

/-- **A semicolon of the tokens is one of the text**: it ends a part of the text. -/
theorem exists_of_semicolon {m : SqlMode} {cs : List Char} {xs ys : List SqlMark}
    (h : m.marks cs ++ (m.after cs).held = xs ++ semicolon :: ys) :
    ∃ us vs, cs = us ++ vs ∧ m.after us = .code ∧ m.marks us = xs ++ [semicolon] ∧
      tokensOf vs = ys := by
  induction cs generalizing m xs with
  | nil =>
    have hmem : semicolon ∈ m.held := by
      have heq : m.held = xs ++ semicolon :: ys := h
      rw [heq]
      exact List.mem_append_right xs List.mem_cons_self
    exact absurd hmem (semicolon_notMem_held m)
  | cons c cs ih =>
    rw [marks_cons, after_cons, List.append_assoc] at h
    have hlater : ∀ xs', (m.step c).1.marks cs ++ ((m.step c).1.after cs).held =
        xs' ++ semicolon :: ys → xs = (m.step c).2 ++ xs' → ∃ us vs, c :: cs = us ++ vs ∧
          m.after us = .code ∧ m.marks us = xs ++ [semicolon] ∧ tokensOf vs = ys := by
      rintro xs' hrest rfl
      obtain ⟨us, vs, rfl, hafter, hmarks, hys⟩ := ih hrest
      exact ⟨c :: us, vs, rfl, hafter, by rw [marks_cons, hmarks, List.append_assoc], hys⟩
    rcases List.append_eq_append_iff.mp h with ⟨xs', hxs, hrest⟩ | ⟨zs, hstep, hrest⟩
    · exact hlater xs' hrest hxs
    · cases zs with
      | nil => exact hlater [] hrest.symm (by rw [hstep, List.append_nil, List.append_nil])
      | cons t zs =>
        -- the semicolon is read of this character
        obtain ⟨rfl, rfl⟩ := List.cons.inj hrest
        have hmem : semicolon ∈ (m.step c).2 := by
          rw [hstep]
          exact List.mem_append_right xs List.mem_cons_self
        obtain ⟨rfl, hcode⟩ := of_semicolon_mem_step hmem
        have hsemicolon : m.step ';' = (.code, m.held ++ [semicolon]) :=
          step_of_separates hcode (by decide)
        rw [hsemicolon] at hstep
        have hzs : zs = [] := by
          by_contra hne
          have hheld : semicolon ∈ m.held := by
            have hdrop := congrArg List.dropLast hstep
            rw [List.dropLast_concat, List.dropLast_append_of_ne_nil (List.cons_ne_nil _ _),
              List.dropLast_cons_of_ne_nil hne] at hdrop
            rw [hdrop]
            exact List.mem_append_right xs List.mem_cons_self
          exact semicolon_notMem_held m hheld
        subst hzs
        refine ⟨[';'], cs, rfl, ?_, ?_, ?_⟩
        · rw [after_cons, hsemicolon, after_nil]
        · rw [marks_cons, hsemicolon, marks_nil, List.append_nil, hstep]
        · rw [hsemicolon]
          rfl

/-- Only a text that may end here may end behind a blank or a semicolon. -/
theorem ended_of_step {m : SqlMode} {c : Char} (hc : separates c = true)
    (h : (m.step c).1.ended = true) : m.ended = true := by
  obtain ⟨-, -, hslash, hstar, hdollar, hsingle, hdouble⟩ := separates_spec hc
  cases m with
  | quoted quote escapes =>
    have hquote : c ≠ quote.char := by
      cases quote with
      | single => exact hsingle
      | double => exact hdouble
    rw [step, if_neg hquote] at h
    dsimp only at h
    split at h <;> cases h
  | escaped quote => cases h
  | block around last => simp [step, hstar, hslash, ended, isCode] at h
  | body label read =>
    have hopen : ¬ '$' :: label ++ ['$'] <:+ read ++ [c] := by
      intro hsuffix
      have hlast := hsuffix.getLast (List.append_ne_nil_of_right_ne_nil _ (List.cons_ne_nil '$' []))
      rw [List.getLast_concat, List.getLast_concat] at hlast
      exact hdollar hlast.symm
    rw [step, if_neg hopen] at h
    cases h
  | _ => rfl

theorem step_line (c : Char) :
    (SqlMode.line.step c).2 = [] ∧ (SqlMode.line.step c).1.ended = true := by
  refine ⟨rfl, ?_⟩
  rw [step]
  dsimp only
  split <;> rfl

/-- Blanks at the end of a text are no tokens. -/
theorem blanks_spec {m : SqlMode} {cs : List Char} (hcs : ∀ c ∈ cs, isSpace c = true) :
    ((m.after cs).ended = true → m.ended = true) ∧
      (m.ended = true → m.marks cs ++ (m.after cs).held = m.held ∧ (m.after cs).ended = true) := by
  induction cs generalizing m with
  | nil => exact ⟨id, fun h => ⟨List.nil_append _, h⟩⟩
  | cons c cs ih =>
    rw [List.forall_mem_cons] at hcs
    have hc : separates c = true := by rw [separates, hcs.1, Bool.true_or]
    rw [after_cons, marks_cons]
    obtain ⟨hback, hforth⟩ := @ih (m.step c).1 hcs.2
    refine ⟨fun h => ended_of_step hc (hback h), fun h => ?_⟩
    rw [ended, Bool.or_eq_true, decide_eq_true_eq] at h
    rcases h with hcode | rfl
    · have hstep := step_of_separates hcode hc
      rw [if_pos hcs.1, List.append_nil] at hstep
      rw [hstep] at hforth ⊢
      obtain ⟨hmarks, hafter⟩ := hforth rfl
      rw [List.append_assoc, hmarks]
      exact ⟨List.append_nil _, hafter⟩
    · obtain ⟨hnone, hended⟩ := step_line c
      obtain ⟨hmarks, hafter⟩ := hforth hended
      rw [hnone, List.nil_append, hmarks]
      refine ⟨?_, hafter⟩
      rw [step]
      dsimp only
      split <;> rfl

theorem blanks_code {cs : List Char} (hcs : ∀ c ∈ cs, isSpace c = true) :
    SqlMode.code.after cs = .code ∧ SqlMode.code.marks cs = [] := by
  induction cs with
  | nil => exact ⟨rfl, rfl⟩
  | cons c cs ih =>
    rw [List.forall_mem_cons] at hcs
    have hstep : SqlMode.code.step c = (.code, []) := by
      have hstep := step_of_separates (m := .code) rfl
        (by rw [separates, hcs.1, Bool.true_or] : separates c = true)
      rwa [if_pos hcs.1] at hstep
    rw [after_cons, marks_cons, hstep]
    exact ih hcs.2

theorem tokensOf_append {cs : List Char} (h : SqlMode.code.after cs = .code) (ds : List Char) :
    tokensOf (cs ++ ds) = SqlMode.code.marks cs ++ tokensOf ds := by
  rw [tokensOf, tokensOf, marks_append, after_append, h, List.append_assoc]

theorem tokensOf_of_after {cs : List Char} (h : SqlMode.code.after cs = .code) :
    tokensOf cs = SqlMode.code.marks cs := by
  rw [tokensOf, h]
  exact List.append_nil _

/-! ### Letters -/

theorem ne_of_isAlpha {c d : Char} (hc : c.isAlpha = true) (hd : d.isAlpha = false) : c ≠ d := by
  rintro rfl
  rw [hc] at hd
  cases hd

theorem begin_of_isAlpha {c : Char} (hc : c.isAlpha = true) :
    begin c = (.word (c = 'e' || c = 'E'), [.first c]) := by
  have hne := @ne_of_isAlpha c
  have hspace : isSpace c = false := by
    by_contra hnot
    rw [Bool.not_eq_false] at hnot
    have halnum := toNat_of_isAlphanum (c := c) (by rw [Char.isAlphanum, hc, Bool.true_or])
    have hblank := toNat_of_isSpace hnot
    omega
  have hword : wordChar c = true := by simp [wordChar, Char.isAlphanum, hc]
  rw [begin, if_neg (by rw [hspace]; exact Bool.false_ne_true), if_neg (hne hc (by decide)),
    if_neg (hne hc (by decide)), if_neg (hne hc (by decide)), if_neg (hne hc (by decide)),
    if_neg (hne hc (by decide)), if_pos hword]

theorem step_of_isAlpha {m : SqlMode} {c : Char} (hm : m.isCode = true) (hc : c.isAlpha = true) :
    (m.step c).1.isCode = true ∧ semicolon ∉ (m.step c).2 := by
  refine ⟨?_, fun hmem => ne_of_isAlpha hc (by decide) (of_semicolon_mem_step hmem).1⟩
  have hword : wordChar c = true := by simp [wordChar, Char.isAlphanum, hc]
  have hnext : ∀ m : SqlMode, (m.next c).1.isCode = true := by
    intro m
    rw [next, begin_of_isAlpha hc]
    rfl
  cases m with
  | code => exact hnext _
  | word escapes => rw [step, if_pos hword]; rfl
  | dash => rw [step, if_neg (ne_of_isAlpha hc (by decide))]; exact hnext _
  | slash => rw [step, if_neg (ne_of_isAlpha hc (by decide))]; exact hnext _
  | tag read =>
    rw [step, if_neg (ne_of_isAlpha hc (by decide))]
    split
    · rfl
    · exact hnext _
  | closed quote escapes =>
    rw [step, if_neg (by cases quote <;> exact ne_of_isAlpha hc (by decide))]
    exact hnext _
  | _ => cases hm

/-- **A word and a blank are read alike** wherever there is code: nothing of them is a semicolon,
and behind them no token is open. -/
theorem after_word {m : SqlMode} {word : List Char} {c : Char} (hm : m.isCode = true)
    (hword : ∀ d ∈ word, d.isAlpha = true) (hc : isSpace c = true) :
    m.after (word ++ [c]) = .code ∧ semicolon ∉ m.marks (word ++ [c]) := by
  induction word generalizing m with
  | nil =>
    have hstep := step_of_separates hm (by rw [separates, hc, Bool.true_or] : separates c = true)
    rw [if_pos hc, List.append_nil] at hstep
    rw [List.nil_append, after_cons, marks_cons, hstep]
    refine ⟨rfl, ?_⟩
    rw [marks_nil, List.append_nil]
    exact semicolon_notMem_held m
  | cons d word ih =>
    rw [List.forall_mem_cons] at hword
    obtain ⟨hcode, hnone⟩ := step_of_isAlpha hm hword.1
    obtain ⟨hafter, hmarks⟩ := ih hcode hword.2
    rw [List.cons_append, after_cons, marks_cons, List.mem_append, not_or]
    exact ⟨hafter, hnone, hmarks⟩

/-! ### Statements -/

/-- Tokens that end a statement, or none. -/
def EndsStatement (ts : List SqlMark) : Prop := ts = [] ∨ ts.getLast? = some semicolon

theorem EndsStatement.append {xs ys : List SqlMark} (h : EndsStatement xs) (h' : EndsStatement ys) :
    EndsStatement (xs ++ ys) := by
  rcases h' with rfl | h'
  · rwa [List.append_nil]
  · obtain ⟨init, rfl⟩ := List.getLast?_eq_some_iff.mp h'
    right
    rw [← List.append_assoc, List.getLast?_concat]

theorem EndsStatement.of_append {xs ys : List SqlMark} (h : EndsStatement (xs ++ ys)) :
    EndsStatement ys := by
  rcases List.eq_nil_or_concat ys with rfl | ⟨init, t, rfl⟩
  · exact .inl rfl
  · rcases h with hnil | hlast
    · simp at hnil
    · rw [List.concat_eq_append, ← List.append_assoc, List.getLast?_concat] at hlast
      right
      rw [List.concat_eq_append, List.getLast?_concat, hlast]

theorem statementsFrom_semicolon (current xs ys : List SqlMark) :
    statementsFrom current (xs ++ semicolon :: ys) =
      statementsFrom current (xs ++ [semicolon]) ++ sqlStatements ys := by
  induction xs generalizing current with
  | nil =>
    simp only [List.nil_append, statementsFrom, if_true, List.append_assoc]
    rfl
  | cons t xs ih =>
    rw [List.cons_append, List.cons_append, statementsFrom, statementsFrom]
    split
    · rw [ih, List.append_assoc]
    · exact ih _

theorem statements_append {xs ys : List SqlMark} (h : EndsStatement xs) :
    sqlStatements (xs ++ ys) = sqlStatements xs ++ sqlStatements ys := by
  rcases h with rfl | h
  · rfl
  · obtain ⟨xs, rfl⟩ := List.getLast?_eq_some_iff.mp h
    rw [List.append_assoc]
    exact statementsFrom_semicolon [] xs ys

theorem statementsFrom_ne_nil {current : List SqlMark} (hne : current ≠ []) (ts : List SqlMark) :
    statementsFrom current ts ≠ [] := by
  induction ts generalizing current with
  | nil =>
    rw [statementsFrom, if_neg hne]
    exact List.cons_ne_nil _ _
  | cons t ts ih =>
    rw [statementsFrom, if_neg hne]
    split
    · exact List.cons_ne_nil _ _
    · exact ih (List.append_ne_nil_of_left_ne_nil hne _)

/-- No statement consists of semicolons only. -/
theorem statements_eq_nil_iff {ts : List SqlMark} :
    sqlStatements ts = [] ↔ ∀ t ∈ ts, t = semicolon := by
  induction ts with
  | nil => exact ⟨fun _ _ h => (by cases h), fun _ => rfl⟩
  | cons t ts ih =>
    rw [List.forall_mem_cons, ← ih, sqlStatements, statementsFrom]
    split
    · next ht =>
      rw [if_pos rfl, List.nil_append]
      exact (and_iff_right ht).symm
    · next ht =>
      constructor
      · intro hnil
        exact absurd hnil (statementsFrom_ne_nil (List.cons_ne_nil t []) ts)
      · rintro ⟨heq, -⟩
        exact absurd heq ht

theorem length_statementsFrom {current current' : List SqlMark} (hne : current ≠ [])
    (hne' : current' ≠ []) (ts : List SqlMark) :
    (statementsFrom current ts).length = (statementsFrom current' ts).length := by
  induction ts generalizing current current' with
  | nil => rw [statementsFrom, statementsFrom, if_neg hne, if_neg hne']; rfl
  | cons t ts ih =>
    rw [statementsFrom, statementsFrom, if_neg hne, if_neg hne']
    split
    · rw [List.length_append, List.length_append]
      rfl
    · exact ih (List.append_ne_nil_of_left_ne_nil hne _) (List.append_ne_nil_of_left_ne_nil hne' _)

/-- **Two texts share a statement** if the first does not end its last one and the second goes
on. -/
theorem length_statementsFrom_append {current xs ys : List SqlMark} {t : SqlMark}
    (hlast : (current ++ xs).getLast? ≠ some semicolon) (hne : current ++ xs ≠ [])
    (ht : t ≠ semicolon) : (statementsFrom current (xs ++ t :: ys)).length + 1 =
      (statementsFrom current xs).length + (sqlStatements (t :: ys)).length := by
  induction xs generalizing current with
  | nil =>
    rw [List.append_nil] at hne
    have hcons : ∀ current, statementsFrom current (t :: ys) = statementsFrom (current ++ [t]) ys :=
      fun current => by rw [statementsFrom, if_neg ht]
    have hlength := length_statementsFrom (List.append_ne_nil_of_left_ne_nil hne [t])
      (List.append_ne_nil_of_right_ne_nil [] (List.cons_ne_nil t [])) ys
    rw [List.nil_append, hcons, sqlStatements, hcons, statementsFrom, if_neg hne, hlength,
      List.length_singleton, Nat.add_comm]
  | cons x xs ih =>
    rw [List.cons_append, statementsFrom, statementsFrom]
    split
    · next hx =>
      have hxs : xs ≠ [] := by
        rintro rfl
        rw [hx] at hlast
        exact hlast List.getLast?_concat
      obtain ⟨zs, z, rfl⟩ := (List.eq_nil_or_concat xs).resolve_left hxs
      simp only [List.concat_eq_append] at hlast hxs ih ⊢
      have hz : z ≠ semicolon := by
        rw [← List.cons_append, ← List.append_assoc, List.getLast?_concat] at hlast
        exact fun heq => hlast (congrArg some heq)
      have hrest := @ih [] (by rw [List.nil_append, List.getLast?_concat]; simpa using hz) hxs
      rw [List.length_append, List.length_append]
      omega
    · apply ih
      · rwa [List.append_assoc]
      · rwa [List.append_assoc]

/-- **Neighbouring statements** are divided by a semicolon. -/
theorem exists_of_statementsFrom {current ts a b : List SqlMark} {before rest : List (List SqlMark)}
    (h : statementsFrom current ts = before ++ a :: b :: rest) :
    ∃ xs ys, ts = xs ++ semicolon :: ys ∧
      statementsFrom current (xs ++ [semicolon]) = before ++ [a] ∧
        sqlStatements ys = b :: rest := by
  induction ts generalizing current before with
  | nil =>
    rw [statementsFrom] at h
    have hlength := congrArg List.length h
    split at hlength
    · simp at hlength
    · simp at hlength
      omega
  | cons t ts ih =>
    rw [statementsFrom] at h
    split at h
    · next ht =>
      subst ht
      split at h
      · next hnil =>
        subst hnil
        obtain ⟨xs, ys, rfl, hxs, hys⟩ := ih h
        refine ⟨semicolon :: xs, ys, rfl, ?_, hys⟩
        rw [List.cons_append, statementsFrom, if_pos rfl, if_pos rfl, hxs]
        rfl
      · next hne =>
        cases before with
        | nil =>
          obtain ⟨rfl, hrest⟩ := List.cons.inj h
          refine ⟨[], ts, rfl, ?_, hrest⟩
          rw [List.nil_append, statementsFrom, if_pos rfl, if_neg hne]
          rfl
        | cons first before =>
          obtain ⟨rfl, hrest⟩ := List.cons.inj h
          obtain ⟨xs, ys, rfl, hxs, hys⟩ := ih hrest
          refine ⟨semicolon :: xs, ys, rfl, ?_, hys⟩
          rw [List.cons_append, statementsFrom, if_pos rfl, if_neg hne, hxs]
          rfl
    · next ht =>
      obtain ⟨xs, ys, rfl, hxs, hys⟩ := ih h
      refine ⟨t :: xs, ys, rfl, ?_, hys⟩
      rw [List.cons_append, statementsFrom, if_neg ht, hxs]

end NextRole
