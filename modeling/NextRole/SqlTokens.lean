import Mathlib.Data.List.Chain
import NextRole.Agents.Warehouse

/-!
# Tokens of a statement

How the server reads a statement: quotes open literals and quoted names, in which a backslash takes
the next character with it and a doubled quote is a character; comments run from `--` to the end of
the line and from `/*` to `*/`; a comment marker inside quotes is text, and a quote inside a comment
is comment.  Every other character is a token of its own.

This is the meaning that the regular expressions of the source are compared with.

## Main definitions

* `SqlToken`, `lexSql` — the tokens of a statement, if all quotes and block comments end.
* `SqlToken.WF`, `SqlToken.Compat`, `Tokenized` — tokens that are read back from their text.

## Main results

* `tokenized_of_lexSql`, `lexSql_textOf` — a statement is read as these tokens.
-/

namespace NextRole

/-- A quote. -/
def isQuote (c : Char) : Bool := c = '\'' || c = '"' || c = Char.ofNat 0x60

theorem not_of_isQuote {p : Char → Bool} (hsingle : p '\'' = false) (hdouble : p '"' = false)
    (hback : p (Char.ofNat 0x60) = false) {q : Char} (hq : isQuote q = true) : p q = false := by
  rw [isQuote, Bool.or_eq_true, Bool.or_eq_true, decide_eq_true_eq, decide_eq_true_eq,
    decide_eq_true_eq] at hq
  rcases hq with (rfl | rfl) | rfl
  · exact hsingle
  · exact hdouble
  · exact hback

theorem ne_of_isQuote {q c : Char} (hq : isQuote q = true) (hc : isQuote c = false) : q ≠ c := by
  rintro rfl
  rw [hq] at hc
  cases hc

/-- A token of a statement. -/
inductive SqlToken
  | char (c : Char)
  | lineComment (body : List Char)
  | blockComment (body : List Char)
  | quoted (quote : Char) (body : List Char)
  deriving Repr, DecidableEq

/-- Where the text stands, with what came of an open comment or quote. -/
inductive LexMode
  | code
  | line (body : List Char)
  | block (body : List Char)
  | quoted (quote : Char) (body : List Char)

/-- The tokens of a text, if it is read to its end. -/
def lexSql : LexMode → List Char → Option (List SqlToken)
  | .code, [] => some []
  | .code, '-' :: '-' :: cs => lexSql (.line []) cs
  | .code, '/' :: '*' :: cs => lexSql (.block []) cs
  | .code, c :: cs =>
    if isQuote c then lexSql (.quoted c []) cs else (lexSql .code cs).map fun ts => .char c :: ts
  | .line body, [] => some [.lineComment body]
  | .line body, c :: cs =>
    if c = '\n' then (lexSql .code cs).map fun ts => .lineComment body :: .char '\n' :: ts
    else lexSql (.line (body ++ [c])) cs
  | .block _, [] => none
  | .block body, '*' :: '/' :: cs => (lexSql .code cs).map fun ts => .blockComment body :: ts
  | .block body, c :: cs => lexSql (.block (body ++ [c])) cs
  | .quoted _ _, [] => none
  | .quoted q body, '\\' :: c :: cs => lexSql (.quoted q (body ++ ['\\', c])) cs
  | .quoted q body, c :: d :: cs =>
    if c = q then
      if d = q then lexSql (.quoted q (body ++ [q, q])) cs
      else (lexSql .code (d :: cs)).map fun ts => .quoted q body :: ts
    else lexSql (.quoted q (body ++ [c])) (d :: cs)
  | .quoted q body, [c] => if c = q then some [.quoted q body] else none

/-- The mark of a comment between quotes starts none. -/
example : lexSql .code "'--'".toList = some [.quoted '\'' ['-', '-']] := by
  simp [lexSql, isQuote]

/-! ### Texts of tokens -/

namespace SqlToken

/-- The text of a token. -/
def text : SqlToken → List Char
  | .char c => [c]
  | .lineComment body => '-' :: '-' :: body
  | .blockComment body => '/' :: '*' :: (body ++ ['*', '/'])
  | .quoted q body => q :: (body ++ [q])

/-- What can stand between quotes. -/
inductive QuotedBody (q : Char) : List Char → Prop
  | nil : QuotedBody q []
  | char {c : Char} {body : List Char} (hq : c ≠ q) (hback : c ≠ '\\') (h : QuotedBody q body) :
    QuotedBody q (c :: body)
  | escaped (c : Char) {body : List Char} (h : QuotedBody q body) : QuotedBody q ('\\' :: c :: body)
  | doubled {body : List Char} (h : QuotedBody q body) : QuotedBody q (q :: q :: body)

/-- A token that is read from its text. -/
def WF : SqlToken → Prop
  | .char c => isQuote c = false
  | .lineComment body => '\n' ∉ body
  | .blockComment body => (body ++ ['*']).IsChain fun a b => ¬ (a = '*' ∧ b = '/')
  | .quoted q body => isQuote q = true ∧ QuotedBody q body

/-- A token is read to its end in front of another one. -/
def Compat : SqlToken → SqlToken → Prop
  | .char c, t => ¬ (c = '-' ∧ t.text.head? = some '-') ∧ ¬ (c = '/' ∧ t.text.head? = some '*')
  | .lineComment _, t => t = .char '\n'
  | .blockComment _, _ => True
  | .quoted q _, t => t.text.head? ≠ some q

theorem text_ne_nil (t : SqlToken) : t.text ≠ [] := by
  cases t <;> exact List.cons_ne_nil _ _

end SqlToken

/-- The text of several tokens. -/
def textOf (ts : List SqlToken) : List Char := ts.flatMap SqlToken.text

@[simp] theorem textOf_nil : textOf [] = [] := rfl

@[simp] theorem textOf_cons (t : SqlToken) (ts : List SqlToken) :
    textOf (t :: ts) = t.text ++ textOf ts := List.flatMap_cons

@[simp] theorem textOf_append (ts ts' : List SqlToken) :
    textOf (ts ++ ts') = textOf ts ++ textOf ts' := List.flatMap_append

theorem head?_textOf_cons (t : SqlToken) (ts : List SqlToken) :
    (textOf (t :: ts)).head? = t.text.head? := by
  rw [textOf_cons, List.head?_append]
  obtain ⟨c, cs, hcs⟩ := List.exists_cons_of_ne_nil t.text_ne_nil
  rw [hcs]
  rfl

/-- Tokens that are read back from their text. -/
structure Tokenized (ts : List SqlToken) : Prop where
  wf : ∀ t ∈ ts, t.WF
  chain : ts.IsChain SqlToken.Compat

theorem tokenized_nil : Tokenized [] := ⟨nofun, .nil⟩

theorem Tokenized.cons {t : SqlToken} {ts : List SqlToken} (h : Tokenized ts) (ht : t.WF)
    (hcompat : ∀ u ∈ ts.head?, t.Compat u) : Tokenized (t :: ts) :=
  ⟨List.forall_mem_cons.mpr ⟨ht, h.wf⟩, List.IsChain.cons h.chain hcompat⟩

theorem Tokenized.tail {t : SqlToken} {ts : List SqlToken} (h : Tokenized (t :: ts)) :
    t.WF ∧ (∀ u ∈ ts.head?, t.Compat u) ∧ Tokenized ts :=
  ⟨h.wf t List.mem_cons_self, h.chain.rel_head?,
    fun u hu => h.wf u (List.mem_cons_of_mem _ hu), h.chain.tail⟩

/-! ### Reading -/

/-- What a text is read as, after an open comment or quote. -/
def ReadAs (cs : List Char) (ts : List SqlToken) : LexMode → Prop
  | .code => cs = textOf ts ∧ Tokenized ts
  | .line body => ∃ b ts', ts = .lineComment (body ++ b) :: ts' ∧ '\n' ∉ b ∧
      cs = b ++ textOf ts' ∧ Tokenized ts' ∧ ∀ u ∈ ts'.head?, u = .char '\n'
  | .block body => ∃ b ts', ts = .blockComment (body ++ b) :: ts' ∧
      (b ++ ['*']).IsChain (fun a b => ¬ (a = '*' ∧ b = '/')) ∧
        cs = b ++ '*' :: '/' :: textOf ts' ∧ Tokenized ts'
  | .quoted q body => ∃ b ts', ts = .quoted q (body ++ b) :: ts' ∧ SqlToken.QuotedBody q b ∧
      cs = b ++ q :: textOf ts' ∧ Tokenized ts' ∧ ∀ u ∈ ts'.head?, u.text.head? ≠ some q

theorem head?_of_textOf {c : Char} {cs : List Char} {ts : List SqlToken}
    (h : c :: cs = textOf ts) : ∀ u ∈ ts.head?, u.text.head? = some c := by
  intro u hu
  obtain ⟨ts', rfl⟩ := List.head?_eq_some_iff.mp hu
  rw [← head?_textOf_cons, ← h]
  rfl

theorem readAs_of_lexSql {mode : LexMode} {cs : List Char} {ts : List SqlToken}
    (h : lexSql mode cs = some ts) : ReadAs cs ts mode := by
  fun_induction lexSql mode cs generalizing ts with
  | case1 =>
    obtain rfl := Option.some.inj h
    exact ⟨rfl, tokenized_nil⟩
  | case2 cs ih =>
    obtain ⟨b, ts', rfl, hb, rfl, hts, hnext⟩ := ih h
    exact ⟨by simp [SqlToken.text], hts.cons hb hnext⟩
  | case3 cs ih =>
    obtain ⟨b, ts', rfl, hb, rfl, hts⟩ := ih h
    exact ⟨by simp [SqlToken.text], hts.cons hb fun _ _ => trivial⟩
  | case4 c cs hline hblock hq ih =>
    obtain ⟨b, ts', rfl, hb, rfl, hts, hnext⟩ := ih h
    exact ⟨by simp [SqlToken.text], hts.cons ⟨hq, hb⟩ hnext⟩
  | case5 c cs hline hblock hq ih =>
    obtain ⟨ts', hts', rfl⟩ := Option.map_eq_some_iff.mp h
    obtain ⟨rfl, hts⟩ := ih hts'
    refine ⟨rfl, hts.cons (Bool.eq_false_iff.mpr hq) fun u hu => ?_⟩
    obtain ⟨ts'', rfl⟩ := List.head?_eq_some_iff.mp hu
    constructor
    · rintro ⟨rfl, hhead⟩
      rw [← head?_textOf_cons u ts''] at hhead
      obtain ⟨cs', hcs'⟩ := List.head?_eq_some_iff.mp hhead
      exact hline cs' rfl hcs'
    · rintro ⟨rfl, hhead⟩
      rw [← head?_textOf_cons u ts''] at hhead
      obtain ⟨cs', hcs'⟩ := List.head?_eq_some_iff.mp hhead
      exact hblock cs' rfl hcs'
  | case6 body =>
    obtain rfl := Option.some.inj h
    exact ⟨[], [], by simp, List.not_mem_nil, rfl, tokenized_nil, nofun⟩
  | case7 body cs ih =>
    obtain ⟨ts', hts', rfl⟩ := Option.map_eq_some_iff.mp h
    obtain ⟨rfl, hts⟩ := ih hts'
    have hcompat : ∀ u ∈ ts'.head?, (SqlToken.char '\n').Compat u := fun u _ =>
      ⟨fun hu => absurd hu.1 (by decide), fun hu => absurd hu.1 (by decide)⟩
    exact ⟨[], .char '\n' :: ts', by simp, List.not_mem_nil, rfl,
      hts.cons (by decide : isQuote '\n' = false) hcompat,
      fun u hu => (Option.some.inj hu).symm⟩
  | case8 body c cs hc ih =>
    obtain ⟨b, ts', rfl, hb, rfl, hts, hnext⟩ := ih h
    refine ⟨c :: b, ts', by simp, ?_, rfl, hts, hnext⟩
    exact List.not_mem_cons_of_ne_of_not_mem (Ne.symm hc) hb
  | case9 => cases h
  | case10 body cs ih =>
    obtain ⟨ts', hts', rfl⟩ := Option.map_eq_some_iff.mp h
    obtain ⟨rfl, hts⟩ := ih hts'
    exact ⟨[], ts', by simp, .singleton _, rfl, hts⟩
  | case11 body c cs hclose ih =>
    obtain ⟨b, ts', rfl, hb, rfl, hts⟩ := ih h
    refine ⟨c :: b, ts', by simp, ?_, rfl, hts⟩
    refine List.IsChain.cons hb fun d hd => ?_
    rintro ⟨rfl, rfl⟩
    cases b with
    | nil => exact absurd (Option.some.inj hd) (by decide)
    | cons e b =>
      obtain rfl : e = '/' := Option.some.inj hd
      exact hclose _ rfl rfl
  | case12 => cases h
  | case13 q body c cs ih =>
    obtain ⟨b, ts', rfl, hb, rfl, hts, hnext⟩ := ih h
    exact ⟨'\\' :: c :: b, ts', by simp, .escaped c hb, rfl, hts, hnext⟩
  | case14 body q cs hback ih =>
    obtain ⟨b, ts', rfl, hb, rfl, hts, hnext⟩ := ih h
    exact ⟨q :: q :: b, ts', by simp, .doubled hb, rfl, hts, hnext⟩
  | case15 q body d cs hback hd ih =>
    obtain ⟨ts', hts', rfl⟩ := Option.map_eq_some_iff.mp h
    obtain ⟨heq, hts⟩ := ih hts'
    refine ⟨[], ts', by simp, .nil, by rw [heq]; rfl, hts, fun u hu hhead => hd ?_⟩
    rw [head?_of_textOf heq u hu] at hhead
    exact Option.some.inj hhead
  | case16 q body c d cs hback hc ih =>
    obtain ⟨b, ts', rfl, hb, heq, hts, hnext⟩ := ih h
    refine ⟨c :: b, ts', by simp, .char hc hback hb, by rw [heq]; rfl, hts, hnext⟩
  | case17 q body =>
    obtain rfl := Option.some.inj h
    exact ⟨[], [], by simp, .nil, rfl, tokenized_nil, nofun⟩
  | case18 => cases h

/-- **A statement is read as tokens** that have its text. -/
theorem tokenized_of_lexSql {cs : List Char} {ts : List SqlToken}
    (h : lexSql .code cs = some ts) : cs = textOf ts ∧ Tokenized ts := readAs_of_lexSql h

/-! ### Reading back -/

theorem lexSql_code_cons {c : Char} {cs : List Char} (hq : isQuote c = false)
    (hline : ¬ (c = '-' ∧ cs.head? = some '-')) (hblock : ¬ (c = '/' ∧ cs.head? = some '*')) :
    lexSql .code (c :: cs) = (lexSql .code cs).map fun ts => .char c :: ts := by
  rw [lexSql, if_neg (by rw [hq]; exact Bool.false_ne_true)]
  · rintro cs' rfl rfl
    exact hline ⟨rfl, rfl⟩
  · rintro cs' rfl rfl
    exact hblock ⟨rfl, rfl⟩

theorem lexSql_line {b : List Char} (hb : '\n' ∉ b) (body : List Char) {ts : List SqlToken}
    (hts : lexSql .code (textOf ts) = some ts) (hnext : ∀ u ∈ ts.head?, u = .char '\n') :
    lexSql (.line body) (b ++ textOf ts) = some (.lineComment (body ++ b) :: ts) := by
  induction b generalizing body with
  | nil =>
    cases ts with
    | nil => simp [lexSql]
    | cons t ts =>
      obtain rfl := hnext t rfl
      have hcode : lexSql .code (textOf ts) = some ts := by
        have hcons : lexSql .code ('\n' :: textOf ts) =
            (lexSql .code (textOf ts)).map fun ts => .char '\n' :: ts :=
          lexSql_code_cons (by decide) (fun h => absurd h.1 (by decide))
            fun h => absurd h.1 (by decide)
        rw [textOf_cons, SqlToken.text, List.singleton_append, hcons] at hts
        obtain ⟨ts', hts', heq⟩ := Option.map_eq_some_iff.mp hts
        rw [hts', (List.cons.inj heq).2]
      rw [textOf_cons, SqlToken.text, List.nil_append, List.singleton_append, lexSql, if_pos rfl,
        hcode, Option.map_some, List.append_nil]
  | cons c b ih =>
    obtain ⟨hc, hb⟩ := not_or.mp (List.mem_cons.not.mp hb)
    rw [List.cons_append, lexSql, if_neg (Ne.symm hc), ih hb, List.append_assoc]
    rfl

theorem not_closed {b : List Char} {c : Char}
    (h : (c :: b ++ ['*']).IsChain fun x y => ¬ (x = '*' ∧ y = '/')) (cs rest : List Char)
    (hc : c = '*') (heq : b ++ '*' :: '/' :: cs = '/' :: rest) : False := by
  cases b with
  | nil => exact absurd (List.cons.inj heq).1 (by decide)
  | cons d b =>
    obtain rfl : d = '/' := (List.cons.inj heq).1
    exact h.rel_head? rfl ⟨hc, rfl⟩

theorem lexSql_block {b : List Char}
    (hb : (b ++ ['*']).IsChain fun x y => ¬ (x = '*' ∧ y = '/')) (body cs : List Char) :
    lexSql (.block body) (b ++ '*' :: '/' :: cs) =
      (lexSql .code cs).map fun ts => .blockComment (body ++ b) :: ts := by
  induction b generalizing body with
  | nil => rw [List.nil_append, lexSql, List.append_nil]
  | cons c b ih =>
    have hstep : lexSql (.block body) (c :: (b ++ '*' :: '/' :: cs)) =
        lexSql (.block (body ++ [c])) (b ++ '*' :: '/' :: cs) := by
      rw [lexSql]
      exact not_closed hb cs
    rw [List.cons_append, hstep, ih hb.tail, List.append_assoc]
    rfl

theorem lexSql_quoted {q : Char} (hq : q ≠ '\\') {b : List Char} (hb : SqlToken.QuotedBody q b)
    (body : List Char) {cs : List Char} (hnext : cs.head? ≠ some q) :
    lexSql (.quoted q body) (b ++ q :: cs) =
      (lexSql .code cs).map fun ts => .quoted q (body ++ b) :: ts := by
  induction hb generalizing body with
  | nil =>
    cases cs with
    | nil => simp [lexSql]
    | cons d cs =>
      have hd : d ≠ q := fun h => hnext (congrArg some h)
      have hstep : lexSql (.quoted q body) (q :: d :: cs) =
          (lexSql .code (d :: cs)).map fun ts => .quoted q body :: ts := by
        conv_lhs => rw [lexSql.eq_def]
        simp only [if_pos, if_neg hd]
      rw [List.nil_append, hstep, List.append_nil]
  | @char c b hc hback hb ih =>
    obtain ⟨d, rest, hrest⟩ : ∃ d rest, b ++ q :: cs = d :: rest :=
      List.exists_cons_of_ne_nil (by simp)
    have hstep : lexSql (.quoted q body) (c :: d :: rest) =
        lexSql (.quoted q (body ++ [c])) (d :: rest) := by
      rw [lexSql, if_neg hc]
      exact fun h => absurd h hback
    rw [List.cons_append, hrest, hstep, ← hrest, ih, List.append_assoc]
    rfl
  | @escaped c b hb ih =>
    rw [List.cons_append, List.cons_append, lexSql, ih, List.append_assoc]
    rfl
  | @doubled b hb ih =>
    rw [List.cons_append, List.cons_append, lexSql, if_pos rfl, if_pos rfl, ih, List.append_assoc]
    · rfl
    · exact fun h => absurd h hq

theorem lexSql_code_quote {q : Char} (h : isQuote q = true) (cs : List Char) :
    lexSql .code (q :: cs) = lexSql (.quoted q []) cs := by
  rw [lexSql, if_pos h]
  · rintro cs' rfl rfl
    exact absurd h (by decide)
  · rintro cs' rfl rfl
    exact absurd h (by decide)

theorem head?_textOf_eq_some {ts : List SqlToken} {c : Char} (h : (textOf ts).head? = some c) :
    ∃ u ∈ ts.head?, u.text.head? = some c := by
  cases ts with
  | nil => cases h
  | cons u ts =>
    rw [head?_textOf_cons] at h
    exact ⟨u, rfl, h⟩

/-- **Tokens are read back from their text.** -/
theorem lexSql_textOf {ts : List SqlToken} (h : Tokenized ts) :
    lexSql .code (textOf ts) = some ts := by
  induction ts with
  | nil => rfl
  | cons t ts ih =>
    obtain ⟨hwf, hcompat, hts⟩ := h.tail
    have hcode := ih hts
    rw [textOf_cons]
    cases t with
    | char c =>
      rw [SqlToken.text, List.singleton_append, lexSql_code_cons hwf, hcode, Option.map_some]
      · rintro ⟨hc, hhead⟩
        obtain ⟨u, hu, hhead⟩ := head?_textOf_eq_some hhead
        exact (hcompat u hu).1 ⟨hc, hhead⟩
      · rintro ⟨hc, hhead⟩
        obtain ⟨u, hu, hhead⟩ := head?_textOf_eq_some hhead
        exact (hcompat u hu).2 ⟨hc, hhead⟩
    | lineComment body =>
      rw [SqlToken.text, List.cons_append, List.cons_append, lexSql,
        lexSql_line hwf [] hcode hcompat]
      rfl
    | blockComment body =>
      rw [SqlToken.text, List.cons_append, List.cons_append, List.append_assoc, lexSql]
      exact (lexSql_block hwf [] (textOf ts)).trans (by rw [hcode]; rfl)
    | quoted q body =>
      obtain ⟨hq, hbody⟩ := hwf
      have hnext : (textOf ts).head? ≠ some q := by
        intro hhead
        obtain ⟨u, hu, hhead⟩ := head?_textOf_eq_some hhead
        exact hcompat u hu hhead
      rw [SqlToken.text, List.cons_append, List.append_assoc, lexSql_code_quote hq,
        List.singleton_append, lexSql_quoted (ne_of_isQuote hq (by decide)) hbody [] hnext, hcode]
      rfl

end NextRole
