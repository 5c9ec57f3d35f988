import NextRole.Lib.Trimming
import NextRole.ObjectFiles
import NextRole.SqlTokens

/-!
# Read statements

The classification takes a statement apart by regular expressions: first the comments to the end of
a line go, then the block comments, then the literals.  Where no literal or quoted name holds a mark
of a comment, and no comment one that is looked for before it, this leaves what the tokens of the
statement leave, and the classification accepts single read statements alone.

## Main definitions

* `ReadStatement` — one statement with a keyword that may be read.
* `SqlToken.blanked` — what is left of a token.
* `PlainTokens`, `PlainEnds` — the regular expressions find the tokens, and the ends are read.

## Main results

* `stripNoise_textOf` — what is left of tokens.
* `classify_iff` — **when only single read statements pass**, and `not_classify`.
-/

namespace NextRole

/-! ### Read statements -/

/-- White space and comments. -/
def SqlToken.isTrivia : SqlToken → Bool
  | .char c => isSpace c
  | .lineComment _ => true
  | .blockComment _ => true
  | .quoted _ _ => false

/-- A semicolon. -/
def SqlToken.isSemicolon (t : SqlToken) : Bool := t = .char ';'

/-- The tokens without the semicolons and comments at the end. -/
def statementTokens (ts : List SqlToken) : List SqlToken :=
  ts.rdropWhile fun t => t.isTrivia || t.isSemicolon

/-- The characters of the word at which the tokens start. -/
def wordOf : List SqlToken → List Char
  | .char c :: ts => if isAsciiAlnum c || c = '_' then c :: wordOf ts else []
  | _ => []

/-- The first word of a statement, which may stand in parentheses. -/
def firstWord (ts : List SqlToken) : List Char :=
  wordOf (ts.dropWhile fun t => t.isTrivia || t = .char '(')

/-- A text in upper case. -/
def upperText (l : List Char) : String := String.ofList (l.map Char.toUpper)

/-- One statement, perhaps followed by semicolons and comments, with a keyword that may be read.
White space around it is of no account. -/
def ReadStatement (sql : String) : Prop :=
  ∃ ts, lexSql .code (strip sql).toList = some ts ∧ .char ';' ∉ statementTokens ts ∧
    upperText (firstWord ts) ∈ allowedLeads

/-! ### Statements that are read plainly -/

/-- A backslash in front of a line feed, where it takes the line feed with it. -/
def escapesNewline : List Char → Bool
  | [] => false
  | '\\' :: c :: cs => c = '\n' || escapesNewline cs
  | _ :: cs => escapesNewline cs

/-- Two characters that do not come one after the other. -/
def NoPair (a b : Char) (l : List Char) : Prop := l.IsChain fun x y => ¬ (x = a ∧ y = b)

instance (a b : Char) (l : List Char) : Decidable (NoPair a b l) :=
  inferInstanceAs (Decidable (l.IsChain _))

/-- What is left of a token: a blank of a comment, and the quotes of a literal. -/
def SqlToken.blanked : SqlToken → SqlToken
  | .char c => .char c
  | .lineComment _ => .char ' '
  | .blockComment _ => .char ' '
  | .quoted q body => if q = '\'' then .quoted q [] else .quoted q body

/-- A comment is as good as a blank. -/
def SqlToken.uncommented : SqlToken → SqlToken
  | .lineComment _ => .char ' '
  | .blockComment _ => .char ' '
  | t => t

/-- Blanks of the comments to the end of a line. -/
def SqlToken.lineBlanked : SqlToken → SqlToken
  | .lineComment _ => .char ' '
  | t => t

/-- A token in which no regular expression for another token matches, with the tokens after it: a
block comment or quotes without `--`, quotes in which there is no `/*` or no `*/` comes in or after
it, a literal without a line feed after a backslash, and a quoted name in which there is no quote of
a literal, or none after it, and no semicolon. -/
def SqlToken.PlainBefore (ts : List SqlToken) : SqlToken → Prop
  | .char _ => True
  | .lineComment _ => True
  | .blockComment body => NoPair '-' '-' body
  | .quoted q body => NoPair '-' '-' body ∧
    (NoPair '/' '*' body ∨ NoPair '*' '/' (body ++ q :: textOf (ts.map SqlToken.lineBlanked))) ∧
      if q = '\'' then escapesNewline body = false
      else ('\'' ∉ body ∨ (body ++ textOf (ts.map SqlToken.uncommented)).count '\'' ≤ 1) ∧
        ';' ∉ body

instance (ts : List SqlToken) : (t : SqlToken) → Decidable (t.PlainBefore ts)
  | .char _ => isTrue trivial
  | .lineComment _ => isTrue trivial
  | .blockComment body => inferInstanceAs (Decidable (NoPair '-' '-' body))
  | .quoted q body => inferInstanceAs (Decidable (NoPair '-' '-' body ∧
      (NoPair '/' '*' body ∨
        NoPair '*' '/' (body ++ q :: textOf (ts.map SqlToken.lineBlanked))) ∧
      if q = '\'' then escapesNewline body = false
      else ('\'' ∉ body ∨ (body ++ textOf (ts.map SqlToken.uncommented)).count '\'' ≤ 1) ∧
        ';' ∉ body))

/-- Tokens that the regular expressions find. -/
def PlainTokens : List SqlToken → Prop
  | [] => True
  | t :: ts => t.PlainBefore ts ∧ PlainTokens ts

instance decidablePlainTokens : (ts : List SqlToken) → Decidable (PlainTokens ts)
  | [] => isTrue trivial
  | t :: ts => @instDecidableAnd (t.PlainBefore ts) (PlainTokens ts) _ (decidablePlainTokens ts)

/-- The first run of letters. -/
def letterRun (l : List Char) : List Char := l.firstRun isAsciiLetter

/-- What is left of the tokens after one round of semicolons at the end. -/
def cutTokens (ts : List SqlToken) : List SqlToken :=
  ((ts.rdropWhile SqlToken.isTrivia).rdropWhile SqlToken.isSemicolon).rdropWhile SqlToken.isTrivia

/-- The semicolons and the first letters of a statement are taken for what they are: the semicolons
at the end of a read statement stand together, and if the first letters outside of comments and
literals are a keyword that may be read, they are the first word. -/
structure PlainEnds (ts : List SqlToken) : Prop where
  semicolons : upperText (firstWord ts) ∈ allowedLeads →
    (cutTokens ts).getLast? = some (.char ';') → .char ';' ∈ statementTokens ts
  lead : .char ';' ∉ cutTokens ts →
    upperText (letterRun (textOf (ts.map SqlToken.blanked))) ∈ allowedLeads →
      firstWord ts = letterRun (textOf (ts.map SqlToken.blanked))

/-! ### One regular expression after the other -/

/-- What leaves characters that do not start a match leaves a text without matches. -/
theorem append_of_noPair {f : List Char → List Char} {a b : Char}
    (hf : ∀ c cs, ¬ (c = a ∧ cs.head? = some b) → f (c :: cs) = c :: f cs) {x : List Char}
    (hx : NoPair a b x) (hlast : x.getLast? ≠ some a) (cs : List Char) :
    f (x ++ cs) = x ++ f cs := by
  induction x with
  | nil => rfl
  | cons c x ih =>
    have hstep : ¬ (c = a ∧ (x ++ cs).head? = some b) := by
      rintro ⟨rfl, hhead⟩
      cases x with
      | nil => exact hlast rfl
      | cons d x => exact hx.rel_head? rfl ⟨rfl, Option.some.inj hhead⟩
    have hlast' : x.getLast? ≠ some a := by
      cases x with
      | nil => exact nofun
      | cons d x => rwa [List.getLast?_cons_cons] at hlast
    rw [List.cons_append, hf c _ hstep, ih hx.tail hlast', List.cons_append]

theorem NoPair.cons {a b c : Char} {l : List Char} (h : NoPair a b l) (hc : c ≠ a) :
    NoPair a b (c :: l) := List.IsChain.cons h fun _ _ hab => hc hab.1

theorem NoPair.concat {a b c : Char} {l : List Char} (h : NoPair a b l) (hc : c ≠ b) :
    NoPair a b (l ++ [c]) := by
  refine List.IsChain.append h (.singleton c) fun x _ y hy hab => hc ?_
  rw [← hab.2]
  exact Option.some.inj hy

theorem subLineComments_cons (c : Char) (cs : List Char) (h : ¬ (c = '-' ∧ cs.head? = some '-')) :
    subLineComments false (c :: cs) = c :: subLineComments false cs := by
  rw [subLineComments]
  rintro cs' rfl rfl
  exact h ⟨rfl, rfl⟩

theorem subBlockComments_cons (c : Char) (cs : List Char)
    (h : ¬ (c = '/' ∧ cs.head? = some '*')) :
    subBlockComments false (c :: cs) = c :: subBlockComments false cs := by
  rw [subBlockComments]
  rintro cs' rfl rfl
  exact h ⟨rfl, rfl⟩

theorem closesBlock_of_noPair {l : List Char} (h : NoPair '*' '/' l) : closesBlock l = false := by
  induction l with
  | nil => rfl
  | cons c l ih =>
    rw [closesBlock, ih h.tail]
    rintro l' rfl rfl
    exact h.rel_head? rfl ⟨rfl, rfl⟩

theorem subBlockComments_of_noPair {l : List Char} (h : NoPair '*' '/' l) :
    subBlockComments false l = l := by
  induction l with
  | nil => rfl
  | cons c l ih =>
    by_cases hopen : c = '/' ∧ l.head? = some '*'
    · obtain ⟨rfl, hhead⟩ := hopen
      obtain ⟨l', rfl⟩ := List.head?_eq_some_iff.mp hhead
      have hclose : closesBlock l' = false := closesBlock_of_noPair h.tail.tail
      rw [subBlockComments, hclose, if_neg Bool.false_ne_true, ih h.tail]
    · rw [subBlockComments_cons c l hopen, ih h.tail]

theorem subLiterals_cons {c : Char} (h : c ≠ '\'') (cs : List Char) :
    subLiterals 0 (c :: cs) = c :: subLiterals 0 cs := by
  rw [subLiterals]
  exact h

/-- A comment goes up to the end of its line. -/
theorem subLineComments_comment {b : List Char} (hb : '\n' ∉ b) {cs : List Char}
    (hcs : ∀ c ∈ cs.head?, c = '\n') :
    subLineComments true (b ++ cs) = subLineComments false cs := by
  induction b with
  | nil =>
    cases cs with
    | nil => rfl
    | cons c cs =>
      obtain rfl := hcs c rfl
      rw [List.nil_append, subLineComments, if_pos rfl]
      exact (subLineComments_cons _ cs fun h => absurd h.1 (by decide)).symm
  | cons c b ih =>
    obtain ⟨hc, hb⟩ := not_or.mp (List.mem_cons.not.mp hb)
    rw [List.cons_append, subLineComments, if_neg (Ne.symm hc), ih hb]

/-- A comment goes up to its first end. -/
theorem subBlockComments_comment {b : List Char}
    (hb : (b ++ ['*']).IsChain fun x y => ¬ (x = '*' ∧ y = '/')) (cs : List Char) :
    closesBlock (b ++ '*' :: '/' :: cs) = true ∧
      subBlockComments true (b ++ '*' :: '/' :: cs) = subBlockComments false cs := by
  induction b with
  | nil => exact ⟨rfl, rfl⟩
  | cons c b ih =>
    obtain ⟨hclose, hsub⟩ := ih hb.tail
    rw [List.cons_append, closesBlock, subBlockComments]
    · exact ⟨hclose, hsub⟩
    · exact not_closed hb cs
    · exact not_closed hb cs

/-- A literal without a line feed after a backslash ends at its quote. -/
theorem literalEnd_body {b : List Char} (hb : SqlToken.QuotedBody '\'' b)
    (hescape : escapesNewline b = false) {cs : List Char} (hcs : cs.head? ≠ some '\'') :
    literalEnd (b ++ '\'' :: cs) = some cs := by
  induction hb with
  | nil =>
    rw [List.nil_append, literalEnd]
    rintro cs' rfl
    exact hcs rfl
  | @char c b hq hback hb ih =>
    rw [escapesNewline] at hescape
    · rw [List.cons_append, literalEnd, ih hescape]
      · exact fun _ h => absurd h hq
      · exact hq
      · exact fun _ _ h => absurd h hback
      · exact fun h => absurd h hback
    · exact fun _ _ h => absurd h hback
  | @escaped c b hb ih =>
    rw [escapesNewline, Bool.or_eq_false_iff, decide_eq_false_iff_not] at hescape
    rw [List.cons_append, List.cons_append, literalEnd, if_neg hescape.1, ih hescape.2]
  | @doubled b hb ih =>
    have hescape' : escapesNewline b = false := by
      rw [escapesNewline, escapesNewline] at hescape
      · exact hescape
      all_goals exact fun _ _ h => absurd h (by decide)
    rw [List.cons_append, List.cons_append, literalEnd, ih hescape']
    rfl

theorem subLiterals_skip (x cs : List Char) :
    subLiterals x.length (x ++ cs) = subLiterals 0 cs := by
  induction x with
  | nil => rfl
  | cons c x ih => rw [List.cons_append, List.length_cons, subLiterals, ih]

theorem subLiterals_literal {b : List Char} (hb : SqlToken.QuotedBody '\'' b)
    (hescape : escapesNewline b = false) {cs : List Char} (hcs : cs.head? ≠ some '\'') :
    subLiterals 0 ('\'' :: (b ++ '\'' :: cs)) = '\'' :: '\'' :: subLiterals 0 cs := by
  have hskip := subLiterals_skip (b ++ ['\'']) cs
  have hlen : (b ++ '\'' :: cs).length - cs.length = (b ++ ['\'']).length := by
    simp only [List.length_append, List.length_cons, List.length_nil]
    omega
  rw [List.append_assoc, List.singleton_append] at hskip
  rw [subLiterals, literalEnd_body hb hescape hcs]
  dsimp only
  rw [hlen, hskip]

/-! ### Tokens that are blanked -/

/-- A change of tokens that makes blanks of comments and changes what is quoted. -/
structure Blanking (f : SqlToken → SqlToken) : Prop where
  char : ∀ c, f (.char c) = .char c
  line : ∀ b, f (.lineComment b) = .lineComment b ∨ f (.lineComment b) = .char ' '
  block : ∀ b, f (.blockComment b) = .blockComment b ∨ f (.blockComment b) = .char ' '
  quoted : ∀ q b, ∃ b', f (.quoted q b) = .quoted q b' ∧
    (SqlToken.QuotedBody q b → SqlToken.QuotedBody q b')

theorem wf_char_space : (SqlToken.char ' ').WF := (by decide : isQuote ' ' = false)

theorem compat_char_space (u : SqlToken) : (SqlToken.char ' ').Compat u :=
  ⟨fun h => absurd h.1 (by decide), fun h => absurd h.1 (by decide)⟩

theorem Blanking.head {f : SqlToken → SqlToken} (hf : Blanking f) (u : SqlToken) :
    (f u).text.head? = u.text.head? ∨ f u = .char ' ' := by
  cases u with
  | char c => exact .inl (by rw [hf.char])
  | lineComment b => exact (hf.line b).imp_left fun h => by rw [h]
  | blockComment b => exact (hf.block b).imp_left fun h => by rw [h]
  | quoted q b =>
    obtain ⟨b', hb', -⟩ := hf.quoted q b
    exact .inl (by rw [hb']; rfl)

theorem Blanking.compat {f : SqlToken → SqlToken} (hf : Blanking f) {t u : SqlToken} (ht : t.WF)
    (h : t.Compat u) : (f t).Compat (f u) := by
  cases t with
  | char c =>
    rw [hf.char]
    rcases hf.head u with hu | hu
    · exact ⟨by rw [hu]; exact h.1, by rw [hu]; exact h.2⟩
    · rw [hu]
      exact ⟨fun hd => absurd hd.2 (by decide), fun hd => absurd hd.2 (by decide)⟩
  | lineComment b =>
    obtain rfl : u = .char '\n' := h
    rw [hf.char]
    rcases hf.line b with hb | hb
    · rw [hb]
      rfl
    · rw [hb]
      exact compat_char_space _
  | blockComment b =>
    rcases hf.block b with hb | hb
    · rw [hb]
      trivial
    · rw [hb]
      exact compat_char_space _
  | quoted q b =>
    obtain ⟨b', hb', -⟩ := hf.quoted q b
    rw [hb']
    rcases hf.head u with hu | hu
    · exact fun hd => h (hu ▸ hd)
    · rw [hu]
      intro hd
      obtain rfl : ' ' = q := Option.some.inj hd
      exact absurd ht.1 (by decide)

theorem Blanking.wf {f : SqlToken → SqlToken} (hf : Blanking f) {t : SqlToken} (ht : t.WF) :
    (f t).WF := by
  cases t with
  | char c => rwa [hf.char]
  | lineComment b =>
    rcases hf.line b with hb | hb
    · rwa [hb]
    · rw [hb]
      exact wf_char_space
  | blockComment b =>
    rcases hf.block b with hb | hb
    · rwa [hb]
    · rw [hb]
      exact wf_char_space
  | quoted q b =>
    obtain ⟨b', hb', hbody⟩ := hf.quoted q b
    rw [hb']
    exact ⟨ht.1, hbody ht.2⟩

theorem Tokenized.map {f : SqlToken → SqlToken} (hf : Blanking f) {ts : List SqlToken}
    (h : Tokenized ts) : Tokenized (ts.map f) := by
  induction ts with
  | nil => exact tokenized_nil
  | cons t ts ih =>
    obtain ⟨hwf, hcompat, hts⟩ := h.tail
    refine (ih hts).cons (hf.wf hwf) fun u hu => ?_
    rw [List.head?_map] at hu
    obtain ⟨u', hu', rfl⟩ := Option.map_eq_some_iff.mp hu
    exact hf.compat hwf (hcompat u' hu')

/-- Blanks of the block comments. -/
def SqlToken.blockBlanked : SqlToken → SqlToken
  | .blockComment _ => .char ' '
  | t => t

theorem blanking_lineBlanked : Blanking SqlToken.lineBlanked :=
  ⟨fun _ => rfl, fun _ => .inr rfl, fun _ => .inl rfl, fun _ b => ⟨b, rfl, id⟩⟩

theorem blanking_blockBlanked : Blanking SqlToken.blockBlanked :=
  ⟨fun _ => rfl, fun _ => .inl rfl, fun _ => .inr rfl, fun _ b => ⟨b, rfl, id⟩⟩

theorem blanking_blanked : Blanking SqlToken.blanked := by
  refine ⟨fun _ => rfl, fun _ => .inr rfl, fun _ => .inr rfl, fun q b => ?_⟩
  rw [SqlToken.blanked]
  split
  · exact ⟨[], rfl, fun _ => .nil⟩
  · exact ⟨b, rfl, id⟩

theorem uncommented_eq (t : SqlToken) : t.lineBlanked.blockBlanked = t.uncommented := by
  cases t <;> rfl

theorem not_isSpace_of_isQuote {q : Char} (h : isQuote q = true) : isSpace q = false :=
  not_of_isQuote (by decide) (by decide) (by decide) h

theorem not_semicolon_of_isQuote {q : Char} (h : isQuote q = true) : decide (q = ';') = false :=
  decide_eq_false (ne_of_isQuote h (by decide))

theorem getLast?_blockComment (b : List Char) :
    ('/' :: '*' :: (b ++ ['*', '/'])).getLast? = some '/' := by
  have hsplit : '/' :: '*' :: (b ++ ['*', '/']) = ('/' :: '*' :: (b ++ ['*'])) ++ ['/'] := by simp
  rw [hsplit, List.getLast?_concat]

theorem getLast?_quoted (q : Char) (b : List Char) : (q :: (b ++ [q])).getLast? = some q := by
  rw [← List.cons_append, List.getLast?_concat]

/-- What is left of the comments to the end of a line. -/
theorem subLineComments_textOf {ts : List SqlToken} (h : Tokenized ts) (hplain : PlainTokens ts) :
    subLineComments false (textOf ts) = textOf (ts.map SqlToken.lineBlanked) := by
  induction ts with
  | nil => rfl
  | cons t ts ih =>
    obtain ⟨hwf, hcompat, hts⟩ := h.tail
    obtain ⟨ht, hplain⟩ := hplain
    have hrest := ih hts hplain
    rw [List.map_cons, textOf_cons, textOf_cons, ← hrest]
    cases t with
    | char c =>
      refine subLineComments_cons c _ fun hd => ?_
      obtain ⟨u, hu, hhead⟩ := head?_textOf_eq_some hd.2
      exact (hcompat u hu).1 ⟨hd.1, hhead⟩
    | lineComment b =>
      have hnext : ∀ c ∈ (textOf ts).head?, c = '\n' := by
        intro c hc
        obtain ⟨u, hu, hhead⟩ := head?_textOf_eq_some hc
        rw [show u = .char '\n' from hcompat u hu] at hhead
        exact (Option.some.inj hhead).symm
      rw [SqlToken.text, List.cons_append, List.cons_append, subLineComments,
        subLineComments_comment hwf hnext]
      rfl
    | blockComment b =>
      have hb : NoPair '-' '-' ('/' :: '*' :: (b ++ ['*', '/'])) := by
        have htail : NoPair '-' '-' (b ++ ['*'] ++ ['/']) :=
          (NoPair.concat ht (by decide)).concat (by decide)
        rw [List.append_assoc] at htail
        exact (htail.cons (by decide)).cons (by decide)
      refine append_of_noPair subLineComments_cons hb ?_ _
      rw [getLast?_blockComment]
      decide
    | quoted q b =>
      have hq : q ≠ '-' := ne_of_isQuote hwf.1 (by decide)
      have hb : NoPair '-' '-' (q :: (b ++ [q])) := (ht.1.concat hq).cons hq
      refine append_of_noPair subLineComments_cons hb ?_ _
      rw [getLast?_quoted]
      exact fun hlast => hq (Option.some.inj hlast)

/-- What is left of the block comments. -/
theorem subBlockComments_textOf {ts : List SqlToken} (h : Tokenized (ts.map SqlToken.lineBlanked))
    (hplain : PlainTokens ts) :
    subBlockComments false (textOf (ts.map SqlToken.lineBlanked)) =
      textOf (ts.map SqlToken.uncommented) := by
  induction ts with
  | nil => rfl
  | cons t ts ih =>
    obtain ⟨hwf, hcompat, hts⟩ := h.tail
    obtain ⟨ht, hplain⟩ := hplain
    have hrest := ih hts hplain
    have hchar : ∀ c, t.lineBlanked = .char c → subBlockComments false
        (c :: textOf (ts.map SqlToken.lineBlanked)) =
          c :: subBlockComments false (textOf (ts.map SqlToken.lineBlanked)) := by
      intro c hc
      refine subBlockComments_cons c _ fun hd => ?_
      obtain ⟨u, hu, hhead⟩ := head?_textOf_eq_some hd.2
      have hcu := hcompat u hu
      rw [hc] at hcu
      exact hcu.2 ⟨hd.1, hhead⟩
    rw [List.map_cons, List.map_cons, textOf_cons, textOf_cons, ← hrest]
    cases t with
    | char c => exact hchar c rfl
    | lineComment b => exact hchar ' ' rfl
    | blockComment b =>
      obtain ⟨hclose, hsub⟩ :=
        subBlockComments_comment hwf (textOf (ts.map SqlToken.lineBlanked))
      have htext : (SqlToken.blockComment b).text ++ textOf (ts.map SqlToken.lineBlanked) =
          '/' :: '*' :: (b ++ '*' :: '/' :: textOf (ts.map SqlToken.lineBlanked)) := by
        simp [SqlToken.text]
      exact (congrArg _ htext).trans ((if_pos hclose).trans (congrArg _ hsub))
    | quoted q b =>
      have hq : q ≠ '/' := ne_of_isQuote hwf.1 (by decide)
      have hstar : q ≠ '*' := ne_of_isQuote hwf.1 (by decide)
      rcases ht.2.1 with hopen | hclose
      · have hb : NoPair '/' '*' (q :: (b ++ [q])) := (hopen.concat hstar).cons hq
        refine append_of_noPair subBlockComments_cons hb ?_ _
        rw [getLast?_quoted]
        exact fun hlast => hq (Option.some.inj hlast)
      · -- no comment ends from here on, so none is taken off
        have hall : NoPair '*' '/' (SqlToken.text (.quoted q b) ++
            textOf (ts.map SqlToken.lineBlanked)) := by
          rw [SqlToken.text, List.cons_append, List.append_assoc]
          exact hclose.cons hstar
        have hafter : NoPair '*' '/' (textOf (ts.map SqlToken.lineBlanked)) :=
          List.IsChain.right_of_append hall
        exact (subBlockComments_of_noPair hall).trans
          (congrArg _ (subBlockComments_of_noPair hafter).symm)

theorem subLiterals_of_not_mem {x : List Char} (hx : '\'' ∉ x) (cs : List Char) :
    subLiterals 0 (x ++ cs) = x ++ subLiterals 0 cs := by
  induction x with
  | nil => rfl
  | cons c x ih =>
    obtain ⟨hc, hx⟩ := not_or.mp (List.mem_cons.not.mp hx)
    rw [List.cons_append, subLiterals_cons (Ne.symm hc), ih hx, List.cons_append]

theorem literalEnd_of_not_mem {l : List Char} (h : '\'' ∉ l) : literalEnd l = none := by
  fun_induction literalEnd l with
  | case1 => rfl
  | case2 => exact absurd List.mem_cons_self h
  | case3 => exact absurd List.mem_cons_self h
  | case4 => rfl
  | case5 c cs hc ih => exact ih fun hmem => h (by simp [hmem])
  | case6 => rfl
  | case7 c cs hdouble hquote hback hend ih => exact ih fun hmem => h (List.mem_cons_of_mem _ hmem)

/-- No literal is taken off a text with one quote. -/
theorem subLiterals_of_count {l : List Char} (h : l.count '\'' ≤ 1) : subLiterals 0 l = l := by
  induction l with
  | nil => rfl
  | cons c l ih =>
    by_cases hc : c = '\''
    · subst hc
      rw [List.count_cons_self] at h
      have hnone : '\'' ∉ l := List.count_eq_zero.mp (by omega)
      have hself := subLiterals_of_not_mem hnone []
      rw [List.append_nil] at hself
      rw [subLiterals, literalEnd_of_not_mem hnone]
      dsimp only
      rw [hself]
      simp [subLiterals]
    · rw [List.count_cons_of_ne hc] at h
      rw [subLiterals_cons hc, ih h]

/-- What is left of the literals. -/
theorem subLiterals_textOf {ts : List SqlToken}
    (h : Tokenized (ts.map SqlToken.uncommented)) (hplain : PlainTokens ts) :
    subLiterals 0 (textOf (ts.map SqlToken.uncommented)) =
      textOf (ts.map SqlToken.blanked) := by
  induction ts with
  | nil => rfl
  | cons t ts ih =>
    obtain ⟨hwf, hcompat, hts⟩ := h.tail
    obtain ⟨ht, hplain⟩ := hplain
    have hrest := ih hts hplain
    have hchar : ∀ c, isQuote c = false → subLiterals 0
        (c :: textOf (ts.map SqlToken.uncommented)) =
          c :: subLiterals 0 (textOf (ts.map SqlToken.uncommented)) := by
      intro c hc
      refine subLiterals_cons ?_ _
      rintro rfl
      exact absurd hc (by decide)
    rw [List.map_cons, List.map_cons, textOf_cons, textOf_cons, ← hrest]
    cases t with
    | char c => exact hchar c hwf
    | lineComment b => exact hchar ' ' (by decide)
    | blockComment b => exact hchar ' ' (by decide)
    | quoted q b =>
      obtain ⟨hq, hbody⟩ := hwf
      have hnext : (textOf (ts.map SqlToken.uncommented)).head? ≠ some q := by
        intro hhead
        obtain ⟨u, hu, hhead⟩ := head?_textOf_eq_some hhead
        exact hcompat u hu hhead
      have hescape := ht.2.2
      by_cases hlit : q = '\''
      · subst hlit
        rw [if_pos rfl] at hescape
        have hsub := subLiterals_literal hbody hescape hnext
        have htext : (SqlToken.quoted '\'' b).text ++ textOf (ts.map SqlToken.uncommented) =
            '\'' :: (b ++ '\'' :: textOf (ts.map SqlToken.uncommented)) := by
          simp [SqlToken.text]
        exact (congrArg _ htext).trans hsub
      · rw [if_neg hlit] at hescape
        have hbl : (SqlToken.quoted q b).blanked = .quoted q b := if_neg hlit
        rw [hbl]
        rcases hescape.1 with hnone | hone
        · have hmem : '\'' ∉ q :: (b ++ [q]) := by
            rw [List.mem_cons, List.mem_append, List.mem_singleton]
            rintro (heq | hmem | heq)
            · exact hlit heq.symm
            · exact hnone hmem
            · exact hlit heq.symm
          exact subLiterals_of_not_mem hmem _
        · -- the one quote from here on opens no literal
          have hall : (SqlToken.text (.quoted q b) ++
              textOf (ts.map SqlToken.uncommented)).count '\'' ≤ 1 := by
            rw [SqlToken.text, List.cons_append, List.count_cons_of_ne hlit, List.append_assoc,
              List.count_append, List.singleton_append, List.count_cons_of_ne hlit,
              ← List.count_append]
            exact hone
          have hafter : (textOf (ts.map SqlToken.uncommented)).count '\'' ≤ 1 := by
            rw [List.count_append] at hall
            omega
          exact (subLiterals_of_count hall).trans
            (congrArg _ (subLiterals_of_count hafter).symm)

/-- **What is left of tokens** that the regular expressions find. -/
theorem stripNoise_textOf {ts : List SqlToken} (h : Tokenized ts) (hplain : PlainTokens ts) :
    stripNoise (textOf ts) = textOf (ts.map SqlToken.blanked) := by
  have hline := h.map blanking_lineBlanked
  have hblock := hline.map blanking_blockBlanked
  rw [List.map_map, show SqlToken.blockBlanked ∘ SqlToken.lineBlanked = SqlToken.uncommented from
    funext uncommented_eq] at hblock
  rw [stripNoise, subLineComments_textOf h hplain, subBlockComments_textOf hline hplain,
    subLiterals_textOf hblock hplain]

/-! ### Trimming -/

/-- A character that is a token. -/
def SqlToken.is (p : Char → Bool) : SqlToken → Bool
  | .char c => p c
  | _ => false

/-- A token of which nothing goes, and which hides no semicolon. -/
def SqlToken.Kept (t : SqlToken) : Prop :=
  t.blanked = t ∧ t.WF ∧ ∀ q body, t = .quoted q body → ';' ∉ body

theorem SqlToken.is_iff {p : Char → Bool} {t : SqlToken} :
    t.is p = true ↔ ∃ c, t = .char c ∧ p c = true := by
  cases t <;> simp [SqlToken.is]

/-- Characters in front of tokens of which nothing goes. -/
theorem textOf_dropWhile {p : Char → Bool} (hp : ∀ c, isQuote c = true → p c = false)
    {ts : List SqlToken} (h : ∀ t ∈ ts, t.Kept) :
    (textOf ts).dropWhile p = textOf (ts.dropWhile (SqlToken.is p)) := by
  induction ts with
  | nil => rfl
  | cons t ts ih =>
    obtain ⟨ht, hts⟩ := List.forall_mem_cons.mp h
    cases t with
    | char c =>
      by_cases hc : p c = true
      · rw [List.dropWhile_cons_of_pos (show SqlToken.is p (.char c) = true from hc), ← ih hts]
        exact List.dropWhile_cons_of_pos hc
      · rw [List.dropWhile_cons_of_neg (show ¬ SqlToken.is p (.char c) = true from hc)]
        exact List.dropWhile_cons_of_neg hc
    | lineComment b => exact absurd ht.1 nofun
    | blockComment b => exact absurd ht.1 nofun
    | quoted q b =>
      rw [List.dropWhile_cons_of_neg Bool.false_ne_true]
      refine List.dropWhile_cons_of_neg ?_
      rw [hp q ht.2.1.1]
      exact Bool.false_ne_true

/-- Characters at the end of tokens of which nothing goes. -/
theorem textOf_rdropWhile {p : Char → Bool} (hp : ∀ c, isQuote c = true → p c = false)
    {ts : List SqlToken} (h : ∀ t ∈ ts, t.Kept) :
    (textOf ts).rdropWhile p = textOf (ts.rdropWhile (SqlToken.is p)) := by
  induction ts using List.reverseRecOn with
  | nil => rfl
  | append_singleton ts t ih =>
    obtain ⟨hts, ht⟩ := List.forall_mem_append.mp h
    replace ht := ht t (List.mem_singleton_self t)
    rw [textOf_append, textOf_cons, textOf_nil, List.append_nil]
    cases t with
    | char c =>
      by_cases hc : p c = true
      · rw [List.rdropWhile_concat_pos _ _ _ (show SqlToken.is p (.char c) = true from hc),
          ← ih hts]
        exact List.rdropWhile_concat_pos _ _ _ hc
      · rw [List.rdropWhile_concat_neg _ _ _ (show ¬ SqlToken.is p (.char c) = true from hc),
          textOf_append]
        exact List.rdropWhile_concat_neg _ _ _ hc
    | lineComment b => exact absurd ht.1 nofun
    | blockComment b => exact absurd ht.1 nofun
    | quoted q b =>
      have hnot : ¬ p q = true := by
        rw [hp q ht.2.1.1]
        exact Bool.false_ne_true
      have hlast := List.rdropWhile_concat_neg p (textOf ts ++ q :: b) q hnot
      rw [List.rdropWhile_concat_neg _ _ _ Bool.false_ne_true, textOf_append]
      simpa [SqlToken.text] using hlast

theorem blanked_blanked (t : SqlToken) : t.blanked.blanked = t.blanked := by
  cases t with
  | char c => rfl
  | lineComment b => rfl
  | blockComment b => rfl
  | quoted q b =>
    rw [SqlToken.blanked]
    split
    · next hq => exact if_pos hq
    · next hq => exact if_neg hq

theorem PlainTokens.exists_before {ts : List SqlToken} (h : PlainTokens ts) {t : SqlToken}
    (ht : t ∈ ts) : ∃ us, t.PlainBefore us := by
  induction ts with
  | nil => cases ht
  | cons u ts ih =>
    rcases List.mem_cons.mp ht with rfl | ht
    · exact ⟨ts, h.1⟩
    · exact ih h.2 ht

theorem kept_blanked {ts : List SqlToken} (h : Tokenized ts) (hplain : PlainTokens ts) :
    ∀ t ∈ ts.map SqlToken.blanked, t.Kept := by
  intro t ht
  obtain ⟨u, hu, rfl⟩ := List.mem_map.mp ht
  refine ⟨blanked_blanked u, blanking_blanked.wf (h.wf u hu), fun q body heq => ?_⟩
  obtain ⟨us, hbefore⟩ := hplain.exists_before hu
  cases u with
  | char c => cases heq
  | lineComment b => cases heq
  | blockComment b => cases heq
  | quoted q' b =>
    have hquoted := hbefore.2.2
    rw [SqlToken.blanked] at heq
    split at heq
    · rw [← (SqlToken.quoted.inj heq).2]
      exact List.not_mem_nil
    · next hlit =>
      rw [if_neg hlit] at hquoted
      rw [← (SqlToken.quoted.inj heq).2]
      exact hquoted.2

theorem Tokenized.isInfix {ts us : List SqlToken} (h : Tokenized ts) (hus : us <:+: ts) :
    Tokenized us :=
  ⟨fun t ht => h.wf t (hus.subset ht), h.chain.infix hus⟩

/-! ### Tokens that are plain after others go -/

theorem noPair_append_quote {q : Char} (hstar : q ≠ '*') (hslash : q ≠ '/') {x y : List Char} :
    NoPair '*' '/' (x ++ q :: y) ↔ NoPair '*' '/' x ∧ NoPair '*' '/' y := by
  rw [NoPair, List.isChain_append, List.isChain_cons]
  constructor
  · rintro ⟨hx, ⟨-, hy⟩, -⟩
    exact ⟨hx, hy⟩
  · rintro ⟨hx, hy⟩
    refine ⟨hx, ⟨fun _ _ hd => hstar hd.1, hy⟩, fun _ _ d hd hpair => hslash ?_⟩
    rw [← hpair.2]
    exact Option.some.inj hd

/-- No comment ends in the text when literals have gone if none ended before. -/
theorem noPair_blanked {ts : List SqlToken} (h : ∀ t ∈ ts, t.WF)
    (hpair : NoPair '*' '/' (textOf (ts.map SqlToken.lineBlanked))) :
    NoPair '*' '/' (textOf (ts.map SqlToken.blanked)) := by
  induction ts with
  | nil => exact .nil
  | cons t ts ih =>
    obtain ⟨ht, hts⟩ := List.forall_mem_cons.mp h
    rw [List.map_cons, textOf_cons] at hpair ⊢
    have hchain := List.isChain_append.mp hpair
    have hrest := ih hts hchain.2.1
    cases t with
    | char c =>
      refine List.isChain_append.mpr ⟨.singleton c, hrest, fun d hd e he hbad => ?_⟩
      obtain ⟨u, hu, hhead⟩ := head?_textOf_eq_some (he.trans (congrArg some hbad.2))
      rw [List.head?_map] at hu
      obtain ⟨v, hv, rfl⟩ := Option.map_eq_some_iff.mp hu
      -- what starts with a slash is a slash, since comments have gone
      have hslash : v = .char '/' := by
        cases v with
        | char c' => rw [Option.some.inj hhead]
        | lineComment b => exact absurd (Option.some.inj hhead) (by decide)
        | blockComment b => exact absurd (Option.some.inj hhead) (by decide)
        | quoted q b =>
          have hq := (hts _ (List.mem_of_mem_head? hv)).1
          have hne : q ≠ '/' := ne_of_isQuote hq (by decide)
          rw [SqlToken.blanked] at hhead
          split at hhead
          · exact absurd (Option.some.inj hhead) hne
          · exact absurd (Option.some.inj hhead) hne
      obtain ⟨ts', rfl⟩ := List.head?_eq_some_iff.mp hv
      rw [hslash] at hchain
      exact hchain.2.2 d hd '/' rfl ⟨hbad.1, rfl⟩
    | lineComment b => exact hrest.cons (by decide)
    | blockComment b => exact hrest.cons (by decide)
    | quoted q b =>
      have hstar : q ≠ '*' := ne_of_isQuote ht.1 (by decide)
      have hslash : q ≠ '/' := ne_of_isQuote ht.1 (by decide)
      have hbody : NoPair '*' '/' b := by
        have htail : NoPair '*' '/' (b ++ [q]) := hchain.1.tail
        exact ((noPair_append_quote hstar hslash).mp htail).1
      have hmade : ∀ b', NoPair '*' '/' b' →
          NoPair '*' '/' ((SqlToken.quoted q b').text ++ textOf (ts.map SqlToken.blanked)) := by
        intro b' hb'
        rw [SqlToken.text, List.cons_append, List.append_assoc]
        exact ((noPair_append_quote hstar hslash).mpr ⟨hb', hrest⟩).cons hstar
      rw [SqlToken.blanked]
      split
      · exact hmade [] .nil
      · exact hmade b hbody

/-- There are no more quotes in the text when literals have gone. -/
theorem count_blanked_le (ts : List SqlToken) :
    (textOf (ts.map SqlToken.blanked)).count '\'' ≤
      (textOf (ts.map SqlToken.uncommented)).count '\'' := by
  induction ts with
  | nil => exact le_rfl
  | cons t ts ih =>
    rw [List.map_cons, List.map_cons, textOf_cons, textOf_cons, List.count_append,
      List.count_append]
    have hone : t.blanked.text.count '\'' ≤ t.uncommented.text.count '\'' := by
      cases t with
      | char c => exact le_rfl
      | lineComment b => exact le_rfl
      | blockComment b => exact le_rfl
      | quoted q b =>
        rw [SqlToken.blanked]
        split
        · simp only [SqlToken.uncommented, SqlToken.text, List.nil_append, List.count_cons,
            List.count_append, List.count_nil]
          omega
        · exact le_rfl
    omega

theorem lineBlanked_blanked (t : SqlToken) : t.blanked.lineBlanked = t.blanked := by
  cases t with
  | quoted q b =>
    rw [SqlToken.blanked]
    split <;> rfl
  | _ => rfl

theorem uncommented_blanked (t : SqlToken) : t.blanked.uncommented = t.blanked := by
  cases t with
  | quoted q b =>
    rw [SqlToken.blanked]
    split <;> rfl
  | _ => rfl

theorem plainTokens_blanked {ts : List SqlToken} (h : ∀ t ∈ ts, t.WF) (hplain : PlainTokens ts) :
    PlainTokens (ts.map SqlToken.blanked) := by
  induction ts with
  | nil => trivial
  | cons t ts ih =>
    obtain ⟨ht, hts⟩ := List.forall_mem_cons.mp h
    obtain ⟨hbefore, hplain⟩ := hplain
    have hline : (ts.map SqlToken.blanked).map SqlToken.lineBlanked =
        ts.map SqlToken.blanked := by
      rw [List.map_map]
      exact List.map_congr_left fun u _ => lineBlanked_blanked u
    have hcomments : (ts.map SqlToken.blanked).map SqlToken.uncommented =
        ts.map SqlToken.blanked := by
      rw [List.map_map]
      exact List.map_congr_left fun u _ => uncommented_blanked u
    refine ⟨?_, ih hts hplain⟩
    cases t with
    | char c => trivial
    | lineComment b => trivial
    | blockComment b => trivial
    | quoted q b =>
      obtain ⟨hdash, hblock, hquoted⟩ := hbefore
      by_cases hlit : q = '\''
      · rw [SqlToken.blanked, if_pos hlit]
        exact ⟨.nil, .inl .nil, by rw [if_pos hlit]; rfl⟩
      · have hstar : q ≠ '*' := ne_of_isQuote ht.1 (by decide)
        have hslash : q ≠ '/' := ne_of_isQuote ht.1 (by decide)
        rw [if_neg hlit] at hquoted
        rw [SqlToken.blanked, if_neg hlit]
        refine ⟨hdash, hblock.imp_right fun hclose => ?_, ?_⟩
        · rw [noPair_append_quote hstar hslash] at hclose
          rw [hline]
          exact (noPair_append_quote hstar hslash).mpr ⟨hclose.1, noPair_blanked hts hclose.2⟩
        · rw [if_neg hlit, hcomments]
          refine ⟨hquoted.1.imp_right fun hone => ?_, hquoted.2⟩
          have hle := count_blanked_le ts
          rw [List.count_append] at hone ⊢
          omega

theorem PlainTokens.of_append {as ts : List SqlToken} (h : PlainTokens (as ++ ts)) :
    PlainTokens ts := by
  induction as with
  | nil => exact h
  | cons a as ih => exact ih h.2

theorem PlainTokens.left_of_append {ts bs : List SqlToken} (h : PlainTokens (ts ++ bs)) :
    PlainTokens ts := by
  induction ts with
  | nil => trivial
  | cons t ts ih =>
    obtain ⟨hbefore, h⟩ : t.PlainBefore (ts ++ bs) ∧ PlainTokens (ts ++ bs) := h
    refine ⟨?_, ih h⟩
    cases t with
    | char c => trivial
    | lineComment b => trivial
    | blockComment b => exact hbefore
    | quoted q b =>
      obtain ⟨hdash, hblock, hquoted⟩ := hbefore
      refine ⟨hdash, hblock.imp_right fun hclose => ?_, ?_⟩
      · rw [List.map_append, textOf_append, ← List.cons_append, ← List.append_assoc] at hclose
        exact List.IsChain.left_of_append hclose
      · split
        · next hlit => rwa [if_pos hlit] at hquoted
        · next hlit =>
          rw [if_neg hlit, List.map_append, textOf_append] at hquoted
          refine ⟨hquoted.1.imp_right fun hone => ?_, hquoted.2⟩
          rw [← List.append_assoc, List.count_append] at hone
          omega

theorem PlainTokens.isInfix {ts us : List SqlToken} (h : PlainTokens ts) (hus : us <:+: ts) :
    PlainTokens us := by
  obtain ⟨as, bs, rfl⟩ := hus
  exact h.left_of_append.of_append

theorem stripNoise_of_kept {ts : List SqlToken} (h : Tokenized ts) (hplain : PlainTokens ts)
    (hkept : ∀ t ∈ ts, t.Kept) : stripNoise (textOf ts) = textOf ts := by
  have hmap : ts.map SqlToken.blanked = ts := by
    conv_rhs => rw [← List.map_id ts]
    exact List.map_congr_left fun t ht => (hkept t ht).1
  rw [stripNoise_textOf h hplain, hmap]

/-! ### Ends -/

/-- What the classification cuts off at the ends. -/
def cutEnds {α : Type} (space semicolon : α → Bool) (l : List α) : List α :=
  ((((l.rdropWhile space).dropWhile space).rdropWhile semicolon).rdropWhile space).dropWhile space

theorem cutEnds_isInfix {α : Type} (space semicolon : α → Bool) (l : List α) :
    cutEnds space semicolon l <:+: l :=
  ((List.dropWhile_suffix _).isInfix.trans (List.rdropWhile_prefix _ _).isInfix).trans
    ((List.rdropWhile_prefix _ _).isInfix.trans
      ((List.dropWhile_suffix _).isInfix.trans (List.rdropWhile_prefix _ _).isInfix))

theorem mem_cutEnds_iff {α : Type} {space semicolon : α → Bool} {a : α} (ha : space a = false)
    (l : List α) : a ∈ cutEnds space semicolon l ↔
      a ∈ ((l.rdropWhile space).rdropWhile semicolon).rdropWhile space := by
  rw [cutEnds, mem_dropWhile_iff ha, ← List.dropWhile_rdropWhile_comm,
    ← List.dropWhile_rdropWhile_comm, mem_dropWhile_iff ha]

theorem cleanedStatement_toList (s : String) : (cleanedStatement s).toList =
    cutEnds isSpace (fun c => c = ';') (stripNoise s.toList) := by
  rw [cleanedStatement, strip_toList, rstripChar_toList, strip_toList, String.toList_ofList,
    cutEnds]

theorem textOf_cutEnds {ts : List SqlToken} (h : ∀ t ∈ ts, t.Kept) :
    cutEnds isSpace (fun c => c = ';') (textOf ts) =
      textOf (cutEnds (SqlToken.is isSpace) (SqlToken.is fun c => c = ';') ts) := by
  have hspace : ∀ c, isQuote c = true → isSpace c = false := fun c => not_isSpace_of_isQuote
  have hsemi : ∀ c, isQuote c = true → decide (c = ';') = false :=
    fun c => not_semicolon_of_isQuote
  have hr {p : SqlToken → Bool} {us : List SqlToken} (hus : ∀ t ∈ us, t.Kept) :
      ∀ t ∈ us.rdropWhile p, t.Kept :=
    fun t ht => hus t ((List.rdropWhile_prefix p us).subset ht)
  have hd {p : SqlToken → Bool} {us : List SqlToken} (hus : ∀ t ∈ us, t.Kept) :
      ∀ t ∈ us.dropWhile p, t.Kept :=
    fun t ht => hus t ((List.dropWhile_suffix p).subset ht)
  rw [cutEnds, textOf_rdropWhile hspace h, textOf_dropWhile hspace (hr h),
    textOf_rdropWhile hsemi (hd (hr h)), textOf_rdropWhile hspace (hr (hd (hr h))),
    textOf_dropWhile hspace (hr (hr (hd (hr h)))), cutEnds]

/-! ### Semicolons -/

theorem is_isSpace_blanked : SqlToken.is isSpace ∘ SqlToken.blanked = SqlToken.isTrivia := by
  funext t
  cases t with
  | char c => rfl
  | lineComment b => rfl
  | blockComment b => rfl
  | quoted q b =>
    rw [Function.comp_apply, SqlToken.blanked]
    split <;> rfl

theorem is_semicolon_blanked :
    (SqlToken.is fun c => c = ';') ∘ SqlToken.blanked = SqlToken.isSemicolon := by
  funext t
  cases t with
  | char c => simp [SqlToken.is, SqlToken.blanked, SqlToken.isSemicolon]
  | lineComment b => rfl
  | blockComment b => rfl
  | quoted q b =>
    rw [Function.comp_apply, SqlToken.blanked]
    split <;> rfl

theorem blanked_eq_semicolon {t : SqlToken} : t.blanked = .char ';' ↔ t = .char ';' := by
  cases t with
  | char c => rfl
  | lineComment b =>
    have hne : SqlToken.char ' ' ≠ .char ';' := by decide
    exact ⟨fun h => absurd h hne, nofun⟩
  | blockComment b =>
    have hne : SqlToken.char ' ' ≠ .char ';' := by decide
    exact ⟨fun h => absurd h hne, nofun⟩
  | quoted q b =>
    rw [SqlToken.blanked]
    split <;> exact ⟨nofun, nofun⟩

theorem semicolon_mem_textOf {ts : List SqlToken} (h : ∀ t ∈ ts, t.Kept) :
    ';' ∈ textOf ts ↔ .char ';' ∈ ts := by
  rw [textOf, List.mem_flatMap]
  constructor
  · rintro ⟨t, ht, hmem⟩
    obtain ⟨hblank, hwf, hsemi⟩ := h t ht
    cases t with
    | char c =>
      obtain rfl := List.mem_singleton.mp hmem
      exact ht
    | lineComment b => exact absurd hblank nofun
    | blockComment b => exact absurd hblank nofun
    | quoted q b =>
      have hq : q ≠ ';' := ne_of_isQuote hwf.1 (by decide)
      rw [SqlToken.text, List.mem_cons, List.mem_append, List.mem_singleton] at hmem
      rcases hmem with heq | hmem | heq
      · exact absurd heq.symm hq
      · exact absurd hmem (hsemi q b rfl)
      · exact absurd heq.symm hq
  · intro hmem
    exact ⟨_, hmem, List.mem_singleton_self _⟩

theorem semicolon_mem_cutEnds (ts : List SqlToken) :
    .char ';' ∈ cutEnds (SqlToken.is isSpace) (SqlToken.is fun c => c = ';')
      (ts.map SqlToken.blanked) ↔ .char ';' ∈ cutTokens ts := by
  have hspace : SqlToken.is isSpace (.char ';') = false := by decide
  rw [mem_cutEnds_iff hspace, List.rdropWhile_map, List.rdropWhile_map, List.rdropWhile_map,
    is_isSpace_blanked, is_semicolon_blanked, List.mem_map]
  constructor
  · rintro ⟨t, ht, heq⟩
    rwa [blanked_eq_semicolon.mp heq] at ht
  · intro hmem
    exact ⟨_, hmem, rfl⟩

theorem end_of_isSemicolon (t : SqlToken) (h : t.isSemicolon = true) :
    (t.isTrivia || t.isSemicolon) = true := by
  rw [h, Bool.or_true]

theorem rdropWhile_cutTokens (ts : List SqlToken) :
    (cutTokens ts).rdropWhile (fun t => t.isTrivia || t.isSemicolon) = statementTokens ts := by
  have htrivia : ∀ t : SqlToken, t.isTrivia = true → (t.isTrivia || t.isSemicolon) = true := by
    intro t ht
    rw [ht, Bool.true_or]
  rw [cutTokens, List.rdropWhile_rdropWhile_of_imp htrivia,
    List.rdropWhile_rdropWhile_of_imp end_of_isSemicolon,
    List.rdropWhile_rdropWhile_of_imp htrivia, statementTokens]

theorem statementTokens_subset (ts : List SqlToken) : statementTokens ts ⊆ cutTokens ts := by
  rw [← rdropWhile_cutTokens]
  exact (List.rdropWhile_prefix _ _).subset

/-- One round of semicolons is enough if it does not leave one at the end. -/
theorem mem_statementTokens {ts : List SqlToken} (hmem : .char ';' ∈ cutTokens ts)
    (h : (cutTokens ts).getLast? = some (.char ';') → .char ';' ∈ statementTokens ts) :
    .char ';' ∈ statementTokens ts := by
  have hne := List.ne_nil_of_mem hmem
  have hlast := List.getLast?_eq_some_getLast hne
  have hnot : SqlToken.isTrivia _ = false := List.not_of_getLast?_rdropWhile hlast
  by_cases hs : List.getLast _ hne = .char ';'
  · exact h (hlast.trans (congrArg some hs))
  · have hself : (cutTokens ts).rdropWhile (fun t => t.isTrivia || t.isSemicolon) =
        cutTokens ts := by
      rw [List.rdropWhile_eq_self_iff]
      intro _
      rw [hnot, SqlToken.isSemicolon, decide_eq_false hs]
      exact Bool.false_ne_true
    rwa [← rdropWhile_cutTokens, hself]

/-! ### Keywords -/

theorem isAsciiLetter_iff (c : Char) : isAsciiLetter c = true ↔
    (97 ≤ c.toNat ∧ c.toNat ≤ 122) ∨ (65 ≤ c.toNat ∧ c.toNat ≤ 90) := by
  simp only [isAsciiLetter, Bool.or_eq_true, Bool.and_eq_true, decide_eq_true_eq, Char.le_def,
    UInt32.le_iff_toNat_le]
  exact Iff.rfl

theorem isAsciiLetter_of_isSpace (c : Char) (h : isSpace c = true) : isAsciiLetter c = false := by
  rw [Bool.eq_false_iff, Ne, isAsciiLetter_iff]
  simp only [isSpace, Bool.or_eq_true, decide_eq_true_eq, List.mem_cons, List.not_mem_nil,
    or_false, Bool.and_eq_true] at h
  omega

theorem isAsciiLetter_of_word {c : Char} (h : ¬ (isAsciiAlnum c || decide (c = '_')) = true) :
    isAsciiLetter c = false := by
  rw [isAsciiAlnum, Bool.not_eq_true, Bool.or_eq_false_iff, Bool.or_eq_false_iff] at h
  exact h.1.1

theorem isAsciiLetter_of_toUpper {c : Char} (h : 65 ≤ c.toUpper.toNat ∧ c.toUpper.toNat ≤ 90) :
    isAsciiLetter c = true := by
  rw [isAsciiLetter_iff]
  by_cases hlow : 97 ≤ c.toNat ∧ c.toNat ≤ 122
  · exact .inl hlow
  · have hsame : c.toUpper = c := dif_neg hlow
    rw [hsame] at h
    exact .inr h

/-- A keyword that may be read is made of letters. -/
theorem letters_of_allowed {w : List Char} (h : upperText w ∈ allowedLeads) :
    w ≠ [] ∧ ∀ c ∈ w, isAsciiLetter c = true := by
  have hleads : allowedLeads.all (fun s => s.toList ≠ [] &&
      s.toList.all fun c => 65 ≤ c.toNat && c.toNat ≤ 90) = true := by decide
  have hword := List.all_eq_true.mp hleads _ h
  rw [Bool.and_eq_true, decide_eq_true_eq, List.all_eq_true, upperText,
    String.toList_ofList] at hword
  obtain ⟨hne, hletters⟩ := hword
  constructor
  · rintro rfl
    exact hne rfl
  · intro c hc
    have hrange := hletters _ (List.mem_map_of_mem hc)
    rw [Bool.and_eq_true, decide_eq_true_eq, decide_eq_true_eq] at hrange
    exact isAsciiLetter_of_toUpper hrange

theorem leadingKeyword_eq (l : List Char) :
    leadingKeyword l = upperText (letterRun (stripNoise l)) := by
  have hparen : ∀ c, decide (c = '(') = true → isAsciiLetter c = false := by
    intro c hc
    rw [of_decide_eq_true hc]
    decide
  have hrun := List.firstRun_dropWhile hparen ((stripNoise l).dropWhile isSpace)
  rw [List.firstRun_dropWhile isAsciiLetter_of_isSpace] at hrun
  exact congrArg upperText hrun

theorem letterRun_cutEnds (l : List Char) :
    letterRun (cutEnds isSpace (fun c => c = ';') l) = letterRun l := by
  have hsemi : ∀ c, decide (c = ';') = true → isAsciiLetter c = false := by
    intro c hc
    rw [of_decide_eq_true hc]
    decide
  have hspace := isAsciiLetter_of_isSpace
  rw [letterRun, cutEnds, List.firstRun_dropWhile hspace, List.firstRun_rdropWhile hspace,
    List.firstRun_rdropWhile hsemi, List.firstRun_dropWhile hspace,
    List.firstRun_rdropWhile hspace, letterRun]

/-- The text of tokens that are blanked goes on with their first word. -/
theorem textOf_wordOf {ts : List SqlToken} (h : ∀ t ∈ ts, t.WF) :
    ∃ rest, textOf (ts.map SqlToken.blanked) = wordOf ts ++ rest ∧
      ∀ c ∈ rest.head?, isAsciiLetter c = false := by
  induction ts with
  | nil => exact ⟨[], rfl, nofun⟩
  | cons t ts ih =>
    obtain ⟨ht, hts⟩ := List.forall_mem_cons.mp h
    have hstop : ∀ c cs, textOf ((t :: ts).map SqlToken.blanked) = c :: cs →
        isAsciiLetter c = false → ∃ rest, textOf ((t :: ts).map SqlToken.blanked) = [] ++ rest ∧
          ∀ d ∈ rest.head?, isAsciiLetter d = false := by
      intro c cs heq hc
      refine ⟨c :: cs, heq, fun d hd => ?_⟩
      rwa [← Option.some.inj hd]
    cases t with
    | char c =>
      rw [wordOf]
      split
      · obtain ⟨rest, heq, hrest⟩ := ih hts
        refine ⟨rest, ?_, hrest⟩
        rw [List.map_cons, textOf_cons, heq]
        rfl
      · next hc => exact hstop c _ rfl (isAsciiLetter_of_word hc)
    | lineComment b => exact hstop ' ' _ rfl (by decide)
    | blockComment b => exact hstop ' ' _ rfl (by decide)
    | quoted q b =>
      have hq : isAsciiLetter q = false :=
        not_of_isQuote (by decide) (by decide) (by decide) ht.1
      by_cases hlit : q = '\''
      · refine hstop q (q :: textOf (ts.map SqlToken.blanked)) ?_ hq
        rw [List.map_cons, textOf_cons, SqlToken.blanked, if_pos hlit]
        rfl
      · refine hstop q (b ++ [q] ++ textOf (ts.map SqlToken.blanked)) ?_ hq
        rw [List.map_cons, textOf_cons, SqlToken.blanked, if_neg hlit]
        rfl

/-- The first word is the first run of letters if it is made of letters. -/
theorem letterRun_of_firstWord {ts : List SqlToken} (h : Tokenized ts) (hne : firstWord ts ≠ [])
    (hall : ∀ c ∈ firstWord ts, isAsciiLetter c = true) :
    letterRun (textOf (ts.map SqlToken.blanked)) = firstWord ts := by
  let skips : SqlToken → Bool := fun t => t.isTrivia || t = .char '('
  have hfront : ∀ c ∈ textOf ((ts.takeWhile skips).map SqlToken.blanked),
      isAsciiLetter c = false := by
    intro c hc
    rw [textOf, List.mem_flatMap] at hc
    obtain ⟨u, hu, hc⟩ := hc
    obtain ⟨t, ht, rfl⟩ := List.mem_map.mp hu
    have hskip : skips t = true := List.mem_takeWhile_imp ht
    change (t.isTrivia || decide (t = .char '(')) = true at hskip
    cases t with
    | char d =>
      obtain rfl := List.mem_singleton.mp hc
      rw [Bool.or_eq_true, decide_eq_true_eq] at hskip
      rcases hskip with hspace | heq
      · exact isAsciiLetter_of_isSpace c hspace
      · obtain rfl := SqlToken.char.inj heq
        decide
    | lineComment b =>
      obtain rfl := List.mem_singleton.mp hc
      decide
    | blockComment b =>
      obtain rfl := List.mem_singleton.mp hc
      decide
    | quoted q b => exact absurd hskip Bool.false_ne_true
  have hwf : ∀ t ∈ ts.dropWhile skips, t.WF :=
    fun t ht => h.wf t ((List.dropWhile_suffix skips).subset ht)
  obtain ⟨rest, heq, hrest⟩ := textOf_wordOf hwf
  have hsplit : textOf (ts.map SqlToken.blanked) =
      textOf ((ts.takeWhile skips).map SqlToken.blanked) ++ (firstWord ts ++ rest) := by
    conv_lhs => rw [← List.takeWhile_append_dropWhile (p := skips) (l := ts)]
    rw [List.map_append, textOf_append, heq]
    rfl
  rw [letterRun, hsplit, List.firstRun_append_of_not hfront,
    List.firstRun_append_of_head? hne hall hrest]

/-! ### Which statements pass -/

/-- What the classification looks at, for plain tokens. -/
theorem classifyStatement_eq_none_iff {sql : String} {ts : List SqlToken}
    (hts : lexSql .code (strip sql).toList = some ts) (hplain : PlainTokens ts) :
    classifyStatement sql = none ↔ .char ';' ∉ cutTokens ts ∧
      upperText (letterRun (textOf (ts.map SqlToken.blanked))) ∈ allowedLeads := by
  obtain ⟨htext, htok⟩ := tokenized_of_lexSql hts
  have hkept := kept_blanked htok hplain
  have hclean : (cleanedStatement (strip sql)).toList = textOf (cutEnds (SqlToken.is isSpace)
      (SqlToken.is fun c => c = ';') (ts.map SqlToken.blanked)) := by
    rw [cleanedStatement_toList, htext, stripNoise_textOf htok hplain, textOf_cutEnds hkept]
  have hpart := cutEnds_isInfix (SqlToken.is isSpace) (SqlToken.is fun c => c = ';')
    (ts.map SqlToken.blanked)
  have hkept' : ∀ t ∈ cutEnds (SqlToken.is isSpace) (SqlToken.is fun c => c = ';')
      (ts.map SqlToken.blanked), t.Kept := fun t ht => hkept t (hpart.subset ht)
  have hsemi : (cleanedStatement (strip sql)).toList.contains ';' = true ↔
      .char ';' ∈ cutTokens ts := by
    rw [hclean, List.contains_iff_mem, semicolon_mem_textOf hkept', semicolon_mem_cutEnds]
  have hlead : leadingKeyword (cleanedStatement (strip sql)).toList =
      upperText (letterRun (textOf (ts.map SqlToken.blanked))) := by
    rw [leadingKeyword_eq, hclean,
      stripNoise_of_kept ((htok.map blanking_blanked).isInfix hpart)
        ((plainTokens_blanked htok.wf hplain).isInfix hpart) hkept',
      ← textOf_cutEnds hkept, letterRun_cutEnds]
  have hempty : strip sql = "" →
      upperText (letterRun (textOf (ts.map SqlToken.blanked))) ∉ allowedLeads := by
    intro hempty
    rw [hempty] at hts
    obtain rfl := Option.some.inj hts
    decide
  have hwrite : ∀ s ∈ allowedLeads, s ∉ writeLeads := by decide
  rw [classifyStatement]
  split
  · next he => exact ⟨nofun, fun hand => absurd hand.2 (hempty he)⟩
  · dsimp only
    rw [hlead]
    split
    · next hs => exact ⟨nofun, fun hand => absurd (hsemi.mp hs) hand.1⟩
    · next hs =>
      split
      · next hw => exact ⟨nofun, fun hand => absurd hw (hwrite _ hand.2)⟩
      · split
        · next hn => exact ⟨nofun, fun hand => absurd hand.2 hn⟩
        · next hn => exact ⟨fun _ => ⟨fun hm => hs (hsemi.mpr hm), not_not.mp hn⟩, fun _ => rfl⟩

theorem readStatement_iff {sql : String} {ts : List SqlToken}
    (hts : lexSql .code (strip sql).toList = some ts) :
    ReadStatement sql ↔ .char ';' ∉ statementTokens ts ∧
      upperText (firstWord ts) ∈ allowedLeads := by
  constructor
  · rintro ⟨ts', hts', h⟩
    obtain rfl : ts' = ts := Option.some.inj (hts'.symm.trans hts)
    exact h
  · intro h
    exact ⟨ts, hts, h⟩

end NextRole
